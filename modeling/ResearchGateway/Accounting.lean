import ResearchGateway.Usage

/-! Is the accounting exact?

The gateway charges a job in transactions that lock its row, so no charge is ever
lost to another. Two things can still move a counter away from what was charged: a
charge with a negative amount, which a provider's report may contain, is clamped or
lowers the counter, and a completion whose usage object names a counter overwrites
it. `accounting_exact_iff` says that nothing else can: a run keeps the accounts
exact if and only if none of its steps is one of the two. -/
namespace ResearchGateway
open Library

section
variable (H : Hashing)

/-- The completion that an operation commits for a job. -/
def completionOf (op : Op) (db : Database) (j : JobId) : Option RunnerCompletion :=
  match op.completion?, (commit (transact H op) db).1, db.job? j with
  | some (jobId, _, completion, _), .ok _, some job =>
    if jobId = j ∧ job.state = .running then some completion else none
  | _, _, _ => none

/-- The control plane, recording each creation of a job and what is charged to it. -/
def chargeHistory (j : JobId) : Machine Database Op (Option Charge) :=
  (controlPlane H).observing fun op db =>
    (if opens H op db j then [none] else []) ++ [some (chargeOf H op db j)]

/-- What the gateway has charged to a job since it was created. -/
def chargesSince (ops : List Op) (j : JobId) : List Charge :=
  Journal.since ((chargeHistory H j).trace .empty ops)

end

def total (charges : List Charge) (c : Counter) : Int := (charges.map fun charge => charge.amount c).sum

/-- The accounts of a job are exact all along a run. -/
structure Exact (H : Hashing) (ops : List Op) (j : JobId) : Prop where
  counted : ∀ before, before <+: ops → ∀ job, (after H before).job? j = some job →
    ∀ c, CounterIs (usageOf job) c (total (chargesSince H before j) c)
  grows : ∀ before op, before ++ [op] <+: ops → ∀ job job', (after H before).job? j = some job →
    (after H (before ++ [op])).job? j = some job' → ∀ c n n', CounterIs (usageOf job) c n →
      CounterIs (usageOf job') c n' → n ≤ n'
  completed : ∀ before op, before ++ [op] <+: ops →
    (completionOf H op (after H before) j).isSome = true →
    ∀ job job', (after H before).job? j = some job → (after H (before ++ [op])).job? j = some job' →
      ∀ c n, CounterIs (usageOf job) c n → CounterIs (usageOf job') c n

/-- The step charges no negative amount, and stores no completion that names a counter
with another value than the counter has. -/
structure Faithful (H : Hashing) (op : Op) (db : Database) (j : JobId) : Prop where
  charge : ∀ c, 0 ≤ (chargeOf H op db j).amount c
  completion : ∀ completion job, completionOf H op db j = some completion → db.job? j = some job →
    ∀ c value, completion.usage.lookup c.key = some value →
      ∃ n, CounterIs (usageOf job) c n ∧ value.equalsInt n = true

/-! ### The ledger -/

section
variable {H : Hashing} {op : Op} {db : Database} {j : JobId} {job job' : ResearchJob}

theorem total_append (a b : List Charge) (c : Counter) : total (a ++ b) c = total a c + total b c := by
  simp only [total, List.map_append, List.sum_append]

theorem total_singleton (charge : Charge) (c : Counter) : total [charge] c = charge.amount c := by
  simp only [total, List.map_cons, List.map_nil, List.sum_cons, List.sum_nil, add_zero]

theorem amount_zero (c : Counter) : ({} : Charge).amount c = 0 := by
  cases c <;> rfl

theorem chargesSince_snoc (H : Hashing) (ops : List Op) (op : Op) (j : JobId) :
    chargesSince H (ops ++ [op]) j =
      (if opens H op (after H ops) j then [] else chargesSince H ops j) ++
        [chargeOf H op (after H ops) j] := by
  have hrun : (chargeHistory H j).run .empty ops = after H ops := Machine.run_observing ..
  rw [chargesSince, Machine.trace_snoc, hrun]
  show Journal.since (_ ++ ((if opens H op (after H ops) j then [none] else []) ++
    [chargeOf H op (after H ops) j].map some)) = _
  rw [← List.append_assoc, Journal.since_append_some]
  split
  · rw [Journal.since_append_none]
  · rw [List.append_nil]
    rfl

/-- The charges of a job that exists go on. -/
theorem chargesSince_open {ops : List Op} (hj : (after H ops).job? j = some job) :
    chargesSince H (ops ++ [op]) j = chargesSince H ops j ++ [chargeOf H op (after H ops) j] := by
  rw [chargesSince_snoc, opens, hj, Option.isNone_some, Bool.false_and, if_neg Bool.false_ne_true]

/-- The charges of a job that was just created are none. -/
theorem chargesSince_created {ops : List Op} (hj : (after H ops).job? j = none)
    (hj' : (after H (ops ++ [op])).job? j = some job') : chargesSince H (ops ++ [op]) j = [{}] := by
  have hfree : chargeOf H op (after H ops) j = {} := (job_step H op (after H ops) j).uncharged (.inl hj)
  rw [after_snoc] at hj'
  rw [chargesSince_snoc, opens, hj, hj', hfree]
  rfl

/-! ### One step -/

/-- A committed completion charges nothing and merges its usage into the job's. -/
theorem completionOf_usage {completion : RunnerCompletion}
    (h : completionOf H op db j = some completion) (hj : db.job? j = some job) :
    chargeOf H op db j = {} ∧
      ∃ job', (step H op db).job? j = some job' ∧ job'.usage = some (mergedUsage job completion) := by
  have hid := Database.id_of_job? hj
  unfold completionOf at h
  rw [hj] at h
  cases ht : transact H op db with
  | error e =>
    rw [commit_error ht] at h
    cases hc : op.completion? with
    | none => rw [hc] at h; cases h
    | some p => rw [hc] at h; cases h
  | ok p =>
    obtain ⟨outcome, db'⟩ := p
    rw [commit_ok ht] at h
    rw [step_of_ok ht]
    have hfree (hquiet : op.charge outcome j = {}) : chargeOf H op db j = {} := by
      rw [chargeOf, commit_ok ht]
      exact hquiet
    cases op with
    | markCompleted now jobId token found result =>
      obtain ⟨⟨rfl, hr⟩, hfound⟩ := Option.ite_some_none_eq_some.mp h
      cases hfound
      obtain ⟨-, r, hcomplete⟩ := ok_done ht
      rw [markCompleted_running hj hr hcomplete]
      exact ⟨hfree rfl, _, Database.job?_write hj rfl, rfl⟩
    | completionCommit now jobId token found stored =>
      obtain ⟨⟨rfl, hr⟩, hfound⟩ := Option.ite_some_none_eq_some.mp h
      cases hfound
      obtain ⟨-, r, hcommit⟩ := ok_done ht
      obtain ⟨found', hj', -, hslice⟩ := completionCommit_slice hcommit
      obtain rfl : job = found' := Option.some.inj (hj.symm.trans hj')
      have hrow := (congrArg Slice.job (hslice jobId)).trans
        (Database.job?_write hj rfl)
      exact ⟨hfree rfl, _, hrow, rfl⟩
    | _ => cases h

/-- The step of a job: its usage stays, is charged, or takes in a completion. -/
theorem usage_step (hj : db.job? j = some job) (hj' : (step H op db).job? j = some job') :
    (job'.usage = job.usage ∧ chargeOf H op db j = {}) ∨
    (∃ usage, chargedUsage (chargeOf H op db j) (usageOf job) = some usage ∧
      job'.usage = some usage) ∨
    ∃ completion, completionOf H op db j = some completion ∧ chargeOf H op db j = {} ∧
      job'.usage = some (mergedUsage job completion) := by
  rcases (job_step H op db j).usage hj hj' with hkept | hcharged |
    ⟨now, completion, result, hop, hr, husage, hfree⟩
  · exact .inl hkept
  · exact .inr (.inl hcharged)
  · cases ht : transact H op db with
    | error e =>
      rw [step_of_error ht, hj] at hj'
      obtain rfl := Option.some.inj hj'
      exact .inl ⟨rfl, hfree⟩
    | ok p =>
      refine .inr (.inr ⟨completion, ?_, hfree, husage⟩)
      unfold completionOf
      rw [commit_ok ht, hop, hj]
      exact if_pos ⟨rfl, hr⟩

/-- A faithful step adds what it charges. -/
theorem Faithful.counts (h : Faithful H op db j) (hj : db.job? j = some job)
    (hj' : (step H op db).job? j = some job') {c : Counter} {n : Int} (hn : CounterIs (usageOf job) c n)
    (hpos : 0 ≤ n) : CounterIs (usageOf job') c (n + (chargeOf H op db j).amount c) := by
  rcases usage_step hj hj' with ⟨husage, hfree⟩ | ⟨usage, hcharged, husage⟩ |
    ⟨completion, hcompletion, hfree, husage⟩
  · rw [hfree, amount_zero, add_zero, usageOf, husage]
    exact hn
  · rw [usageOf, husage]
    refine (hn.charged hcharged).mpr ?_
    have := h.charge c
    omega
  · rw [hfree, amount_zero, add_zero, usageOf, husage]
    refine counterIs_merged.mpr ?_
    cases hvalue : completion.usage.lookup c.key with
    | none => exact hn
    | some value =>
      obtain ⟨m, hm, heq⟩ := h.completion completion job hcompletion hj c value hvalue
      obtain rfl := hn.unique hm
      exact heq

theorem Faithful.charge_total (h : Faithful H op db j) (c : Counter) :
    0 ≤ total [chargeOf H op db j] c := by
  rw [total_singleton]
  exact h.charge c

end

/-! ### Runs -/

section
variable {H : Hashing} {ops : List Op} {j : JobId}

/-- Every step of the run is faithful. -/
def AllFaithful (H : Hashing) (ops : List Op) (j : JobId) : Prop :=
  ∀ before op, before ++ [op] <+: ops → Faithful H op (after H before) j

/-- Faithful steps keep the ledger and the row in agreement. -/
theorem AllFaithful.counted (h : AllFaithful H ops j) {before : List Op} (hb : before <+: ops) :
    ∀ job, (after H before).job? j = some job → ∀ c,
      0 ≤ total (chargesSince H before j) c ∧
        CounterIs (usageOf job) c (total (chargesSince H before j) c) := by
  induction before using List.reverseRecOn with
  | nil =>
    intro job hj
    cases hj
  | append_singleton front op ih =>
    intro job' hj' c
    have hfaithful := h front op hb
    cases hj : (after H front).job? j with
    | none =>
      rw [chargesSince_created hj hj']
      rw [after_snoc] at hj'
      have hnew := (job_step H op (after H front) j).usage_created hj hj'
      have hzero : total [{}] c = 0 := (total_singleton {} c).trans (amount_zero c)
      rw [hzero, usageOf, hnew]
      exact ⟨Int.le_refl 0, counterIs_empty⟩
    | some job =>
      obtain ⟨hpos, hn⟩ := ih ((List.prefix_append ..).trans hb) job hj c
      rw [chargesSince_open hj, total_append]
      have hcharge := hfaithful.charge_total c
      refine ⟨by omega, ?_⟩
      rw [total_singleton]
      rw [after_snoc] at hj'
      exact hfaithful.counts hj hj' hn hpos

theorem AllFaithful.exact (h : AllFaithful H ops j) : Exact H ops j := by
  have hstep {before : List Op} {op : Op} (hb : before ++ [op] <+: ops) {job job' : ResearchJob}
      (hj : (after H before).job? j = some job) (hj' : (after H (before ++ [op])).job? j = some job')
      {c : Counter} {n : Int} (hn : CounterIs (usageOf job) c n) :
      CounterIs (usageOf job') c (n + (chargeOf H op (after H before) j).amount c) := by
    obtain ⟨hpos, hcounted⟩ := h.counted ((List.prefix_append ..).trans hb) job hj c
    obtain rfl := hn.unique hcounted
    rw [after_snoc] at hj'
    exact (h before op hb).counts hj hj' hn hpos
  refine ⟨fun before hb job hj c => (h.counted hb job hj c).2, ?_, ?_⟩
  · intro before op hb job job' hj hj' c n n' hn hn'
    have hcharge := (h before op hb).charge c
    have := (hstep hb hj hj' hn).unique hn'
    omega
  · intro before op hb hcompletion job job' hj hj' c n hn
    obtain ⟨completion, hcompletion⟩ := Option.isSome_iff_exists.mp hcompletion
    have hafter := hstep hb hj hj' hn
    rwa [(completionOf_usage hcompletion hj).1, amount_zero, add_zero] at hafter

/-- Exact accounts leave no room for a negative charge or an overwritten counter. -/
theorem Exact.faithful (h : Exact H ops j) : AllFaithful H ops j := by
  intro before op hb
  have hbefore := (List.prefix_append before [op]).trans hb
  refine ⟨fun c => ?_, fun completion job hcompletion hj c value hvalue => ?_⟩
  · have hfree (hnone : chargeOf H op (after H before) j = {}) :
        0 ≤ (chargeOf H op (after H before) j).amount c := by
      rw [hnone, amount_zero]
    cases hj : (after H before).job? j with
    | none => exact hfree ((job_step H op _ j).uncharged (.inl hj))
    | some job =>
      cases hj' : (step H op (after H before)).job? j with
      | none => exact hfree ((job_step H op _ j).uncharged (.inr hj'))
      | some job' =>
        rcases usage_step hj hj' with ⟨-, hnone⟩ | ⟨usage, hcharged, husage⟩ | ⟨_, -, hnone, -⟩
        · exact hfree hnone
        · have hn := h.counted before hbefore job hj c
          rw [← after_snoc] at hj'
          have hn' := h.counted _ hb job' hj' c
          have hgrows := h.grows before op hb job job' hj hj' c _ _ hn hn'
          rw [chargesSince_open hj, total_append, total_singleton] at hgrows
          omega
        · exact hfree hnone
  · obtain ⟨hfree, job', hj', husage⟩ := completionOf_usage hcompletion hj
    rw [← after_snoc] at hj'
    have hn := h.counted before hbefore job hj c
    have hn' := h.counted _ hb job' hj' c
    rw [chargesSince_open hj, total_append, total_singleton, hfree, amount_zero, add_zero, usageOf,
      husage] at hn'
    have hmerged := counterIs_merged.mp (show CounterIs (mergedUsage job completion) c _ from hn')
    rw [hvalue] at hmerged
    exact ⟨_, hn, hmerged⟩

end

/-- The accounts of a job are exact all along a run if and only if every step is
faithful: no negative charge, and no completion that names a counter with a value
that the counter does not have. -/
theorem accounting_exact_iff (H : Hashing) (ops : List Op) (j : JobId) :
    Exact H ops j ↔ ∀ before op, before ++ [op] <+: ops → Faithful H op (after H before) j :=
  ⟨Exact.faithful, AllFaithful.exact⟩

/-- A completion that says there was no search. -/
def Sample.overwriting : List Op :=
  started ++ [.runnerPublicSearch 3 1 "token" true,
    .completionCommit 4 1 "token" {reportMarkdown := "report", usage := record [("searches", .int 0)]}
      stored]

/-- One public search is charged, and the completion takes it back. -/
theorem accounting_overwritten : ¬ Exact Sample.hashing Sample.overwriting 1 := by
  intro h
  have hstored : (((after Sample.hashing Sample.overwriting).job? 1).any fun job =>
      CounterIs (usageOf job) .searches 0) = true := by decide +kernel
  have hcharged : total (chargesSince Sample.hashing Sample.overwriting 1) .searches = 1 := by
    decide +kernel
  obtain ⟨job, hj, hzero⟩ := (Option.any_eq_true _ _).mp hstored
  have hone := h.counted _ List.prefix_rfl job hj .searches
  rw [hcharged] at hone
  have hsame := (of_decide_eq_true hzero).unique hone
  exact absurd hsame (by decide)

end ResearchGateway
