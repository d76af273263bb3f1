import ResearchGateway.Settlement
import ResearchGateway.Usage

/-! The public-search allowance.

A public search is two things: a transaction that charges one search or fails the
job, and then, outside of any transaction, one query to SearXNG. Requests of any
number of runners are between the two at the same time, so the system is the
tables, the requests that were admitted and not yet forwarded, and the queries
forwarded so far. Each admitted request stands for one committed increment, and an
increment only happens below the limit, which bounds what is ever forwarded
(`search_ceiling`). -/
namespace ResearchGateway
open Library

structure SearchSystem where
  db : Database
  /-- Requests whose charge has committed and whose query is still to be sent. -/
  admitted : List JobId
  /-- Queries sent to SearXNG. -/
  forwarded : List JobId

inductive SearchInput where
  | transact (op : Op)
  | forward (jobId : JobId)

def SearchInput.creates (j : JobId) : SearchInput → Bool
  | .transact op => op.createdId = some j
  | .forward _ => false

/-- Only `runner_public_search` charges a search; a model call charges tokens. -/
def Op.chargesTokens : Op → Bool
  | consumeUsage _ _ _ charge => charge.searches = 0
  | _ => true

def SearchInput.allowed : SearchInput → Bool
  | .transact op => op.chargesTokens
  | .forward _ => true

section
variable (H : Hashing)

/-- The requests that leave a transaction on their way to SearXNG. -/
def admissionsOf (op : Op) (db : Database) : List JobId :=
  match op, (commit (transact H op) db).1 with
  | .runnerPublicSearch _ jobId _ _, .ok (.searched none) => [jobId]
  | _, _ => []

/-- The gateway and the queries it sends; the trace is what each transaction charged. -/
def searchSystem : Machine SearchSystem SearchInput (JobId → Charge) where
  next
    | .transact op, w => ⟨step H op w.db, w.admitted ++ admissionsOf H op w.db, w.forwarded⟩
    | .forward j, w =>
      if j ∈ w.admitted then ⟨w.db, w.admitted.erase j, w.forwarded ++ [j]⟩ else w
  out
    | .transact op, w => [chargeOf H op w.db]
    | .forward _, _ => []

def SearchSystem.initial : SearchSystem := ⟨.empty, [], []⟩

end

/-- The searches charged to a job along a trace. -/
def searchesCharged (charges : List (JobId → Charge)) (j : JobId) : Int :=
  (charges.map fun charge => (charge j).searches).sum

/-- The queries of a job that were sent or will be. -/
def SearchSystem.spent (w : SearchSystem) (j : JobId) : Nat := w.admitted.count j + w.forwarded.count j

/-! ### One transaction -/

section
variable {H : Hashing} {op : Op} {db : Database} {j : JobId}

/-- Each charged search is one admitted request. -/
theorem admissions_charged (hop : op.chargesTokens = true) :
    ((admissionsOf H op db).count j : Int) = (chargeOf H op db j).searches := by
  unfold admissionsOf chargeOf
  cases hresult : (commit (transact H op) db).1 with
  | error e => cases op <;> rfl
  | ok outcome =>
    cases op with
    | consumeUsage now jobId token charge =>
      have hzero : charge.searches = 0 := of_decide_eq_true hop
      show (0 : Int) = (if jobId = j then charge else {} : Charge).searches
      split
      · exact hzero.symm
      · rfl
    | runnerSearch now jobId token =>
      show (0 : Int) = (if jobId = j then {privateSearches := 1} else {} : Charge).searches
      split <;> rfl
    | runnerPublicSearch now jobId token enabled =>
      cases outcome with
      | searched limitFailure =>
        cases limitFailure with
        | none =>
          show (([jobId].count j : Nat) : Int) =
            (if jobId = j then {searches := 1} else {} : Charge).searches
          by_cases hj : jobId = j
          · simp [hj]
          · simp [hj]
        | some failed => rfl
      | done | claimed => rfl
    | _ => rfl

/-- A request is only admitted below the limit. -/
theorem admission_bounded (h : j ∈ admissionsOf H op db) :
    ∃ job current, db.job? j = some job ∧ job.state.isTerminal = false ∧
      usageInt? (usageOf job) Counter.searches.key = some current ∧ current < job.budget.maxQueries := by
  unfold admissionsOf at h
  split at h
  · next now jobId token enabled hresult =>
    obtain rfl := List.mem_singleton.mp h
    cases ht : transact H (.runnerPublicSearch now j token enabled) db with
    | error e =>
      rw [commit_error ht] at hresult
      cases hresult
    | ok p =>
      obtain ⟨outcome, db'⟩ := p
      rw [commit_ok ht] at hresult
      obtain ⟨limitFailure, _, hsearch, hret⟩ := ok_bind ht
      obtain ⟨rfl, rfl⟩ := ok_pure hret
      cases hresult
      have hcases : _ ∨ (_ ∧ Wrote H (.runnerPublicSearch now j token enabled) _ j db _ ∧ _) :=
        runnerPublicSearch_ok hsearch
      rcases hcases with ⟨hsome, -⟩ | ⟨-, -, hbelow⟩
      · cases hsome
      · exact hbelow
  · cases h

end

/-! ### The allowance of a row -/

/-- A row against the queries spent on it. -/
structure Metered (job : ResearchJob) (spent : Nat) : Prop where
  within : spent ≤ job.budget.maxQueries
  counted : job.state.isTerminal = false → CounterIs (usageOf job) .searches spent

section
variable {H : Hashing} {op : Op} {acct : Account} {j : JobId} {s s' : Slice} {job job' : ResearchJob}
  {w : Write} {spent more : Nat}

theorem Effect.metered (h : Effect H op acct job w) (hs : RowSound job) (hm : Metered job spent)
    (hcharge : acct.charge.searches = more)
    (hbelow : more ≠ 0 → job.state.isTerminal = false → spent + more ≤ job.budget.maxQueries) :
    Metered w.job (spent + more) := by
  rcases h.usage with ⟨husage, hnone⟩ | ⟨usage, hcharged, husage, hstate, htoken⟩ |
    ⟨now, completion, result, -, -, hjob, hnone⟩
  · rw [hnone] at hcharge
    have hzero : (0 : Int) = more := hcharge
    obtain rfl : more = 0 := by omega
    refine ⟨by rw [h.budget]; exact hm.within, fun hopen => ?_⟩
    rw [usageOf, husage]
    exact hm.counted (h.open_of_open hs hopen)
  · have hactive : job.state.isActive = true := hs.token.symm.trans htoken
    have hopen : job.state.isTerminal = false := by
      cases ht : job.state.isTerminal with
      | false => rfl
      | true => rw [JobState.not_active_of_terminal ht] at hactive; cases hactive
    refine ⟨?_, fun _ => ?_⟩
    · rw [h.budget]
      by_cases hzero : more = 0
      · rw [hzero]
        exact hm.within
      · exact hbelow hzero hopen
    · rw [usageOf, husage]
      refine ((hm.counted hopen).charged hcharged).mpr ?_
      show max 0 ((spent : Int) + acct.charge.searches) = _
      rw [hcharge]
      omega
  · rw [hnone] at hcharge
    have hzero : (0 : Int) = more := hcharge
    obtain rfl : more = 0 := by omega
    refine ⟨by rw [h.budget]; exact hm.within, fun hopen => ?_⟩
    rw [hjob] at hopen
    cases hopen

/-- A step of an existing job spends at most what is left. -/
theorem JobStep.metered (h : JobStep H op j acct s s') (hs : s.Sound) (hj : s.job = some job)
    (hj' : s'.job = some job') (hm : Metered job spent) (hcharge : acct.charge.searches = more)
    (hbelow : more ≠ 0 → job.state.isTerminal = false → spent + more ≤ job.budget.maxQueries) :
    Metered job' (spent + more) := by
  have hquiet (hzero : (0 : Int) = more) : spent + more = spent := by omega
  cases h with
  | kept =>
    obtain rfl := Option.some.inj (hj.symm.trans hj')
    rw [hquiet hcharge]
    exact hm
  | created => cases hj
  | written _ heffect =>
    obtain rfl := Option.some.inj hj
    obtain rfl := Option.some.inj hj'
    exact heffect.metered (hs.row _ rfl) hm hcharge hbelow
  | pruned =>
    obtain rfl := Option.some.inj (hj.symm.trans hj')
    rw [hquiet hcharge]
    exact hm
  | artifactDeleted =>
    obtain rfl := Option.some.inj (hj.symm.trans hj')
    rw [hquiet hcharge]
    exact hm
  | orphaned =>
    obtain rfl := Option.some.inj hj
    obtain rfl := Option.some.inj hj'
    rw [hquiet hcharge]
    exact ⟨hm.within, hm.counted⟩
  | removed => cases hj'

/-- A job that is not there is charged nothing; if it is there afterwards, it was created. -/
theorem JobStep.metered_absent (h : JobStep H op j acct s s') (hj : s.job = none) :
    acct.charge = {} ∧
      ∀ job', s'.job = some job' → op.createdId = some j ∧ Metered job' 0 := by
  cases h with
  | kept =>
    refine ⟨rfl, fun job' hj' => ?_⟩
    rw [hj] at hj'
    cases hj'
  | created hop =>
    refine ⟨rfl, fun job' hj' => ?_⟩
    obtain rfl := Option.some.inj hj'
    exact ⟨by rw [hop]; rfl, Nat.zero_le _, fun _ => counterIs_empty⟩
  | artifactDeleted =>
    refine ⟨rfl, fun job' hj' => ?_⟩
    simp only at hj hj'
    rw [hj] at hj'
    cases hj'
  | written | pruned | orphaned | removed => cases hj

/-- A transaction spends what it admits, within the limit. -/
theorem Metered.step {db : Database} (hm : Metered job spent) (hs : Sound db)
    (hj : db.job? j = some job) (hj' : (step H op db).job? j = some job')
    (hop : op.chargesTokens = true) : Metered job' (spent + (admissionsOf H op db).count j) := by
  refine (job_step H op db j).metered (hs j) hj hj' hm (admissions_charged hop).symm
    fun hne hopen => ?_
  have hmem : j ∈ admissionsOf H op db := List.count_pos_iff.mp (Nat.pos_of_ne_zero hne)
  obtain ⟨job₁, current, hj₁, -, hcurrent, hlt⟩ := admission_bounded hmem
  obtain rfl : job = job₁ := Option.some.inj (hj.symm.trans hj₁)
  have hsame : (spent : Int) = current :=
    Option.some.inj ((hm.counted hopen).usageInt?.symm.trans hcurrent)
  have hle : (admissionsOf H op db).count j ≤ 1 := by
    unfold admissionsOf
    split
    · exact List.count_le_length
    · exact Nat.zero_le 1
  omega

end

/-! ### Every run -/

/-- How many creations drew the identifier. -/
def creations (inputs : List SearchInput) (j : JobId) : Nat := inputs.countP (SearchInput.creates j)

/-- The system against its history, for one job. -/
structure Allowance (j : JobId) (w : SearchSystem) (inputs : List SearchInput)
    (charges : List (JobId → Charge)) : Prop where
  sound : Sound w.db
  balance : (w.spent j : Int) = searchesCharged charges j
  absent : creations inputs j = 0 → w.db.job? j = none ∧ w.spent j = 0
  metered : creations inputs j ≤ 1 → ∀ job, w.db.job? j = some job → Metered job (w.spent j)

section
variable {H : Hashing} {j : JobId} {w : SearchSystem} {inputs : List SearchInput}
  {charges : List (JobId → Charge)}

theorem creations_snoc (inputs : List SearchInput) (i : SearchInput) (j : JobId) :
    creations (inputs ++ [i]) j = creations inputs j + if i.creates j then 1 else 0 := by
  simp [creations, List.countP_append, List.countP_cons]

theorem Allowance.transact (h : Allowance j w inputs charges) {op : Op}
    (hop : op.chargesTokens = true) :
    Allowance j ⟨step H op w.db, w.admitted ++ admissionsOf H op w.db, w.forwarded⟩
      (inputs ++ [.transact op]) (charges ++ [chargeOf H op w.db]) := by
  obtain ⟨hs, hbalance, habsent, hmetered⟩ := h
  have hcharge : ((admissionsOf H op w.db).count j : Int) = _ := admissions_charged hop
  have hstep := job_step H op w.db j
  set more := (admissionsOf H op w.db).count j with hmore
  have hspent : SearchSystem.spent ⟨step H op w.db, w.admitted ++ admissionsOf H op w.db,
      w.forwarded⟩ j = w.spent j + more := by
    simp only [SearchSystem.spent, List.count_append]
    omega
  have hcount := creations_snoc inputs (.transact op) j
  refine ⟨step_sound H op hs, ?_, fun hzero => ?_, fun hone job' hj' => ?_⟩
  · rw [hspent]
    simp only [searchesCharged, List.map_append, List.sum_append, List.map_cons, List.map_nil,
      List.sum_cons, List.sum_nil] at hbalance ⊢
    omega
  · obtain ⟨hnone, hspent₀⟩ := habsent (by omega)
    obtain ⟨hfree, hcreated⟩ := hstep.metered_absent hnone
    have hquiet : (0 : Int) = more := by
      rw [hcharge]
      exact (congrArg Charge.searches hfree).symm
    refine ⟨?_, by omega⟩
    cases hj' : (step H op w.db).job? j with
    | none => rfl
    | some job' =>
      have hcreates : (SearchInput.transact op).creates j = true :=
        decide_eq_true (hcreated job' hj').1
      rw [hcreates, if_pos rfl] at hcount
      omega
  · rw [hspent]
    cases hj : w.db.job? j with
    | none =>
      obtain ⟨hfree, hcreated⟩ := hstep.metered_absent hj
      obtain ⟨hid, hnew⟩ := hcreated job' hj'
      have hquiet : (0 : Int) = more := by
        rw [hcharge]
        exact (congrArg Charge.searches hfree).symm
      have hcreates : (SearchInput.transact op).creates j = true := decide_eq_true hid
      rw [hcreates, if_pos rfl] at hcount
      have hspent₀ := (habsent (by omega)).2
      have hzero : w.spent j + more = 0 := by omega
      rw [hzero]
      exact hnew
    | some job =>
      have hm := hmetered (by omega) job hj
      exact hm.step hs hj hj' hop

theorem Allowance.forward (h : Allowance j w inputs charges) (k : JobId) :
    Allowance j (if k ∈ w.admitted then ⟨w.db, w.admitted.erase k, w.forwarded ++ [k]⟩ else w)
      (inputs ++ [.forward k]) charges := by
  obtain ⟨hs, hbalance, habsent, hmetered⟩ := h
  have hcount : creations (inputs ++ [.forward k]) j = creations inputs j := creations_snoc ..
  split
  · next hmem =>
    have hspent : SearchSystem.spent ⟨w.db, w.admitted.erase k, w.forwarded ++ [k]⟩ j = w.spent j := by
      simp only [SearchSystem.spent, List.count_append]
      by_cases hk : k = j
      · subst hk
        have hpos := List.count_pos_iff.mpr hmem
        rw [List.count_erase_self, List.count_singleton_self]
        omega
      · rw [List.count_erase_of_ne (Ne.symm hk), List.count_singleton, if_neg (by simpa using hk)]
        rfl
    refine ⟨hs, ?_, ?_, ?_⟩
    · rw [hspent]
      exact hbalance
    · rw [hspent, hcount]
      exact habsent
    · rw [hspent, hcount]
      exact hmetered
  · refine ⟨hs, hbalance, ?_, ?_⟩
    · rw [hcount]
      exact habsent
    · rw [hcount]
      exact hmetered

end

theorem allowance_run (H : Hashing) (inputs : List SearchInput)
    (hinputs : ∀ i ∈ inputs, i.allowed = true) (j : JobId) :
    Allowance j ((searchSystem H).run .initial inputs) inputs
      ((searchSystem H).trace .initial inputs) := by
  refine Machine.history (M := searchSystem H) (A := fun i => i.allowed = true) ?_
    ⟨empty_sound, rfl, fun _ => ⟨rfl, rfl⟩, fun _ job hj => by cases hj⟩ inputs hinputs
  rintro (op | k) w is charges hallowed h
  · exact h.transact hallowed
  · have hforward := h.forward k
    show Allowance j _ _ (charges ++ [])
    rw [List.append_nil]
    exact hforward

/-- The public-search allowance is a ceiling over the whole life of a job: what was
forwarded never exceeds the limit nor the increments committed before, the counter
shows these increments as long as the job is open, and no transaction lowers it. -/
theorem search_ceiling (H : Hashing) (inputs : List SearchInput)
    (hinputs : ∀ i ∈ inputs, i.allowed = true) (j : JobId) (hdrawn : creations inputs j ≤ 1)
    (job : ResearchJob) :
    let w := (searchSystem H).run .initial inputs
    let charged := searchesCharged ((searchSystem H).trace .initial inputs) j
    w.db.job? j = some job →
      w.forwarded.count j ≤ job.budget.maxQueries ∧ (w.forwarded.count j : Int) ≤ charged ∧
      (job.state.isTerminal = false → CounterIs (usageOf job) .searches charged) ∧
      ∀ (op : Op) job' n n', op.chargesTokens = true → (step H op w.db).job? j = some job' →
        job'.state.isTerminal = false → CounterIs (usageOf job) .searches n →
          CounterIs (usageOf job') .searches n' → n ≤ n' := by
  intro w charged hj
  have h : Allowance j w inputs _ := allowance_run H inputs hinputs j
  have hm := h.metered hdrawn job hj
  have hbalance : (w.spent j : Int) = charged := h.balance
  have hle : w.forwarded.count j ≤ w.spent j := Nat.le_add_left ..
  refine ⟨hle.trans hm.within, by omega, fun hopen => ?_, ?_⟩
  · rw [← hbalance]
    exact hm.counted hopen
  · intro op job' n n' hop hj' hopen' hn hn'
    have hopen := (job_step H op w.db j).open_of_open (h.sound j) hj hj' hopen'
    have hnext := (hm.step h.sound hj hj' hop).counted hopen'
    have hbefore := (hm.counted hopen).unique hn
    have hafter := hnext.unique hn'
    omega

/-- One search is left: the second request does not get through, and fails the job. -/
theorem search_ceiling_exhausted :
    let budget : ResearchBudget := {maxQueries := 1}
    let request := {Sample.request with budget := budget}
    let inputs : List SearchInput :=
      [.transact (.createJob 0 1 "user" "key" request), .transact (.claimNext 1 "token" 4 60 []),
        .transact (.runnerPublicSearch 2 1 "token" true),
        .transact (.runnerPublicSearch 3 1 "token" true), .forward 1, .forward 1]
    ∃ job, ((searchSystem Sample.hashing).run .initial inputs).db.job? 1 = some job ∧
      job.state = .failed ∧
      ((searchSystem Sample.hashing).run .initial inputs).forwarded.count 1 ≤ job.budget.maxQueries := by
  intro budget request inputs
  have hrow := (Option.some_get
    (show (((searchSystem Sample.hashing).run .initial inputs).db.job? 1).isSome by decide)).symm
  have hceiling := search_ceiling Sample.hashing inputs (by decide) 1 (by decide) _ hrow
  exact ⟨_, hrow, by decide, hceiling.1⟩

end ResearchGateway
