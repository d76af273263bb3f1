import ResearchGateway.JobInvariant

/-! The five counters of a job's usage.

A charge reads all five counters and writes all five back. `CounterIs` is what a
reader of the dictionary sees; a charge adds its amounts to what is there, each
clamped at zero (`chargedUsage_counter`). The only other writer of a usage
dictionary is a completion (`Effect.usage`). -/
namespace ResearchGateway
open Library

def usageOf (job : ResearchJob) : Dict := job.usage.getD ∅

/-- `usage.get(key, 0) == n`. -/
def CounterIs (usage : Dict) (c : Counter) (n : Int) : Prop :=
  match usage.lookup c.key with
  | none => n = 0
  | some value => value.equalsInt n = true

instance (usage : Dict) (c : Counter) (n : Int) : Decidable (CounterIs usage c n) :=
  match h : usage.lookup c.key with
  | none => decidable_of_iff (n = 0) (by simp [CounterIs, h])
  | some value => decidable_of_iff (value.equalsInt n = true) (by simp [CounterIs, h])

theorem Counter.key_injective {c d : Counter} (h : c.key = d.key) : c = d := by
  cases c <;> cases d <;> first | rfl | exact absurd h (by decide)

theorem Counter.mem_all (c : Counter) : c ∈ Counter.all := by
  cases c <;> decide

/-! ### Reading a counter -/

theorem Json.equalsInt_unique {v : Json} {n m : Int} (hn : v.equalsInt n = true)
    (hm : v.equalsInt m = true) : n = m := by
  cases v with
  | bool b => exact (eq_of_beq hn).symm.trans (eq_of_beq hm)
  | int k => exact (eq_of_beq hn).symm.trans (eq_of_beq hm)
  | float q => exact_mod_cast (eq_of_beq hn).symm.trans (eq_of_beq hm)
  | null | str | arr | obj => cases hn

/-- A value that equals an integer is read as that integer. -/
theorem Json.toInt?_of_equalsInt {v : Json} {n : Int} (h : v.equalsInt n = true) :
    v.toInt? = some n := by
  cases v with
  | bool b => exact congrArg some (eq_of_beq h)
  | int k => exact congrArg some (eq_of_beq h)
  | float q =>
    obtain rfl : q = (n : Rat) := eq_of_beq h
    show some ((n : Rat).num.tdiv (n : Rat).den) = some n
    simp
  | null | str | arr | obj => cases h

section
variable {usage usage' : Dict} {c : Counter} {n m : Int}

theorem CounterIs.unique (hn : CounterIs usage c n) (hm : CounterIs usage c m) : n = m := by
  unfold CounterIs at hn hm
  cases hu : usage.lookup c.key with
  | none =>
    rw [hu] at hn hm
    exact hn.trans hm.symm
  | some value =>
    rw [hu] at hn hm
    exact Json.equalsInt_unique hn hm

theorem CounterIs.usageInt? (h : CounterIs usage c n) : usageInt? usage c.key = some n := by
  unfold CounterIs at h
  unfold ResearchGateway.usageInt?
  cases hu : usage.lookup c.key with
  | none =>
    rw [hu] at h
    exact congrArg some h.symm
  | some value =>
    rw [hu] at h
    exact Json.toInt?_of_equalsInt h

theorem counterIs_empty : CounterIs ∅ c 0 := rfl

theorem counterIs_int (h : usage.lookup c.key = some (.int m)) : CounterIs usage c n ↔ m = n := by
  unfold CounterIs
  rw [h]
  exact beq_iff_eq

/-! ### Charging -/

theorem addUsage_some {charge : Charge} (h : addUsage charge usage c = some usage') :
    ∃ current, usageInt? usage c.key = some current ∧
      usage' = usage.insert c.key (.int (max 0 (current + charge.amount c))) := by
  unfold addUsage at h
  obtain ⟨current, hcurrent, rfl⟩ := Option.map_eq_some_iff.mp h
  exact ⟨current, hcurrent, rfl⟩

/-- Charging some counters in turn: each is written once, from its old value. -/
theorem foldlM_addUsage (charge : Charge) {cs : List Counter} (hn : cs.Nodup)
    (h : cs.foldlM (addUsage charge) usage = some usage') :
    (∀ c ∈ cs, ∃ current, usageInt? usage c.key = some current ∧
      usage'.lookup c.key = some (.int (max 0 (current + charge.amount c)))) ∧
    ∀ key, (∀ c ∈ cs, c.key ≠ key) → usage'.lookup key = usage.lookup key := by
  induction cs generalizing usage with
  | nil =>
    obtain rfl : usage = usage' := Option.some.inj h
    exact ⟨nofun, fun _ _ => rfl⟩
  | cons d rest ih =>
    obtain ⟨hd, hrest⟩ := List.nodup_cons.mp hn
    rw [List.foldlM_cons] at h
    obtain ⟨mid, hmid, hfold⟩ := Option.bind_eq_some_iff.mp h
    obtain ⟨current, hcurrent, rfl⟩ := addUsage_some hmid
    obtain ⟨hwritten, hkept⟩ := ih hrest hfold
    have hother {key : String} (hkey : d.key ≠ key) :
        (usage.insert d.key (.int (max 0 (current + charge.amount d)))).lookup key =
          usage.lookup key := AList.lookup_insert_ne hkey.symm
    refine ⟨fun c hc => ?_, fun key hkey => ?_⟩
    · rcases List.mem_cons.mp hc with rfl | hc
      · refine ⟨current, hcurrent, ?_⟩
        rw [hkept c.key fun x hx hxc => hd (Counter.key_injective hxc ▸ hx)]
        exact AList.lookup_insert ..
      · obtain ⟨cur, hcur, hlookup⟩ := hwritten c hc
        refine ⟨cur, ?_, hlookup⟩
        have hne : d.key ≠ c.key := fun hkey => hd (Counter.key_injective hkey ▸ hc)
        unfold ResearchGateway.usageInt? at hcur ⊢
        rwa [hother hne] at hcur
    · rw [hkept key fun c hc => hkey c (List.mem_cons_of_mem d hc)]
      exact hother (hkey d (List.mem_cons_self ..))

/-- A charge adds its amount to every counter, clamped at zero. -/
theorem chargedUsage_counter {charge : Charge} (h : chargedUsage charge usage = some usage')
    (c : Counter) : ∃ current, usageInt? usage c.key = some current ∧
      usage'.lookup c.key = some (.int (max 0 (current + charge.amount c))) :=
  (foldlM_addUsage charge (by decide) h).1 c c.mem_all

theorem CounterIs.charged {charge : Charge} (hn : CounterIs usage c n)
    (h : chargedUsage charge usage = some usage') :
    CounterIs usage' c m ↔ max 0 (n + charge.amount c) = m := by
  obtain ⟨current, hcurrent, hlookup⟩ := chargedUsage_counter h c
  obtain rfl : n = current := Option.some.inj (hn.usageInt?.symm.trans hcurrent)
  exact counterIs_int hlookup

/-! ### Completing -/

/-- A counter that the completion names is overwritten, any other is kept. -/
theorem counterIs_merged {job : ResearchJob} {completion : RunnerCompletion} :
    CounterIs (mergedUsage job completion) c n ↔
      match completion.usage.lookup c.key with
      | none => CounterIs (usageOf job) c n
      | some value => value.equalsInt n = true := by
  unfold CounterIs mergedUsage
  cases hc : completion.usage.lookup c.key with
  | none =>
    rw [AList.lookup_union_right (AList.lookup_eq_none.mp hc)]
    rfl
  | some value =>
    rw [AList.lookup_union_left (AList.lookup_isSome.mp (by rw [hc]; rfl)), hc]

end

/-- A usage dictionary is rewritten by a charge or by a completion. -/
theorem Effect.usage {H : Hashing} {op : Op} {acct : Account} {job : ResearchJob} {w : Write}
    (h : Effect H op acct job w) :
    (w.job.usage = job.usage ∧ acct.charge = {}) ∨
    (∃ usage, chargedUsage acct.charge (usageOf job) = some usage ∧ w.job.usage = some usage ∧
      w.job.state = job.state ∧ job.runnerTokenHash.isSome = true) ∨
    ∃ now completion result, op.completion? = some (job.id, now, completion, result) ∧
      job.state = .running ∧ w.job = succeededJob now completion result job ∧ acct.charge = {} := by
  cases h with
  | charged htoken husage => exact .inr (.inl ⟨_, husage, rfl, rfl, htoken⟩)
  | succeeded hst hop => exact .inr (.inr ⟨_, _, _, hop, hst, rfl, rfl⟩)
  | revoked =>
    exact .inl ⟨revokeToken_rule (P := fun after => after.usage = job.usage) rfl rfl, rfl⟩
  | _ => exact .inl ⟨rfl, rfl⟩

theorem Effect.budget {H : Hashing} {op : Op} {acct : Account} {job : ResearchJob} {w : Write}
    (h : Effect H op acct job w) : w.job.budget = job.budget := by
  cases h with
  | revoked => exact revokeToken_rule (P := fun after => after.budget = job.budget) rfl rfl
  | _ => rfl

/-! ### One operation -/

section
variable {H : Hashing} {op : Op} {acct : Account} {j : JobId} {s s' : Slice} {job job' : ResearchJob}

/-- What an operation on a job does to its usage. -/
theorem JobStep.usage (h : JobStep H op j acct s s') (hj : s.job = some job)
    (hj' : s'.job = some job') :
    (job'.usage = job.usage ∧ acct.charge = {}) ∨
    (∃ usage, chargedUsage acct.charge (usageOf job) = some usage ∧ job'.usage = some usage) ∨
    ∃ now completion result, op.completion? = some (j, now, completion, result) ∧
      job.state = .running ∧ job'.usage = some (mergedUsage job completion) ∧ acct.charge = {} := by
  cases h with
  | kept =>
    obtain rfl := Option.some.inj (hj.symm.trans hj')
    exact .inl ⟨rfl, rfl⟩
  | created => cases hj
  | written hid heffect =>
    obtain rfl := Option.some.inj hj
    obtain rfl := Option.some.inj hj'
    rcases heffect.usage with hkept | ⟨usage, hcharged, husage, -⟩ |
      ⟨now, completion, result, hop, hr, hjob, hfree⟩
    · exact .inl hkept
    · exact .inr (.inl ⟨usage, hcharged, husage⟩)
    · refine .inr (.inr ⟨now, completion, result, ?_, hr, by rw [hjob]; rfl, hfree⟩)
      rw [hop, hid]
  | pruned =>
    obtain rfl := Option.some.inj (hj.symm.trans hj')
    exact .inl ⟨rfl, rfl⟩
  | artifactDeleted =>
    obtain rfl := Option.some.inj (hj.symm.trans hj')
    exact .inl ⟨rfl, rfl⟩
  | orphaned =>
    obtain rfl := Option.some.inj hj
    obtain rfl := Option.some.inj hj'
    exact .inl ⟨rfl, rfl⟩
  | removed => cases hj'

/-- Only a job that is there before and after is charged. -/
theorem JobStep.uncharged (h : JobStep H op j acct s s') (hj : s.job = none ∨ s'.job = none) :
    acct.charge = {} := by
  cases h with
  | written =>
    rcases hj with hj | hj <;> cases hj
  | _ => rfl

theorem JobStep.usage_created (h : JobStep H op j acct s s') (hj : s.job = none)
    (hj' : s'.job = some job') : job'.usage = none := by
  cases h with
  | created =>
    obtain rfl := Option.some.inj hj'
    rfl
  | kept =>
    rw [hj] at hj'
    cases hj'
  | artifactDeleted =>
    simp only at hj hj'
    rw [hj] at hj'
    cases hj'
  | written | pruned | orphaned | removed => cases hj

end

end ResearchGateway
