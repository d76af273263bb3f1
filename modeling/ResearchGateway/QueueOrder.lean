import ResearchGateway.ControllerSteps
import ResearchGateway.Threads

/-! The order of the queue.

A claim takes the oldest pending job that no transaction has locked. Over a run this makes a
queue: a job that waits for its first runner is never overtaken by a younger one, and nothing
younger is claimed before a pending job whose row is free (`no_overtaking`). A job that is
requeued keeps its creation time, so it is ahead of all that wait for their first runner. -/
namespace ResearchGateway
open Library

/-- The job has had no runner yet. -/
structure Waits (job : ResearchJob) : Prop where
  pending : job.state = .pending
  fresh : job.attempt = 0

/-! ### One claim -/

section
variable {H : Hashing} {db db' : Database} {job : ResearchJob} {locked : List JobId}

theorem oldestPending?_le (h : oldestPending? db locked = some job) {other : ResearchJob} (hrow : other ∈ db.jobs.rows)
    (hpending : other.state = .pending) (hfree : other.id ∉ locked) : job.createdAt ≤ other.createdAt := by
  unfold oldestPending? at h
  obtain ⟨rest, hrest⟩ := List.head?_eq_some_iff.mp h
  have htotal : Std.Total fun a b : ResearchJob => a.createdAt ≤ b.createdAt := ⟨fun a b => Int.le_total ..⟩
  have htrans : IsTrans ResearchJob fun a b => a.createdAt ≤ b.createdAt := ⟨fun a b c => Int.le_trans⟩
  have hsorted : (job :: rest).Pairwise fun a b => a.createdAt ≤ b.createdAt := by
    rw [← hrest]
    exact List.pairwise_insertionSort ..
  have hmem : other ∈ job :: rest := by
    rw [← hrest, List.mem_insertionSort, List.mem_filter, decide_eq_true_eq]
    exact ⟨hrow, hpending, hfree⟩
  rcases List.mem_cons.mp hmem with rfl | hlater
  · exact Int.le_refl _
  · exact List.rel_of_pairwise_cons hsorted hlater

theorem claimNext_oldest {now : Time} {token : String} {limit lease : Nat} {claim : ClaimedJob}
    (h : claimNext H now token limit lease locked db = .ok (some claim, db')) :
    ∃ job, oldestPending? db locked = some job ∧ claim = ⟨job.id, token, job.attempt + 1⟩ := by
  obtain ⟨_, _, hget, hclaim⟩ := ok_bind h
  obtain ⟨rfl, rfl⟩ := ok_get hget
  rcases ok_ite hclaim with ⟨-, hnone⟩ | ⟨-, hclaim⟩
  · obtain ⟨hnone, -⟩ := ok_pure hnone
    cases hnone
  · cases hp : oldestPending? db locked with
    | none =>
      rw [hp] at hclaim
      obtain ⟨hnone, -⟩ := ok_pure hclaim
      cases hnone
    | some job =>
      rw [hp] at hclaim
      obtain ⟨hsome, -⟩ := ok_written hclaim
      exact ⟨job, rfl, (Option.some.inj hsome).symm⟩

/-- What is claimed was the oldest pending job. -/
theorem claimsOf_oldest {op : Op} {claim : ClaimedJob} (h : claim ∈ claimsOf H op db) :
    ∃ now token limit lease locked job, op = .claimNext now token limit lease locked ∧
      oldestPending? db locked = some job ∧ claim = ⟨job.id, token, job.attempt + 1⟩ := by
  by_cases hop : ∃ now token limit lease locked, op = .claimNext now token limit lease locked
  · obtain ⟨now, token, limit, lease, locked, rfl⟩ := hop
    unfold claimsOf at h
    cases hcommit : transact H (.claimNext now token limit lease locked) db with
    | error e =>
      rw [commit_error hcommit] at h
      cases h
    | ok result =>
      rw [commit_ok hcommit] at h
      obtain ⟨claim?, _, hclaim, hrest⟩ := ok_bind hcommit
      obtain ⟨houtcome, -⟩ := ok_pure hrest
      rw [← houtcome] at h
      cases claim? with
      | none => cases h
      | some claimed =>
        obtain rfl := List.mem_singleton.mp h
        obtain ⟨job, hjob, hclaimed⟩ := claimNext_oldest hclaim
        exact ⟨now, token, limit, lease, locked, job, rfl, hjob, hclaimed⟩
  · rw [claimsOf_other fun now token limit lease locked heq => hop ⟨now, token, limit, lease, locked, heq⟩] at h
    cases h

end

/-! ### What a step does to the queue -/

/-- A row after a step, as far as the queue goes. -/
structure Queued (acct : Account) (job after : ResearchJob) : Prop where
  createdAt : after.createdAt = job.createdAt
  waits : Waits after → Waits job
  attempted : (job.state.isActive = true → 1 ≤ job.attempt) → after.state.isActive = true → 1 ≤ after.attempt
  claimed : 1 ≤ after.attempt → 1 ≤ job.attempt ∨ acct.claims ≠ []

theorem Queued.same {acct : Account} {job after : ResearchJob} (hcreated : after.createdAt = job.createdAt)
    (hstate : after.state = job.state) (hattempt : after.attempt = job.attempt) : Queued acct job after where
  createdAt := hcreated
  waits := fun h => ⟨hstate ▸ h.pending, hattempt ▸ h.fresh⟩
  attempted := fun h hactive => by
    rw [hattempt]
    exact h (hstate ▸ hactive)
  claimed := fun h => .inl (hattempt ▸ h)

/-- An effect on an active job that has been attempted, or one that leaves it not waiting. -/
theorem Queued.moved {acct : Account} {job after : ResearchJob} (hcreated : after.createdAt = job.createdAt)
    (hattempt : after.attempt = job.attempt) (hwaits : after.state = .pending → 1 ≤ job.attempt)
    (hactive : after.state.isActive = true → job.state.isActive = true) : Queued acct job after where
  createdAt := hcreated
  waits := fun h => by
    have hzero := h.fresh
    have hone := hwaits h.pending
    omega
  attempted := fun h hafter => by
    rw [hattempt]
    exact h (hactive hafter)
  claimed := fun h => .inl (hattempt ▸ h)

section
variable {H : Hashing} {op : Op} {acct : Account} {job : ResearchJob} {w : Write} {db : Database} {j : JobId}

theorem Effect.queued (h : Effect H op acct job w) (hjob : job.state.isActive = true → 1 ≤ job.attempt) :
    Queued acct job w.job := by
  cases h with
  | dispatched hst =>
    refine ⟨rfl, fun h => ?_, fun _ _ => Nat.succ_pos _, fun _ => .inr (List.cons_ne_nil _ _)⟩
    cases h.pending
  | renewed | touched | progressed | charged => exact .same rfl rfl rfl
  | dispatchRequeued hst => exact .moved rfl rfl (fun _ => hjob (by rw [hst]; rfl)) fun h => by cases h
  | runnerRequeued hst => exact .moved rfl rfl (fun _ => hjob (by rw [hst]; rfl)) fun h => by cases h
  | started hst =>
    exact .moved rfl rfl (fun h => by cases h) fun _ => by rw [hst]; rfl
  | cancelRequested hst =>
    refine .moved rfl rfl (fun h => by cases h) fun _ => ?_
    rcases hst with hst | hst <;> rw [hst] <;> rfl
  | @closed _ _ after _ _ _ _ hst =>
    have hafter : after = .cancelled ∨ after = .failed := hst.imp And.left And.left
    refine .moved rfl rfl (fun h => ?_) fun h => ?_
    · rcases hafter with rfl | rfl <;> cases h
    · rcases hafter with rfl | rfl <;> cases h
  | succeeded hst =>
    exact .moved rfl rfl (fun h => by cases h) fun h => by cases h
  | revoked => exact revokeToken_rule (.same rfl rfl rfl) (.same rfl rfl rfl)

theorem JobStep.queued {s s' : Slice} {after : ResearchJob} (h : JobStep H op j acct s s') (hafter : s'.job = some after)
    (hattempted : ∀ job, s.job = some job → job.state.isActive = true → 1 ≤ job.attempt) :
    (∃ now userId key digest request parent, s.job = none ∧ op = .createJob now j userId key request ∧
      after = newJob j now userId key digest request parent) ∨
      ∃ job, s.job = some job ∧ Queued acct job after := by
  cases h with
  | kept => exact .inr ⟨after, hafter, .same rfl rfl rfl⟩
  | created hop =>
    obtain rfl := Option.some.inj hafter
    exact .inl ⟨_, _, _, _, _, _, rfl, hop, rfl⟩
  | written _ heffect =>
    obtain rfl := Option.some.inj hafter
    exact .inr ⟨_, rfl, heffect.queued (hattempted _ rfl)⟩
  | pruned =>
    obtain rfl := Option.some.inj hafter
    exact .inr ⟨_, rfl, .same rfl rfl rfl⟩
  | artifactDeleted => exact .inr ⟨after, hafter, .same rfl rfl rfl⟩
  | orphaned =>
    obtain rfl := Option.some.inj hafter
    exact .inr ⟨_, rfl, .same rfl rfl rfl⟩
  | removed => cases hafter

end

/-! ### Runs -/

/-- Who has had a runner is not younger than who waits for the first one. -/
structure InOrder (db : Database) (times : List Time) : Prop where
  attempted : ∀ j job, db.job? j = some job → job.state.isActive = true → 1 ≤ job.attempt
  ordered : ∀ i j a b, db.job? i = some a → db.job? j = some b → Waits a → 1 ≤ b.attempt → b.createdAt ≤ a.createdAt
  listed : ∀ j job, db.job? j = some job → job.createdAt ∈ times

/-- A claim passes over the row of the job because it is locked. -/
def PassesOver (op : Op) (j : JobId) : Prop :=
  ∃ now token limit lease locked, op = .claimNext now token limit lease locked ∧ j ∈ locked

/-- No claim passes over a job that waits for its first runner. -/
def SkipsNone (op : Op) (db : Database) : Prop := ∀ j job, db.job? j = some job → Waits job → ¬ PassesOver op j

section
variable {H : Hashing} {op : Op} {db : Database} {times : List Time}

/-- What is claimed is not younger than any pending job that the claim does not pass over. -/
theorem claimed_le {claim : ClaimedJob} (h : claim ∈ claimsOf H op db) {i : JobId} {a b : ResearchJob}
    (hi : db.job? i = some a) (hpending : a.state = .pending) (hfree : ¬ PassesOver op i)
    (hj : db.job? claim.id = some b) : b.createdAt ≤ a.createdAt := by
  obtain ⟨now, token, limit, lease, locked, job, rfl, hjob, rfl⟩ := claimsOf_oldest h
  have hb : db.job? job.id = some job := Database.job?_iff.mpr ⟨(oldestPending?_mem hjob).1, rfl⟩
  obtain rfl : job = b := Option.some.inj (hb.symm.trans hj)
  obtain ⟨hrow, rfl⟩ := Database.job?_iff.mp hi
  exact oldestPending?_le hjob hrow hpending fun hlocked => hfree ⟨_, _, _, _, _, rfl, hlocked⟩

theorem InOrder.step (h : InOrder db times) (hskip : SkipsNone op db)
    (htimes : (times ++ creationTime H op db).Pairwise (· ≤ ·)) :
    InOrder (step H op db) (times ++ creationTime H op db) := by
  have hcases (k : JobId) {after : ResearchJob} (hk : (ResearchGateway.step H op db).job? k = some after) :=
    (job_step H op db k).queued hk fun job hjob => h.attempted k job hjob
  have hcreated {k : JobId} {after : ResearchJob} (hk : (ResearchGateway.step H op db).job? k = some after)
      {now : Time} {userId key : String} {request : CreateJobRequest} (hnone : db.job? k = none)
      (hop : op = .createJob now k userId key request) : creationTime H op db = [now] := by
    have hopens : opens H op db k = true := by simp [opens, hnone, hk]
    subst hop
    exact if_pos hopens
  refine ⟨fun j after hj hactive => ?_, fun i j a b hi hj hwaits hattempt => ?_, fun j after hj => ?_⟩
  · rcases hcases j hj with ⟨now, userId, key, digest, request, parent, -, -, rfl⟩ | ⟨job, hjob, hqueued⟩
    · cases hactive
    · exact hqueued.attempted (h.attempted j job hjob) hactive
  · rcases hcases j hj with ⟨now, userId, key, digest, request, parent, -, -, rfl⟩ | ⟨b₀, hb, hbQueued⟩
    · cases hattempt
    rw [hbQueued.createdAt]
    rcases hcases i hi with ⟨now, userId, key, digest, request, parent, hnone, hop, rfl⟩ | ⟨a₀, ha, haQueued⟩
    · rw [hcreated hi hnone hop] at htimes
      exact (List.pairwise_append.mp htimes).2.2 _ (h.listed j b₀ hb) now (List.mem_singleton_self _)
    · rw [haQueued.createdAt]
      rcases hbQueued.claimed hattempt with hbefore | hclaims
      · exact h.ordered i j a₀ b₀ ha hb (haQueued.waits hwaits) hbefore
      · obtain ⟨claim, hclaim⟩ := List.exists_mem_of_ne_nil _ hclaims
        obtain ⟨hmem, hid⟩ := List.mem_filter.mp hclaim
        obtain rfl : claim.id = j := of_decide_eq_true hid
        have hwaits₀ := haQueued.waits hwaits
        exact claimed_le hmem ha hwaits₀.pending (hskip i a₀ ha hwaits₀) hb
  · rcases hcases j hj with ⟨now, userId, key, digest, request, parent, hnone, hop, rfl⟩ | ⟨job, hjob, hqueued⟩
    · rw [hcreated hj hnone hop]
      exact List.mem_append_right _ (List.mem_singleton_self now)
    · rw [hqueued.createdAt]
      exact List.mem_append_left _ (h.listed j job hjob)

theorem after_inOrder {ops : List Op} (hclock : (creationTimes H ops).Pairwise (· ≤ ·))
    (hskip : ∀ before op, before ++ [op] <+: ops → SkipsNone op (after H before)) :
    InOrder (after H ops) (creationTimes H ops) := by
  induction ops using List.reverseRecOn with
  | nil => exact ⟨fun _ _ h => (by cases h), fun _ _ _ _ h => (by cases h), fun _ _ h => (by cases h)⟩
  | append_singleton before op ih =>
    have htimes : creationTimes H (before ++ [op]) = creationTimes H before ++ creationTime H op (after H before) :=
      Machine.trace_observing_snoc ..
    rw [htimes] at hclock ⊢
    rw [after_snoc]
    exact (ih (List.pairwise_append.mp hclock).1 fun front op' hfront =>
      hskip front op' (hfront.trans (List.prefix_append ..))).step (hskip before op (List.prefix_refl _)) hclock

end

/-- Whatever users, runners, reconcilers and the retention do, no job that waits for its first
runner is overtaken: who has had a runner is no younger. And as long as a job is pending, for the
first time or again, nothing younger is claimed by a claim that does not pass over its row. -/
theorem no_overtaking (H : Hashing) (ops : List Op) (hclock : (creationTimes H ops).Pairwise (· ≤ ·))
    (hskip : ∀ before op, before ++ [op] <+: ops → SkipsNone op (after H before)) :
    (∀ i j a b, (after H ops).job? i = some a → (after H ops).job? j = some b → Waits a → 1 ≤ b.attempt →
        b.createdAt ≤ a.createdAt) ∧
      ∀ before op claim i a, before ++ [op] <+: ops → claim ∈ claimsOf H op (after H before) →
        (after H before).job? i = some a → a.state = .pending → ¬ PassesOver op i →
        ∃ b, (after H before).job? claim.id = some b ∧ b.createdAt ≤ a.createdAt := by
  refine ⟨(after_inOrder hclock hskip).ordered, fun before op claim i a hpre hclaim hi hpending hfree => ?_⟩
  obtain ⟨_, _, _, _, _, job, -, hjob, hid⟩ := claimsOf_oldest hclaim
  have hb : (after H before).job? claim.id = some job := by
    rw [hid]
    exact Database.job?_iff.mpr ⟨(oldestPending?_mem hjob).1, rfl⟩
  exact ⟨job, hb, claimed_le hclaim hi hpending hfree hb⟩

namespace Sample

/-- Two jobs; the older one is dispatched, requeued and dispatched again before the younger. -/
def queued : List Op :=
  [.createJob 0 1 "user" "key" request, .createJob 1 2 "user" "next" request, .claimNext 2 "token" 4 60 [],
    .reconcileExpiredDispatch 99 ⟨1, 1, .dispatched⟩ .requeue 60 "", .claimNext 100 "token" 4 60 []]

end Sample

theorem no_overtaking_queued : ∃ a b, (after Sample.hashing Sample.queued).job? 2 = some a ∧ Waits a ∧
    (after Sample.hashing Sample.queued).job? 1 = some b ∧ b.attempt = 2 ∧ b.createdAt ≤ a.createdAt := by
  have hwaiting : ((after Sample.hashing Sample.queued).job? 2).map (fun job => (job.state, job.attempt)) =
      some (.pending, 0) := by decide +kernel
  have hattempted : ((after Sample.hashing Sample.queued).job? 1).map ResearchJob.attempt = some 2 := by decide +kernel
  obtain ⟨a, ha, hstate⟩ := Option.map_eq_some_iff.mp hwaiting
  obtain ⟨b, hb, hattempt⟩ := Option.map_eq_some_iff.mp hattempted
  obtain ⟨hpending, hfresh⟩ := Prod.mk.inj hstate
  have hskip : ∀ before op, before ++ [op] <+: Sample.queued → SkipsNone op (after Sample.hashing before) := by
    rintro before op hpre j job - - ⟨now, token, limit, lease, locked, rfl, hj⟩
    have hmem : Op.claimNext now token limit lease locked ∈ Sample.queued := hpre.subset (by simp)
    simp only [Sample.queued, List.mem_cons, reduceCtorEq, Op.claimNext.injEq, List.not_mem_nil, or_false, false_or] at hmem
    rcases hmem with ⟨-, -, -, -, rfl⟩ | ⟨-, -, -, -, rfl⟩ <;> cases hj
  refine ⟨a, b, ha, ⟨hpending, hfresh⟩, hb, hattempt, ?_⟩
  exact (no_overtaking Sample.hashing Sample.queued (by decide +kernel) hskip).1 2 1 a b ha hb ⟨hpending, hfresh⟩ (by omega)

end ResearchGateway
