import ResearchGateway.ControllerSteps

/-! What the two reconcilers do to the row of a snapshot.

Each selects the row by its own `WHERE` and then leaves it as `dispatchWrite` or
`staleWrite` says; a row that is not selected is not touched. -/
namespace ResearchGateway
open Library

def dispatchWrite (now : Time) (action : DispatchAction) (leaseSeconds : Nat) (error : String)
    (job : ResearchJob) : Write :=
  if action = .renew then
    ⟨now, {job with dispatchLeaseExpiresAt := some (now + seconds leaseSeconds), updatedAt := now}, []⟩
  else
    ⟨now, closeReconciled now (settleDispatch now action error job).1,
      [(settleDispatch now action error job).2]⟩

def staleWrite (now : Time) (action : StaleAction) (error : String) (job : ResearchJob) : Write :=
  if action = .refresh then ⟨now, {job with updatedAt := now}, []⟩
  else
    ⟨now, closeReconciled now (settleStale now action error job).1,
      [(settleStale now action error job).2]⟩

section
variable {H : Hashing} {db : Database} {job : ResearchJob}

@[simp] theorem settleDispatch_id (now : Time) (action : DispatchAction) (error : String)
    (job : ResearchJob) : (settleDispatch now action error job).1.id = job.id := by
  unfold settleDispatch
  split
  · rfl
  · split <;> rfl

@[simp] theorem settleStale_id (now : Time) (action : StaleAction) (error : String)
    (job : ResearchJob) : (settleStale now action error job).1.id = job.id := by
  unfold settleStale
  split
  · rfl
  · split
    · split <;> rfl
    · rfl

@[simp] theorem closeReconciled_id (now : Time) (job : ResearchJob) :
    (closeReconciled now job).id = job.id := by
  unfold closeReconciled
  dsimp only
  split <;> rfl

@[simp] theorem closeReconciled_state (now : Time) (job : ResearchJob) :
    (closeReconciled now job).state = job.state := by
  unfold closeReconciled
  dsimp only
  split <;> rfl

@[simp] theorem dispatchWrite_id (now : Time) (action : DispatchAction) (lease : Nat) (error : String)
    (job : ResearchJob) : (dispatchWrite now action lease error job).job.id = job.id := by
  unfold dispatchWrite
  split <;> simp

@[simp] theorem staleWrite_id (now : Time) (action : StaleAction) (error : String)
    (job : ResearchJob) : (staleWrite now action error job).job.id = job.id := by
  unfold staleWrite
  split <;> simp

section
variable {now : Time} {dispatch : ExpiredDispatch} {action : DispatchAction} {lease : Nat}
  {error : String}

theorem reconcileExpiredDispatch_skipped
    (h : ∀ job, db.job? dispatch.id = some job → ¬ dispatchMatches dispatch job) :
    reconcileExpiredDispatch now dispatch action lease error db = .ok (false, db) := by
  simp only [reconcileExpiredDispatch, bind, StateT.bind, Except.bind, get, getThe,
    MonadStateOf.get, StateT.get, pure, Except.pure]
  cases hj : db.job? dispatch.id with
  | none => rfl
  | some job =>
    simp only [if_pos (h job hj)]
    rfl

theorem reconcileExpiredDispatch_selected (hj : db.job? dispatch.id = some job)
    (hm : dispatchMatches dispatch job) :
    reconcileExpiredDispatch now dispatch action lease error db =
      .ok (true, db.write (dispatchWrite now action lease error job)) := by
  simp only [reconcileExpiredDispatch, bind, StateT.bind, Except.bind, get, getThe,
    MonadStateOf.get, StateT.get, pure, Except.pure, hj, if_neg (not_not_intro hm)]
  unfold dispatchWrite
  split <;> rfl

/-- A row that the `WHERE` does not select stays as it is. -/
theorem step_dispatch_skipped
    (h : ∀ job, db.job? dispatch.id = some job → ¬ dispatchMatches dispatch job) :
    step H (.reconcileExpiredDispatch now dispatch action lease error) db = db := by
  rw [step_of_commit (t := reconcileExpiredDispatch now dispatch action lease error) rfl,
    commit_ok (reconcileExpiredDispatch_skipped h)]

theorem step_dispatch_selected (hj : db.job? dispatch.id = some job)
    (hm : dispatchMatches dispatch job) :
    step H (.reconcileExpiredDispatch now dispatch action lease error) db =
      db.write (dispatchWrite now action lease error job) := by
  rw [step_of_commit (t := reconcileExpiredDispatch now dispatch action lease error) rfl,
    commit_ok (reconcileExpiredDispatch_selected hj hm)]

end

section
variable {now : Time} {runner : StaleRunner} {action : StaleAction} {error : String}

theorem reconcileStaleRunner_skipped
    (h : ∀ job, db.job? runner.id = some job → ¬ staleMatches runner job) :
    reconcileStaleRunner now runner action error db = .ok (false, db) := by
  simp only [reconcileStaleRunner, bind, StateT.bind, Except.bind, get, getThe,
    MonadStateOf.get, StateT.get, pure, Except.pure]
  cases hj : db.job? runner.id with
  | none => rfl
  | some job =>
    simp only [if_pos (h job hj)]
    rfl

theorem reconcileStaleRunner_selected (hj : db.job? runner.id = some job)
    (hm : staleMatches runner job) :
    reconcileStaleRunner now runner action error db =
      .ok (true, db.write (staleWrite now action error job)) := by
  simp only [reconcileStaleRunner, bind, StateT.bind, Except.bind, get, getThe,
    MonadStateOf.get, StateT.get, pure, Except.pure, hj, if_neg (not_not_intro hm)]
  unfold staleWrite
  split <;> rfl

theorem step_stale_skipped (h : ∀ job, db.job? runner.id = some job → ¬ staleMatches runner job) :
    step H (.reconcileStaleRunner now runner action error) db = db := by
  rw [step_of_commit (t := reconcileStaleRunner now runner action error) rfl,
    commit_ok (reconcileStaleRunner_skipped h)]

theorem step_stale_selected (hj : db.job? runner.id = some job) (hm : staleMatches runner job) :
    step H (.reconcileStaleRunner now runner action error) db =
      db.write (staleWrite now action error job) := by
  rw [step_of_commit (t := reconcileStaleRunner now runner action error) rfl,
    commit_ok (reconcileStaleRunner_selected hj hm)]

end

/-- A stale runner goes back to the queue only by a retry. -/
theorem staleWrite_pending {now : Time} {action : StaleAction} {error : String}
    (hs : job.state = .running ∨ job.state = .cancelRequested)
    (h : (staleWrite now action error job).job.state = .pending) : action = .retry := by
  by_contra hne
  unfold staleWrite at h
  split at h
  · rcases hs with hs | hs <;> simp [hs] at h
  · simp only [closeReconciled_state, settleStale, if_neg hne] at h
    split at h <;> cases h

end

end ResearchGateway
