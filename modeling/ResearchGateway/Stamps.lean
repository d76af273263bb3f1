import ResearchGateway.ControllerSteps
import ResearchGateway.Library.Within

/-! Every write to an open job leaves its time.

`updated_at` is what the stale-runner query and its reconciler go by. No method
changes the row of a job without setting it, so a row that still has the time it was
listed with is the row that was listed. A terminal job, whose token is revoked once
more, may keep its time. -/
namespace ResearchGateway
open Library

/-- Every row was there before, or has the time of the change, or is terminal. -/
def Stamped (now : Time) (db db' : Database) : Prop :=
  ∀ j job, db'.job? j = some job →
    db.job? j = some job ∨ job.updatedAt = now ∨ job.state.isTerminal = true

instance (now : Time) : IsPreorder Database (Stamped now) where
  refl _ _ _ h := .inl h
  trans a b c hab hbc j job hj := by
    rcases hbc j job hj with hb | hstamp
    · exact hab j job hb
    · exact .inr hstamp

section
variable {now : Time} {job : ResearchJob} {H : Hashing}

theorem stamped_save (h : job.updatedAt = now ∨ job.state.isTerminal = true) :
    Within (Stamped now) (save job) := by
  refine ⟨fun db _ db' hsave k row hrow => ?_⟩
  rw [ok_save hsave, Database.job?_putJob] at hrow
  split at hrow
  · obtain ⟨_, -, rfl⟩ := Option.map_eq_some_iff.mp hrow
    exact .inr h
  · exact .inl hrow

theorem stamped_append {at' : Time} (eventType : String) (data : Dict) :
    Within (Stamped now) (appendEventLocked at' job eventType data) := by
  refine ⟨fun db _ db' happ k row hrow => ?_⟩
  rw [(ok_append happ).2] at hrow
  exact .inl hrow

theorem stamped_runner (j : JobId) (token : String) :
    Within (Stamped now) (getForRunnerLocked H j token) := by
  refine ⟨fun db job db' h => ?_⟩
  rw [(ok_runner h).1]
  exact refl _

theorem stamped_user (j : JobId) (userId : String) :
    Within (Stamped now) (getForUserLocked j userId) := by
  refine ⟨fun db job db' h => ?_⟩
  rw [(ok_user h).1]
  exact refl _

/-- Saving a row with its time, an event and the answer. -/
theorem stamped_written {α : Type} (h : job.updatedAt = now ∨ job.state.isTerminal = true)
    (eventType : String) (data : Dict) (a : α) :
    Within (Stamped now) (do
      save job
      let _ ← appendEventLocked now job eventType data
      return a) :=
  .bind (stamped_save h) fun _ => .bind (stamped_append ..) fun _ => .pure a

theorem stamped_saved {α : Type} (h : job.updatedAt = now ∨ job.state.isTerminal = true) (a : α) :
    Within (Stamped now) (do save job; return a) := .bind (stamped_save h) fun _ => .pure a

/-! ### The methods -/

theorem createJob_stamped (id : JobId) (userId key : String) (request : CreateJobRequest) :
    Within (Stamped now) (createJob H now id userId key request) := by
  refine .bind .get fun db => ?_
  dsimp only
  split
  · exact .ite (fun _ => .throw _) fun _ => .pure _
  · refine .bind ?_ fun _ => .bind (stamped_append ..) fun _ => .pure _
    refine ⟨fun db _ db' h k row hrow => ?_⟩
    obtain ⟨_, _, hget, hinsert⟩ := ok_bind h
    obtain ⟨rfl, rfl⟩ := ok_get hget
    rcases ok_ite hinsert with ⟨-, hbad⟩ | ⟨-, hinsert⟩
    · exact (ok_throw hbad).elim
    · rcases ok_dite hinsert with ⟨hfresh, hinsert⟩ | ⟨-, hbad⟩
      · rcases ok_ite hinsert with ⟨-, hbad⟩ | ⟨-, hset⟩
        · exact (ok_throw hbad).elim
        · cases hset
          rw [Database.job?_addJob] at hrow
          split at hrow
          · obtain rfl := Option.some.inj hrow
            exact .inr (.inl (by rfl))
          · exact .inl hrow
      · exact (ok_throw hbad).elim

theorem claimNext_stamped (token : String) (limit lease : Nat) (locked : List JobId) :
    Within (Stamped now) (claimNext H now token limit lease locked) := by
  refine .bind .get fun db => .ite (fun _ => .pure _) fun _ => ?_
  split
  · exact .pure _
  · exact stamped_written (.inl (by rfl)) ..

theorem closeReconciled_updatedAt (now : Time) (job : ResearchJob) :
    (closeReconciled now job).updatedAt = now := rfl

theorem reconcileExpiredDispatch_stamped (dispatch : ExpiredDispatch) (action : DispatchAction)
    (lease : Nat) (error : String) :
    Within (Stamped now) (reconcileExpiredDispatch now dispatch action lease error) := by
  refine .bind .get fun db => ?_
  split
  · exact .pure _
  · refine .ite (fun _ => .pure _) fun _ => .ite (fun _ => ?_) fun _ => ?_
    · exact stamped_saved (.inl (by rfl)) _
    · exact stamped_written (.inl (closeReconciled_updatedAt ..)) ..

theorem reconcileStaleRunner_stamped (runner : StaleRunner) (action : StaleAction) (error : String) :
    Within (Stamped now) (reconcileStaleRunner now runner action error) := by
  refine .bind .get fun db => ?_
  split
  · exact .pure _
  · refine .ite (fun _ => .pure _) fun _ => .ite (fun _ => ?_) fun _ => ?_
    · exact stamped_saved (.inl (by rfl)) _
    · exact stamped_written (.inl (closeReconciled_updatedAt ..)) ..

theorem requestCancel_stamped (j : JobId) (userId : String) :
    Within (Stamped now) (requestCancel now j userId) := by
  refine .bind (stamped_user ..) fun job => .ite (fun _ => stamped_written (.inl (by rfl)) ..) fun _ =>
    .ite (fun _ => stamped_written (.inl (by rfl)) ..) fun _ => .ite (fun ht => ?_) fun _ => .pure _
  exact stamped_saved (.inr (by rw [revokeToken_state, ht])) _

theorem appendRunnerEvent_stamped (j : JobId) (token eventType : String) (data : Dict) :
    Within (Stamped now) (appendRunnerEvent H now j token eventType data) :=
  .bind (stamped_runner ..) fun _ => .ite (fun _ => .throw _) fun _ => .ite (fun _ => .throw _) fun _ =>
    .bind (stamped_save (.inl (by rfl))) fun _ => stamped_append ..

theorem heartbeat_stamped (j : JobId) (token : String) :
    Within (Stamped now) (heartbeat H now j token) :=
  .bind (stamped_runner ..) fun _ => .ite (fun _ => stamped_saved (.inl (by rfl)) _) fun _ => .throw _

theorem markStarted_stamped (j : JobId) (token : String) :
    Within (Stamped now) (markStarted H now j token) :=
  .bind (stamped_runner ..) fun _ => .ite (fun _ => .throw _) fun _ => .ite (fun _ => .pure _)
    fun _ => .ite (fun _ => stamped_written (.inl (by rfl)) ..) fun _ => .pure _

theorem markCancelled_stamped (j : JobId) (token : String) :
    Within (Stamped now) (markCancelled H now j token) := by
  refine .bind (stamped_runner ..) fun job => .ite (fun ht => ?_) fun _ =>
    .ite (fun _ => stamped_written (.inl (by rfl)) ..) fun _ => .throw _
  exact stamped_saved (.inr (by rw [revokeToken_state, ht]; rfl)) _

theorem markFailed_stamped (j : JobId) (token error : String) :
    Within (Stamped now) (markFailed H now j token error) := by
  refine .bind (stamped_runner ..) fun job => .ite (fun ht => ?_) fun _ => .ite (fun _ => .ite (fun _ =>
    stamped_written (.inl (by rfl)) ..) fun _ => .throw _) fun _ => .throw _
  exact stamped_saved (.inr (by rw [revokeToken_state, ht]; rfl)) _

theorem markCompleted_stamped (j : JobId) (token : String) (completion : RunnerCompletion)
    (result : Dict) : Within (Stamped now) (markCompleted H now j token completion result) :=
  .bind (stamped_runner ..) fun _ => .ite (fun _ => markCancelled_stamped ..) fun _ =>
    .ite (fun _ => .throw _) fun _ => stamped_written (.inl (by rfl)) ..

theorem consumeUsage_stamped (j : JobId) (token : String) (charge : Charge) :
    Within (Stamped now) (consumeUsage H now j token charge) := by
  refine .bind (stamped_runner ..) fun job => ?_
  split
  · exact .throw _
  · refine .bind (stamped_save (.inl (by rfl))) fun _ => ?_
    split
    · exact .throw _
    · exact .pure _

theorem ensureActive_stamped (job : ResearchJob) : Within (Stamped now) (ensureActive job) :=
  .ite (fun _ => .throw _) fun _ => .pure _

theorem runnerSearch_stamped (j : JobId) (token : String) :
    Within (Stamped now) (runnerSearch H now j token) :=
  .bind (stamped_runner ..) fun _ => .bind (ensureActive_stamped _) fun _ =>
    .bind (consumeUsage_stamped ..) fun _ => .pure _

theorem runnerPublicSearch_stamped (j : JobId) (token : String) (enabled : Bool) :
    Within (Stamped now) (runnerPublicSearch H now j token enabled) := by
  refine .bind (stamped_runner ..) fun job => .bind (ensureActive_stamped _) fun _ =>
    .ite (fun _ => .throw _) fun _ => ?_
  split
  · exact .throw _
  · exact .ite (fun _ => .bind (markFailed_stamped ..) fun _ => .pure _)
      fun _ => .bind (consumeUsage_stamped ..) fun _ => .pure _

theorem chatAdmission_stamped (j : JobId) (token : String) (model : Option String)
    (estimated safety : Nat) :
    Within (Stamped now) (chatAdmission H now j token model estimated safety) := by
  refine .bind (stamped_runner ..) fun job => .bind (ensureActive_stamped _) fun _ => ?_
  dsimp only
  split
  · exact .throw _
  · exact .ite (fun _ => .bind (markFailed_stamped ..) fun _ => .pure _) fun _ => .pure _

theorem addArtifacts_stamped (j : JobId) (stored : List StoredObject) :
    Within (Stamped now) (addArtifacts now j stored) := by
  refine ⟨fun db _ db' h k row hrow => ?_⟩
  have hjobs := (addArtifacts_ok h).1
  rw [Database.job?, hjobs] at hrow
  exact .inl hrow

theorem completionCommit_stamped (j : JobId) (token : String) (completion : RunnerCompletion)
    (stored : List StoredObject) :
    Within (Stamped now) (completionCommit H now j token completion stored) :=
  .bind (stamped_runner ..) fun _ => .ite (fun _ => .throw _) fun _ =>
    .bind (markCompleted_stamped ..) fun _ => .bind (addArtifacts_stamped ..) fun _ => .pure _

end

/-! ### Operations -/

theorem transact_stamped (H : Hashing) {op : Op} {now : Time} (h : op.stamped now = op)
    (hop : op.isRetention = false) : Within (Stamped now) (transact H op) := by
  rw [← h]
  cases op with
  | createJob => exact .bind (createJob_stamped ..) fun _ => .pure _
  | claimNext => exact .bind (claimNext_stamped ..) fun _ => .pure _
  | reconcileExpiredDispatch => exact .bind (reconcileExpiredDispatch_stamped ..) fun _ => .pure _
  | reconcileStaleRunner => exact .bind (reconcileStaleRunner_stamped ..) fun _ => .pure _
  | requestCancel => exact .bind (requestCancel_stamped ..) fun _ => .pure _
  | appendRunnerEvent => exact .bind (appendRunnerEvent_stamped ..) fun _ => .pure _
  | heartbeat => exact .bind (heartbeat_stamped ..) fun _ => .pure _
  | markStarted => exact .bind (markStarted_stamped ..) fun _ => .pure _
  | markCancelled => exact .bind (markCancelled_stamped ..) fun _ => .pure _
  | markFailed => exact .bind (markFailed_stamped ..) fun _ => .pure _
  | markCompleted => exact .bind (markCompleted_stamped ..) fun _ => .pure _
  | consumeUsage => exact .bind (consumeUsage_stamped ..) fun _ => .pure _
  | runnerSearch => exact .bind (runnerSearch_stamped ..) fun _ => .pure _
  | runnerPublicSearch => exact .bind (runnerPublicSearch_stamped ..) fun _ => .pure _
  | chatAdmission => exact .bind (chatAdmission_stamped ..) fun _ => .pure _
  | completionCommit => exact .bind (completionCommit_stamped ..) fun _ => .pure _
  | deleteArtifactRecord | deleteExpiredEvents | deleteExpiredJobs => cases hop

theorem step_stamped (H : Hashing) {op : Op} {now : Time} (h : op.stamped now = op)
    (hop : op.isRetention = false) (db : Database) : Stamped now db (step H op db) := by
  cases ht : transact H op db with
  | error e =>
    rw [step_of_error ht]
    exact refl db
  | ok p =>
    rw [step_of_ok ht]
    exact (transact_stamped H h hop).run db p.1 p.2 ht

theorem Op.stamped_stamped (op : Op) (now : Time) : (op.stamped now).stamped now = op.stamped now := by
  cases op <;> rfl

/-- An input acts at the time of the clock. -/
theorem ControllerInput.op?_stamped {settings : ControllerSettings} {i : ControllerInput}
    {w : ControllerSystem} {op : Op} (h : i.op? settings w = some op) : op.stamped w.clock = op := by
  cases i with
  | request op' hop =>
    obtain rfl := Option.some.inj h
    exact Op.stamped_stamped ..
  | turn replica s =>
    rcases ControllerPhase.op?_cases h with ⟨_, _, _, -, rfl⟩ | ⟨_, _, _, -, rfl⟩ | ⟨-, rfl⟩ |
      ⟨_, _, _, -, rfl⟩ <;> rfl
  | _ => cases h

end ResearchGateway
