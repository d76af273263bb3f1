import ResearchGateway.Controller
import ResearchGateway.JobInvariant

/-! A step of the controller replicas is at most one operation.

`ControllerInput.op?` names it. Everything known about operations carries over to
the replicas through `controllers_db`, with one difference: only a replica that has
counted claims, and it may claim whatever the count would be by then. -/
namespace ResearchGateway
open Library

/-- The database after an operation, if there is one. -/
def Database.apply (db : Database) (H : Hashing) : Option Op → Database
  | none => db
  | some op => step H op db

/-- The operation that the next step of a replica is. A claim passes its count. -/
def ControllerPhase.op? (settings : ControllerSettings) (now : Time) (s : Surroundings)
    (db : Database) : ControllerPhase → Option Op
  | .settlingDispatch dispatch action _ => some
    (.reconcileExpiredDispatch now dispatch action settings.dispatchLeaseSeconds dispatchError)
  | .settlingRunner runner status _ => some
    (.reconcileStaleRunner now runner (staleAction settings runner) (staleError status))
  | .counted => some
    (.claimNext now s.runnerToken (activeCount db + 1) settings.dispatchLeaseSeconds s.locked)
  | .reporting claim error =>
    (Text.encode? ((dispatchFailure error).take 20000)).map fun error =>
      .markFailed now claim.id claim.runnerToken error
  | _ => none

/-- The four operations of a replica. -/
theorem ControllerPhase.op?_cases {settings : ControllerSettings} {now : Time} {s : Surroundings}
    {db : Database} {phase : ControllerPhase} {op : Op} (h : phase.op? settings now s db = some op) :
    (∃ dispatch action rest, phase = .settlingDispatch dispatch action rest ∧
      op = .reconcileExpiredDispatch now dispatch action settings.dispatchLeaseSeconds dispatchError) ∨
    (∃ runner status rest, phase = .settlingRunner runner status rest ∧
      op = .reconcileStaleRunner now runner (staleAction settings runner) (staleError status)) ∨
    (phase = .counted ∧
      op = .claimNext now s.runnerToken (activeCount db + 1) settings.dispatchLeaseSeconds s.locked) ∨
    ∃ claim error text, phase = .reporting claim error ∧
      op = .markFailed now claim.id claim.runnerToken text := by
  cases phase with
  | settlingDispatch dispatch action rest =>
    cases h
    exact .inl ⟨dispatch, action, rest, rfl, rfl⟩
  | settlingRunner runner status rest =>
    cases h
    exact .inr (.inl ⟨runner, status, rest, rfl, rfl⟩)
  | counted =>
    cases h
    exact .inr (.inr (.inl ⟨rfl, rfl⟩))
  | reporting claim error =>
    obtain ⟨text, -, rfl⟩ := Option.map_eq_some_iff.mp h
    exact .inr (.inr (.inr ⟨claim, error, text, rfl, rfl⟩))
  | _ => cases h

/-- The operation that an input is, in the state that takes it. -/
def ControllerInput.op? (settings : ControllerSettings) (w : ControllerSystem) :
    ControllerInput → Option Op
  | .request op _ => some (op.stamped w.clock)
  | .turn replica s => (w.phases replica).op? settings w.clock s w.db
  | _ => none

/-- The claims that an input commits. -/
def ControllerInput.claims (H : Hashing) (settings : ControllerSettings) (w : ControllerSystem)
    (i : ControllerInput) : List ClaimedJob :=
  match i.op? settings w with
  | none => []
  | some op => claimsOf H op w.db

/-- The dispatches that a replica has listed and not yet settled. -/
def ControllerPhase.dispatches : ControllerPhase → List ExpiredDispatch
  | .inspectingDispatches dispatches => dispatches
  | .stoppingDispatch dispatch rest | .settlingDispatch dispatch _ rest => dispatch :: rest
  | _ => []

/-- The runners that a replica has listed and not yet settled. -/
def ControllerPhase.runners : ControllerPhase → List StaleRunner
  | .inspectingRunners runners => runners
  | .stoppingRunner runner rest | .settlingRunner runner _ rest => runner :: rest
  | _ => []

/-! ### Phases -/

section
variable {H : Hashing} {settings : ControllerSettings} {now : Time} {leads : Bool} {s : Surroundings}
  {db : Database} {phase : ControllerPhase}

/-- Handling a failed dispatch ends a round or the loop. -/
theorem ControllerPhase.next_reporting (claim : ClaimedJob) (error : Text) :
    ((ControllerPhase.reporting claim error).next H settings now leads s db).2 = .checkingLease ∨
      ((ControllerPhase.reporting claim error).next H settings now leads s db).2 = .follower := by
  simp only [ControllerPhase.next]
  split
  · exact .inr rfl
  · split
    · exact .inl rfl
    · exact .inr rfl

/-- A replica has counted when it has just found room. -/
theorem ControllerPhase.next_counted (h : (phase.next H settings now leads s db).2 = .counted) :
    phase = .claiming ∧ activeCount db < settings.maxConcurrentJobs := by
  cases phase with
  | claiming =>
    simp only [ControllerPhase.next] at h
    split at h
    · cases h
    · exact ⟨rfl, by omega⟩
  | inspectingDispatches listed | inspectingRunners listed =>
    cases listed with
    | nil => cases h
    | cons first rest =>
      simp only [ControllerPhase.next] at h
      split at h
      · cases h
      · split at h <;> cases h
  | follower | listingDispatches | listingRunners => cases h
  | reporting claim error =>
    rcases @ControllerPhase.next_reporting H settings now leads s db claim error with hnext | hnext <;>
      rw [hnext] at h <;> cases h
  | _ =>
    simp only [ControllerPhase.next] at h
    split at h <;> cases h

/-- A replica works off the dispatches it listed, or lists the expired ones. -/
theorem ControllerPhase.next_dispatches :
    (phase.next H settings now leads s db).2.dispatches <:+ phase.dispatches ∨
      (phase = .listingDispatches ∧ (phase.next H settings now leads s db).2.dispatches =
        listExpiredDispatches db now settings.dispatchReconcileBatchSize) := by
  cases phase with
  | listingDispatches => exact .inr ⟨rfl, rfl⟩
  | inspectingDispatches dispatches =>
    refine .inl ?_
    cases dispatches with
    | nil => exact List.suffix_rfl
    | cons dispatch rest =>
      simp only [ControllerPhase.next]
      split
      · exact List.suffix_cons ..
      · split <;> exact List.suffix_rfl
  | stoppingDispatch dispatch rest =>
    refine .inl ?_
    simp only [ControllerPhase.next]
    split
    · exact List.suffix_rfl
    · exact List.suffix_cons ..
  | settlingDispatch dispatch action rest =>
    refine .inl ?_
    simp only [ControllerPhase.next]
    split
    · exact List.suffix_cons ..
    · exact List.nil_suffix
  | inspectingRunners runners =>
    refine .inl ?_
    cases runners with
    | nil => exact List.suffix_rfl
    | cons runner rest =>
      simp only [ControllerPhase.next]
      split
      · exact List.suffix_rfl
      · split <;> exact List.suffix_rfl
  | follower | listingRunners => exact .inl List.suffix_rfl
  | reporting claim error =>
    left
    rcases ControllerPhase.next_reporting claim error with hnext | hnext <;>
      exact hnext ▸ List.nil_suffix
  | _ =>
    refine .inl ?_
    simp only [ControllerPhase.next]
    split <;> exact List.suffix_rfl

/-- A replica works off the runners it listed, or lists the stale ones. -/
theorem ControllerPhase.next_runners :
    (phase.next H settings now leads s db).2.runners <:+ phase.runners ∨
      (phase = .listingRunners ∧ (phase.next H settings now leads s db).2.runners =
        listStaleRunners db now settings.runnerStaleSeconds settings.dispatchReconcileBatchSize) := by
  cases phase with
  | listingRunners => exact .inr ⟨rfl, rfl⟩
  | inspectingRunners runners =>
    refine .inl ?_
    cases runners with
    | nil => exact List.suffix_rfl
    | cons runner rest =>
      simp only [ControllerPhase.next]
      split
      · exact List.suffix_cons ..
      · split <;> exact List.suffix_rfl
  | stoppingRunner runner rest =>
    refine .inl ?_
    simp only [ControllerPhase.next]
    split
    · exact List.suffix_rfl
    · exact List.suffix_cons ..
  | settlingRunner runner status rest =>
    refine .inl ?_
    simp only [ControllerPhase.next]
    split
    · exact List.suffix_cons ..
    · exact List.nil_suffix
  | inspectingDispatches dispatches =>
    refine .inl ?_
    cases dispatches with
    | nil => exact List.suffix_rfl
    | cons dispatch rest =>
      simp only [ControllerPhase.next]
      split
      · exact List.suffix_rfl
      · split <;> exact List.suffix_rfl
  | follower | listingDispatches => exact .inl List.suffix_rfl
  | reporting claim error =>
    left
    rcases ControllerPhase.next_reporting claim error with hnext | hnext <;>
      exact hnext ▸ List.nil_suffix
  | _ =>
    refine .inl ?_
    simp only [ControllerPhase.next]
    split <;> exact List.suffix_rfl

end

section
variable {H : Hashing} {settings : ControllerSettings}

/-- The phase of a replica after an input: its own turn, the start or the end of its
loop, or no change. -/
theorem controllers_phase (i : ControllerInput) (w : ControllerSystem) (replica : Nat) :
    ((controllers H settings).next i w).phases replica = w.phases replica ∨
      ((controllers H settings).next i w).phases replica = .checkingLease ∨
      ((controllers H settings).next i w).phases replica = .follower ∨
      ∃ s, i = .turn replica s ∧ ((controllers H settings).next i w).phases replica =
        ((w.phases replica).next H settings w.clock (w.leader = some replica) s w.db).2 := by
  cases i with
  | tick | request | loseLock => exact .inl rfl
  | acquire q =>
    simp only [controllers, ControllerSystem.acquire]
    split
    · by_cases hq : replica = q
      · simp [hq]
      · exact .inl (Function.update_of_ne hq ..)
    · exact .inl rfl
  | abandon q =>
    by_cases hq : replica = q
    · simp [controllers, ControllerSystem.enter, hq]
    · exact .inl (Function.update_of_ne hq ..)
  | turn q s =>
    by_cases hq : replica = q
    · subst hq
      exact .inr (.inr (.inr ⟨s, rfl, Function.update_self ..⟩))
    · exact .inl (Function.update_of_ne hq ..)

end

/-! ### Operations -/

theorem Op.stamped_isRequest {op : Op} (h : op.isRequest = true) (now : Time) :
    (op.stamped now).isRequest = true := by
  cases op <;> first | rfl | cases h

theorem Op.isRetention_of_isRequest {op : Op} (h : op.isRequest = true) : op.isRetention = false := by
  cases op <;> first | rfl | cases h

section
variable {H : Hashing} {settings : ControllerSettings}

theorem claimNext_counted (now : Time) (token : String) (lease : Nat) (locked : List JobId)
    (db : Database) :
    claimNext H now token (activeCount db + 1) lease locked db =
      claimPending H now token lease locked db := claimNext_of_room (Nat.lt_succ_self _) ..

theorem step_counted (now : Time) (token : String) (lease : Nat) (locked : List JobId)
    (db : Database) :
    step H (.claimNext now token (activeCount db + 1) lease locked) db =
      (commit (claimPending H now token lease locked) db).2 := by
  rw [step_of_commit (t := claimNext H now token (activeCount db + 1) lease locked) rfl]
  simp [commit, claimNext_counted]

/-- What a turn of a replica does to the tables. -/
theorem ControllerPhase.next_db (phase : ControllerPhase) (now : Time) (leads : Bool)
    (s : Surroundings) (db : Database) :
    (phase.next H settings now leads s db).1 = db.apply H (phase.op? settings now s db) := by
  cases phase with
  | follower | checkingLease | listingDispatches | stoppingDispatch | listingRunners
  | stoppingRunner | claiming => rfl
  | inspectingDispatches dispatches =>
    cases dispatches with
    | nil => rfl
    | cons dispatch rest =>
      simp only [ControllerPhase.next]
      split
      · rfl
      · split <;> rfl
  | inspectingRunners runners =>
    cases runners with
    | nil => rfl
    | cons runner rest =>
      simp only [ControllerPhase.next]
      split
      · rfl
      · split <;> rfl
  | settlingDispatch dispatch action rest =>
    simp only [ControllerPhase.next, ControllerPhase.op?, Database.apply]
    rw [step_of_commit rfl]
    split <;> simp_all
  | settlingRunner runner status rest =>
    simp only [ControllerPhase.next, ControllerPhase.op?, Database.apply]
    rw [step_of_commit rfl]
    split <;> simp_all
  | counted =>
    simp only [ControllerPhase.next, ControllerPhase.op?, Database.apply, step_counted]
    split <;> simp_all
  | submitting claim =>
    simp only [ControllerPhase.next]
    split <;> rfl
  | reporting claim error =>
    simp only [ControllerPhase.next, ControllerPhase.op?]
    cases Text.encode? ((dispatchFailure error).take 20000) with
    | none => rfl
    | some error =>
      simp only [Option.map_some, Database.apply]
      rw [step_of_commit rfl]
      split <;> simp_all

/-- What an input does to the tables. -/
theorem controllers_db (i : ControllerInput) (w : ControllerSystem) :
    ((controllers H settings).next i w).db = w.db.apply H (i.op? settings w) := by
  cases i with
  | acquire replica =>
    show (w.acquire replica).db = w.db
    unfold ControllerSystem.acquire
    split <;> rfl
  | turn replica s => exact ControllerPhase.next_db ..
  | _ => rfl

/-- The clock only moves forward. -/
theorem controllers_clock (i : ControllerInput) (w : ControllerSystem) :
    w.clock ≤ ((controllers H settings).next i w).clock := by
  cases i with
  | tick microseconds => exact Int.le_add_of_nonneg_right (Int.natCast_nonneg _)
  | acquire replica =>
    show w.clock ≤ (w.acquire replica).clock
    unfold ControllerSystem.acquire
    split <;> exact Int.le_refl _
  | _ => exact Int.le_refl _

/-- The replicas delete nothing. -/
theorem ControllerInput.op?_kept {i : ControllerInput} {w : ControllerSystem} {op : Op}
    (h : i.op? settings w = some op) : op.isRetention = false := by
  cases i with
  | request op' hop =>
    cases h
    exact Op.isRetention_of_isRequest (Op.stamped_isRequest hop _)
  | turn replica s =>
    rcases ControllerPhase.op?_cases h with ⟨_, _, _, -, rfl⟩ | ⟨_, _, _, -, rfl⟩ | ⟨-, rfl⟩ |
      ⟨_, _, _, -, rfl⟩ <;> rfl
  | _ => cases h

theorem apply_sound {db : Database} (h : Sound db) (op? : Option Op) : Sound (db.apply H op?) := by
  cases op? with
  | none => exact h
  | some op => exact step_sound H op h

/-- The state after a list of inputs. -/
def controlled (H : Hashing) (settings : ControllerSettings) (inputs : List ControllerInput) :
    ControllerSystem := (controllers H settings).run .initial inputs

theorem controlled_snoc (inputs : List ControllerInput) (i : ControllerInput) :
    controlled H settings (inputs ++ [i]) =
      (controllers H settings).next i (controlled H settings inputs) := Machine.run_snoc ..

/-- The tables after one more input. -/
theorem controlled_db (inputs : List ControllerInput) (i : ControllerInput) :
    (controlled H settings (inputs ++ [i])).db =
      (controlled H settings inputs).db.apply H (i.op? settings (controlled H settings inputs)) := by
  rw [controlled_snoc, controllers_db]

theorem controlled_sound (inputs : List ControllerInput) :
    Sound (controlled H settings inputs).db := by
  refine Machine.run_invariant (M := controllers H settings) (A := fun _ => True)
    (P := fun w => Sound w.db) ?_ empty_sound inputs fun _ _ => trivial
  intro i w _ h
  rw [controllers_db]
  exact apply_sound h _

/-- Only `claim_next` hands out claims. -/
theorem claimsOf_other {op : Op} {db : Database}
    (h : ∀ now token limit lease locked, op ≠ .claimNext now token limit lease locked) :
    claimsOf H op db = [] := by
  unfold claimsOf
  cases ht : transact H op db with
  | error e => rw [commit_error ht]
  | ok p =>
    rw [commit_ok ht]
    cases op with
    | claimNext now token limit lease locked => exact absurd rfl (h now token limit lease locked)
    | createJob | reconcileExpiredDispatch | reconcileStaleRunner | requestCancel
    | deleteArtifactRecord | deleteExpiredEvents | deleteExpiredJobs =>
      obtain ⟨hdone, -⟩ := ok_done ht
      simp only [hdone, Outcome.claims]
    | _ => exact (runner_wrote rfl ht).1

/-- Only a replica that has counted claims. -/
theorem ControllerInput.counted_of_claims {i : ControllerInput} {w : ControllerSystem}
    (h : i.claims H settings w ≠ []) : ∃ replica s, i = .turn replica s ∧ w.phases replica = .counted := by
  cases i with
  | request op hop =>
    refine absurd (claimsOf_other fun now token limit lease locked heq => ?_) h
    have := Op.stamped_isRequest hop w.clock
    rw [heq] at this
    cases this
  | turn replica s =>
    refine ⟨replica, s, rfl, ?_⟩
    unfold ControllerInput.claims ControllerInput.op? at h
    cases hphase : w.phases replica with
    | counted => rfl
    | settlingDispatch | settlingRunner =>
      simp only [hphase, ControllerPhase.op?] at h
      exact absurd (claimsOf_other (by simp)) h
    | reporting claim error =>
      simp only [hphase, ControllerPhase.op?] at h
      cases hencode : Text.encode? ((dispatchFailure error).take 20000) with
      | none => simp [hencode] at h
      | some text =>
        simp only [hencode, Option.map_some] at h
        exact absurd (claimsOf_other (by simp)) h
    | _ => simp [hphase, ControllerPhase.op?] at h
  | _ => exact absurd rfl h

/-- With room, `claim_next` takes the head of the queue. -/
theorem claimsOf_claimNext {db : Database} {limit : Nat} (hroom : activeCount db < limit) (now : Time)
    (token : String) (lease : Nat) (locked : List JobId) :
    claimsOf H (.claimNext now token limit lease locked) db =
      ((oldestPending? db locked).map fun job => ⟨job.id, token, job.attempt + 1⟩).toList := by
  have hclaim : ∃ db', claimNext H now token limit lease locked db =
      .ok ((oldestPending? db locked).map fun job => ⟨job.id, token, job.attempt + 1⟩, db') := by
    rw [claimNext_of_room hroom]
    unfold claimPending
    rw [bind_ok (show (get : Transaction Database) db = .ok (db, db) from rfl)]
    cases oldestPending? db locked with
    | none => exact ⟨_, rfl⟩
    | some job => exact ⟨_, rfl⟩
  obtain ⟨db', hclaim⟩ := hclaim
  have htransact : transact H (.claimNext now token limit lease locked) db =
      .ok (.claimed ((oldestPending? db locked).map fun job => ⟨job.id, token, job.attempt + 1⟩), db') :=
    bind_ok hclaim
  unfold claimsOf
  rw [commit_ok htransact]
  cases oldestPending? db locked with
  | none => rfl
  | some job => rfl

/-- The row that an input dispatches: the head of the queue, when its replica has counted. -/
def ControllerInput.queueHead? (w : ControllerSystem) : ControllerInput → Option ResearchJob
  | .turn replica s =>
    match w.phases replica with
    | .counted => oldestPending? w.db s.locked
    | _ => none
  | _ => none

theorem ControllerInput.claims_head {i : ControllerInput} {w : ControllerSystem} {job : ResearchJob}
    (h : i.queueHead? w = some job) :
    ∃ token, i.claims H settings w = [⟨job.id, token, job.attempt + 1⟩] := by
  cases i with
  | turn replica s =>
    cases hphase : w.phases replica with
    | counted =>
      have hhead : oldestPending? w.db s.locked = some job := by
        simpa [ControllerInput.queueHead?, hphase] using h
      refine ⟨s.runnerToken, ?_⟩
      simp only [ControllerInput.claims, ControllerInput.op?, hphase, ControllerPhase.op?]
      rw [claimsOf_claimNext (Nat.lt_succ_self _), hhead]
      rfl
    | _ => simp [ControllerInput.queueHead?, hphase] at h
  | _ => cases h

theorem ControllerInput.claims_idle {i : ControllerInput} {w : ControllerSystem}
    (h : i.queueHead? w = none) : i.claims H settings w = [] := by
  by_contra hclaims
  obtain ⟨replica, s, rfl, hphase⟩ := counted_of_claims hclaims
  have hnone : oldestPending? w.db s.locked = none := by
    simpa [ControllerInput.queueHead?, hphase] using h
  refine hclaims ?_
  simp only [ControllerInput.claims, ControllerInput.op?, hphase, ControllerPhase.op?]
  rw [claimsOf_claimNext (Nat.lt_succ_self _), hnone]
  rfl

/-- The head of the queue is a pending row. -/
theorem ControllerInput.queueHead?_mem {i : ControllerInput} {w : ControllerSystem} {job : ResearchJob}
    (h : i.queueHead? w = some job) : job ∈ w.db.jobs.rows ∧ job.state = .pending := by
  cases i with
  | turn replica s =>
    cases hphase : w.phases replica with
    | counted => exact oldestPending?_mem (by simpa [ControllerInput.queueHead?, hphase] using h)
    | _ => simp [ControllerInput.queueHead?, hphase] at h
  | _ => cases h

end

end ResearchGateway
