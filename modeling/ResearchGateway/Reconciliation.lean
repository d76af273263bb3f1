import ResearchGateway.Snapshots
import ResearchGateway.WallTime

/-! Whether the reconcilers act on what is still so.

Both act on a snapshot and look at the row again. `reconcile_stale_runner` looks at
`updated_at`, so it only changes runners that are still as they were listed.
`reconcile_expired_dispatch` does not look at the lease, so a dispatch that another
replica has renewed is requeued, failed or cancelled all the same
(`reconciliation_iff`). And what `reconcile_stale_runner` leaves alone has been
stopped already: the executor is asked before the database (`stopped_given_up_iff`). -/
namespace ResearchGateway
open Library

/-! ### Changes -/

/-- A change that a reconciler makes, with its snapshot and the row it finds. -/
inductive Change where
  | dispatch (now : Time) (dispatch : ExpiredDispatch) (job : ResearchJob)
  | runner (now : Time) (runner : StaleRunner) (job : ResearchJob)

/-- The changes of an input: a reconciler that returns true. -/
def changesOf (settings : ControllerSettings) (i : ControllerInput) (w : ControllerSystem) :
    List Change :=
  match i with
  | .turn replica _ =>
    match w.phases replica with
    | .settlingDispatch dispatch action _ =>
      match (commit (reconcileExpiredDispatch w.clock dispatch action settings.dispatchLeaseSeconds
          dispatchError) w.db).1 with
      | .ok true => (w.db.job? dispatch.id).toList.map (.dispatch w.clock dispatch)
      | _ => []
    | .settlingRunner runner status _ =>
      match (commit (reconcileStaleRunner w.clock runner (staleAction settings runner)
          (staleError status)) w.db).1 with
      | .ok true => (w.db.job? runner.id).toList.map (.runner w.clock runner)
      | _ => []
    | _ => []
  | _ => []

/-- The job would be listed again, and nothing has happened to it since it was. -/
def Change.StillNeeded (settings : ControllerSettings) : Change → Prop
  | .dispatch now listed job => job.attempt = listed.attempt ∧ dispatchExpired now job = true
  | .runner now listed job =>
    AsListed listed job ∧ runnerStale (now - seconds settings.runnerStaleSeconds) job = true

instance (settings : ControllerSettings) : DecidablePred (Change.StillNeeded settings)
  | .dispatch .. => inferInstanceAs (Decidable (_ ∧ _))
  | .runner .. => inferInstanceAs (Decidable (_ ∧ _))

/-- No lease is running that the snapshot does not know of. -/
def Change.NotRenewed : Change → Prop
  | .dispatch now _ job => LeaseRanOut now job
  | .runner .. => True

instance : DecidablePred Change.NotRenewed
  | .dispatch now _ job => inferInstanceAs (Decidable (LeaseRanOut now job))
  | .runner .. => .isTrue trivial

section
variable (H : Hashing) (settings : ControllerSettings)

/-- The changes that the reconcilers make along a run. -/
def changes (inputs : List ControllerInput) : List Change :=
  ((controllers H settings).observing (changesOf settings)).trace .initial inputs

end

section
variable {H : Hashing} {settings : ControllerSettings}

theorem mem_changes {inputs : List ControllerInput} {change : Change} :
    change ∈ changes H settings inputs ↔ ∃ before i, before ++ [i] <+: inputs ∧
      change ∈ changesOf settings i (controlled H settings before) :=
  Machine.mem_trace_observing _

theorem reconcileExpiredDispatch_true {db : Database} {now : Time} {dispatch : ExpiredDispatch}
    {action : DispatchAction} {lease : Nat} {error : String} {job : ResearchJob}
    (h : (commit (reconcileExpiredDispatch now dispatch action lease error) db).1 = .ok true)
    (hj : db.job? dispatch.id = some job) : dispatchMatches dispatch job := by
  by_contra hm
  rw [commit_ok (reconcileExpiredDispatch_skipped fun found hfound =>
    Option.some.inj (hj.symm.trans hfound) ▸ hm)] at h
  cases h

theorem reconcileStaleRunner_true {db : Database} {now : Time} {runner : StaleRunner}
    {action : StaleAction} {error : String} {job : ResearchJob}
    (h : (commit (reconcileStaleRunner now runner action error) db).1 = .ok true)
    (hj : db.job? runner.id = some job) : staleMatches runner job := by
  by_contra hm
  rw [commit_ok (reconcileStaleRunner_skipped fun found hfound =>
    Option.some.inj (hj.symm.trans hfound) ▸ hm)] at h
  cases h

/-- What a change found: a row that its `WHERE` selects. -/
theorem changesOf_spec {i : ControllerInput} {w : ControllerSystem} {change : Change}
    (h : change ∈ changesOf settings i w) :
    (∃ replica s dispatch action rest job, i = .turn replica s ∧
        w.phases replica = .settlingDispatch dispatch action rest ∧
        w.db.job? dispatch.id = some job ∧ dispatchMatches dispatch job ∧
        change = .dispatch w.clock dispatch job) ∨
      ∃ replica s runner status rest job, i = .turn replica s ∧
        w.phases replica = .settlingRunner runner status rest ∧
        w.db.job? runner.id = some job ∧ staleMatches runner job ∧
        change = .runner w.clock runner job := by
  unfold changesOf at h
  split at h
  · next replica s =>
    split at h
    · next dispatch action rest hphase =>
      split at h
      · next htrue =>
        obtain ⟨job, hjob, rfl⟩ := List.mem_map.mp h
        have hj : w.db.job? dispatch.id = some job := Option.mem_toList.mp hjob
        exact .inl ⟨replica, s, dispatch, action, rest, job, rfl, hphase, hj,
          reconcileExpiredDispatch_true htrue hj, rfl⟩
      · cases h
    · next runner status rest hphase =>
      split at h
      · next htrue =>
        obtain ⟨job, hjob, rfl⟩ := List.mem_map.mp h
        have hj : w.db.job? runner.id = some job := Option.mem_toList.mp hjob
        exact .inr ⟨replica, s, runner, status, rest, job, rfl, hphase, hj,
          reconcileStaleRunner_true htrue hj, rfl⟩
      · cases h
    · cases h
  · cases h

/-- A runner that is changed is as it was listed, and still silent for too long. -/
theorem runner_still_needed (inputs : List ControllerInput) {replica : Nat} {runner : StaleRunner}
    {status : DispatchStatus} {rest : List StaleRunner} {job : ResearchJob}
    (hphase : (controlled H settings inputs).phases replica = .settlingRunner runner status rest)
    (hj : (controlled H settings inputs).db.job? runner.id = some job)
    (hm : staleMatches runner job) :
    (Change.runner (controlled H settings inputs).clock runner job).StillNeeded settings := by
  have hlisted : runner ∈ ((controlled H settings inputs).phases replica).runners := by
    simp [hphase, ControllerPhase.runners]
  obtain ⟨hsilent, row, hrow, htracks⟩ := runners_tracked inputs replica runner hlisted
  obtain rfl := Option.some.inj (hj.symm.trans hrow)
  have hsame := htracks.asListed hm
  refine ⟨hsame, ?_⟩
  simp only [runnerStale, decide_eq_true_eq]
  refine ⟨hsame.reporting, hsame.started, ?_⟩
  rw [hsame.updatedAt]
  exact Int.le_sub_right_of_add_le hsilent

/-- A change is on what is still so unless it is on a renewed dispatch. -/
theorem change_still_needed_iff (inputs : List ControllerInput) {i : ControllerInput} {change : Change}
    (h : change ∈ changesOf settings i (controlled H settings inputs)) :
    change.StillNeeded settings ↔ change.NotRenewed := by
  rcases changesOf_spec h with ⟨replica, s, dispatch, action, rest, job, -, -, -, hm, rfl⟩ |
    ⟨replica, s, runner, status, rest, job, -, hphase, hj, hm, rfl⟩
  · obtain ⟨hattempt, hstate, hstart⟩ := hm
    simp [Change.StillNeeded, Change.NotRenewed, LeaseRanOut, dispatchExpired, hattempt, hstate, hstart]
  · exact iff_of_true (runner_still_needed inputs hphase hj hm) trivial

/-- The dispatch that an input settles. -/
def ControllerInput.settles? (w : ControllerSystem) : ControllerInput → Option ExpiredDispatch
  | .turn replica _ =>
    match w.phases replica with
    | .settlingDispatch dispatch _ _ => some dispatch
    | _ => none
  | _ => none

theorem ControllerInput.settles?_some {i : ControllerInput} {w : ControllerSystem}
    {listed : ExpiredDispatch} (h : i.settles? w = some listed) :
    ∃ replica s action rest, i = .turn replica s ∧
      w.phases replica = .settlingDispatch listed action rest := by
  cases i with
  | turn replica s =>
    cases hphase : w.phases replica with
    | settlingDispatch dispatch action rest =>
      obtain rfl : dispatch = listed := by simpa [ControllerInput.settles?, hphase] using h
      exact ⟨replica, s, action, rest, rfl, hphase⟩
    | _ => simp [ControllerInput.settles?, hphase] at h
  | _ => cases h

/-- A dispatch that the `WHERE` selects is changed. -/
theorem changesOf_selected {i : ControllerInput} {w : ControllerSystem} {listed : ExpiredDispatch}
    {job : ResearchJob} (h : i.settles? w = some listed) (hj : w.db.job? listed.id = some job)
    (hm : dispatchMatches listed job) : .dispatch w.clock listed job ∈ changesOf settings i w := by
  obtain ⟨replica, s, action, rest, rfl, hphase⟩ := ControllerInput.settles?_some h
  simp only [changesOf, hphase, commit_ok (reconcileExpiredDispatch_selected hj hm), hj]
  exact List.mem_singleton_self _

/-- Whenever a dispatch is changed, its lease has run out. -/
theorem changes_not_renewed_iff {inputs : List ControllerInput} :
    (∀ change ∈ changes H settings inputs, change.NotRenewed) ↔
      ∀ before i, before ++ [i] <+: inputs → ∀ listed job,
        i.settles? (controlled H settings before) = some listed →
          (controlled H settings before).db.job? listed.id = some job → dispatchMatches listed job →
            LeaseRanOut (controlled H settings before).clock job := by
  constructor
  · intro hall before i hpre listed job hsettles hj hm
    exact hall _ (mem_changes.mpr ⟨before, i, hpre, changesOf_selected hsettles hj hm⟩)
  · intro hall change hchange
    obtain ⟨before, i, hpre, hchange⟩ := mem_changes.mp hchange
    rcases changesOf_spec hchange with ⟨replica, s, dispatch, action, rest, job, rfl, hphase, hj, hm, rfl⟩ |
      ⟨replica, s, runner, status, rest, job, -, -, -, -, rfl⟩
    · exact hall before _ hpre dispatch job (by simp [ControllerInput.settles?, hphase]) hj hm
    · trivial

/-- Alone, a replica never meets a lease that its snapshot does not know of. -/
theorem not_renewed_alone (inputs : List ControllerInput)
    (h : ∀ before, before <+: inputs → DispatchesAlone (controlled H settings before)) :
    ∀ change ∈ changes H settings inputs, change.NotRenewed := by
  rw [changes_not_renewed_iff]
  intro before i hpre listed job hsettles hj hm
  obtain ⟨replica, s, action, rest, rfl, hphase⟩ := ControllerInput.settles?_some hsettles
  have hbefore : before <+: inputs := (List.prefix_append ..).trans hpre
  have htracked := (dispatches_tracked before fun earlier he => h earlier (he.trans hbefore)) replica
  obtain ⟨row, hrow, hlease⟩ := htracked.2 listed (by simp [hphase, ControllerPhase.dispatches])
  obtain rfl := Option.some.inj (hj.symm.trans hrow)
  exact hlease.lease hm

end

/-- Along a run every change is made on a job that would be listed again, if and only
if the lease has run out whenever `reconcile_expired_dispatch` finds a row that its
`WHERE` selects; which is so when no two replicas reconcile dispatches at once. -/
theorem reconciliation_iff (H : Hashing) (settings : ControllerSettings)
    (inputs : List ControllerInput) :
    ((∀ change ∈ changes H settings inputs, change.StillNeeded settings) ↔
      ∀ before i, before ++ [i] <+: inputs → ∀ listed job,
        i.settles? (controlled H settings before) = some listed →
          (controlled H settings before).db.job? listed.id = some job → dispatchMatches listed job →
            LeaseRanOut (controlled H settings before).clock job) ∧
    ((∀ before, before <+: inputs → DispatchesAlone (controlled H settings before)) →
      ∀ change ∈ changes H settings inputs, change.StillNeeded settings) := by
  have hneeded : (∀ change ∈ changes H settings inputs, change.StillNeeded settings) ↔
      ∀ change ∈ changes H settings inputs, change.NotRenewed := by
    refine forall₂_congr fun change hchange => ?_
    obtain ⟨before, i, -, hchange⟩ := mem_changes.mp hchange
    exact change_still_needed_iff before hchange
  exact ⟨hneeded.trans changes_not_renewed_iff, fun halone => hneeded.mpr (not_renewed_alone inputs halone)⟩

/-! ### A renewed dispatch

The runner of the one job is silent when two replicas list its dispatch. The second
one finds it active and renews its lease; the first one, which has lost its lock in
between, then finds it exited and fails the job. -/
namespace Sample

def renewedDispatch : List ControllerInput :=
  [.request (.createJob 0 1 "user" "key" request) rfl, .acquire 0] ++ uptoCount 0 ++
  [.turn 0 {runnerToken := "token"}, .turn 0 {}, .tick 120000000, .turn 0 {}, .turn 0 {},
    .loseLock, .acquire 1, .turn 1 {}, .turn 1 {}, .turn 1 {inspection := some .active}, .turn 1 {},
    .turn 0 {inspection := some .exited}, .turn 0 {}]

end Sample

/-- A dispatch fails with two minutes left on its lease. -/
theorem renewed_dispatch_failed :
    (¬ ∀ change ∈ changes Sample.hashing Sample.controllerSettings Sample.renewedDispatch,
        change.StillNeeded Sample.controllerSettings) ∧
      ((controlled Sample.hashing Sample.controllerSettings Sample.renewedDispatch).db.job? 1).map
        ResearchJob.state = some .failed := by
  decide +kernel

/-! ### Stops -/

/-- A runner that was stopped, with its row before and after its transaction. -/
structure Stop where
  runner : StaleRunner
  before : Option ResearchJob
  after : Option ResearchJob

/-- The job is no longer under way with the attempt that was stopped. -/
def Stop.GivenUp (stop : Stop) : Prop :=
  ∀ job ∈ stop.after, job.attempt = stop.runner.attempt →
    job.state ≠ .running ∧ job.state ≠ .cancelRequested

instance (stop : Stop) : Decidable stop.GivenUp :=
  inferInstanceAs (Decidable (∀ job ∈ stop.after, _))

/-- If the job is still under way, nothing has happened to it since it was listed. -/
def Stop.Quiet (stop : Stop) : Prop :=
  ∀ job ∈ stop.before, job.attempt = stop.runner.attempt →
    (job.state = .running ∨ job.state = .cancelRequested) → job.updatedAt ≤ stop.runner.updatedAt

section
variable (H : Hashing) (settings : ControllerSettings)

/-- The transaction for a runner that `executor.inspect` called active comes after its stop. -/
def stopsOf (i : ControllerInput) (w : ControllerSystem) : List Stop :=
  match i with
  | .turn replica _ =>
    match w.phases replica with
    | .settlingRunner runner .active _ =>
      [⟨runner, w.db.job? runner.id, ((controllers H settings).next i w).db.job? runner.id⟩]
    | _ => []
  | _ => []

/-- The runners that were stopped along a run and whose transactions have run. -/
def stops (inputs : List ControllerInput) : List Stop :=
  ((controllers H settings).observing (stopsOf H settings)).trace .initial inputs

end

section
variable {H : Hashing} {settings : ControllerSettings}

theorem mem_stops {inputs : List ControllerInput} {stop : Stop} :
    stop ∈ stops H settings inputs ↔ ∃ before i, before ++ [i] <+: inputs ∧
      stop ∈ stopsOf H settings i (controlled H settings before) :=
  Machine.mem_trace_observing _

/-- A stop is followed by the transaction of its runner. -/
theorem stopsOf_spec {i : ControllerInput} {w : ControllerSystem} {stop : Stop}
    (h : stop ∈ stopsOf H settings i w) :
    stop.before = w.db.job? stop.runner.id ∧
      stop.after = (step H (.reconcileStaleRunner w.clock stop.runner
        (staleAction settings stop.runner) (staleError .active)) w.db).job? stop.runner.id := by
  unfold stopsOf at h
  split at h
  · next replica s =>
    split at h
    · next runner rest hphase =>
      obtain rfl := List.mem_singleton.mp h
      refine ⟨rfl, ?_⟩
      show ((controllers H settings).next _ w).db.job? runner.id = _
      rw [controllers_db]
      simp [ControllerInput.op?, hphase, ControllerPhase.op?, Database.apply]
    · cases h
  · cases h

/-- A stale runner that is written is not under way any more. -/
theorem staleWrite_given_up {now : Time} {action : StaleAction} {error : String} {job : ResearchJob}
    (h : action ≠ .refresh) :
    (staleWrite now action error job).job.state ≠ .running ∧
      (staleWrite now action error job).job.state ≠ .cancelRequested := by
  unfold staleWrite
  rw [if_neg h]
  simp only [closeReconciled_state, settleStale]
  split
  · simp
  · split
    · split <;> simp
    · simp

theorem staleAction_settles (settings : ControllerSettings) (runner : StaleRunner) :
    staleAction settings runner ≠ .refresh := by
  unfold staleAction
  split
  · simp
  · split <;> simp

/-- A stopped runner is given up if and only if its row was quiet. -/
theorem stop_given_up_iff {i : ControllerInput} {w : ControllerSystem} {stop : Stop}
    (h : stop ∈ stopsOf H settings i w) : stop.GivenUp ↔ stop.Quiet := by
  obtain ⟨hbefore, hafter⟩ := stopsOf_spec h
  unfold Stop.GivenUp Stop.Quiet
  rw [hbefore, hafter]
  by_cases hselected : ∃ job, w.db.job? stop.runner.id = some job ∧ staleMatches stop.runner job
  · obtain ⟨job, hj, hm⟩ := hselected
    have hwritten := Database.job?_write (w := staleWrite w.clock (staleAction settings stop.runner)
      (staleError .active) job) hj (staleWrite_id ..)
    rw [step_stale_selected hj hm, hwritten]
    refine iff_of_true ?_ ?_
    · intro job' hj' _
      obtain rfl := Option.some.inj hj'
      exact staleWrite_given_up (staleAction_settles settings stop.runner)
    · intro job' hj' _ _
      obtain rfl := Option.some.inj (hj.symm.trans hj')
      exact hm.2.2
  · have hskipped : ∀ job, w.db.job? stop.runner.id = some job → ¬ staleMatches stop.runner job :=
      fun job hj hm => hselected ⟨job, hj, hm⟩
    rw [step_stale_skipped hskipped]
    refine forall_congr' fun job => forall_congr' fun hj => forall_congr' fun hattempt => ?_
    have hlive : (job.state = .running ∨ job.state = .cancelRequested) →
        ¬ job.updatedAt ≤ stop.runner.updatedAt :=
      fun hs hquiet => hskipped job hj ⟨hattempt, hs, hquiet⟩
    constructor
    · rintro ⟨hrunning, hcancel⟩ hs
      exact absurd hs (not_or.mpr ⟨hrunning, hcancel⟩)
    · intro hquiet
      exact not_or.mp fun hs => hlive hs (hquiet hs)

end

/-- Along a run every runner that is stopped is given up, if and only if nothing has
happened to those still under way between their listing and their transaction. -/
theorem stopped_given_up_iff (H : Hashing) (settings : ControllerSettings)
    (inputs : List ControllerInput) :
    (∀ stop ∈ stops H settings inputs, stop.GivenUp) ↔
      ∀ stop ∈ stops H settings inputs, stop.Quiet := by
  refine forall₂_congr fun stop hstop => ?_
  obtain ⟨before, i, -, hstop⟩ := mem_stops.mp hstop
  exact stop_given_up_iff hstop

/-! ### A heartbeat in between

The runner was silent for a minute, is listed and found active; it reports while it
is being stopped. -/
namespace Sample

def lateHeartbeat : List ControllerInput :=
  [.request (.createJob 0 1 "user" "key" request) rfl, .acquire 0] ++ uptoCount 0 ++
  [.turn 0 {runnerToken := "token"}, .turn 0 {}, .request (.markStarted 0 1 "token") rfl,
    .tick 60000000, .turn 0 {}, .turn 0 {}, .turn 0 {}, .turn 0 {},
    .turn 0 {inspection := some .active}, .turn 0 {}, .request (.heartbeat 0 1 "token") rfl,
    .turn 0 {}]

end Sample

/-- The job stays RUNNING after its executor was stopped. -/
theorem stopped_still_running :
    (¬ ∀ stop ∈ stops Sample.hashing Sample.controllerSettings Sample.lateHeartbeat,
        stop.GivenUp) ∧
      (stops Sample.hashing Sample.controllerSettings Sample.lateHeartbeat).map
        (fun stop => stop.after.map ResearchJob.state) = [some .running] := by
  decide +kernel

end ResearchGateway
