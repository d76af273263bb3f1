import ResearchGateway.ConcurrencyCap
import ResearchGateway.Snapshots
import ResearchGateway.Library.Backlog

/-! How fast the controller works off what needs recovery.

What is overdue or silent at one time only ever gets less: whoever gives a dispatch a lease or
writes to a runner's row does so later. So a replica whose executor answers takes a batch of
both away in each round of its loop, the oldest first, whatever users, runners and other
replicas do meanwhile; and a round takes no more than so many of its turns. -/
namespace ResearchGateway
open Library Library.Backlog

/-- The dispatches whose lease had ended by a time. -/
def overdue (db : Database) (time : Time) : Finset JobId := keysOf db.jobs.rows ResearchJob.id (dispatchExpired time)

/-- The runners that have not been heard of since a time. -/
def silent (db : Database) (cutoff : Time) : Finset JobId := keysOf db.jobs.rows ResearchJob.id (runnerStale cutoff)

theorem mem_overdue {db : Database} {time : Time} {j : JobId} :
    j ∈ overdue db time ↔ ∃ job, db.job? j = some job ∧ dispatchExpired time job = true := by
  simp only [overdue, mem_keysOf, Database.job?_iff]
  constructor
  · rintro ⟨job, hjob, hexpired, hid⟩
    exact ⟨job, ⟨hjob, hid⟩, hexpired⟩
  · rintro ⟨job, ⟨hjob, hid⟩, hexpired⟩
    exact ⟨job, hjob, hexpired, hid⟩

theorem mem_silent {db : Database} {cutoff : Time} {j : JobId} :
    j ∈ silent db cutoff ↔ ∃ job, db.job? j = some job ∧ runnerStale cutoff job = true := by
  simp only [silent, mem_keysOf, Database.job?_iff]
  constructor
  · rintro ⟨job, hjob, hstale, hid⟩
    exact ⟨job, ⟨hjob, hid⟩, hstale⟩
  · rintro ⟨job, ⟨hjob, hid⟩, hstale⟩
    exact ⟨job, hjob, hstale, hid⟩

/-! ### Nothing becomes overdue in the past -/

/-- The leases that an operation gives end after the time. -/
def LeasesAhead (time : Time) : Op → Prop
  | .claimNext now _ _ lease _ | .reconcileExpiredDispatch now _ _ lease _ => time < now + seconds lease
  | _ => True

section
variable {H : Hashing} {op : Op} {acct : Account} {j : JobId} {s s' : Slice} {job job' : ResearchJob} {w : Write} {db : Database}
  {time : Time}

theorem dispatchExpired_iff : dispatchExpired time job = true ↔
    (job.state = .dispatched ∨ job.state = .cancelRequested) ∧ job.startedAt = none ∧
      ∃ expires, job.dispatchLeaseExpiresAt = some expires ∧ expires ≤ time := by
  simp [dispatchExpired, Option.any_eq_true]

theorem dispatchExpired_earlier {now : Time} (htime : time ≤ now) (job : ResearchJob) : dispatchExpired time job = true ↔
    dispatchExpired now job = true ∧ job.dispatchLeaseExpiresAt.getD 0 ≤ time := by
  simp only [dispatchExpired_iff]
  constructor
  · rintro ⟨hstate, hstart, expires, hlease, hended⟩
    exact ⟨⟨hstate, hstart, expires, hlease, Int.le_trans hended htime⟩, by simpa [hlease] using hended⟩
  · rintro ⟨⟨hstate, hstart, expires, hlease, -⟩, hended⟩
    exact ⟨hstate, hstart, expires, hlease, by simpa [hlease] using hended⟩

theorem runnerStale_earlier {cutoff now : Time} (hcutoff : cutoff ≤ now) (job : ResearchJob) : runnerStale cutoff job = true ↔
    runnerStale now job = true ∧ job.updatedAt ≤ cutoff := by
  simp only [runnerStale, decide_eq_true_eq]
  constructor
  · rintro ⟨hstate, hstart, hold⟩
    exact ⟨⟨hstate, hstart, Int.le_trans hold hcutoff⟩, hold⟩
  · rintro ⟨⟨hstate, hstart, -⟩, hold⟩
    exact ⟨hstate, hstart, hold⟩

theorem Effect.overdue (h : Effect H op acct job w) (hs : RowSound job) (hop : op.expiredDispatch? ≠ some job.id)
    (hahead : LeasesAhead time op) (hexpired : dispatchExpired time w.job = true) :
    dispatchExpired time job = true ∧ w.job.attempt = job.attempt := by
  rw [dispatchExpired_iff] at hexpired
  obtain ⟨hstate, hstart, expires, hlease, hended⟩ := hexpired
  cases h with
  | dispatched hpending hclaim =>
    subst hclaim
    simp only [dispatchedJob, Option.some.injEq] at hlease
    subst hlease
    exact absurd hended (Int.not_le.mpr hahead)
  | renewed _ _ hrenew => exact absurd hrenew hop
  | touched | progressed | charged => exact ⟨dispatchExpired_iff.mpr ⟨hstate, hstart, expires, hlease, hended⟩, rfl⟩
  | cancelRequested hst =>
    rcases hst with hst | hst
    · exact ⟨dispatchExpired_iff.mpr ⟨.inl hst, hstart, expires, hlease, hended⟩, rfl⟩
    · have hrunning := hs.running hst
      simp only at hstart
      simp [hstart] at hrunning
  | dispatchRequeued | runnerRequeued | started => simp at hlease
  | succeeded => simp [succeededJob] at hstate
  | closed hst => rcases hst with ⟨rfl, -⟩ | ⟨rfl, -⟩ <;> simp at hstate
  | revoked hst =>
    simp only [hs.revokeToken_eq hst] at hstate
    rcases hstate with hstate | hstate <;> rw [hstate] at hst <;> cases hst

theorem JobStep.overdue (h : JobStep H op j acct s s') (hret : op.isRetention = false) (hs : s.Sound)
    (hop : op.expiredDispatch? ≠ some j) (hahead : LeasesAhead time op) (hj' : s'.job = some job')
    (hexpired : dispatchExpired time job' = true) :
    ∃ job, s.job = some job ∧ dispatchExpired time job = true ∧ job'.attempt = job.attempt := by
  cases h with
  | kept => exact ⟨job', hj', hexpired, rfl⟩
  | created =>
    obtain rfl := Option.some.inj hj'
    simp [dispatchExpired, newJob] at hexpired
  | written hid heffect =>
    obtain rfl := Option.some.inj hj'
    exact ⟨_, rfl, heffect.overdue (hs.row _ rfl) (by rwa [hid]) hahead hexpired⟩
  | pruned hop | artifactDeleted hop | orphaned hop | removed hop =>
    rw [hret] at hop
    cases hop

/-- A dispatch that was reconciled has no lease any more, or one that was given just now. -/
theorem dispatchWrite_ahead {now : Time} {action : DispatchAction} {lease : Nat} {error : String}
    (hahead : time < now + seconds lease) :
    dispatchExpired time (dispatchWrite now action lease error job).job = false := by
  rw [Bool.eq_false_iff, Ne, dispatchExpired_iff]
  rintro ⟨-, -, expires, hlease, hended⟩
  unfold dispatchWrite at hlease
  split at hlease
  · simp only [Option.some.injEq] at hlease
    subst hlease
    exact absurd hended (Int.not_le.mpr hahead)
  · simp [closeReconciled] at hlease

/-- Who is overdue after an operation was so before, with the same attempt. -/
theorem step_overdue (hs : Sound db) (hret : op.isRetention = false) (hahead : LeasesAhead time op)
    (hj' : (step H op db).job? j = some job') (hexpired : dispatchExpired time job' = true) :
    ∃ job, db.job? j = some job ∧ dispatchExpired time job = true ∧ job'.attempt = job.attempt := by
  by_cases hop : op.expiredDispatch? = some j
  · cases op with
    | reconcileExpiredDispatch now dispatch action lease error =>
      obtain rfl : dispatch.id = j := Option.some.inj hop
      by_cases hselected : ∃ job, db.job? dispatch.id = some job ∧ dispatchMatches dispatch job
      · obtain ⟨job, hj, hm⟩ := hselected
        rw [step_dispatch_selected hj hm, Database.job?_write hj (dispatchWrite_id ..)] at hj'
        obtain rfl := Option.some.inj hj'
        rw [dispatchWrite_ahead hahead] at hexpired
        cases hexpired
      · rw [step_dispatch_skipped fun job hj hm => hselected ⟨job, hj, hm⟩] at hj'
        exact ⟨job', hj', hexpired, rfl⟩
    | _ => cases hop
  · exact (job_step H op db j).overdue hret (hs j) hop hahead hj' hexpired

/-- Who is silent after an operation was so before, with the same row. -/
theorem step_silent {now cutoff : Time} (hret : op.isRetention = false) (hstamp : op.stamped now = op) (hcutoff : cutoff < now)
    (hj' : (step H op db).job? j = some job') (hstale : runnerStale cutoff job' = true) : db.job? j = some job' := by
  simp only [runnerStale, decide_eq_true_eq] at hstale
  obtain ⟨hstate, -, hold⟩ := hstale
  rcases step_stamped H hstamp hret db j job' hj' with hsame | htime | hterminal
  · exact hsame
  · rw [htime] at hold
    exact absurd hold (Int.not_le.mpr hcutoff)
  · rcases hstate with hs | hs <;> rw [hs] at hterminal <;> cases hterminal

theorem staleWrite_stamped {now : Time} {action : StaleAction} {error : String} :
    (staleWrite now action error job).job.updatedAt = now := by
  unfold staleWrite
  split <;> rfl

end

/-! ### Rounds -/

/-- The dispatches that a replica has yet to settle in its round. -/
def ControllerPhase.dispatchesLeft? : ControllerPhase → Option (List JobId)
  | .follower | .checkingLease | .listingDispatches => none
  | .inspectingDispatches dispatches => some (dispatches.map ExpiredDispatch.id)
  | .stoppingDispatch dispatch rest | .settlingDispatch dispatch _ rest => some ((dispatch :: rest).map ExpiredDispatch.id)
  | _ => some []

/-- The runners that a replica has yet to settle in its round. -/
def ControllerPhase.runnersLeft? : ControllerPhase → Option (List JobId)
  | .inspectingRunners runners => some (runners.map StaleRunner.id)
  | .stoppingRunner runner rest | .settlingRunner runner _ rest => some ((runner :: rest).map StaleRunner.id)
  | .claiming | .counted | .submitting _ | .reporting .. => some []
  | _ => none

/-- In `dispatch_one`, the last part of a round. -/
def ControllerPhase.isDispatching : ControllerPhase → Bool
  | .claiming | .counted | .submitting _ | .reporting .. => true
  | _ => false

namespace ControllerPhase

section
variable {H : Hashing} {settings : ControllerSettings} {now : Time} {leads : Bool} {s : Surroundings} {db : Database}
  {phase : ControllerPhase} {before after listed : List JobId}

theorem left_of_isDispatching (h : phase.isDispatching = true) :
    phase.dispatchesLeft? = some [] ∧ phase.runnersLeft? = some [] := by
  cases phase <;> first | exact ⟨rfl, rfl⟩ | cases h

/-- A round has dispatches to settle from its one listing of them on. -/
theorem dispatches_listed (hnone : phase.dispatchesLeft? = none)
    (hlisted : (phase.next H settings now leads s db).2.dispatchesLeft? = some listed) :
    phase = .listingDispatches ∧
      listed = (listExpiredDispatches db now settings.dispatchReconcileBatchSize).map ExpiredDispatch.id := by
  cases phase with
  | listingDispatches => exact ⟨rfl, (Option.some.inj hlisted).symm⟩
  | follower => cases hlisted
  | checkingLease =>
    simp only [next] at hlisted
    split at hlisted <;> cases hlisted
  | _ => cases hnone

/-- Where the executor answers, a dispatch is left for the next turn unless it is settled in this one. -/
theorem dispatches_left (hinspection : s.inspection.isSome = true) (hstopped : s.stopped = true)
    (hbefore : phase.dispatchesLeft? = some before)
    (hafter : (phase.next H settings now leads s db).2.dispatchesLeft? = some after) {j : JobId} (hj : j ∈ before) :
    j ∈ after ∨ ∃ dispatch action rest, phase = .settlingDispatch dispatch action rest ∧ j = dispatch.id := by
  obtain ⟨status, hstatus⟩ := Option.isSome_iff_exists.mp hinspection
  cases phase with
  | inspectingDispatches dispatches =>
    obtain rfl := Option.some.inj hbefore
    cases dispatches with
    | nil => cases hj
    | cons dispatch rest =>
      simp only [next, hstatus] at hafter
      split at hafter <;> exact .inl (Option.some.inj hafter ▸ hj)
  | stoppingDispatch dispatch rest =>
    obtain rfl := Option.some.inj hbefore
    simp only [next, hstopped, if_true] at hafter
    exact .inl (Option.some.inj hafter ▸ hj)
  | settlingDispatch dispatch action rest =>
    obtain rfl := Option.some.inj hbefore
    rcases List.mem_cons.mp hj with hfirst | hj
    · exact .inr ⟨dispatch, action, rest, rfl, hfirst⟩
    · simp only [next] at hafter
      split at hafter
      · exact .inl (Option.some.inj hafter ▸ hj)
      · cases hafter
  | follower | checkingLease | listingDispatches => cases hbefore
  | _ =>
    obtain rfl := Option.some.inj hbefore
    cases hj

/-- A round has runners to settle from its one listing of them on. -/
theorem runners_listed (hnone : phase.runnersLeft? = none)
    (hlisted : (phase.next H settings now leads s db).2.runnersLeft? = some listed) :
    phase = .listingRunners ∧ listed =
      (listStaleRunners db now settings.runnerStaleSeconds settings.dispatchReconcileBatchSize).map StaleRunner.id := by
  cases phase with
  | listingRunners => exact ⟨rfl, (Option.some.inj hlisted).symm⟩
  | follower | listingDispatches => cases hlisted
  | checkingLease =>
    simp only [next] at hlisted
    split at hlisted <;> cases hlisted
  | inspectingDispatches dispatches =>
    cases dispatches with
    | nil => cases hlisted
    | cons dispatch rest =>
      simp only [next] at hlisted
      split at hlisted
      · cases hlisted
      · split at hlisted <;> cases hlisted
  | stoppingDispatch dispatch rest | settlingDispatch dispatch action rest =>
    simp only [next] at hlisted
    split at hlisted <;> cases hlisted
  | _ => cases hnone

/-- Where the executor answers, a runner is left for the next turn unless it is settled in this one. -/
theorem runners_left (hinspection : s.inspection.isSome = true) (hstopped : s.stopped = true)
    (hbefore : phase.runnersLeft? = some before)
    (hafter : (phase.next H settings now leads s db).2.runnersLeft? = some after) {j : JobId} (hj : j ∈ before) :
    j ∈ after ∨ ∃ runner status rest, phase = .settlingRunner runner status rest ∧ j = runner.id := by
  obtain ⟨status, hstatus⟩ := Option.isSome_iff_exists.mp hinspection
  cases phase with
  | inspectingRunners runners =>
    obtain rfl := Option.some.inj hbefore
    cases runners with
    | nil => cases hj
    | cons runner rest =>
      simp only [next, hstatus] at hafter
      split at hafter <;> exact .inl (Option.some.inj hafter ▸ hj)
  | stoppingRunner runner rest =>
    obtain rfl := Option.some.inj hbefore
    simp only [next, hstopped, if_true] at hafter
    exact .inl (Option.some.inj hafter ▸ hj)
  | settlingRunner runner status rest =>
    obtain rfl := Option.some.inj hbefore
    rcases List.mem_cons.mp hj with hfirst | hj
    · exact .inr ⟨runner, status, rest, rfl, hfirst⟩
    · simp only [next] at hafter
      split at hafter
      · exact .inl (Option.some.inj hafter ▸ hj)
      · cases hafter
  | claiming | counted | submitting | reporting =>
    obtain rfl := Option.some.inj hbefore
    cases hj
  | _ => cases hbefore

end

end ControllerPhase

section
variable (H : Hashing) (settings : ControllerSettings)

/-- An input brings a replica back to the top of its loop. -/
def endsRound (replica : Nat) (i : ControllerInput) (w : ControllerSystem) : Bool :=
  match i with
  | .turn q _ => q = replica ∧ (w.phases replica).isDispatching ∧
      ((controllers H settings).next i w).phases replica = .checkingLease
  | _ => false

/-- An input is a turn of a replica within its loop. -/
def takesTurn (replica : Nat) (i : ControllerInput) (w : ControllerSystem) : Bool :=
  match i with
  | .turn q _ => q = replica ∧ w.phases replica ≠ .follower
  | _ => false

/-- An input makes a replica the leader. -/
def becomesLeader (replica : Nat) (i : ControllerInput) (w : ControllerSystem) : Bool :=
  match i with
  | .acquire q => q = replica ∧ w.phases replica = .follower ∧ w.leader = none
  | _ => false

/-- The rounds that a replica completes. -/
def rounds (replica : Nat) (w : ControllerSystem) (inputs : List ControllerInput) : Nat :=
  occurrences (controllers H settings) (endsRound H settings replica) w inputs

end

/-- The executor answers a replica. -/
def ExecutorAnswers (replica : Nat) : ControllerInput → Prop
  | .turn q s => q = replica → s.inspection.isSome = true ∧ s.stopped = true
  | _ => True

section
variable {H : Hashing} {settings : ControllerSettings} {replica : Nat} {i : ControllerInput} {w : ControllerSystem}

theorem endsRound_eq_true (h : endsRound H settings replica i w = true) :
    (w.phases replica).isDispatching = true ∧ ((controllers H settings).next i w).phases replica = .checkingLease := by
  cases i with
  | turn q s =>
    simp only [endsRound, decide_eq_true_eq] at h
    exact h.2
  | _ => cases h

/-- The leases that a step of the replicas gives end after now. -/
theorem ControllerInput.op?_ahead {op : Op} (h : i.op? settings w = some op) {time : Time} (htime : time ≤ w.clock) :
    LeasesAhead time op := by
  have hlease : time < w.clock + seconds settings.dispatchLeaseSeconds :=
    Int.lt_of_le_of_lt htime (Int.lt_add_of_pos_right _ (seconds_pos (Nat.le_trans (by decide) settings.lease_ge)))
  cases i with
  | request op' hrequest =>
    obtain rfl := Option.some.inj h
    cases op' <;> trivial
  | turn q s =>
    rcases ControllerPhase.op?_cases h with ⟨_, _, _, -, rfl⟩ | ⟨_, _, _, -, rfl⟩ | ⟨-, rfl⟩ |
      ⟨_, _, _, -, rfl⟩ <;> first | exact hlease | trivial
  | _ => cases h

/-- What a replica has left to do in its round changes only by its own turns. -/
theorem turn_of_left {left? : ControllerPhase → Option (List JobId)} {left : List JobId} (hfollower : left? .follower = none)
    (hlease : left? .checkingLease = none) (h : left? (((controllers H settings).next i w).phases replica) = some left) :
    left? (w.phases replica) = some left ∨ ∃ s, i = .turn replica s ∧
      ((controllers H settings).next i w).phases replica =
        ((w.phases replica).next H settings w.clock (w.leader = some replica) s w.db).2 := by
  rcases @controllers_phase H settings i w replica with hsame | hentered | hout | hturn
  · rw [hsame] at h
    exact .inl h
  · rw [hentered, hlease] at h
    cases h
  · rw [hout, hfollower] at h
    cases h
  · exact .inr hturn

/-! ### Dispatches -/

variable {time : Time}

theorem controllers_overdue (hs : Sound w.db) (htime : time ≤ w.clock) {j : JobId} {job' : ResearchJob}
    (hj' : ((controllers H settings).next i w).db.job? j = some job') (hexpired : dispatchExpired time job' = true) :
    ∃ job, w.db.job? j = some job ∧ dispatchExpired time job = true ∧ job'.attempt = job.attempt := by
  rw [controllers_db] at hj'
  cases hop : i.op? settings w with
  | none =>
    rw [hop] at hj'
    exact ⟨job', hj', hexpired, rfl⟩
  | some op =>
    rw [hop] at hj'
    exact step_overdue hs (ControllerInput.op?_kept hop) (ControllerInput.op?_ahead hop htime) hj' hexpired

/-- A dispatch that a replica has listed and that is overdue has the attempt it was listed with. -/
def DispatchesKnown (time : Time) (replica : Nat) (w : ControllerSystem) : Prop :=
  ∀ dispatch ∈ (w.phases replica).dispatches, ∀ job, w.db.job? dispatch.id = some job →
    dispatchExpired time job = true → job.attempt = dispatch.attempt

theorem DispatchesKnown.next (h : DispatchesKnown time replica w) (hs : Sound w.db) (htime : time ≤ w.clock) :
    DispatchesKnown time replica ((controllers H settings).next i w) := by
  intro dispatch hd job' hj' hexpired
  obtain ⟨job, hj, hbefore, hattempt⟩ := controllers_overdue hs htime hj' hexpired
  rw [hattempt]
  rcases @dispatches_next H settings i w replica with hrest | ⟨-, hlisted⟩
  · exact h dispatch (hrest.subset hd) job hj hbefore
  · rw [hlisted] at hd
    obtain ⟨listed, hlisted, -, rfl⟩ := listExpiredDispatches_spec hd
    obtain rfl := Option.some.inj (hj.symm.trans hlisted)
    rfl

/-- A dispatch that was settled is not overdue. -/
theorem settled_not_overdue (hs : Sound w.db) (htime : time ≤ w.clock) (hknown : DispatchesKnown time replica w)
    {dispatch : ExpiredDispatch} {action : DispatchAction} {rest : List ExpiredDispatch} {s : Surroundings}
    (hphase : w.phases replica = .settlingDispatch dispatch action rest) :
    dispatch.id ∉ overdue ((controllers H settings).next (.turn replica s) w).db time := by
  intro hmem
  obtain ⟨job', hj', hexpired⟩ := mem_overdue.mp hmem
  obtain ⟨job, hj, hbefore, -⟩ := controllers_overdue hs htime hj' hexpired
  have hattempt : job.attempt = dispatch.attempt :=
    hknown dispatch (by simp [hphase, ControllerPhase.dispatches]) job hj hbefore
  obtain ⟨hstate, hstart, -⟩ := dispatchExpired_iff.mp hbefore
  have hop : (ControllerInput.turn replica s).op? settings w = some
      (.reconcileExpiredDispatch w.clock dispatch action settings.dispatchLeaseSeconds dispatchError) := by
    simp [ControllerInput.op?, hphase, ControllerPhase.op?]
  rw [controllers_db, hop] at hj'
  change (step H _ w.db).job? dispatch.id = some job' at hj'
  rw [step_dispatch_selected hj ⟨hattempt, hstate, hstart⟩, Database.job?_write hj (dispatchWrite_id ..)] at hj'
  obtain rfl := Option.some.inj hj'
  rw [dispatchWrite_ahead (ControllerInput.op?_ahead hop htime)] at hexpired
  cases hexpired

theorem dispatches_workedOff (replica : Nat) (time : Time) :
    WorksOff (controllers H settings) (ExecutorAnswers replica)
      (fun w => Sound w.db ∧ time ≤ w.clock ∧ DispatchesKnown time replica w) (fun w => overdue w.db time)
      (fun w => (w.phases replica).dispatchesLeft?) (endsRound H settings replica) settings.dispatchReconcileBatchSize where
  keeps {i w} _ h := by
    obtain ⟨hs, htime, hknown⟩ := h
    rw [controllers_db]
    exact ⟨apply_sound hs _, Int.le_trans htime (controllers_clock i w), hknown.next hs htime⟩
  shrinks {i w} _ h j hmem := by
    obtain ⟨hs, htime, -⟩ := h
    obtain ⟨job', hj', hexpired⟩ := mem_overdue.mp hmem
    obtain ⟨job, hj, hbefore, -⟩ := controllers_overdue hs htime hj' hexpired
    exact mem_overdue.mpr ⟨job, hj, hbefore⟩
  lists {i w listed} _ h hnone hlisted := by
    rcases turn_of_left rfl rfl hlisted with hsame | ⟨s, rfl, hturn⟩
    · rw [hnone] at hsame
      cases hsame
    · obtain ⟨hphase, rfl⟩ := ControllerPhase.dispatches_listed hnone (hturn ▸ hlisted)
      have hop : (ControllerInput.turn replica s).op? settings w = none := by
        simp [ControllerInput.op?, hphase, ControllerPhase.op?]
      have hids : (listExpiredDispatches w.db w.clock settings.dispatchReconcileBatchSize).map ExpiredDispatch.id =
          (oldest w.db.jobs.rows (fun job => job.dispatchLeaseExpiresAt.getD 0) (dispatchExpired w.clock)
            settings.dispatchReconcileBatchSize).map ResearchJob.id := by
        rw [listExpiredDispatches, List.map_map]
        rfl
      rw [controllers_db, hop, hids]
      exact oldest_keys w.db.jobs.unique (dispatchExpired_earlier h.2.1) _
  works {i w before after} hanswers h hbefore hafter k hk := by
    obtain ⟨hs, htime, hknown⟩ := h
    rcases turn_of_left rfl rfl hafter with hsame | ⟨s, rfl, hturn⟩
    · rw [hbefore] at hsame
      exact .inl (Option.some.inj hsame ▸ hk)
    · obtain ⟨hinspection, hstopped⟩ := hanswers rfl
      rcases ControllerPhase.dispatches_left hinspection hstopped hbefore (hturn ▸ hafter) hk with
        hk | ⟨dispatch, action, rest, hphase, rfl⟩
      · exact .inl hk
      · exact .inr (settled_not_overdue hs htime hknown hphase)
  finishes {i w} hends := by
    obtain ⟨hlast, hlease⟩ := endsRound_eq_true hends
    rw [hlease]
    exact ⟨(ControllerPhase.left_of_isDispatching hlast).1, rfl⟩

/-! ### Runners -/

variable {cutoff : Time}

theorem controllers_silent (hcutoff : cutoff < w.clock) {j : JobId} {job : ResearchJob}
    (hj : ((controllers H settings).next i w).db.job? j = some job) (hstale : runnerStale cutoff job = true) :
    w.db.job? j = some job := by
  rw [controllers_db] at hj
  cases hop : i.op? settings w with
  | none =>
    rw [hop] at hj
    exact hj
  | some op =>
    rw [hop] at hj
    exact step_silent (ControllerInput.op?_kept hop) (ControllerInput.op?_stamped hop) hcutoff hj hstale

/-- A runner that a replica has listed and that is still silent has the row it was listed with. -/
def RunnersKnown (cutoff : Time) (replica : Nat) (w : ControllerSystem) : Prop :=
  ∀ runner ∈ (w.phases replica).runners, ∀ job, w.db.job? runner.id = some job →
    runnerStale cutoff job = true → job.attempt = runner.attempt ∧ job.updatedAt = runner.updatedAt

theorem RunnersKnown.next (h : RunnersKnown cutoff replica w) (hcutoff : cutoff < w.clock) :
    RunnersKnown cutoff replica ((controllers H settings).next i w) := by
  intro runner hr job hj hstale
  have hbefore := controllers_silent hcutoff hj hstale
  rcases @runners_next H settings i w replica runner hr with hknown | ⟨-, hlisted⟩
  · exact h runner hknown job hbefore hstale
  · obtain ⟨listed, hlisted, -, rfl⟩ := listStaleRunners_spec hlisted
    obtain rfl := Option.some.inj (hbefore.symm.trans hlisted)
    exact ⟨rfl, rfl⟩

/-- A runner that was settled is not silent. -/
theorem settled_not_silent (hcutoff : cutoff < w.clock) (hknown : RunnersKnown cutoff replica w) {runner : StaleRunner}
    {status : DispatchStatus} {rest : List StaleRunner} {s : Surroundings}
    (hphase : w.phases replica = .settlingRunner runner status rest) :
    runner.id ∉ silent ((controllers H settings).next (.turn replica s) w).db cutoff := by
  intro hmem
  obtain ⟨job, hj, hstale⟩ := mem_silent.mp hmem
  have hbefore := controllers_silent hcutoff hj hstale
  obtain ⟨hattempt, htime⟩ := hknown runner (by simp [hphase, ControllerPhase.runners]) job hbefore hstale
  simp only [runnerStale, decide_eq_true_eq] at hstale
  have hop : (ControllerInput.turn replica s).op? settings w = some
      (.reconcileStaleRunner w.clock runner (staleAction settings runner) (staleError status)) := by
    simp [ControllerInput.op?, hphase, ControllerPhase.op?]
  rw [controllers_db, hop] at hj
  change (step H _ w.db).job? runner.id = some job at hj
  rw [step_stale_selected hbefore ⟨hattempt, hstale.1, Int.le_of_eq htime⟩, Database.job?_write hbefore (staleWrite_id ..)] at hj
  have hnow : job.updatedAt = w.clock := by
    rw [← Option.some.inj hj]
    exact staleWrite_stamped
  exact absurd hstale.2.2 (Int.not_le.mpr (hnow ▸ hcutoff))

theorem runners_workedOff (replica : Nat) (cutoff : Time) :
    WorksOff (controllers H settings) (ExecutorAnswers replica)
      (fun w => cutoff + seconds settings.runnerStaleSeconds ≤ w.clock ∧ RunnersKnown cutoff replica w)
      (fun w => silent w.db cutoff) (fun w => (w.phases replica).runnersLeft?) (endsRound H settings replica)
      settings.dispatchReconcileBatchSize where
  keeps {i w} _ h :=
    ⟨Int.le_trans h.1 (controllers_clock i w), h.2.next (Int.lt_of_lt_of_le (Int.lt_add_of_pos_right _ (stale_pos settings)) h.1)⟩
  shrinks {i w} _ h j hmem := by
    have hcutoff := Int.lt_of_lt_of_le (Int.lt_add_of_pos_right cutoff (stale_pos settings)) h.1
    obtain ⟨job, hj, hstale⟩ := mem_silent.mp hmem
    exact mem_silent.mpr ⟨job, controllers_silent hcutoff hj hstale, hstale⟩
  lists {i w listed} _ h hnone hlisted := by
    rcases turn_of_left rfl rfl hlisted with hsame | ⟨s, rfl, hturn⟩
    · rw [hnone] at hsame
      cases hsame
    · obtain ⟨hphase, rfl⟩ := ControllerPhase.runners_listed hnone (hturn ▸ hlisted)
      have hop : (ControllerInput.turn replica s).op? settings w = none := by
        simp [ControllerInput.op?, hphase, ControllerPhase.op?]
      have hids : (listStaleRunners w.db w.clock settings.runnerStaleSeconds settings.dispatchReconcileBatchSize).map
            StaleRunner.id =
          (oldest w.db.jobs.rows ResearchJob.updatedAt (runnerStale (w.clock - seconds settings.runnerStaleSeconds))
            settings.dispatchReconcileBatchSize).map ResearchJob.id := by
        rw [listStaleRunners, List.map_map]
        rfl
      rw [controllers_db, hop, hids]
      exact oldest_keys w.db.jobs.unique (runnerStale_earlier (Int.le_sub_right_of_add_le h.1)) _
  works {i w before after} hanswers h hbefore hafter k hk := by
    obtain ⟨hcutoff, hknown⟩ := h
    rcases turn_of_left rfl rfl hafter with hsame | ⟨s, rfl, hturn⟩
    · rw [hbefore] at hsame
      exact .inl (Option.some.inj hsame ▸ hk)
    · obtain ⟨hinspection, hstopped⟩ := hanswers rfl
      have hold : cutoff < w.clock := Int.lt_of_lt_of_le (Int.lt_add_of_pos_right _ (stale_pos settings)) hcutoff
      rcases ControllerPhase.runners_left hinspection hstopped hbefore (hturn ▸ hafter) hk with
        hk | ⟨runner, status, rest, hphase, rfl⟩
      · exact .inl hk
      · exact .inr (settled_not_silent hold hknown hphase)
  finishes {i w} hends := by
    obtain ⟨hlast, hlease⟩ := endsRound_eq_true hends
    rw [hlease]
    exact ⟨(ControllerPhase.left_of_isDispatching hlast).2, rfl⟩

/-! ### Turns -/

/-- How many turns a replica needs at most before it is at the top of its loop again. -/
def ControllerPhase.toGo (batch : Nat) : ControllerPhase → Nat
  | .follower => 0
  | .checkingLease => 6 * batch + 9
  | .listingDispatches => 6 * batch + 8
  | .inspectingDispatches dispatches => 3 * dispatches.length + (3 * batch + 7)
  | .stoppingDispatch _ rest => 3 * rest.length + (3 * batch + 9)
  | .settlingDispatch _ _ rest => 3 * rest.length + (3 * batch + 8)
  | .listingRunners => 3 * batch + 6
  | .inspectingRunners runners => 3 * runners.length + 5
  | .stoppingRunner _ rest => 3 * rest.length + 7
  | .settlingRunner _ _ rest => 3 * rest.length + 6
  | .claiming => 4
  | .counted => 3
  | .submitting _ => 2
  | .reporting .. => 1

theorem ControllerPhase.toGo_next {now : Time} {leads : Bool} {s : Surroundings} {db : Database} {phase : ControllerPhase}
    (h : phase ≠ .follower) :
    (phase.isDispatching = true ∧ (phase.next H settings now leads s db).2 = .checkingLease) ∨
      ((phase.next H settings now leads s db).2.toGo settings.dispatchReconcileBatchSize) + 1 ≤
        phase.toGo settings.dispatchReconcileBatchSize := by
  cases phase with
  | follower => exact absurd rfl h
  | checkingLease =>
    simp only [next]
    split <;> simp [toGo]
  | listingDispatches =>
    have hlength : (listExpiredDispatches db now settings.dispatchReconcileBatchSize).length ≤
        settings.dispatchReconcileBatchSize := by simp [listExpiredDispatches]
    simp only [next, toGo]
    omega
  | inspectingDispatches dispatches =>
    cases dispatches with
    | nil => simp [next, toGo]
    | cons dispatch rest =>
      simp only [next]
      split
      · right
        simp only [toGo, List.length_cons]
        omega
      · right
        split
        · simp only [toGo, List.length_cons]
          omega
        · simp only [toGo, List.length_cons]
          omega
  | stoppingDispatch dispatch rest =>
    right
    simp only [next]
    split
    · -- It is stopped, and settled next.
      simp only [toGo]
      omega
    · simp only [toGo]
      omega
  | settlingDispatch dispatch action rest =>
    right
    simp only [next]
    split
    · simp only [toGo]
      omega
    · -- An exception leaves the loop.
      simp only [toGo]
      omega
  | listingRunners =>
    have hlength : (listStaleRunners db now settings.runnerStaleSeconds settings.dispatchReconcileBatchSize).length ≤
        settings.dispatchReconcileBatchSize := by simp [listStaleRunners]
    simp only [next, toGo]
    omega
  | inspectingRunners runners =>
    cases runners with
    | nil => simp [next, toGo]
    | cons runner rest =>
      simp only [next]
      split
      · right
        simp only [toGo, List.length_cons]
        omega
      · right
        split
        · simp only [toGo, List.length_cons]
          omega
        · simp only [toGo, List.length_cons]
          omega
  | stoppingRunner runner rest =>
    simp only [next]
    split <;> simp [toGo]
  | settlingRunner runner status rest =>
    simp only [next]
    split <;> simp [toGo]
  | claiming =>
    simp only [next]
    split
    · exact .inl ⟨rfl, rfl⟩
    · simp [toGo]
  | counted =>
    simp only [next]
    split
    · simp [toGo]
    · exact .inl ⟨rfl, rfl⟩
    · simp [toGo]
  | submitting claim =>
    simp only [next]
    split
    · exact .inl ⟨rfl, rfl⟩
    · simp [toGo]
  | reporting claim error =>
    simp only [next]
    split
    · simp [toGo]
    · split
      · exact .inl ⟨rfl, rfl⟩
      · simp [toGo]

/-- A turn is paid for by what is left of the round, a round or an entry by a whole one. -/
theorem toGo_paid (i : ControllerInput) (w : ControllerSystem) (replica : Nat) :
    (((controllers H settings).next i w).phases replica).toGo settings.dispatchReconcileBatchSize +
        (if takesTurn replica i w then 1 else 0) ≤
      (w.phases replica).toGo settings.dispatchReconcileBatchSize + (6 * settings.dispatchReconcileBatchSize + 9) *
        ((if endsRound H settings replica i w then 1 else 0) + if becomesLeader replica i w then 1 else 0) := by
  cases i with
  | tick | request | loseLock => simp [controllers, takesTurn, endsRound, becomesLeader]
  | acquire q =>
    by_cases hin : w.phases q = .follower ∧ w.leader = none
    · by_cases hq : q = replica
      · subst hq
        simp [controllers, ControllerSystem.acquire, takesTurn, endsRound, becomesLeader, hin.1, hin.2, ControllerPhase.toGo]
      · simp [controllers, ControllerSystem.acquire, takesTurn, endsRound, becomesLeader, hin.1, hin.2, hq,
          Function.update_of_ne (Ne.symm hq)]
    · simp [controllers, ControllerSystem.acquire, takesTurn, hin]
  | abandon q =>
    by_cases hq : q = replica
    · simp [controllers, ControllerSystem.enter, takesTurn, hq, ControllerPhase.toGo]
    · simp [controllers, ControllerSystem.enter, takesTurn, Function.update_of_ne (Ne.symm hq)]
  | turn q s =>
    by_cases hq : q = replica
    · subst hq
      have hturn : ((controllers H settings).next (.turn q s) w).phases q =
          ((w.phases q).next H settings w.clock (w.leader = some q) s w.db).2 := Function.update_self ..
      by_cases hphase : w.phases q = .follower
      · simp [hturn, hphase, takesTurn, ControllerPhase.next, ControllerPhase.toGo]
      · have htakes : takesTurn q (.turn q s) w = true := by simp [takesTurn, hphase]
        rcases @ControllerPhase.toGo_next H settings w.clock (w.leader = some q) s w.db _ hphase with
          ⟨hlast, hlease⟩ | hless
        · have hends : endsRound H settings q (.turn q s) w = true := by simp [endsRound, hlast, hturn, hlease]
          have hpos : 1 ≤ (w.phases q).toGo settings.dispatchReconcileBatchSize := by
            cases hcase : w.phases q <;> rw [hcase] at hlast <;> simp [ControllerPhase.toGo] <;> cases hlast
          have hnot : becomesLeader q (.turn q s) w = false := rfl
          rw [hturn, hlease, htakes, hends, hnot]
          have htop : ControllerPhase.toGo settings.dispatchReconcileBatchSize .checkingLease =
              6 * settings.dispatchReconcileBatchSize + 9 := rfl
          rw [htop]
          simp only [if_true, Bool.false_eq_true, if_false]
          omega
        · rw [hturn, htakes]
          simp only [if_true]
          omega
    · have hsame : ((controllers H settings).next (.turn q s) w).phases replica = w.phases replica :=
        Function.update_of_ne (Ne.symm hq) ..
      simp [hsame, takesTurn, hq]

theorem turns_paid (w : ControllerSystem) (inputs : List ControllerInput) (replica : Nat) :
    (((controllers H settings).run w inputs).phases replica).toGo settings.dispatchReconcileBatchSize +
        occurrences (controllers H settings) (takesTurn replica) w inputs ≤
      (w.phases replica).toGo settings.dispatchReconcileBatchSize + (6 * settings.dispatchReconcileBatchSize + 9) *
        (rounds H settings replica w inputs +
          occurrences (controllers H settings) (becomesLeader replica) w inputs) := by
  induction inputs using List.reverseRecOn with
  | nil => exact Nat.le_add_right ..
  | append_singleton inputs i ih =>
    have hpaid := @toGo_paid H settings i ((controllers H settings).run w inputs) replica
    rw [rounds] at ih ⊢
    rw [Machine.run_snoc, occurrences_snoc, occurrences_snoc, occurrences_snoc]
    rw [Nat.mul_add] at hpaid ih ⊢
    rw [Nat.mul_add, Nat.mul_add]
    omega

theorem toGo_le (inputs : List ControllerInput) (replica : Nat) :
    ((controlled H settings inputs).phases replica).toGo settings.dispatchReconcileBatchSize ≤
      6 * settings.dispatchReconcileBatchSize + 9 := by
  induction inputs using List.reverseRecOn with
  | nil => exact Nat.zero_le _
  | append_singleton inputs i ih =>
    rw [controlled_snoc]
    rcases @controllers_phase H settings i (controlled H settings inputs) replica with hsame | hlease | hout | ⟨s, rfl, hturn⟩
    · rwa [hsame]
    · rw [hlease]
      exact Nat.le_refl _
    · rw [hout]
      exact Nat.zero_le _
    · rw [hturn]
      by_cases hphase : (controlled H settings inputs).phases replica = .follower
      · rw [hphase]
        exact Nat.zero_le _
      · rcases @ControllerPhase.toGo_next H settings _ _ s _ _ hphase with ⟨-, hlease⟩ | hless
        · rw [hlease]
          exact Nat.le_refl _
        · exact Nat.le_trans (Nat.le_of_lt hless) ih

/-- The top of the loop, or outside of it. -/
def ControllerPhase.isTop : ControllerPhase → Bool
  | .follower | .checkingLease => true
  | _ => false

/-- Whatever users, runners and other replicas do: each round of a replica whose executor answers
settles a batch of the dispatches that were overdue, or all of them, and likewise of the runners
that were silent; and it completes a round, or has become the leader, every so many of its turns. -/
theorem recovery_progress (H : Hashing) (settings : ControllerSettings) (before inputs : List ControllerInput) (replica : Nat)
    (hanswers : ∀ i ∈ inputs, ExecutorAnswers replica i) (htop : ((controlled H settings before).phases replica).isTop = true)
    (time cutoff : Time) (htime : time ≤ (controlled H settings before).clock)
    (hcutoff : cutoff + seconds settings.runnerStaleSeconds ≤ (controlled H settings before).clock) :
    let w := controlled H settings before
    let w' := controlled H settings (before ++ inputs)
    let batch := settings.dispatchReconcileBatchSize
    let completed := rounds H settings replica w inputs
    (overdue w'.db time).card ≤ (overdue w.db time).card - batch * completed ∧
      (silent w'.db cutoff).card ≤ (silent w.db cutoff).card - batch * completed ∧
      occurrences (controllers H settings) (takesTurn replica) w inputs ≤ (6 * batch + 9) *
        (completed + occurrences (controllers H settings) (becomesLeader replica) w inputs + 1) := by
  intro w w' batch completed
  have hrun : w' = (controllers H settings).run w inputs := Machine.run_append ..
  have hidle : (w.phases replica).dispatches = [] ∧ (w.phases replica).runners = [] ∧
      (w.phases replica).dispatchesLeft? = none ∧ (w.phases replica).runnersLeft? = none := by
    have htop : (w.phases replica).isTop = true := htop
    cases hphase : w.phases replica <;> rw [hphase] at htop <;> first | exact ⟨rfl, rfl, rfl, rfl⟩ | cases htop
  obtain ⟨hnoDispatches, hnoRunners, hdispatches, hrunners⟩ := hidle
  rw [hrun]
  refine ⟨?_, ?_, ?_⟩
  · refine (dispatches_workedOff replica time).bound ⟨controlled_sound before, htime, ?_⟩ hdispatches inputs hanswers
    intro dispatch hd
    rw [show w = controlled H settings before from rfl] at hnoDispatches
    rw [hnoDispatches] at hd
    cases hd
  · refine (runners_workedOff replica cutoff).bound ⟨hcutoff, ?_⟩ hrunners inputs hanswers
    intro runner hr
    rw [show w = controlled H settings before from rfl] at hnoRunners
    rw [hnoRunners] at hr
    cases hr
  · have hpaid := @turns_paid H settings w inputs replica
    have hfirst := @toGo_le H settings before replica
    rw [Nat.mul_add, Nat.mul_one]
    calc occurrences (controllers H settings) (takesTurn replica) w inputs
      _ ≤ _ := Nat.le_add_left ..
      _ ≤ _ := hpaid
      _ ≤ _ := Nat.add_le_add_right hfirst _
      _ = _ := Nat.add_comm ..

namespace Sample

/-- The runner of a dispatch never came up. -/
def lostDispatch : List ControllerInput :=
  [.request (.createJob 0 1 "user" "lost" request) rfl, .acquire 0] ++ uptoCount 0 ++
    [.turn 0 {runnerToken := "token"}, .turn 0 {}, .tick 120000000]

def recoveryRound : List ControllerInput :=
  List.replicate 10 (.turn 0 {inspection := some .missing, runnerToken := "token-2"})

end Sample

theorem recovery_progress_lost :
    (overdue (controlled Sample.hashing Sample.controllerSettings Sample.lostDispatch).db 120000000).card = 1 ∧
      (overdue (controlled Sample.hashing Sample.controllerSettings (Sample.lostDispatch ++ Sample.recoveryRound)).db
        120000000).card = 0 := by
  have hone : (overdue (controlled Sample.hashing Sample.controllerSettings Sample.lostDispatch).db 120000000).card = 1 := by
    decide +kernel
  have hround : rounds Sample.hashing Sample.controllerSettings 0
      (controlled Sample.hashing Sample.controllerSettings Sample.lostDispatch) Sample.recoveryRound = 1 := by decide +kernel
  have hanswers : ∀ i ∈ Sample.recoveryRound, ExecutorAnswers 0 i := by
    intro i hi
    obtain rfl := (List.mem_replicate.mp hi).2
    exact fun _ => ⟨rfl, rfl⟩
  obtain ⟨hless, -, -⟩ := recovery_progress Sample.hashing Sample.controllerSettings Sample.lostDispatch Sample.recoveryRound 0
    hanswers (by decide +kernel) 120000000 0 (by decide +kernel) (by decide +kernel)
  simp only [hone, hround] at hless
  exact ⟨hone, Nat.le_zero.mp (Nat.le_trans hless (by decide))⟩

end

end ResearchGateway
