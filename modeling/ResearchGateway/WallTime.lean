import ResearchGateway.ConcurrencyCap
import ResearchGateway.Fencing
import ResearchGateway.Reconcilers

/-! The wall-time limit across attempts.

A job is accepted for some time from its creation on. The retry of a stale runner
looks at the clock; the requeue of a dispatch and `claim_next` do not, and the
queue has no limit on the wait. So two steps overrun a job that was dispatched
before: the requeue of its lost dispatch after its deadline, and the passing of the
deadline while the job is in the queue. A run without such steps keeps to the wall
time (`wall_time_iff`); after one, the next claim of the job is late, and its runner
is told that there is time left. -/
namespace ResearchGateway
open Library

/-- `created_at + max_wall_time_seconds`. -/
def ResearchJob.deadline (job : ResearchJob) : Time :=
  job.createdAt + seconds job.budget.maxWallTimeSeconds

/-- The time that `to_runner_spec` leaves a runner, in whole seconds. -/
def remainingWallTime (now : Time) (job : ResearchJob) : Int :=
  max 1 ((job.deadline - now).tdiv 1000000)

/-- A runner is always given some time. -/
theorem remainingWallTime_pos (now : Time) (job : ResearchJob) : 1 ≤ remainingWallTime now job :=
  le_max_left ..

/-- A job as `claim_next` finds it. -/
structure Pick where
  now : Time
  job : ResearchJob

/-- The time of the job is not up. -/
def Pick.InTime (pick : Pick) : Prop := pick.now < pick.job.deadline

instance (pick : Pick) : Decidable pick.InTime := inferInstanceAs (Decidable (_ < _))

section
variable (H : Hashing) (settings : ControllerSettings)

/-- The replicas, recording what each claim finds. -/
def picks : Machine ControllerSystem ControllerInput Pick :=
  (controllers H settings).observing fun i w =>
    (i.claims H settings w).filterMap fun claim => (w.db.job? claim.id).map (Pick.mk w.clock)

/-- The jobs that a run dispatched, in order. -/
def picked (inputs : List ControllerInput) : List Pick := (picks H settings).trace .initial inputs

end

section
variable {H : Hashing} {settings : ControllerSettings}

theorem picked_snoc (inputs : List ControllerInput) (i : ControllerInput) :
    picked H settings (inputs ++ [i]) = picked H settings inputs ++
      (i.claims H settings (controlled H settings inputs)).filterMap fun claim =>
        ((controlled H settings inputs).db.job? claim.id).map
          (Pick.mk (controlled H settings inputs).clock) :=
  Machine.trace_observing_snoc ..

/-- The run has dispatched the job. -/
def WasPicked (H : Hashing) (settings : ControllerSettings) (inputs : List ControllerInput)
    (j : JobId) : Prop := ∃ pick ∈ picked H settings inputs, pick.job.id = j

theorem wasPicked_snoc (inputs : List ControllerInput) (i : ControllerInput) (j : JobId) :
    WasPicked H settings (inputs ++ [i]) j ↔ WasPicked H settings inputs j ∨
      ((controlled H settings inputs).db.job? j).isSome = true ∧
        ∃ claim ∈ i.claims H settings (controlled H settings inputs), claim.id = j := by
  have hnew (pick : Pick) (claim : ClaimedJob) :
      ((controlled H settings inputs).db.job? claim.id).map
          (Pick.mk (controlled H settings inputs).clock) = some pick →
        pick.job.id = claim.id := by
    intro hpick
    obtain ⟨job, hj, rfl⟩ := Option.map_eq_some_iff.mp hpick
    exact Database.id_of_job? hj
  unfold WasPicked
  rw [picked_snoc]
  constructor
  · rintro ⟨pick, hpick, rfl⟩
    rcases List.mem_append.mp hpick with hold | hpick
    · exact .inl ⟨pick, hold, rfl⟩
    · obtain ⟨claim, hclaim, hsome⟩ := List.mem_filterMap.mp hpick
      have hid := hnew pick claim hsome
      obtain ⟨job, hj, -⟩ := Option.map_eq_some_iff.mp hsome
      exact .inr ⟨by rw [hid, hj]; rfl, claim, hclaim, hid.symm⟩
  · rintro (⟨pick, hpick, hid⟩ | ⟨hsome, claim, hclaim, rfl⟩)
    · exact ⟨pick, List.mem_append_left _ hpick, hid⟩
    · obtain ⟨job, hj⟩ := Option.isSome_iff_exists.mp hsome
      refine ⟨⟨(controlled H settings inputs).clock, job⟩,
        List.mem_append_right _ (List.mem_filterMap.mpr ⟨claim, hclaim, ?_⟩), Database.id_of_job? hj⟩
      rw [hj]
      rfl

end

section
variable {H : Hashing} {settings : ControllerSettings}

/-- The attempt of a job tells whether the run has dispatched it. -/
theorem attempt_pos_iff (inputs : List ControllerInput) (j : JobId) :
    ((controlled H settings inputs).db.job? j = none → ¬ WasPicked H settings inputs j) ∧
    ∀ job, (controlled H settings inputs).db.job? j = some job →
      (0 < job.attempt ↔ WasPicked H settings inputs j) := by
  induction inputs using List.reverseRecOn with
  | nil =>
    refine ⟨fun _ => ?_, fun job hj => by cases hj⟩
    rintro ⟨pick, hpick, -⟩
    cases hpick
  | append_singleton inputs i ih =>
    obtain ⟨hnone, hsome⟩ := ih
    rw [wasPicked_snoc, controlled_db]
    unfold ControllerInput.claims
    cases hop : i.op? settings (controlled H settings inputs) with
    | none => simpa [Database.apply] using ⟨hnone, hsome⟩
    | some op =>
      have hstep := job_step H op (controlled H settings inputs).db j
      have hclaims : (∃ claim ∈ claimsOf H op (controlled H settings inputs).db, claim.id = j) ↔
          (accountOf H op (controlled H settings inputs).db j).claims ≠ [] := by
        simp [accountOf, List.filter_eq_nil_iff]
      simp only [Database.apply, hclaims]
      refine ⟨fun hgone => ?_, fun job' hj' => ?_⟩
      · have hbefore : (controlled H settings inputs).db.job? j = none :=
          hstep.present (ControllerInput.op?_kept hop) hgone
        simp [hbefore, hnone hbefore]
      · cases hj : (controlled H settings inputs).db.job? j with
        | none =>
          rw [hstep.attempt_absent hj job' hj']
          simp [hnone hj]
        | some job =>
          have hiff := hsome job hj
          rcases hstep.attempt hj hj' with ⟨hquiet, hattempt⟩ | ⟨hclaimed, hattempt⟩
          · simp [hquiet, hattempt, hiff]
          · simp [hclaimed, hattempt]

end

theorem pairwise_of_single {α : Type} {R : α → α → Prop} {l : List α} (h : l.length ≤ 1) :
    l.Pairwise R := by
  cases l with
  | nil => exact List.Pairwise.nil
  | cons a rest =>
    obtain rfl := List.length_eq_zero_iff.mp (Nat.le_zero.mp (Nat.le_of_succ_le_succ h))
    exact List.pairwise_singleton ..

section
variable {H : Hashing} {settings : ControllerSettings}

theorem picked_in_time_iff (inputs : List ControllerInput) :
    ((picked H settings inputs).Pairwise fun earlier later =>
        earlier.job.id = later.job.id → later.InTime) ↔
      ∀ pick ∈ picked H settings inputs, 0 < pick.job.attempt → pick.InTime := by
  induction inputs using List.reverseRecOn with
  | nil => simp [picked, picks]
  | append_singleton inputs i ih =>
    have hattempt := @attempt_pos_iff H settings inputs
    rw [picked_snoc]
    generalize hnew : (i.claims H settings (controlled H settings inputs)).filterMap _ = new
    have hfound (pick : Pick) (hpick : pick ∈ new) :
        0 < pick.job.attempt ↔ ∃ earlier ∈ picked H settings inputs, earlier.job.id = pick.job.id := by
      rw [← hnew] at hpick
      obtain ⟨claim, -, hsome⟩ := List.mem_filterMap.mp hpick
      obtain ⟨job, hj, rfl⟩ := Option.map_eq_some_iff.mp hsome
      have hid := Database.id_of_job? hj
      exact (hattempt job.id).2 job (by rw [hid]; exact hj)
    have hone : new.length ≤ 1 := by
      rw [← hnew]
      refine Nat.le_trans (List.length_filterMap_le ..) ?_
      by_cases hclaims : i.claims H settings (controlled H settings inputs) = []
      · simp [hclaims]
      · exact Nat.le_of_eq (activeCount_take (controlled_sound inputs) hclaims).2
    rw [List.pairwise_append, ih]
    constructor
    · rintro ⟨hold, -, hcross⟩ pick hpick hpos
      rcases List.mem_append.mp hpick with hpick | hpick
      · exact hold pick hpick hpos
      · obtain ⟨earlier, hearlier, hid⟩ := (hfound pick hpick).mp hpos
        exact hcross earlier hearlier pick hpick hid
    · intro hall
      refine ⟨fun pick hpick => hall pick (List.mem_append_left _ hpick), pairwise_of_single hone, ?_⟩
      intro earlier hearlier pick hpick hid
      exact hall pick (List.mem_append_right _ hpick)
        ((hfound pick hpick).mpr ⟨earlier, hearlier, hid⟩)

/-- A claim of a run picks its row. -/
theorem picked_of_claim {inputs later : List ControllerInput} {i : ControllerInput} {claim : ClaimedJob}
    {job : ResearchJob} (hpre : later ++ [i] <+: inputs) (hclaim : claim ∈ i.claims H settings (controlled H settings later))
    (hj : (controlled H settings later).db.job? claim.id = some job) :
    ⟨(controlled H settings later).clock, job⟩ ∈ picked H settings inputs := by
  refine (Machine.mem_trace_observing _).mpr ⟨later, i, hpre, List.mem_filterMap.mpr ⟨claim, hclaim, ?_⟩⟩
  show ((controlled H settings later).db.job? claim.id).map (Pick.mk (controlled H settings later).clock) = _
  rw [hj]
  rfl

/-- A pick is the head of the queue at some step. -/
theorem mem_picked {inputs : List ControllerInput} {pick : Pick} :
    pick ∈ picked H settings inputs ↔ ∃ before i, before ++ [i] <+: inputs ∧
      i.queueHead? (controlled H settings before) = some pick.job ∧
        (controlled H settings before).clock = pick.now := by
  refine (Machine.mem_trace_observing _).trans ?_
  refine exists_congr fun before => exists_congr fun i => and_congr_right fun _ => ?_
  show pick ∈ (i.claims H settings (controlled H settings before)).filterMap (fun claim =>
    ((controlled H settings before).db.job? claim.id).map (Pick.mk (controlled H settings before).clock)) ↔ _
  cases hhead : i.queueHead? (controlled H settings before) with
  | none => simp [ControllerInput.claims_idle hhead]
  | some job =>
    obtain ⟨token, hclaims⟩ := @ControllerInput.claims_head H settings i _ job hhead
    have hrow : (controlled H settings before).db.job? job.id = some job :=
      Database.job?_iff.mpr ⟨(ControllerInput.queueHead?_mem hhead).1, rfl⟩
    obtain ⟨now, picked⟩ := pick
    simp [hclaims, hrow, and_comm, eq_comm]

end

/-! ### How a job gets into the queue late -/

section
variable {H : Hashing} {op : Op} {acct : Account} {job job' : ResearchJob} {w : Write} {j : JobId} {s s' : Slice}

theorem Effect.deadline (h : Effect H op acct job w) : w.job.deadline = job.deadline := by
  cases h with
  | revoked => exact revokeToken_rule (P := fun after => after.deadline = job.deadline) rfl rfl
  | _ => rfl

/-- A row in the queue was there before, or a reconciler put it there. -/
theorem Effect.pending (h : Effect H op acct job w) (hp : w.job.state = .pending) :
    w.job.attempt = job.attempt ∧
      (job.state = .pending ∨ op.expiredDispatch? = some job.id ∨ op.staleRunner? = some job.id) := by
  cases h with
  | renewed | touched | progressed | charged => exact ⟨rfl, .inl hp⟩
  | dispatchRequeued _ _ hop => exact ⟨rfl, .inr (.inl hop)⟩
  | runnerRequeued _ hop => exact ⟨rfl, .inr (.inr hop)⟩
  | dispatched | started | cancelRequested | succeeded => cases hp
  | closed hst => rcases hst with ⟨rfl, -⟩ | ⟨rfl, -⟩ <;> cases hp
  | revoked hst =>
    rw [revokeToken_state] at hp
    rw [hp] at hst
    cases hst

theorem JobStep.pending (h : JobStep H op j acct s s') (hret : op.isRetention = false) (hj' : s'.job = some job')
    (hp : job'.state = .pending) (hpos : 0 < job'.attempt) :
    ∃ job, s.job = some job ∧ job'.attempt = job.attempt ∧ job'.deadline = job.deadline ∧
      (job.state = .pending ∨ op.expiredDispatch? = some j ∨ op.staleRunner? = some j) := by
  cases h with
  | kept => exact ⟨job', hj', rfl, rfl, .inl hp⟩
  | created =>
    obtain rfl := Option.some.inj hj'
    cases hpos
  | written hid heffect =>
    obtain rfl := Option.some.inj hj'
    obtain ⟨hattempt, hqueue⟩ := heffect.pending hp
    exact ⟨_, rfl, hattempt, heffect.deadline, by rwa [hid] at hqueue⟩
  | pruned hop | artifactDeleted hop | orphaned hop | removed hop =>
    rw [hret] at hop
    cases hop

/-- A job that has an attempt behind it and no time left stays so. -/
theorem JobStep.spent (h : JobStep H op j acct s s') (hret : op.isRetention = false) (hj : s.job = some job)
    (hpos : 0 < job.attempt) :
    ∃ job', s'.job = some job' ∧ 0 < job'.attempt ∧ job'.deadline = job.deadline := by
  cases h with
  | kept => exact ⟨job, hj, hpos, rfl⟩
  | created => cases hj
  | written _ heffect =>
    obtain rfl := Option.some.inj hj
    refine ⟨_, rfl, ?_, heffect.deadline⟩
    rcases heffect.token with ⟨-, hattempt, -⟩ | ⟨token, -, hattempt, -⟩ <;> omega
  | pruned hop | artifactDeleted hop | orphaned hop | removed hop =>
    rw [hret] at hop
    cases hop

end

section
variable {H : Hashing} {settings : ControllerSettings} {db : Database} {job job' : ResearchJob}

/-- A dispatch goes back to the queue only by a requeue. -/
theorem dispatchWrite_pending {now : Time} {action : DispatchAction} {lease : Nat} {error : String}
    (hs : job.state = .dispatched ∨ job.state = .cancelRequested)
    (h : (dispatchWrite now action lease error job).job.state = .pending) :
    action = .requeue ∧ job.state = .dispatched := by
  unfold dispatchWrite at h
  split at h
  · rcases hs with hs | hs <;> simp [hs] at h
  · simp only [closeReconciled_state, settleDispatch] at h
    split at h
    · cases h
    · rename_i hcancel
      split at h
      · rename_i hrequeue
        exact ⟨hrequeue, hs.resolve_right hcancel⟩
      · cases h

/-- A stale runner's job goes back to the queue only within its time. -/
theorem staleWrite_in_time {now : Time} {action : StaleAction} {error : String}
    (hs : job.state = .running ∨ job.state = .cancelRequested)
    (h : (staleWrite now action error job).job.state = .pending) : now < job.deadline := by
  obtain rfl := staleWrite_pending hs h
  simp only [staleWrite, reduceCtorEq, if_false, closeReconciled_state, settleStale, if_true] at h
  split at h
  · cases h
  · split at h
    · cases h
    · rename_i hwall
      exact Int.not_le.mp hwall

theorem dispatch_requeued {now : Time} {dispatch : ExpiredDispatch} {action : DispatchAction} {lease : Nat}
    {error : String} (hj : db.job? dispatch.id = some job)
    (hj' : (step H (.reconcileExpiredDispatch now dispatch action lease error) db).job? dispatch.id = some job')
    (hp : job'.state = .pending) :
    job.state = .pending ∨ action = .requeue ∧ dispatchMatches dispatch job ∧ job.state = .dispatched := by
  by_cases hm : dispatchMatches dispatch job
  · rw [step_dispatch_selected hj hm, Database.job?_write hj (dispatchWrite_id ..)] at hj'
    obtain rfl := Option.some.inj hj'
    obtain ⟨haction, hs⟩ := dispatchWrite_pending hm.2.1 hp
    exact .inr ⟨haction, hm, hs⟩
  · rw [step_dispatch_skipped fun x hx => by rwa [Option.some.inj (hx.symm.trans hj)]] at hj'
    rw [Option.some.inj (hj.symm.trans hj')]
    exact .inl hp

theorem runner_requeued {now : Time} {runner : StaleRunner} {action : StaleAction} {error : String}
    (hj : db.job? runner.id = some job)
    (hj' : (step H (.reconcileStaleRunner now runner action error) db).job? runner.id = some job')
    (hp : job'.state = .pending) : job.state = .pending ∨ now < job.deadline := by
  by_cases hm : staleMatches runner job
  · rw [step_stale_selected hj hm, Database.job?_write hj (staleWrite_id ..)] at hj'
    obtain rfl := Option.some.inj hj'
    exact .inr (staleWrite_in_time hm.2.1 hp)
  · rw [step_stale_skipped fun x hx => by rwa [Option.some.inj (hx.symm.trans hj)]] at hj'
    rw [Option.some.inj (hj.symm.trans hj')]
    exact .inl hp

end

/-- A replica is about to requeue the lost dispatch of a job whose time is up. -/
structure RequeuesLate (w : ControllerSystem) (i : ControllerInput) (job : ResearchJob) : Prop where
  dispatched : job.state = .dispatched
  late : job.deadline ≤ w.clock
  requeues : ∃ replica s dispatch rest, i = .turn replica s ∧
    w.phases replica = .settlingDispatch dispatch .requeue rest ∧ dispatch.id = job.id ∧ dispatchMatches dispatch job

/-- The time of a job runs out while it is in the queue. -/
structure WaitsPast (w : ControllerSystem) (i : ControllerInput) (job : ResearchJob) : Prop where
  pending : job.state = .pending
  inTime : w.clock < job.deadline
  passes : ∃ microseconds, i = .tick microseconds ∧ job.deadline ≤ w.clock + microseconds

/-- A step that leaves a job with an attempt behind it in the queue although its time is up. -/
def ControllerInput.Overruns (w : ControllerSystem) (i : ControllerInput) (j : JobId) : Prop :=
  ∃ job, w.db.job? j = some job ∧ 0 < job.attempt ∧ (RequeuesLate w i job ∨ WaitsPast w i job)

/-- The job has an attempt behind it and no time left. -/
def Spent (w : ControllerSystem) (j : JobId) : Prop :=
  ∃ job, w.db.job? j = some job ∧ 0 < job.attempt ∧ job.deadline ≤ w.clock

/-- A job that waits for another attempt although its time is up. -/
def WaitsLate (w : ControllerSystem) (j : JobId) : Prop :=
  ∃ job, w.db.job? j = some job ∧ job.state = .pending ∧ 0 < job.attempt ∧ job.deadline ≤ w.clock

section
variable {H : Hashing} {settings : ControllerSettings} {w : ControllerSystem} {i : ControllerInput} {j : JobId}

/-- Which replica reconciles a dispatch. -/
theorem ControllerInput.op?_expiredDispatch {op : Op} (h : i.op? settings w = some op)
    (hop : op.expiredDispatch? = some j) : ∃ replica s dispatch action rest, i = .turn replica s ∧
      w.phases replica = .settlingDispatch dispatch action rest ∧ dispatch.id = j ∧
      op = .reconcileExpiredDispatch w.clock dispatch action settings.dispatchLeaseSeconds dispatchError := by
  cases i with
  | request op' hrequest =>
    cases h
    have := Op.stamped_isRequest hrequest w.clock
    generalize op'.stamped w.clock = op at this hop
    cases op <;> simp_all [Op.expiredDispatch?, Op.isRequest]
  | turn replica s =>
    rcases ControllerPhase.op?_cases h with ⟨dispatch, action, rest, hphase, rfl⟩ | ⟨_, _, _, -, rfl⟩ | ⟨-, rfl⟩ |
      ⟨_, _, _, -, rfl⟩
    · exact ⟨replica, s, dispatch, action, rest, rfl, hphase, Option.some.inj hop, rfl⟩
    all_goals cases hop
  | _ => cases h

/-- Which replica reconciles a runner. -/
theorem ControllerInput.op?_staleRunner {op : Op} (h : i.op? settings w = some op)
    (hop : op.staleRunner? = some j) : ∃ runner action error, runner.id = j ∧
      op = .reconcileStaleRunner w.clock runner action error := by
  cases i with
  | request op' hrequest =>
    cases h
    have := Op.stamped_isRequest hrequest w.clock
    generalize op'.stamped w.clock = op at this hop
    cases op <;> simp_all [Op.staleRunner?, Op.isRequest]
  | turn replica s =>
    rcases ControllerPhase.op?_cases h with ⟨_, _, _, -, rfl⟩ | ⟨runner, status, rest, -, rfl⟩ | ⟨-, rfl⟩ |
      ⟨_, _, _, -, rfl⟩
    · cases hop
    · exact ⟨runner, _, _, Option.some.inj hop, rfl⟩
    all_goals cases hop
  | _ => cases h

/-- Only a tick moves the clock. -/
theorem controllers_clock_cases (H : Hashing) (settings : ControllerSettings) (i : ControllerInput) (w : ControllerSystem) :
    (∃ microseconds : Nat, i = .tick microseconds ∧ ((controllers H settings).next i w).clock = w.clock + microseconds) ∨
      ((controllers H settings).next i w).clock = w.clock := by
  cases i with
  | tick microseconds => exact .inl ⟨microseconds, rfl, rfl⟩
  | acquire replica =>
    refine .inr ?_
    show (w.acquire replica).clock = w.clock
    unfold ControllerSystem.acquire
    split <;> rfl
  | _ => exact .inr rfl

/-- A job is late in the queue after a step only if it was before, or the step overruns it. -/
theorem waitsLate_next (h : WaitsLate ((controllers H settings).next i w) j) : WaitsLate w j ∨ i.Overruns w j := by
  obtain ⟨job', hj', hp, hpos, hlate⟩ := h
  rcases controllers_clock_cases H settings i w with ⟨microseconds, rfl, -⟩ | hclock
  · by_cases hin : w.clock < job'.deadline
    · exact .inr ⟨job', hj', hpos, .inr ⟨hp, hin, microseconds, rfl, hlate⟩⟩
    · exact .inl ⟨job', hj', hp, hpos, Int.not_lt.mp hin⟩
  · rw [hclock] at hlate
    rw [controllers_db] at hj'
    cases hop : i.op? settings w with
    | none =>
      rw [hop] at hj'
      exact .inl ⟨job', hj', hp, hpos, hlate⟩
    | some op =>
      rw [hop] at hj'
      obtain ⟨job, hj, hattempt, hdeadline, hqueue⟩ :=
        (job_step H op w.db j).pending (ControllerInput.op?_kept hop) hj' hp hpos
      replace hj : w.db.job? j = some job := hj
      rw [hattempt] at hpos
      rw [hdeadline] at hlate
      have hwaits (hpending : job.state = .pending) : WaitsLate w j := ⟨job, hj, hpending, hpos, hlate⟩
      rcases hqueue with hpending | hexpired | hstale
      · exact .inl (hwaits hpending)
      · obtain ⟨replica, s, dispatch, action, rest, rfl, hphase, rfl, rfl⟩ :=
          ControllerInput.op?_expiredDispatch hop hexpired
        rcases dispatch_requeued hj hj' hp with hpending | ⟨rfl, hm, hs⟩
        · exact .inl (hwaits hpending)
        · exact .inr ⟨job, hj, hpos, .inl ⟨hs, hlate, replica, s, dispatch, rest, rfl, hphase,
            (Database.id_of_job? hj).symm, hm⟩⟩
      · obtain ⟨runner, action, error, rfl, rfl⟩ := ControllerInput.op?_staleRunner hop hstale
        rcases runner_requeued hj hj' hp with hpending | hwall
        · exact .inl (hwaits hpending)
        · exact absurd hlate (Int.not_le.mpr hwall)

theorem spent_next (h : Spent w j) : Spent ((controllers H settings).next i w) j := by
  obtain ⟨job, hj, hpos, hlate⟩ := h
  have hclock := Int.le_trans hlate (@controllers_clock H settings i w)
  rw [Spent, controllers_db]
  cases hop : i.op? settings w with
  | none => exact ⟨job, hj, hpos, hclock⟩
  | some op =>
    obtain ⟨job', hj', hpos', hdeadline⟩ := (job_step H op w.db j).spent (ControllerInput.op?_kept hop) hj hpos
    exact ⟨job', hj', hpos', hdeadline ▸ hclock⟩

theorem ControllerInput.Overruns.spent (h : i.Overruns w j) : Spent ((controllers H settings).next i w) j := by
  obtain ⟨job, hj, hpos, hlate | ⟨-, -, microseconds, rfl, hlate⟩⟩ := h
  · exact spent_next ⟨job, hj, hpos, hlate.late⟩
  · exact ⟨job, hj, hpos, hlate⟩

/-! ### Over a run -/

/-- A job that is late in the queue was overrun by a step of the run. -/
theorem waitsLate_run (inputs : List ControllerInput) (h : WaitsLate (controlled H settings inputs) j) :
    ∃ before i, before ++ [i] <+: inputs ∧ i.Overruns (controlled H settings before) j := by
  induction inputs using List.reverseRecOn with
  | nil =>
    obtain ⟨job, hj, -⟩ := h
    cases hj
  | append_singleton inputs i ih =>
    rw [controlled_snoc] at h
    rcases waitsLate_next h with hbefore | hoverruns
    · obtain ⟨before, i', hpre, hoverruns⟩ := ih hbefore
      exact ⟨before, i', hpre.trans (List.prefix_append ..), hoverruns⟩
    · exact ⟨inputs, i, List.prefix_rfl, hoverruns⟩

theorem spent_run {before after : List ControllerInput} (h : Spent (controlled H settings before) j) :
    Spent (controlled H settings (before ++ after)) j := by
  unfold controlled
  rw [Machine.run_append]
  exact Machine.run_invariant (A := fun _ => True) (P := fun w => Spent w j) (fun _ _ _ => spent_next) h after
    fun _ _ => trivial

/-- The job is claimed by a step after those of `before`. -/
def ClaimedAfter (H : Hashing) (settings : ControllerSettings) (inputs before : List ControllerInput) (j : JobId) :
    Prop :=
  ∃ later i, before <+: later ∧ later ++ [i] <+: inputs ∧
    ∃ claim ∈ i.claims H settings (controlled H settings later), claim.id = j

end

/-- In a run that requeues no dispatch after the deadline of its job, and in which no deadline passes while a
job waits for another attempt, a job that was dispatched once is only ever dispatched again within its wall time;
that is so exactly in the runs that claim no job again after they have overrun it. -/
theorem wall_time_iff (H : Hashing) (settings : ControllerSettings) (inputs : List ControllerInput) :
    ((∀ before i, before ++ [i] <+: inputs → ∀ j, ¬ i.Overruns (controlled H settings before) j) →
      (picked H settings inputs).Pairwise fun earlier later =>
        earlier.job.id = later.job.id → later.InTime) ∧
    (((picked H settings inputs).Pairwise fun earlier later =>
        earlier.job.id = later.job.id → later.InTime) ↔
      ∀ before i, before ++ [i] <+: inputs → ∀ j, i.Overruns (controlled H settings before) j →
        ¬ ClaimedAfter H settings inputs (before ++ [i]) j) := by
  have hiff : ((picked H settings inputs).Pairwise fun earlier later =>
        earlier.job.id = later.job.id → later.InTime) ↔
      ∀ before i, before ++ [i] <+: inputs → ∀ j, i.Overruns (controlled H settings before) j →
        ¬ ClaimedAfter H settings inputs (before ++ [i]) j := by
    rw [picked_in_time_iff]
    constructor
    · rintro hall before i - j hoverruns ⟨later, i', hpre, hlater, claim, hclaim, rfl⟩
      obtain ⟨after, rfl⟩ := hpre
      have hspent : Spent (controlled H settings (before ++ [i])) claim.id := by
        rw [controlled_snoc]
        exact hoverruns.spent
      obtain ⟨job, hj, hpos, hlate⟩ := @spent_run H settings _ _ after hspent
      exact absurd (hall ⟨_, job⟩ (picked_of_claim hlater hclaim hj) hpos) (Int.not_lt.mpr hlate)
    · rintro hnone ⟨now, job⟩ hpick hpos
      obtain ⟨later, i', hlater, hhead, rfl⟩ := mem_picked.mp hpick
      by_contra hlate
      obtain ⟨hrow, hpending⟩ := ControllerInput.queueHead?_mem hhead
      obtain ⟨token, hclaims⟩ := @ControllerInput.claims_head H settings i' _ job hhead
      obtain ⟨before, i, hpre, hoverruns⟩ := waitsLate_run later
        ⟨job, Database.job?_iff.mpr ⟨hrow, rfl⟩, hpending, hpos, Int.not_lt.mp hlate⟩
      refine hnone before i (hpre.trans ((List.prefix_append ..).trans hlater)) job.id hoverruns
        ⟨later, i', hpre, hlater, ⟨job.id, token, job.attempt + 1⟩, ?_, rfl⟩
      simp [hclaims]
  exact ⟨fun hnone => hiff.mpr fun before i hpre j hoverruns => absurd hoverruns (hnone before i hpre j), hiff⟩

/-! ### A requeue after the deadline -/
namespace Sample

/-- A job with a minute; its dispatch is lost and found after two. -/
def lateRequeue : List ControllerInput :=
  [.request (.createJob 0 1 "user" "key" {request with
      budget := {request.budget with maxWallTimeSeconds := 60, wall_time_ge := by decide}}) rfl,
    .acquire 0] ++ uptoCount 0 ++
  [.turn 0 {runnerToken := "token-1"}, .turn 0 {}, .tick 120000000, .turn 0 {}, .turn 0 {},
    .turn 0 {inspection := some .missing}, .turn 0 {}, .turn 0 {}, .turn 0 {}, .turn 0 {}, .turn 0 {},
    .turn 0 {runnerToken := "token-2"}]

end Sample

/-- The second dispatch comes a minute after the deadline and gives its runner a second. -/
theorem wall_time_bypassed :
    ¬ (picked Sample.hashing Sample.controllerSettings Sample.lateRequeue).Pairwise
        (fun earlier later => earlier.job.id = later.job.id → later.InTime) ∧
      (picked Sample.hashing Sample.controllerSettings Sample.lateRequeue).map
        (fun pick => (pick.now - pick.job.deadline, remainingWallTime pick.now pick.job)) =
          [(-60000000, 60), (60000000, 1)] := by
  decide +kernel

end ResearchGateway
