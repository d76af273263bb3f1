import ResearchGateway.Fencing
import ResearchGateway.Reconcilers
import ResearchGateway.Stamps

/-! What a replica still knows about the jobs it listed.

Between the listing and the change lie calls of the executor, and everybody else goes
on. A listed runner is either as it was, or its row has a later time, a later attempt
or a terminal state (`runners_tracked`). A listed dispatch that its `WHERE` still
selects has the lease that ran out, as long as nobody else reconciles dispatches at
the same time (`dispatches_tracked`): a renewal is the one thing it does not look at. -/
namespace ResearchGateway
open Library

/-! ### What a listing says -/

section
variable {db : Database} {now : Time}

theorem listExpiredDispatches_spec {limit : Nat} {dispatch : ExpiredDispatch}
    (h : dispatch ∈ listExpiredDispatches db now limit) :
    ∃ job, db.job? dispatch.id = some job ∧ dispatchExpired now job = true ∧
      dispatch = ⟨job.id, job.attempt, job.state⟩ := by
  obtain ⟨job, hjob, rfl⟩ := List.mem_map.mp h
  have hmem := (List.mem_insertionSort _).mp (List.mem_of_mem_take hjob)
  obtain ⟨hrow, hp⟩ := List.mem_filter.mp hmem
  exact ⟨job, Database.job?_iff.mpr ⟨hrow, rfl⟩, hp, rfl⟩

/-- A listing names a job once. -/
theorem listExpiredDispatches_nodup (limit : Nat) :
    ((listExpiredDispatches db now limit).map ExpiredDispatch.id).Nodup := by
  unfold listExpiredDispatches
  rw [List.map_map]
  have hids : (db.jobs.rows.filter (dispatchExpired now)).map ResearchJob.id |>.Nodup :=
    db.jobs.unique.sublist (List.filter_sublist.map _)
  have hsorted := ((List.perm_insertionSort (fun a b : ResearchJob =>
    a.dispatchLeaseExpiresAt.getD 0 ≤ b.dispatchLeaseExpiresAt.getD 0) _).map
      ResearchJob.id).nodup_iff.mpr hids
  exact hsorted.sublist ((List.take_sublist ..).map _)

theorem listStaleRunners_spec {staleSeconds limit : Nat} {runner : StaleRunner}
    (h : runner ∈ listStaleRunners db now staleSeconds limit) :
    ∃ job, db.job? runner.id = some job ∧ runnerStale (now - seconds staleSeconds) job = true ∧
      runner = ⟨job.id, job.attempt, job.state, job.updatedAt⟩ := by
  obtain ⟨job, hjob, rfl⟩ := List.mem_map.mp h
  have hmem := (List.mem_insertionSort _).mp (List.mem_of_mem_take hjob)
  obtain ⟨hrow, hp⟩ := List.mem_filter.mp hmem
  exact ⟨job, Database.job?_iff.mpr ⟨hrow, rfl⟩, hp, rfl⟩

end

/-! ### Listed runners -/

/-- The row is as it was listed. -/
structure AsListed (runner : StaleRunner) (job : ResearchJob) : Prop where
  attempt : job.attempt = runner.attempt
  state : job.state = runner.state
  updatedAt : job.updatedAt = runner.updatedAt
  started : job.startedAt ≠ none
  reporting : job.state = .running ∨ job.state = .cancelRequested

instance (runner : StaleRunner) (job : ResearchJob) : Decidable (AsListed runner job) :=
  decidable_of_iff (job.attempt = runner.attempt ∧ job.state = runner.state ∧
      job.updatedAt = runner.updatedAt ∧ job.startedAt ≠ none ∧
      (job.state = .running ∨ job.state = .cancelRequested))
    ⟨fun ⟨ha, hs, hu, hst, hr⟩ => ⟨ha, hs, hu, hst, hr⟩,
      fun ⟨ha, hs, hu, hst, hr⟩ => ⟨ha, hs, hu, hst, hr⟩⟩

/-- What can have become of the row of a listed runner. -/
structure Tracks (runner : StaleRunner) (job : ResearchJob) : Prop where
  attempt : runner.attempt ≤ job.attempt
  since : job.attempt = runner.attempt →
    AsListed runner job ∨ runner.updatedAt < job.updatedAt ∨ job.state.isTerminal = true

/-- A row that the reconciler selects is the one that was listed. -/
theorem Tracks.asListed {runner : StaleRunner} {job : ResearchJob} (h : Tracks runner job)
    (hm : staleMatches runner job) : AsListed runner job := by
  obtain ⟨hattempt, hstate, hold⟩ := hm
  rcases h.since hattempt with hlisted | hlater | hterminal
  · exact hlisted
  · exact absurd hold (Int.not_le.mpr hlater)
  · rcases hstate with hs | hs <;> rw [hs] at hterminal <;> cases hterminal

theorem Tracks.listed {cutoff : Time} {job : ResearchJob} (h : runnerStale cutoff job = true) :
    Tracks ⟨job.id, job.attempt, job.state, job.updatedAt⟩ job := by
  simp only [runnerStale, decide_eq_true_eq] at h
  exact ⟨Nat.le_refl _, fun _ => .inl ⟨rfl, rfl, rfl, h.2.1, h.1⟩⟩

/-- One operation at a time after the one the runner was listed with. -/
theorem Tracks.next {H : Hashing} {op : Op} {db : Database} {now : Time} {runner : StaleRunner}
    {job : ResearchJob} (hop : op.isRetention = false) (hstamp : op.stamped now = op)
    (hlater : runner.updatedAt < now) (hj : db.job? runner.id = some job) (h : Tracks runner job) :
    ∃ job', (step H op db).job? runner.id = some job' ∧ Tracks runner job' := by
  have hstep := job_step H op db runner.id
  cases hj' : (step H op db).job? runner.id with
  | none =>
    have hgone : db.job? runner.id = none := hstep.present hop hj'
    rw [hj] at hgone
    cases hgone
  | some job' =>
    have hattempt : job.attempt ≤ job'.attempt := by
      rcases hstep.attempt hj hj' with ⟨-, hsame⟩ | ⟨-, hnext⟩ <;> omega
    refine ⟨job', rfl, Nat.le_trans h.attempt hattempt, fun hsame => ?_⟩
    rcases step_stamped H hstamp hop db runner.id job' hj' with hkept | htime | hterminal
    · obtain rfl := Option.some.inj (hj.symm.trans hkept)
      exact h.since hsame
    · exact .inr (.inl (by rw [htime]; exact hlater))
    · exact .inr (.inr hterminal)

section
variable {H : Hashing} {settings : ControllerSettings}

/-- A runner that a replica has listed was silent for long enough by then. -/
def RunnersTracked (settings : ControllerSettings) (w : ControllerSystem) : Prop :=
  ∀ replica, ∀ runner ∈ (w.phases replica).runners,
    runner.updatedAt + seconds settings.runnerStaleSeconds ≤ w.clock ∧
      ∃ job, w.db.job? runner.id = some job ∧ Tracks runner job

theorem seconds_pos {n : Nat} (h : 1 ≤ n) : 0 < seconds n := by
  unfold seconds
  have : (1 : Int) ≤ n := by exact_mod_cast h
  show (0 : Int) < n * 1000000
  omega

theorem stale_pos (settings : ControllerSettings) : 0 < seconds settings.runnerStaleSeconds :=
  seconds_pos (Nat.le_trans (by decide) settings.stale_ge)

/-- The runners that a replica knows after an input. -/
theorem runners_next {i : ControllerInput} {w : ControllerSystem} {replica : Nat}
    {runner : StaleRunner}
    (h : runner ∈ (((controllers H settings).next i w).phases replica).runners) :
    runner ∈ (w.phases replica).runners ∨ (i.op? settings w = none ∧
      runner ∈ listStaleRunners w.db w.clock settings.runnerStaleSeconds
        settings.dispatchReconcileBatchSize) := by
  rcases controllers_phase i w replica with hsame | hlease | hout | ⟨s, rfl, hturn⟩
  · rw [hsame] at h
    exact .inl h
  · rw [hlease] at h
    cases h
  · rw [hout] at h
    cases h
  · rw [hturn] at h
    rcases @ControllerPhase.next_runners H settings w.clock (w.leader = some replica) s w.db
      (w.phases replica) with hrest | ⟨hlisting, hlisted⟩
    · exact .inl (hrest.subset h)
    · rw [hlisted] at h
      exact .inr ⟨by simp [ControllerInput.op?, hlisting, ControllerPhase.op?], h⟩

theorem runners_tracked (inputs : List ControllerInput) :
    RunnersTracked settings (controlled H settings inputs) := by
  induction inputs using List.reverseRecOn with
  | nil => intro replica runner h; cases h
  | append_singleton inputs i ih =>
    intro replica runner h
    rw [controlled_snoc] at h
    have hclock := @controllers_clock H settings i (controlled H settings inputs)
    rw [controlled_db, controlled_snoc]
    rcases runners_next h with hknown | ⟨hquiet, hlisted⟩
    · obtain ⟨hsilent, job, hj, htracks⟩ := ih replica runner hknown
      refine ⟨Int.le_trans hsilent hclock, ?_⟩
      cases hop : i.op? settings (controlled H settings inputs) with
      | none => exact ⟨job, hj, htracks⟩
      | some op =>
        have hlater : runner.updatedAt < (controlled H settings inputs).clock :=
          Int.lt_of_lt_of_le (Int.lt_add_of_pos_right _ (stale_pos settings)) hsilent
        exact htracks.next (ControllerInput.op?_kept hop) (ControllerInput.op?_stamped hop) hlater hj
    · obtain ⟨job, hj, hstale, rfl⟩ := listStaleRunners_spec hlisted
      rw [hquiet]
      refine ⟨?_, job, hj, Tracks.listed hstale⟩
      simp only [runnerStale, decide_eq_true_eq] at hstale
      exact Int.le_trans (Int.add_le_of_le_sub_right hstale.2.2) hclock

end

/-! ### Listed dispatches -/

/-- The lease in the row has run out. -/
def LeaseRanOut (now : Time) (job : ResearchJob) : Prop :=
  job.dispatchLeaseExpiresAt.any (fun expires => expires ≤ now) = true

instance (now : Time) (job : ResearchJob) : Decidable (LeaseRanOut now job) :=
  inferInstanceAs (Decidable (_ = true))

theorem LeaseRanOut.later {now later : Time} {job : ResearchJob} (h : LeaseRanOut now job)
    (hle : now ≤ later) : LeaseRanOut later job := by
  obtain ⟨expires, hlease, hold⟩ := (Option.any_eq_true _ _).mp h
  exact (Option.any_eq_true _ _).mpr
    ⟨expires, hlease, decide_eq_true (Int.le_trans (of_decide_eq_true hold) hle)⟩

/-- A dispatch that its `WHERE` selects was listed with the attempt and the lease it has. -/
structure LeaseTracked (now : Time) (dispatch : ExpiredDispatch) (job : ResearchJob) : Prop where
  attempt : dispatch.attempt ≤ job.attempt
  lease : dispatchMatches dispatch job → LeaseRanOut now job

section
variable {H : Hashing} {op : Op} {acct : Account} {j : JobId} {s s' : Slice} {job job' : ResearchJob}
  {w : Write} {dispatch : ExpiredDispatch}

/-- Only the dispatch reconciler gives a dispatch another lease. -/
theorem Effect.lease_kept (h : Effect H op acct job w) (hs : RowSound job)
    (hop : op.expiredDispatch? ≠ some job.id) (hattempt : dispatch.attempt ≤ job.attempt)
    (hm : dispatchMatches dispatch w.job) :
    dispatchMatches dispatch job ∧ w.job.dispatchLeaseExpiresAt = job.dispatchLeaseExpiresAt := by
  obtain ⟨hsame, hstate, hstart⟩ := hm
  cases h with
  | dispatched =>
    have : job.attempt + 1 = dispatch.attempt := hsame
    omega
  | renewed _ _ hrenew => exact absurd hrenew hop
  | touched | progressed | charged => exact ⟨⟨hsame, hstate, hstart⟩, rfl⟩
  | cancelRequested hst =>
    rcases hst with hst | hst
    · exact ⟨⟨hsame, .inl hst, hstart⟩, rfl⟩
    · have hrunning := hs.running hst
      simp only at hstart
      simp [hstart] at hrunning
  | dispatchRequeued | runnerRequeued | started => simp at hstate
  | succeeded => simp [succeededJob] at hstate
  | closed hst => rcases hst with ⟨rfl, -⟩ | ⟨rfl, -⟩ <;> simp at hstate
  | revoked hst =>
    simp only [hs.revokeToken_eq hst] at hstate
    rcases hstate with hstate | hstate <;> rw [hstate] at hst <;> cases hst

theorem JobStep.lease_kept (h : JobStep H op j acct s s') (hret : op.isRetention = false)
    (hs : s.Sound) (hop : op.expiredDispatch? ≠ some j) (hj : s.job = some job)
    (hj' : s'.job = some job') (hattempt : dispatch.attempt ≤ job.attempt)
    (hm : dispatchMatches dispatch job') :
    dispatchMatches dispatch job ∧ job'.dispatchLeaseExpiresAt = job.dispatchLeaseExpiresAt := by
  cases h with
  | kept =>
    obtain rfl := Option.some.inj (hj.symm.trans hj')
    exact ⟨hm, rfl⟩
  | created => cases hj
  | written hid heffect =>
    obtain rfl := Option.some.inj hj
    obtain rfl := Option.some.inj hj'
    exact heffect.lease_kept (hs.row _ rfl) (by rwa [hid]) hattempt hm
  | pruned hop | artifactDeleted hop | orphaned hop | removed hop =>
    rw [hret] at hop
    cases hop

end

theorem LeaseTracked.next {H : Hashing} {op : Op} {db : Database} {now : Time}
    {dispatch : ExpiredDispatch} {job : ResearchJob} (hs : Sound db) (hret : op.isRetention = false)
    (hop : op.expiredDispatch? ≠ some dispatch.id) (hj : db.job? dispatch.id = some job)
    (h : LeaseTracked now dispatch job) :
    ∃ job', (step H op db).job? dispatch.id = some job' ∧ LeaseTracked now dispatch job' := by
  have hstep := job_step H op db dispatch.id
  cases hj' : (step H op db).job? dispatch.id with
  | none =>
    have hgone : db.job? dispatch.id = none := hstep.present hret hj'
    rw [hj] at hgone
    cases hgone
  | some job' =>
    have hattempt : job.attempt ≤ job'.attempt := by
      rcases hstep.attempt hj hj' with ⟨-, hsame⟩ | ⟨-, hnext⟩ <;> omega
    refine ⟨job', rfl, Nat.le_trans h.attempt hattempt, fun hm => ?_⟩
    obtain ⟨hbefore, hlease⟩ := hstep.lease_kept hret (hs _) hop hj hj' h.attempt hm
    unfold LeaseRanOut
    rw [hlease]
    exact h.lease hbefore

section
variable {H : Hashing} {settings : ControllerSettings}

/-- No two replicas hold dispatches they have listed. -/
def DispatchesAlone (w : ControllerSystem) : Prop :=
  ∀ replica other, (w.phases replica).dispatches ≠ [] → (w.phases other).dispatches ≠ [] →
    replica = other

def DispatchesTracked (w : ControllerSystem) : Prop :=
  ∀ replica, ((w.phases replica).dispatches.map ExpiredDispatch.id).Nodup ∧
    ∀ dispatch ∈ (w.phases replica).dispatches,
      ∃ job, w.db.job? dispatch.id = some job ∧ LeaseTracked w.clock dispatch job

/-- The dispatches that a replica knows after an input. -/
theorem dispatches_next (i : ControllerInput) (w : ControllerSystem) (replica : Nat) :
    (((controllers H settings).next i w).phases replica).dispatches <:+
        (w.phases replica).dispatches ∨
      (i.op? settings w = none ∧ (((controllers H settings).next i w).phases replica).dispatches =
        listExpiredDispatches w.db w.clock settings.dispatchReconcileBatchSize) := by
  rcases @controllers_phase H settings i w replica with
    hsame | hlease | hout | ⟨s, rfl, hturn⟩
  · rw [hsame]
    exact .inl List.suffix_rfl
  · rw [hlease]
    exact .inl List.nil_suffix
  · rw [hout]
    exact .inl List.nil_suffix
  · rw [hturn]
    refine ControllerPhase.next_dispatches.imp_right fun ⟨hlisting, hlisted⟩ => ⟨?_, hlisted⟩
    simp [ControllerInput.op?, hlisting, ControllerPhase.op?]

/-- The dispatch that an input reconciles is at the head of what its replica holds. -/
theorem ControllerInput.expiredDispatch_head {i : ControllerInput} {w : ControllerSystem} {op : Op}
    {j : JobId} (h : i.op? settings w = some op) (hop : op.expiredDispatch? = some j) :
    ∃ replica s dispatch action rest, i = .turn replica s ∧
      w.phases replica = .settlingDispatch dispatch action rest ∧ dispatch.id = j := by
  cases i with
  | request op' hrequest =>
    obtain rfl := Option.some.inj h
    have hstamped := Op.stamped_isRequest hrequest w.clock
    generalize op'.stamped w.clock = op at hop hstamped
    cases op <;> first | (cases hop; done) | cases hstamped
  | turn replica s =>
    rcases ControllerPhase.op?_cases h with ⟨_, _, _, hphase, rfl⟩ | ⟨_, _, _, -, rfl⟩ | ⟨-, rfl⟩ |
      ⟨_, _, _, -, rfl⟩ <;> cases hop
    exact ⟨_, _, _, _, _, rfl, hphase, rfl⟩
  | _ => cases h

/-- A dispatch that was settled is off the list. -/
theorem settled_dispatches {w : ControllerSystem} {replica : Nat} {s : Surroundings}
    {dispatch : ExpiredDispatch} {action : DispatchAction} {rest : List ExpiredDispatch}
    (h : w.phases replica = .settlingDispatch dispatch action rest) :
    (((controllers H settings).next (.turn replica s) w).phases replica).dispatches ⊆ rest := by
  have hturn : ((controllers H settings).next (.turn replica s) w).phases replica =
      ((w.phases replica).next H settings w.clock (w.leader = some replica) s w.db).2 :=
    Function.update_self ..
  rw [hturn, h]
  simp only [ControllerPhase.next]
  split
  · exact List.Subset.refl _
  · exact List.nil_subset _

theorem dispatches_tracked (inputs : List ControllerInput)
    (h : ∀ before, before <+: inputs → DispatchesAlone (controlled H settings before)) :
    DispatchesTracked (controlled H settings inputs) := by
  induction inputs using List.reverseRecOn with
  | nil => exact fun replica => ⟨List.nodup_nil, fun dispatch hd => by cases hd⟩
  | append_singleton inputs i ih =>
    have hbefore := ih fun before hb => h before (hb.trans (List.prefix_append ..))
    have halone := h inputs (List.prefix_append ..)
    have hclock := @controllers_clock H settings i (controlled H settings inputs)
    intro replica
    rcases @dispatches_next H settings i (controlled H settings inputs) replica
      with hrest | ⟨hquiet, hlisted⟩
    · obtain ⟨hnodup, htracked⟩ := hbefore replica
      rw [← controlled_snoc] at hrest hclock
      refine ⟨hnodup.sublist (hrest.sublist.map _), fun dispatch hd => ?_⟩
      obtain ⟨job, hj, hlease⟩ := htracked dispatch (hrest.subset hd)
      have hlater : LeaseTracked (controlled H settings (inputs ++ [i])).clock dispatch job :=
        ⟨hlease.attempt, fun hm => (hlease.lease hm).later hclock⟩
      rw [controlled_db]
      cases hop : i.op? settings (controlled H settings inputs) with
      | none => exact ⟨job, hj, hlater⟩
      | some op =>
        refine hlater.next (controlled_sound inputs) (ControllerInput.op?_kept hop) ?_ hj
        intro hrenew
        obtain ⟨other, s, settled, action, rest, rfl, hphase, hid⟩ :=
          ControllerInput.expiredDispatch_head hop hrenew
        -- The one who settles it is this replica, which then has it no more.
        obtain rfl : replica = other := halone replica other
          (List.ne_nil_of_mem (hrest.subset hd)) (by simp [hphase, ControllerPhase.dispatches])
        rw [controlled_snoc] at hd
        have hleft := @settled_dispatches H settings _ _ _ _ _ _ hphase _ hd
        rw [hphase] at hnodup
        exact (List.nodup_cons.mp hnodup).1 (List.mem_map.mpr ⟨dispatch, hleft, hid.symm⟩)
    · rw [← controlled_snoc] at hlisted hclock
      rw [hlisted]
      refine ⟨listExpiredDispatches_nodup .., fun dispatch hd => ?_⟩
      obtain ⟨job, hj, hexpired, rfl⟩ := listExpiredDispatches_spec hd
      rw [controlled_db, hquiet]
      simp only [dispatchExpired, decide_eq_true_eq] at hexpired
      have hranOut : LeaseRanOut (controlled H settings inputs).clock job := hexpired.2.2
      exact ⟨job, hj, Nat.le_refl _, fun _ => hranOut.later hclock⟩

end

end ResearchGateway
