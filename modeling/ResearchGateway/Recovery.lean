import ResearchGateway.JobInvariant

/-! No active job is invisible to recovery.

The controller finds lost jobs through two queries. Every active job answers to
exactly one of them from some moment on: to `list_expired_dispatches` as long as
no runner started it and to `list_stale_runners` afterwards. Which of the two it is
does not change while a cancel is pending. -/
namespace ResearchGateway
open Library

def expiredDispatchIds (db : Database) (now : Time) (limit : Nat) : List JobId :=
  (listExpiredDispatches db now limit).map ExpiredDispatch.id

def staleRunnerIds (db : Database) (now : Time) (staleSeconds limit : Nat) : List JobId :=
  (listStaleRunners db now staleSeconds limit).map StaleRunner.id

/-- The first query selects the job from its lease expiry on, the second never. The
batch limit is one that the table does not exceed. -/
structure UnderDispatch (db : Database) (job : ResearchJob) : Prop where
  notStarted : job.startedAt = none
  selected : ∃ lease, job.dispatchLeaseExpiresAt = some lease ∧
    ∀ now limit, db.jobs.rows.length ≤ limit → (job.id ∈ expiredDispatchIds db now limit ↔ lease ≤ now)
  exclusive : ∀ now staleSeconds limit, job.id ∉ staleRunnerIds db now staleSeconds limit

/-- The second query selects the job once it was silent for long enough, the first never. -/
structure UnderStale (db : Database) (job : ResearchJob) : Prop where
  started : job.startedAt.isSome = true
  selected : ∀ now staleSeconds limit, db.jobs.rows.length ≤ limit →
    (job.id ∈ staleRunnerIds db now staleSeconds limit ↔ job.updatedAt + seconds staleSeconds ≤ now)
  exclusive : ∀ now limit, job.id ∉ expiredDispatchIds db now limit

/-- Neither query ever selects the job. -/
structure Unselected (db : Database) (job : ResearchJob) : Prop where
  dispatch : ∀ now limit, job.id ∉ expiredDispatchIds db now limit
  stale : ∀ now staleSeconds limit, job.id ∉ staleRunnerIds db now staleSeconds limit

/-! ### The queries -/

section
variable {db : Database} {j : JobId} {job : ResearchJob} (p : ResearchJob → Bool)
  (le : ResearchJob → ResearchJob → Prop) [DecidableRel le]

/-- What a query selects passes its filter. -/
theorem of_selected (hj : db.job? j = some job) {limit : Nat}
    (h : j ∈ (((db.jobs.rows.filter p).insertionSort le).take limit).map ResearchJob.id) :
    p job = true := by
  obtain ⟨row, hrow, hid⟩ := List.mem_map.mp h
  have hmem := (List.mem_insertionSort le).mp (List.mem_of_mem_take hrow)
  obtain ⟨hrow, hp⟩ := List.mem_filter.mp hmem
  have hsome : db.job? j = some row := Database.job?_iff.mpr ⟨hrow, hid⟩
  obtain rfl : row = job := Option.some.inj (hsome.symm.trans hj)
  exact hp

/-- Within the batch limit a query selects all that passes its filter. -/
theorem selected_iff (hj : db.job? j = some job) {limit : Nat} (hl : db.jobs.rows.length ≤ limit) :
    j ∈ (((db.jobs.rows.filter p).insertionSort le).take limit).map ResearchJob.id ↔ p job = true := by
  refine ⟨of_selected p le hj, fun hp => ?_⟩
  obtain ⟨hrow, hid⟩ := Database.job?_iff.mp hj
  have hlen : ((db.jobs.rows.filter p).insertionSort le).length ≤ limit := by
    rw [List.length_insertionSort]
    exact (List.length_filter_le ..).trans hl
  rw [List.take_of_length_le hlen]
  exact List.mem_map.mpr ⟨job, (List.mem_insertionSort le).mpr (List.mem_filter.mpr ⟨hrow, hp⟩), hid⟩

end

theorem expiredDispatchIds_eq (db : Database) (now : Time) (limit : Nat) :
    expiredDispatchIds db now limit =
      (((db.jobs.rows.filter (dispatchExpired now)).insertionSort fun a b =>
        a.dispatchLeaseExpiresAt.getD 0 ≤ b.dispatchLeaseExpiresAt.getD 0).take limit).map
          ResearchJob.id := List.map_map ..

theorem staleRunnerIds_eq (db : Database) (now : Time) (staleSeconds limit : Nat) :
    staleRunnerIds db now staleSeconds limit =
      (((db.jobs.rows.filter (runnerStale (now - seconds staleSeconds))).insertionSort fun a b =>
        a.updatedAt ≤ b.updatedAt).take limit).map ResearchJob.id := List.map_map ..

section
variable {db : Database} {j : JobId} {job : ResearchJob}

theorem not_dispatch_selected (hj : db.job? j = some job)
    (h : ∀ now, dispatchExpired now job = false) (now : Time) (limit : Nat) :
    job.id ∉ expiredDispatchIds db now limit := by
  rw [Database.id_of_job? hj, expiredDispatchIds_eq]
  intro hmem
  have hsel := of_selected _ _ hj hmem
  rw [h now] at hsel
  cases hsel

theorem not_stale_selected (hj : db.job? j = some job) (h : ∀ cutoff, runnerStale cutoff job = false)
    (now : Time) (staleSeconds limit : Nat) :
    job.id ∉ staleRunnerIds db now staleSeconds limit := by
  rw [Database.id_of_job? hj, staleRunnerIds_eq]
  intro hmem
  have hsel := of_selected _ _ hj hmem
  rw [h] at hsel
  cases hsel

theorem under_dispatch (hj : db.job? j = some job) (hs : RowSound job)
    (ha : job.state.isActive = true) (hstart : job.startedAt = none) : UnderDispatch db job := by
  have hwaiting : job.state = .dispatched ∨ job.state = .cancelRequested := by
    have hne : job.state ≠ .running := fun hr => by simpa [hstart] using hs.running hr
    cases hst : job.state <;> simp_all [JobState.isActive]
  have hlease := hs.lease
  rw [ha, hstart] at hlease
  obtain ⟨lease, hlease⟩ := Option.isSome_iff_exists.mp hlease
  refine ⟨hstart, ⟨lease, hlease, fun now limit hl => ?_⟩, not_stale_selected hj fun cutoff => ?_⟩
  · rw [Database.id_of_job? hj, expiredDispatchIds_eq, selected_iff _ _ hj hl]
    simp [dispatchExpired, hwaiting, hstart, hlease]
  · simp [runnerStale, hstart]

theorem under_stale (hj : db.job? j = some job) (hs : RowSound job)
    (ha : job.state.isActive = true) (hstart : job.startedAt.isSome = true) : UnderStale db job := by
  have hne : job.startedAt ≠ none := Option.isSome_iff_ne_none.mp hstart
  have hreporting : job.state = .running ∨ job.state = .cancelRequested := by
    have hd : job.state ≠ .dispatched := fun hd => hne (hs.waiting (.inr hd))
    cases hst : job.state <;> simp_all [JobState.isActive]
  refine ⟨hstart, fun now staleSeconds limit hl => ?_, not_dispatch_selected hj fun now => ?_⟩
  · rw [Database.id_of_job? hj, staleRunnerIds_eq, selected_iff _ _ hj hl]
    have hcutoff : job.updatedAt ≤ now - seconds staleSeconds ↔
        job.updatedAt + seconds staleSeconds ≤ now :=
      ⟨Int.add_le_of_le_sub_right, Int.le_sub_right_of_add_le⟩
    simp [runnerStale, hreporting, hne, hcutoff]
  · simp [dispatchExpired, hne]

theorem unselected (hj : db.job? j = some job) (ha : job.state.isActive = false) :
    Unselected db job := by
  refine ⟨not_dispatch_selected hj fun now => ?_, not_stale_selected hj fun cutoff => ?_⟩
  · cases hst : job.state <;> simp_all [JobState.isActive, dispatchExpired]
  · cases hst : job.state <;> simp_all [JobState.isActive, runnerStale]

end

/-! ### Where a pending cancel came from -/

section
variable {H : Hashing} {op : Op} {acct : Account} {j : JobId} {s s' : Slice} {job job' : ResearchJob}
  {w : Write}

/-- An effect that leaves a cancel pending does not touch the start time. -/
theorem Effect.started_kept (h : Effect H op acct job w) (hs : RowSound job)
    (hc : w.job.state = .cancelRequested) : w.job.startedAt = job.startedAt := by
  cases h with
  | revoked hst =>
    show (revokeToken _ job).startedAt = _
    rw [hs.revokeToken_eq hst]
  | runnerRequeued => cases hc
  | started => cases hc
  | _ => rfl

theorem JobStep.started_kept (h : JobStep H op j acct s s') (hs : s.Sound) (hj : s.job = some job)
    (hj' : s'.job = some job') (hc : job'.state = .cancelRequested) :
    job'.startedAt = job.startedAt := by
  cases h with
  | kept =>
    obtain rfl := Option.some.inj (hj.symm.trans hj')
    rfl
  | created => cases hj
  | written _ heffect =>
    obtain rfl := Option.some.inj hj
    obtain rfl := Option.some.inj hj'
    exact heffect.started_kept (hs.row _ rfl) hc
  | pruned =>
    obtain rfl := Option.some.inj (hj.symm.trans hj')
    rfl
  | artifactDeleted =>
    obtain rfl := Option.some.inj (hj.symm.trans hj')
    rfl
  | orphaned =>
    obtain rfl := Option.some.inj hj
    obtain rfl := Option.some.inj hj'
    rfl
  | removed => cases hj'

end

/-- A job on which a cancel has been pending since the operation after `ops`. -/
def PendingSince (H : Hashing) (ops : List Op) (op : Op) (more : List Op) (j : JobId) : Prop :=
  ∀ before, before <+: more →
    ((after H (ops ++ op :: before)).job? j).any fun job => job.state = .cancelRequested

theorem pending_since_started {H : Hashing} {ops more : List Op} {op : Op} {j : JobId}
    {job job' : ResearchJob} (hj : (after H ops).job? j = some job)
    (hpending : PendingSince H ops op more j)
    (hj' : (after H (ops ++ op :: more)).job? j = some job') : job'.startedAt = job.startedAt := by
  induction more using List.reverseRecOn generalizing job' with
  | nil =>
    have hc := hpending [] List.prefix_rfl
    rw [hj'] at hc
    have hstep := job_step H op (after H ops) j
    rw [after_snoc] at hj'
    exact hstep.started_kept (after_sound H ops j) hj hj' (by simpa using hc)
  | append_singleton front last ih =>
    have hfront : PendingSince H ops op front j := fun before hb =>
      hpending before (hb.trans (List.prefix_append ..))
    have hsome := hfront front List.prefix_rfl
    obtain ⟨mid, hmid, -⟩ := (Option.any_eq_true _ _).mp hsome
    have hc := hpending _ List.prefix_rfl
    rw [hj'] at hc
    have hsplit : ops ++ op :: (front ++ [last]) = (ops ++ op :: front) ++ [last] := by simp
    rw [hsplit, after, Machine.run_snoc] at hj'
    have hstep := job_step H last (after H (ops ++ op :: front)) j
    rw [hstep.started_kept (after_sound H _ j) hmid hj' (by simpa using hc)]
    exact ih hfront hmid

/-- Every active job is under exactly one of the two recovery queries, every other
job under none; a pending cancel leaves the job under the query it was under. -/
theorem active_recoverable (H : Hashing) (ops : List Op) (j : JobId) (job : ResearchJob)
    (hj : (after H ops).job? j = some job) :
    (job.state.isActive = true →
      (UnderDispatch (after H ops) job ∧ ¬ UnderStale (after H ops) job) ∨
        (UnderStale (after H ops) job ∧ ¬ UnderDispatch (after H ops) job)) ∧
    (job.state.isActive = false → Unselected (after H ops) job) ∧
    (∀ before op more origin, ops = before ++ op :: more → PendingSince H before op more j →
      (after H before).job? j = some origin →
        (origin.state = .dispatched → UnderDispatch (after H ops) job) ∧
        (origin.state = .running → UnderStale (after H ops) job)) := by
  have hs := after_sound H ops
  have hrow := hs.row hj
  refine ⟨fun ha => ?_, unselected hj, ?_⟩
  · cases hstart : job.startedAt with
    | none =>
      refine .inl ⟨under_dispatch hj hrow ha hstart, fun hstale => ?_⟩
      have := hstale.started
      rw [hstart] at this
      cases this
    | some t =>
      refine .inr ⟨under_stale hj hrow ha (by rw [hstart]; rfl), fun hdispatch => ?_⟩
      have := hdispatch.notStarted
      rw [hstart] at this
      cases this
  · rintro before op more origin rfl hpending horigin
    have hsame := pending_since_started horigin hpending hj
    have horow := (after_sound H before).row horigin
    have hc := hpending more List.prefix_rfl
    rw [hj] at hc
    have hst : job.state = .cancelRequested := by simpa using hc
    have ha : job.state.isActive = true := by rw [hst]; rfl
    refine ⟨fun hd => ?_, fun hr => ?_⟩
    · exact under_dispatch hj hrow ha (by rw [hsame]; exact horow.waiting (.inr hd))
    · exact under_stale hj hrow ha (by rw [hsame]; exact horow.running hr)

/-- A cancel that reaches the job before its runner does. -/
theorem active_recoverable_cancelled :
    let ops := Sample.claimed ++ [.requestCancel 2 1 "user"]
    ∃ job, (after Sample.hashing ops).job? 1 = some job ∧ job.state = .cancelRequested ∧
      UnderDispatch (after Sample.hashing ops) job := by
  intro ops
  have hrow := (Option.some_get (show ((after Sample.hashing ops).job? 1).isSome by decide)).symm
  have horigin := (Option.some_get
    (show ((after Sample.hashing Sample.claimed).job? 1).isSome by decide)).symm
  have hpending : PendingSince Sample.hashing Sample.claimed (.requestCancel 2 1 "user") [] 1 := by
    intro before hb
    rw [List.prefix_nil.mp hb]
    decide
  have hrecover := active_recoverable Sample.hashing ops 1 _ hrow
  exact ⟨_, hrow, by decide,
    (hrecover.2.2 Sample.claimed _ [] _ rfl hpending horigin).1 (by decide)⟩

end ResearchGateway
