import ResearchGateway.OrphanCollection
import ResearchGateway.RetentionTarget

/-! Retention across failing deletes and crashes.

A run of the cleaner that is cut off anywhere has deleted rows only of jobs that are
over, an artifact's row only after its object, and a job's only after all of those. So
what is retained stays the same at every step (`CleanerStep.retained_eq`), and a run
without failures ends where nothing is left to do (`Thorough`): a second run finishes
what the first one left. -/
namespace ResearchGateway
open Library

/-- A run of the cleaner by itself. -/
structure CleanerRun where
  db : Database
  store : ArtifactStore
  phase : CleanerPhase

/-- The keys that the next step passes to `delete`. -/
def CleanerPhase.deletes (settings : RetentionSettings) : CleanerPhase → List String
  | .deletingArtifacts _ (artifact :: _) => [artifact.objectKey]
  | phase => phase.orphans settings

/-- The outputs are the keys whose `delete` returned. -/
def cleanerRun (settings : RetentionSettings) : Machine CleanerRun StoreAnswer String where
  next answer r :=
    let (db, store, phase) := r.phase.next settings answer r.db r.store
    ⟨db, store, phase⟩
  out answer r := if answer.deletion = .succeeded then r.phase.deletes settings else []

def CleanerRun.start (now : Time) (db : Database) (store : ArtifactStore) : CleanerRun :=
  ⟨db, store, .listingArtifacts now⟩

/-- Where a run that started at `now` is cut off. -/
def cleaned (settings : RetentionSettings) (now : Time) (db : Database) (store : ArtifactStore)
    (answers : List StoreAnswer) : CleanerRun :=
  (cleanerRun settings).run (.start now db store) answers

def deletedObjects (settings : RetentionSettings) (now : Time) (db : Database) (store : ArtifactStore)
    (answers : List StoreAnswer) : List String :=
  (cleanerRun settings).trace (.start now db store) answers

theorem cleanerRun_step (settings : RetentionSettings) (answer : StoreAnswer) (r : CleanerRun) :
    CleanerStep settings answer r.db r.store r.phase ((cleanerRun settings).next answer r).db
      ((cleanerRun settings).next answer r).store ((cleanerRun settings).next answer r).phase :=
  CleanerPhase.next_step settings answer r.db r.store r.phase

/-! ### What a run knows -/

/-- The rows that a run has listed and not yet deleted. -/
def CleanerPhase.pending : CleanerPhase → List ResearchArtifact
  | .deletingArtifacts _ artifacts => artifacts
  | .recording _ artifact rest => artifact :: rest
  | _ => []

/-- The row whose object a run has just deleted. -/
def CleanerPhase.recorded? : CleanerPhase → Option ResearchArtifact
  | .recording _ artifact _ => some artifact
  | _ => none

structure RunSound (settings : RetentionSettings) (now : Time) (deleted : List String) (db : Database)
    (store : ArtifactStore) (phase : CleanerPhase) : Prop where
  started : ∀ t, phase.started = some t → t = now
  ids : (db.artifacts.rows.map ResearchArtifact.id).Nodup
  pending : ∀ a ∈ phase.pending, a ∈ db.artifacts.rows ∧ artifactDue settings now db a = true
  distinct : (phase.pending.map ResearchArtifact.id).Nodup
  recording : ∀ a, phase.recorded? = some a → store.Fresh a.objectKey ∧ a.objectKey ∈ deleted
  referenced : ∀ t keys, phase.snapshot = some (t, keys) → keys = listArtifactKeys db
  listed : ∀ object ∈ phase.listed,
    (settings.artifactJobsPrefix ++ "/").toList.isPrefixOf object.objectKey.toList = true ∧
      ∀ o ∈ store.rows, o.objectKey = object.objectKey → o = object

section
variable {settings : RetentionSettings} {now : Time} {answer : StoreAnswer} {db db' : Database}
  {store store' : ArtifactStore} {phase phase' : CleanerPhase} {deleted : List String}

theorem fresh_delete (store : ArtifactStore) (key : String) : (store.delete key).Fresh key := by
  intro object hobject
  simpa using (List.mem_filter.mp hobject).2

theorem nodup_sublist {rows rows' : List ResearchArtifact} (h : rows'.Sublist rows)
    (hids : (rows.map ResearchArtifact.id).Nodup) : (rows'.map ResearchArtifact.id).Nodup :=
  hids.sublist (h.map _)

theorem listExpiredArtifacts_sublist (db : Database) (cutoff : Time) (limit : Nat) :
    (listExpiredArtifacts db cutoff limit).Sublist db.artifacts.rows :=
  (List.take_sublist ..).trans List.filter_sublist

theorem RunSound.listed_step (hs : RunSound settings now deleted db store phase)
    (h : CleanerStep settings answer db store phase db' store' phase') :
    ∀ object ∈ phase'.listed,
      (settings.artifactJobsPrefix ++ "/").toList.isPrefixOf object.objectKey.toList = true ∧
        ∀ o ∈ store'.rows, o.objectKey = object.objectKey → o = object := by
  intro object hobject
  have hkept (ho : object ∈ phase.listed) :
      (settings.artifactJobsPrefix ++ "/").toList.isPrefixOf object.objectKey.toList = true ∧
        ∀ o ∈ store'.rows, o.objectKey = object.objectKey → o = object := by
    obtain ⟨hpath, hsame⟩ := hs.listed object ho
    exact ⟨hpath, fun o ho => hsame o (h.store_sub.subset ho)⟩
  cases h with
  | objectsListed =>
    have hfound := (StoreAnswer.listing_perm answer _).mem_iff.mp hobject
    obtain ⟨hrow, hpath⟩ := List.mem_filter.mp hfound
    exact ⟨hpath, fun o ho => List.inj_on_of_nodup_map store.unique ho hrow⟩
  | skipped | collected => exact hkept (List.mem_cons_of_mem _ hobject)
  | _ => cases hobject

/-- A pending row stays until the step that deletes it. -/
theorem RunSound.pending_step (hs : RunSound settings now deleted db store phase)
    (h : CleanerStep settings answer db store phase db' store' phase') :
    (∀ a ∈ phase'.pending, a ∈ db'.artifacts.rows ∧ artifactDue settings now db' a = true) ∧
      (phase'.pending.map ResearchArtifact.id).Nodup := by
  cases h with
  | listed t =>
    obtain rfl := hs.started t rfl
    refine ⟨fun a ha => ?_, nodup_sublist (listExpiredArtifacts_sublist ..) hs.ids⟩
    exact List.mem_filter.mp (List.mem_of_mem_take ha)
  | deleted => exact ⟨hs.pending, hs.distinct⟩
  | kept =>
    exact ⟨fun a ha => hs.pending a (List.mem_cons_of_mem _ ha), (List.nodup_cons.mp hs.distinct).2⟩
  | @recorded _ artifact rest =>
    obtain ⟨hfirst, hrest⟩ := List.nodup_cons.mp hs.distinct
    refine ⟨fun a ha => ?_, hrest⟩
    obtain ⟨hrow, hdue⟩ := hs.pending a (List.mem_cons_of_mem _ ha)
    refine ⟨List.mem_filter.mpr ⟨hrow, ?_⟩, hdue⟩
    have hne : a.id ≠ artifact.id := fun h => hfirst (h ▸ List.mem_map_of_mem ha)
    simpa using hne
  | _ => exact ⟨fun a ha => (by cases ha), List.nodup_nil⟩

/-- Every step keeps what a run knows. -/
theorem RunSound.step (hs : RunSound settings now deleted db store phase)
    (h : CleanerStep settings answer db store phase db' store' phase') :
    RunSound settings now
      (deleted ++ if answer.deletion = .succeeded then phase.deletes settings else []) db' store' phase' where
  started t ht := hs.started t (h.started_eq ht)
  ids := nodup_sublist h.artifacts_sub hs.ids
  pending := (hs.pending_step h).1
  distinct := (hs.pending_step h).2
  recording := by
    cases h with
    | @deleted now artifact rest hdone =>
      intro a ha
      cases ha
      rw [if_pos hdone]
      exact ⟨fresh_delete store artifact.objectKey, List.mem_append_right _ (List.mem_singleton_self _)⟩
    | _ =>
      intro a ha
      cases ha
  referenced t keys ht := by
    cases h with
    | referenced =>
      cases ht
      rfl
    | objectsListed | skipped | collected => exact hs.referenced t keys ht
    | _ => cases ht
  listed := hs.listed_step h

/-! ### What is retained -/

/-- Whatever becomes of the `delete` of an object that is due, the same objects remain. -/
theorem retainedObjects_apply {deletion : Deletion} {key : String}
    (hdue : ∀ object ∈ store.rows, object.objectKey = key →
      objectDue settings now db object = true ∨ orphanDue settings now db object = true) :
    retainedObjects settings now db (deletion.apply store key) = retainedObjects settings now db store := by
  have hdelete : retainedObjects settings now db (store.delete key) =
      retainedObjects settings now db store :=
    retainedObjects_keep fun object ho hp => hdue object ho (by simpa using hp)
  unfold Deletion.apply
  split
  · exact hdelete
  · exact hdelete
  · rfl

theorem RunSound.objectDue (hs : RunSound settings now deleted db store phase) {a : ResearchArtifact}
    (ha : a ∈ phase.pending) {object : ArtifactObject} (hkey : object.objectKey = a.objectKey) :
    objectDue settings now db object = true := by
  obtain ⟨hrow, hdue⟩ := hs.pending a ha
  exact List.any_eq_true.mpr ⟨a, hrow, by simp [hdue, hkey]⟩

/-- A step deletes only what is due. -/
theorem CleanerStep.retained_eq (h : CleanerStep settings answer db store phase db' store' phase')
    (hs : RunSound settings now deleted db store phase) :
    retained settings now db' = retained settings now db ∧
      retainedObjects settings now db' store' = retainedObjects settings now db store := by
  cases h with
  | deleted hdone =>
    refine ⟨rfl, @retainedObjects_apply _ _ _ _ .succeeded _ fun object _ hkey => .inl ?_⟩
    exact hs.objectDue (List.mem_cons_self ..) hkey
  | kept =>
    refine ⟨rfl, retainedObjects_apply fun object _ hkey => .inl ?_⟩
    exact hs.objectDue (List.mem_cons_self ..) hkey
  | @recorded _ artifact rest =>
    obtain ⟨hrow, hdue⟩ := hs.pending artifact (List.mem_cons_self ..)
    exact ⟨retained_withoutArtifact hs.ids hrow hdue,
      retainedObjects_withoutArtifact hs.ids hrow (hs.recording artifact rfl).1⟩
  | expired t =>
    obtain rfl := hs.started t rfl
    exact ⟨retained_expiredRecords, retainedObjects_expiredRecords store⟩
  | @collected t keys object rest deleted hroom hkey hold =>
    obtain rfl := hs.started t rfl
    obtain rfl := hs.referenced t keys rfl
    obtain ⟨hpath, hsame⟩ := hs.listed object (List.mem_cons_self ..)
    refine ⟨rfl, retainedObjects_apply fun o ho hok => .inr ?_⟩
    obtain rfl := hsame o ho hok
    exact orphanDue_of_unreferenced hpath hkey hold
  | _ => exact ⟨rfl, rfl⟩

/-! ### What a run spares -/

/-- The row of a job is there, and so is all that hangs on it. -/
structure JobSpared (start db : Database) (j : JobId) (job : ResearchJob) : Prop where
  row : ∃ job', db.job? j = some job' ∧ (job' = job ∨ job' = {job with parentJobId := none})
  events : db.eventsOf j = start.eventsOf j
  artifacts : db.artifactsOf j = start.artifactsOf j

theorem finishedBefore_terminal {cutoff : Time} {job : ResearchJob} (h : finishedBefore cutoff job = true) :
    job.state.isTerminal = true := (Bool.and_eq_true_iff.mp h).1

theorem JobSpared.not_terminal {start : Database} {j : JobId} {job found : ResearchJob}
    (hj : JobSpared start db j job) (hopen : job.state.isTerminal = false)
    (hfound : db.job? j = some found) : found.state.isTerminal = false := by
  obtain ⟨job', hrow, hjob⟩ := hj.row
  obtain rfl := Option.some.inj (hrow.symm.trans hfound)
  rcases hjob with rfl | rfl
  · exact hopen
  · exact hopen

/-- The transaction over events and jobs does not touch a job that is not over. -/
theorem JobSpared.expiredRecords {start : Database} {j : JobId} {job : ResearchJob}
    (hj : JobSpared start db j job) (hopen : job.state.isTerminal = false) :
    JobSpared start (expiredRecords settings now db) j job := by
  have hkeep : j ∉ (expiredJobs (withoutEvents db ((expiredEvents db (settings.eventCutoff now)
      settings.cleanupBatchSize).map fun e => (e.jobId, e.sequence))) (settings.jobCutoff now)
        settings.cleanupBatchSize).map ResearchJob.id := by
    intro hgone
    obtain ⟨found, hfound, hterminal⟩ := expired_terminal hgone
    rw [hj.not_terminal hopen hfound] at hterminal
    cases hterminal
  obtain ⟨job', hrow, hjob⟩ := hj.row
  unfold ResearchGateway.expiredRecords
  refine ⟨?_, ?_, ?_⟩
  · rw [job?_withoutJobs, if_neg hkeep]
    refine ⟨orphaned _ job', (congrArg _ hrow).trans rfl, ?_⟩
    rcases orphaned_cases _ job' with h | h
    · rwa [h]
    · rw [h]
      rcases hjob with rfl | rfl
      · exact .inr rfl
      · exact .inr rfl
  · rw [eventsOf_withoutJobs, if_neg hkeep,
      eventsOf_expired _ _ _ fun _ hfound => hj.not_terminal hopen hfound]
    exact hj.events
  · rw [artifactsOf_withoutJobs, if_neg hkeep]
    exact hj.artifacts

theorem artifactsOf_withoutArtifact {j : JobId} {a : ResearchArtifact}
    (hids : (db.artifacts.rows.map ResearchArtifact.id).Nodup) (ha : a ∈ db.artifacts.rows)
    (hne : a.jobId ≠ j) : (withoutArtifact db a.id).artifactsOf j = db.artifactsOf j := by
  show List.filter _ (List.filter _ _) = List.filter _ _
  rw [List.filter_filter]
  refine List.filter_congr fun x hx => ?_
  by_cases hid : x.id = a.id
  · rw [eq_of_id hids ha hx hid]
    simp [hne]
  · simp [hid]

/-- A run spares a job that is not over. -/
theorem CleanerStep.spares (h : CleanerStep settings answer db store phase db' store' phase')
    (hs : RunSound settings now deleted db store phase) {start : Database} {j : JobId} {job : ResearchJob}
    (hopen : job.state.isTerminal = false) (hj : JobSpared start db j job) : JobSpared start db' j job := by
  cases h with
  | @recorded _ artifact rest =>
    obtain ⟨hartifact, hdue⟩ := hs.pending artifact (List.mem_cons_self ..)
    -- The deleted row belongs to a job that is over.
    have hother : artifact.jobId ≠ j := by
      intro howner
      obtain ⟨found, hfound, hold⟩ := (Option.any_eq_true ..).mp hdue
      rw [howner] at hfound
      have hterminal := finishedBefore_terminal hold
      rw [hj.not_terminal hopen hfound] at hterminal
      cases hterminal
    exact ⟨hj.row, hj.events, (artifactsOf_withoutArtifact hs.ids hartifact hother).trans hj.artifacts⟩
  | expired => exact hj.expiredRecords hopen
  | _ => exact hj

/-- An artifact row goes after its object. -/
theorem CleanerStep.artifact_gone (h : CleanerStep settings answer db store phase db' store' phase')
    (hs : RunSound settings now deleted db store phase) {a : ResearchArtifact}
    (ha : a ∈ db.artifacts.rows) (hgone : a ∉ db'.artifacts.rows) :
    store'.Fresh a.objectKey ∧ a.objectKey ∈ deleted := by
  cases h with
  | @recorded _ artifact rest =>
    have hid : a.id = artifact.id := by
      by_contra hne
      exact hgone (List.mem_filter.mpr ⟨ha, by simpa using hne⟩)
    obtain rfl := eq_of_id hs.ids (hs.pending artifact (List.mem_cons_self ..)).1 ha hid
    exact hs.recording _ rfl
  | expired t =>
    rw [artifacts_expiredRecords] at hgone
    exact absurd ha hgone
  | _ => exact absurd ha hgone

/-- A job row goes when it has no artifact row. -/
theorem CleanerStep.job_gone (h : CleanerStep settings answer db store phase db' store' phase')
    {j : JobId} {job : ResearchJob} (hj : db.job? j = some job) (hgone : db'.job? j = none) :
    db.artifactsOf j = [] := by
  cases h with
  | expired t =>
    unfold expiredRecords at hgone
    rw [job?_withoutJobs] at hgone
    split at hgone
    · next hmem =>
      obtain ⟨_, -, -, hempty⟩ := expiredJobs_gone j hmem
      exact hempty
    · rw [Option.map_eq_none_iff] at hgone
      have : db.job? j = none := hgone
      rw [hj] at this
      cases this
  | _ =>
    have hsame : db.job? j = none := hgone
    rw [hj] at hsame
    cases hsame

/-- A batch holds everything there is. -/
structure RetentionSettings.Covers (settings : RetentionSettings) (db : Database)
    (store : ArtifactStore) : Prop where
  artifacts : db.artifacts.rows.length ≤ settings.cleanupBatchSize
  events : db.events.rows.length ≤ settings.cleanupBatchSize
  jobs : db.jobs.rows.length ≤ settings.cleanupBatchSize
  objects : store.rows.length ≤ settings.cleanupBatchSize

theorem CleanerStep.covers (h : CleanerStep settings answer db store phase db' store' phase')
    (hc : settings.Covers db store) : settings.Covers db' store' := by
  refine ⟨Nat.le_trans h.artifacts_sub.length_le hc.artifacts, ?_, ?_,
    Nat.le_trans h.store_sub.length_le hc.objects⟩
  · cases h with
    | expired =>
      exact Nat.le_trans (List.filter_sublist.trans List.filter_sublist).length_le hc.events
    | _ => exact hc.events
  · cases h with
    | expired =>
      refine Nat.le_trans ?_ hc.jobs
      show (List.map _ (List.filter _ _)).length ≤ _
      rw [List.length_map]
      exact List.length_filter_le ..
    | _ => exact hc.jobs

/-! ### A run without failures -/

/-- What is left to do is what a run still has before it. -/
def Thorough (settings : RetentionSettings) (now : Time) (db : Database) (store : ArtifactStore) :
    CleanerPhase → Prop
  | .idle => RowsSettled settings now db ∧ ∀ o ∈ store.rows, orphanDue settings now db o = false
  | .listingArtifacts _ => True
  | .deletingArtifacts _ artifacts =>
    ∀ a ∈ db.artifacts.rows, artifactDue settings now db a = true → a ∈ artifacts
  | .recording _ artifact rest =>
    ∀ a ∈ db.artifacts.rows, artifactDue settings now db a = true → a ∈ artifact :: rest
  | .expiring _ => ∀ a ∈ db.artifacts.rows, artifactDue settings now db a = false
  | .referencing _ | .listingObjects _ _ => RowsSettled settings now db
  | .sweeping _ _ objects deleted =>
    RowsSettled settings now db ∧ (∀ o ∈ store.rows, orphanDue settings now db o = true → o ∈ objects) ∧
      deleted + objects.length ≤ settings.cleanupBatchSize

/-- A batch that holds all jobs takes every old job without artifacts. -/
theorem mem_expiredJobs {cutoff : Time} {limit : Nat} {job : ResearchJob} (hall : db.jobs.rows.length ≤ limit)
    (hjob : job ∈ db.jobs.rows) (hold : finishedBefore cutoff job = true)
    (hempty : db.artifactsOf job.id = []) :
    job.id ∈ (expiredJobs db cutoff limit).map ResearchJob.id := by
  refine List.mem_map_of_mem ?_
  unfold expiredJobs
  rw [List.take_of_length_le (by
    rw [List.length_insertionSort]
    exact Nat.le_trans (List.length_filter_le ..) hall)]
  exact (List.mem_insertionSort _).mpr (List.mem_filter.mpr ⟨hjob, by simp [hold, hempty]⟩)

theorem mem_expiredEvents {cutoff : Time} {limit : Nat} {e : ResearchEvent}
    (hall : db.events.rows.length ≤ limit) (he : e ∈ db.events.rows)
    (hdue : (e.createdAt < cutoff && ofTerminalJob db e) = true) :
    (e.jobId, e.sequence) ∈ (expiredEvents db cutoff limit).map fun e => (e.jobId, e.sequence) := by
  refine List.mem_map.mpr ⟨e, ?_, rfl⟩
  unfold expiredEvents
  rw [List.take_of_length_le (Nat.le_trans (List.length_filter_le ..) hall)]
  exact List.mem_filter.mpr ⟨he, hdue⟩

/-- With nothing due among the artifacts, the transaction leaves nothing due. -/
theorem rowsSettled_expiredRecords (hc : settings.Covers db store)
    (hdone : ∀ a ∈ db.artifacts.rows, artifactDue settings now db a = false) :
    RowsSettled settings now (expiredRecords settings now db) := by
  have hartifacts : ∀ a ∈ (expiredRecords settings now db).artifacts.rows,
      artifactDue settings now (expiredRecords settings now db) a = false := by
    intro a ha
    rw [artifacts_expiredRecords] at ha
    refine Eq.trans ?_ (hdone a ha)
    exact artifactDue_withoutJobs (artifact_not_gone expiredJobs_gone ha)
  refine ⟨hartifacts, fun e he => ?_, fun job hjob => ?_⟩
  · obtain ⟨hkept, hgone⟩ := List.mem_filter.mp he
    obtain ⟨hrow, hkey⟩ := List.mem_filter.mp hkept
    simp only [decide_eq_true_eq] at hgone hkey
    cases hdue : eventDue settings now (expiredRecords settings now db) e with
    | false => rfl
    | true => exact absurd (mem_expiredEvents hc.events hrow ((eventDue_withoutJobs hgone).symm.trans hdue)) hkey
  · obtain ⟨before, hkept, rfl⟩ := List.mem_map.mp hjob
    obtain ⟨hrow, hgone⟩ := List.mem_filter.mp hkept
    simp only [decide_eq_true_eq] at hgone
    cases hdue : jobDue settings now (expiredRecords settings now db) (orphaned _ before) with
    | false => rfl
    | true =>
      obtain ⟨hold, hall⟩ := Bool.and_eq_true_iff.mp hdue
      rw [finishedBefore_orphaned] at hold
      rw [orphaned_id] at hall
      have hempty : db.artifactsOf before.id = [] := by
        refine List.eq_nil_iff_forall_not_mem.mpr fun a ha => ?_
        obtain ⟨hmem, howner⟩ := List.mem_filter.mp ha
        have hleft : a ∈ (expiredRecords settings now db).artifacts.rows := by
          rwa [artifacts_expiredRecords]
        have := List.all_eq_true.mp hall a (List.mem_filter.mpr ⟨hleft, howner⟩)
        rw [hartifacts a hleft] at this
        cases this
      exact absurd (mem_expiredJobs hc.jobs hrow hold hempty) hgone

/-- A step that does not fail leaves nothing behind. -/
theorem CleanerStep.thorough (h : CleanerStep settings answer db store phase db' store' phase')
    (hs : RunSound settings now deleted db store phase) (hc : settings.Covers db store)
    (hanswer : answer.deletion = .succeeded) (ht : Thorough settings now db store phase) :
    Thorough settings now db' store' phase' := by
  cases h with
  | rested => exact ht
  | listed t =>
    obtain rfl := hs.started t rfl
    intro a ha hdue
    have hall : listExpiredArtifacts db (settings.artifactCutoff t) settings.cleanupBatchSize =
        db.artifacts.rows.filter (artifactDue settings t db) :=
      List.take_of_length_le (Nat.le_trans (List.length_filter_le ..) hc.artifacts)
    rw [hall]
    exact List.mem_filter.mpr ⟨ha, hdue⟩
  | emptied =>
    intro a ha
    cases hdue : artifactDue settings now db a with
    | false => rfl
    | true => cases ht a ha hdue
  | deleted => exact ht
  | kept hfailed => exact absurd hanswer hfailed
  | @recorded _ artifact rest =>
    intro a ha hdue
    obtain ⟨hrow, hid⟩ := List.mem_filter.mp ha
    rcases List.mem_cons.mp (ht a hrow hdue) with rfl | hrest
    · simp at hid
    · exact hrest
  | expired t =>
    obtain rfl := hs.started t rfl
    exact rowsSettled_expiredRecords hc ht
  | referenced => exact ht
  | objectsListed =>
    refine ⟨ht, fun o ho hdue => ?_, ?_⟩
    · refine (StoreAnswer.listing_perm answer _).mem_iff.mpr (List.mem_filter.mpr ⟨ho, ?_⟩)
      exact (Bool.and_eq_true_iff.mp (Bool.and_eq_true_iff.mp hdue).1).1
    · rw [(StoreAnswer.listing_perm answer _).length_eq, Nat.zero_add]
      exact Nat.le_trans (List.length_filter_le ..) hc.objects
  | finished =>
    obtain ⟨hrows, hlisted, -⟩ := ht
    refine ⟨hrows, fun o ho => ?_⟩
    cases hdue : orphanDue settings now db o with
    | false => rfl
    | true => cases hlisted o ho hdue
  | stopped hfull =>
    obtain ⟨-, -, hroom⟩ := ht
    rw [List.length_cons] at hroom
    omega
  | @skipped t keys object rest deleted hskip =>
    obtain rfl := hs.started t rfl
    obtain rfl := hs.referenced t keys rfl
    obtain ⟨hrows, hlisted, hroom⟩ := ht
    refine ⟨hrows, fun o ho hdue => ?_, Nat.le_trans (Nat.add_le_add_left (Nat.le_succ _) _) hroom⟩
    rcases List.mem_cons.mp (hlisted o ho hdue) with rfl | hrest
    · have hnot : orphanDue settings t db o = false := by
        rcases hskip with hkey | hyoung
        · exact hrows.not_orphanDue hkey
        · exact not_orphanDue_of_young hyoung
      rw [hnot] at hdue
      cases hdue
    · exact hrest
  | @collected t keys object rest deleted hroom hkey hold =>
    obtain ⟨hrows, hlisted, hroom⟩ := ht
    rw [hanswer]
    refine ⟨hrows, fun o ho hdue => ?_, ?_⟩
    · obtain ⟨hrow, hne⟩ := List.mem_filter.mp ho
      rcases List.mem_cons.mp (hlisted o hrow hdue) with rfl | hrest
      · simp at hne
      · exact hrest
    · simp only [if_true, List.length_cons] at hroom ⊢
      omega

/-- A bound on the steps that a run still has to take. -/
def CleanerPhase.remaining (db : Database) (store : ArtifactStore) : CleanerPhase → Nat
  | .idle => 0
  | .listingArtifacts _ => store.rows.length + 2 * db.artifacts.rows.length + 6
  | .deletingArtifacts _ artifacts => store.rows.length + 2 * artifacts.length + 5
  | .recording _ _ rest => store.rows.length + 2 * rest.length + 6
  | .expiring _ => store.rows.length + 4
  | .referencing _ => store.rows.length + 3
  | .listingObjects _ _ => store.rows.length + 2
  | .sweeping _ _ objects _ => objects.length + 1

theorem CleanerPhase.idle_of_remaining (h : phase.remaining db store = 0) : phase = .idle := by
  cases phase with
  | idle => rfl
  | _ => cases h

theorem CleanerStep.remaining_le (h : CleanerStep settings answer db store phase db' store' phase') :
    phase'.remaining db' store' ≤ phase.remaining db store - 1 := by
  have hstore := h.store_sub.length_le
  cases h with
  | listed t =>
    have := (listExpiredArtifacts_sublist db (settings.artifactCutoff t) settings.cleanupBatchSize).length_le
    simp only [CleanerPhase.remaining]
    omega
  | objectsListed =>
    have : (answer.listing (store.listObjects settings.artifactJobsPrefix)).length ≤ store.rows.length := by
      rw [(StoreAnswer.listing_perm answer _).length_eq]
      exact List.length_filter_le ..
    simp only [CleanerPhase.remaining]
    omega
  | _ =>
    simp only [CleanerPhase.remaining, List.length_cons, List.length_nil]
    omega

end

/-! ### Runs -/

section
variable {settings : RetentionSettings} {now : Time} {db : Database} {store : ArtifactStore}

/-- A run against its start. -/
structure RunKept (settings : RetentionSettings) (now : Time) (db : Database) (store : ArtifactStore)
    (r : CleanerRun) (deleted : List String) : Prop where
  sound : RunSound settings now deleted r.db r.store r.phase
  spared : ∀ j job, db.job? j = some job → job.state.isTerminal = false → JobSpared db r.db j job
  gone : ∀ a ∈ db.artifacts.rows, a ∉ r.db.artifacts.rows →
    r.store.Fresh a.objectKey ∧ a.objectKey ∈ deleted
  rows : retained settings now r.db = retained settings now db
  objects : retainedObjects settings now r.db r.store = retainedObjects settings now db store
  covers : settings.Covers db store → settings.Covers r.db r.store

theorem RunKept.start (hids : (db.artifacts.rows.map ResearchArtifact.id).Nodup) :
    RunKept settings now db store (CleanerRun.start now db store) [] where
  sound := by
    refine ⟨fun t ht => (Option.some.inj ht).symm, hids, ?_, List.nodup_nil, ?_, ?_, ?_⟩
    · intro a ha
      cases ha
    · intro a ha
      cases ha
    · intro t keys ht
      cases ht
    · intro object hobject
      cases hobject
  spared j job hj _ := ⟨⟨job, hj, .inl rfl⟩, rfl, rfl⟩
  gone a ha hgone := absurd ha hgone
  rows := rfl
  objects := rfl
  covers h := h

theorem RunKept.step {r : CleanerRun} {deleted : List String} (answer : StoreAnswer)
    (h : RunKept settings now db store r deleted) :
    RunKept settings now db store ((cleanerRun settings).next answer r)
      (deleted ++ (cleanerRun settings).out answer r) := by
  have hstep := cleanerRun_step settings answer r
  obtain ⟨hrows, hobjects⟩ := hstep.retained_eq h.sound
  refine ⟨h.sound.step hstep, fun j job hj hopen => hstep.spares h.sound hopen (h.spared j job hj hopen),
    fun a ha hgone => ?_, hrows.trans h.rows, hobjects.trans h.objects,
    fun hc => hstep.covers (h.covers hc)⟩
  by_cases hbefore : a ∈ r.db.artifacts.rows
  · obtain ⟨hfresh, hdeleted⟩ := hstep.artifact_gone h.sound hbefore hgone
    exact ⟨hfresh, List.mem_append_left _ hdeleted⟩
  · obtain ⟨hfresh, hdeleted⟩ := h.gone a ha hbefore
    exact ⟨fun object ho => hfresh object (hstep.store_sub.subset ho), List.mem_append_left _ hdeleted⟩

theorem cleaned_kept (hids : (db.artifacts.rows.map ResearchArtifact.id).Nodup)
    (answers : List StoreAnswer) :
    RunKept settings now db store (cleaned settings now db store answers)
      (deletedObjects settings now db store answers) :=
  Machine.history (P := fun r _ deleted => RunKept settings now db store r deleted)
    (fun answer _ _ _ (_ : True) h => h.step answer) (.start hids) answers fun _ _ => trivial

theorem cleaned_remaining (r : CleanerRun) (answers : List StoreAnswer) :
    ((cleanerRun settings).run r answers).phase.remaining ((cleanerRun settings).run r answers).db
      ((cleanerRun settings).run r answers).store ≤ r.phase.remaining r.db r.store - answers.length := by
  induction answers generalizing r with
  | nil => exact Nat.le_refl _
  | cons answer rest ih =>
    have hstep := (cleanerRun_step settings answer r).remaining_le
    refine Nat.le_trans (ih _) ?_
    rw [List.length_cons]
    omega

/-- A run that does not fail does all there is to do. -/
theorem cleaned_thorough (hids : (db.artifacts.rows.map ResearchArtifact.id).Nodup)
    (hc : settings.Covers db store) {answers : List StoreAnswer}
    (hanswers : ∀ answer ∈ answers, answer.deletion = .succeeded) :
    Thorough settings now (cleaned settings now db store answers).db
      (cleaned settings now db store answers).store
      (cleaned settings now db store answers).phase := by
  have hrun := Machine.history (M := cleanerRun settings) (A := fun answer => answer.deletion = .succeeded)
    (P := fun r _ deleted => RunKept settings now db store r deleted ∧
      Thorough settings now r.db r.store r.phase)
    (fun answer r _ _ hanswer ⟨hkept, ht⟩ => ⟨hkept.step answer,
      (cleanerRun_step settings answer r).thorough hkept.sound (hkept.covers hc) hanswer ht⟩)
    (s := CleanerRun.start now db store) ⟨.start hids, trivial⟩ answers hanswers
  exact hrun.2

/-- A run that does not fail and comes to its end has left what is retained. -/
theorem cleaned_eq (hids : (db.artifacts.rows.map ResearchArtifact.id).Nodup)
    (hc : settings.Covers db store) {answers : List StoreAnswer}
    (hanswers : ∀ answer ∈ answers, answer.deletion = .succeeded)
    (hend : (cleaned settings now db store answers).phase = .idle) :
    cleaned settings now db store answers =
      ⟨retained settings now db, retainedObjects settings now db store, .idle⟩ := by
  have hkept : RunKept settings now db store (cleaned settings now db store answers)
      (deletedObjects settings now db store answers) := cleaned_kept hids answers
  have ht : Thorough settings now (cleaned settings now db store answers).db
      (cleaned settings now db store answers).store (cleaned settings now db store answers).phase :=
    cleaned_thorough hids hc hanswers
  rw [hend] at ht
  obtain ⟨hrows, hobjects⟩ := ht
  have hdb := (retained_of_settled hrows).symm.trans hkept.rows
  have hstore := (retainedObjects_of_settled hrows hobjects).symm.trans hkept.objects
  rw [← hdb, ← hstore, ← hend]

end

/-! ### Serials -/

/-- Artifact rows are numbered by a serial. -/
structure SerialSound (db : Database) : Prop where
  ids : (db.artifacts.rows.map ResearchArtifact.id).Nodup
  below : ∀ a ∈ db.artifacts.rows, a.id < db.artifactSerial

theorem artifactRows_ids (now : Time) (j : JobId) (serial : Nat) (stored : List StoredObject) :
    (artifactRows now j serial stored).map ResearchArtifact.id = List.range' serial stored.length := by
  induction stored generalizing serial with
  | nil => rfl
  | cons s rest ih => exact congrArg (serial :: ·) (ih (serial + 1))

section
variable {H : Hashing} {encoding : Encoding} {settings : RetentionSettings}

theorem SerialSound.less {db db' : Database} (h : SerialSound db)
    (hrows : db'.artifacts.rows.Sublist db.artifacts.rows)
    (hserial : db'.artifactSerial = db.artifactSerial) : SerialSound db' where
  ids := nodup_sublist hrows h.ids
  below a ha := by
    rw [hserial]
    exact h.below a (hrows.subset ha)

theorem CleanerStep.serial_eq {answer : StoreAnswer} {db db' : Database} {store store' : ArtifactStore}
    {phase phase' : CleanerPhase} (h : CleanerStep settings answer db store phase db' store' phase') :
    db'.artifactSerial = db.artifactSerial := by
  cases h <;> rfl

/-- A completion takes the next serials. -/
theorem SerialSound.append {db db' : Database} (h : SerialSound db) {now : Time} {j : JobId}
    {stored : List StoredObject}
    (hrows : db'.artifacts.rows = db.artifacts.rows ++ artifactRows now j db.artifactSerial stored)
    (hserial : db'.artifactSerial = db.artifactSerial + stored.length) : SerialSound db' := by
  have hnew {a : ResearchArtifact} (ha : a ∈ artifactRows now j db.artifactSerial stored) :
      db.artifactSerial ≤ a.id ∧ a.id < db.artifactSerial + stored.length := by
    have hmem := List.mem_map_of_mem (f := ResearchArtifact.id) ha
    rw [artifactRows_ids] at hmem
    exact List.mem_range'_1.mp hmem
  refine ⟨?_, fun a ha => ?_⟩
  · rw [hrows, List.map_append]
    refine List.Nodup.append h.ids ?_ fun id hold hadded => ?_
    · rw [artifactRows_ids]
      exact List.nodup_range'
    · obtain ⟨a, ha, rfl⟩ := List.mem_map.mp hold
      obtain ⟨b, hb, hid⟩ := List.mem_map.mp hadded
      have hlow := h.below a ha
      have hhigh := (hnew hb).1
      omega
  · rw [hrows] at ha
    rw [hserial]
    rcases List.mem_append.mp ha with hold | hadded
    · exact Nat.lt_of_lt_of_le (h.below a hold) (Nat.le_add_right ..)
    · exact (hnew hadded).2

theorem ArtifactStep.serial {i : ArtifactInput} {w w' : ArtifactSystem} {out : List Win}
    (hstep : ArtifactStep H encoding settings i w out w') (h : SerialSound w.db) : SerialSound w'.db := by
  cases hstep with
  | @operated op hop =>
    obtain ⟨hret, hcompletion⟩ := Op.stamped_isOther hop w.clock
    obtain ⟨hrows, hserial⟩ := step_artifacts (H := H) hcompletion hret w.db
    exact h.less (by rw [hrows]) hserial
  | won _ _ hcommit =>
    obtain ⟨_, _, -, -, -, -, -, hrows, hserial⟩ := completionCommit_ok hcommit
    exact h.append hrows hserial
  | @cleaned c answer =>
    have hcleaner := CleanerPhase.next_step settings answer w.db w.store (w.cleaners c)
    exact h.less hcleaner.artifacts_sub hcleaner.serial_eq
  | _ => exact h

theorem served_serial (inputs : List ArtifactInput) :
    SerialSound (served H encoding settings inputs).db := by
  induction inputs using List.reverseRecOn with
  | nil => exact ⟨List.nodup_nil, fun a ha => (by cases ha)⟩
  | append_singleton inputs i ih =>
    rw [served_snoc]
    exact (artifactSystem_step H encoding settings i _).serial ih

end

/-- Cut off anywhere, with any deletes failing, a run of the cleaner has deleted nothing
of a job that is not over, an artifact row only after its object, and a job row only
without artifact rows, so that an object in the store keeps a row if it had one. If a
batch holds everything, a second run with the same cutoffs that does not fail comes to
its end, in the same rows and objects as one run that does not fail and is not cut off. -/
theorem retention_crash_safe (H : Hashing) (encoding : Encoding) (settings : RetentionSettings)
    (inputs : List ArtifactInput) (now : Time) (answers : List StoreAnswer) :
    let w := served H encoding settings inputs
    let r := cleaned settings now w.db w.store answers
    (∀ j job, w.db.job? j = some job → job.state.isTerminal = false → JobSpared w.db r.db j job) ∧
      (∀ a ∈ w.db.artifacts.rows, a ∉ r.db.artifacts.rows →
        a.objectKey ∈ deletedObjects settings now w.db w.store answers) ∧
      (∀ answer j, (r.db.job? j).isSome → ((cleanerRun settings).next answer r).db.job? j = none →
        r.db.artifactsOf j = []) ∧
      (∀ object ∈ r.store.rows, (∃ a ∈ w.db.artifacts.rows, a.objectKey = object.objectKey) →
        ∃ a ∈ r.db.artifacts.rows, a.objectKey = object.objectKey) ∧
      (settings.Covers w.db w.store →
        (∃ n, ∀ again, n ≤ again.length → (cleaned settings now r.db r.store again).phase = .idle) ∧
        ∀ again once, (∀ answer ∈ again, answer.deletion = .succeeded) →
          (∀ answer ∈ once, answer.deletion = .succeeded) →
          (cleaned settings now r.db r.store again).phase = .idle →
          (cleaned settings now w.db w.store once).phase = .idle →
            (cleaned settings now r.db r.store again).db = (cleaned settings now w.db w.store once).db ∧
            (cleaned settings now r.db r.store again).store =
              (cleaned settings now w.db w.store once).store) := by
  intro w r
  have hids : (w.db.artifacts.rows.map ResearchArtifact.id).Nodup := (served_serial inputs).ids
  have hkept : RunKept settings now w.db w.store r (deletedObjects settings now w.db w.store answers) :=
    cleaned_kept hids answers
  refine ⟨hkept.spared, fun a ha hgone => (hkept.gone a ha hgone).2, fun answer j hsome hnone => ?_,
    fun object hobject ⟨a, ha, hkey⟩ => ?_, fun hcovers => ⟨?_, ?_⟩⟩
  · obtain ⟨job, hjob⟩ := Option.isSome_iff_exists.mp hsome
    exact (cleanerRun_step settings answer r).job_gone hjob hnone
  · by_cases hleft : a ∈ r.db.artifacts.rows
    · exact ⟨a, hleft, hkey⟩
    · exact absurd hkey.symm ((hkept.gone a ha hleft).1 object hobject)
  · refine ⟨(CleanerRun.start now r.db r.store).phase.remaining r.db r.store, fun again hlong => ?_⟩
    have hleft := @cleaned_remaining settings (.start now r.db r.store) again
    exact CleanerPhase.idle_of_remaining
      (Nat.le_zero.mp (Nat.le_trans hleft (Nat.le_of_eq (Nat.sub_eq_zero_of_le hlong))))
  · intro again once hagain honce hend hend'
    have hsecond := cleaned_eq hkept.sound.ids (hkept.covers hcovers) hagain hend
    have hfirst := cleaned_eq hids hcovers honce hend'
    rw [hsecond, hfirst]
    exact ⟨hkept.rows, hkept.objects⟩

/-! ### A run that is cut off behind a delete -/
namespace Sample

/-- The first artifact goes, the second delete fails, and the run is cut off when the
third object is deleted and its row is not. -/
def cutOff : List StoreAnswer := [{}, {}, {}, ⟨.failed false, []⟩, {}]

def uninterrupted : List StoreAnswer := List.replicate 30 {}

end Sample

/-- The second run ends where one run ends, with no row and no object. -/
theorem retention_crash_safe_cut_off :
    let w := served Sample.hashing Sample.encoding Sample.retentionSettings Sample.repeated
    let r := cleaned Sample.retentionSettings (days 91) w.db w.store Sample.cutOff
    let again := cleaned Sample.retentionSettings (days 91) r.db r.store Sample.uninterrupted
    let once := cleaned Sample.retentionSettings (days 91) w.db w.store Sample.uninterrupted
    (r.db.artifacts.rows.map ResearchArtifact.name, r.store.rows.length) =
        (["research-notes.md", "sources.json", "run.json"], 6) ∧
      again.db = once.db ∧ again.store = once.store ∧
        (once.db.jobs.rows.length, once.store.rows.length) = (0, 0) := by
  intro w r again once
  obtain ⟨-, -, -, -, hrerun⟩ := retention_crash_safe Sample.hashing Sample.encoding
    Sample.retentionSettings Sample.repeated (days 91) Sample.cutOff
  have hcovers : Sample.retentionSettings.Covers w.db w.store :=
    ⟨by decide +kernel, by decide +kernel, by decide +kernel, by decide +kernel⟩
  have hagain : again.phase.remaining again.db again.store = 0 := by decide +kernel
  have honce : once.phase.remaining once.db once.store = 0 := by decide +kernel
  obtain ⟨hdb, hstore⟩ := (hrerun hcovers).2 Sample.uninterrupted Sample.uninterrupted (by decide)
    (by decide) (CleanerPhase.idle_of_remaining hagain) (CleanerPhase.idle_of_remaining honce)
  exact ⟨by decide +kernel, hdb, hstore, by decide +kernel⟩

end ResearchGateway
