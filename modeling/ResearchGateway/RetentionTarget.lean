import ResearchGateway.Cleaner

/-! What retention leaves.

`retained` and `retainedObjects` say what is due to go at a time, without batches, an
order or a store that fails: the artifacts of jobs that finished long ago and their
objects, old events, old jobs that have no other artifacts, and old objects that no
remaining row refers to. Deleting something that is due leaves what is retained as it
is, so that every way of getting there ends in the same rows and objects. -/
namespace ResearchGateway
open Library

section
variable (settings : RetentionSettings) (now : Time)

def artifactDue (db : Database) (artifact : ResearchArtifact) : Bool :=
  artifactExpired db (settings.artifactCutoff now) artifact

def eventDue (db : Database) (event : ResearchEvent) : Bool :=
  event.createdAt < settings.eventCutoff now && ofTerminalJob db event

def jobDue (db : Database) (job : ResearchJob) : Bool :=
  finishedBefore (settings.jobCutoff now) job && (db.artifactsOf job.id).all (artifactDue settings now db)

def jobsDue (db : Database) : List JobId :=
  (db.jobs.rows.filter (jobDue settings now db)).map ResearchJob.id

/-- The object of a row that is due. -/
def objectDue (db : Database) (object : ArtifactObject) : Bool :=
  db.artifacts.rows.any fun a => artifactDue settings now db a && a.objectKey = object.objectKey

/-- An old object that no remaining row refers to. -/
def orphanDue (db : Database) (object : ArtifactObject) : Bool :=
  (settings.artifactJobsPrefix ++ "/").toList.isPrefixOf object.objectKey.toList &&
    object.lastModified < settings.orphanCutoff now &&
    !db.artifacts.rows.any fun a => !artifactDue settings now db a && a.objectKey = object.objectKey

/-- The rows that remain. -/
def retained (db : Database) : Database :=
  withoutJobs
    {db with
      events := db.events.keep fun e => !eventDue settings now db e
      artifacts := db.artifacts.keep fun a => !artifactDue settings now db a}
    (jobsDue settings now db)

/-- The objects that remain. -/
def retainedObjects (db : Database) (store : ArtifactStore) : ArtifactStore :=
  store.keep fun object => !(objectDue settings now db object || orphanDue settings now db object)

end

section
variable {settings : RetentionSettings} {now : Time} {db : Database}

theorem mem_jobsDue {j : JobId} :
    j ∈ jobsDue settings now db ↔ ∃ job, db.job? j = some job ∧ jobDue settings now db job = true := by
  constructor
  · intro h
    obtain ⟨job, hjob, hid⟩ := List.mem_map.mp h
    obtain ⟨hrow, hdue⟩ := List.mem_filter.mp hjob
    exact ⟨job, Database.job?_iff.mpr ⟨hrow, hid⟩, hdue⟩
  · rintro ⟨job, hjob, hdue⟩
    obtain ⟨hrow, hid⟩ := Database.job?_iff.mp hjob
    exact List.mem_map.mpr ⟨job, List.mem_filter.mpr ⟨hrow, hdue⟩, hid⟩

/-! ### An artifact whose object is gone -/

section
variable {a : ResearchArtifact} (hids : (db.artifacts.rows.map ResearchArtifact.id).Nodup)
  (ha : a ∈ db.artifacts.rows)

/-- The tables without the row. -/
def withoutArtifact (db : Database) (id : Nat) : Database :=
  {db with artifacts := db.artifacts.keep fun a => a.id ≠ id}

include hids ha in
theorem eq_of_id {x : ResearchArtifact} (hx : x ∈ db.artifacts.rows) (h : x.id = a.id) : x = a :=
  List.inj_on_of_nodup_map hids hx ha h

include hids ha in
/-- What is not due does not go with the row. -/
theorem any_withoutArtifact {p : ResearchArtifact → Bool} (hp : p a = false) :
    (withoutArtifact db a.id).artifacts.rows.any p = db.artifacts.rows.any p := by
  rw [Bool.eq_iff_iff, List.any_eq_true, List.any_eq_true]
  constructor
  · rintro ⟨x, hx, hpx⟩
    exact ⟨x, (List.mem_filter.mp hx).1, hpx⟩
  · rintro ⟨x, hx, hpx⟩
    refine ⟨x, List.mem_filter.mpr ⟨hx, ?_⟩, hpx⟩
    have hne : x.id ≠ a.id := fun h => by
      rw [eq_of_id hids ha hx h, hp] at hpx
      cases hpx
    simpa using hne

include hids ha in
theorem jobsDue_withoutArtifact (hdue : artifactDue settings now db a = true) :
    jobsDue settings now (withoutArtifact db a.id) = jobsDue settings now db := by
  have hsame (j : JobId) : ((withoutArtifact db a.id).artifactsOf j).all (artifactDue settings now db) =
      (db.artifactsOf j).all (artifactDue settings now db) := by
    rw [Bool.eq_iff_iff, List.all_eq_true, List.all_eq_true]
    constructor
    · intro h x hx
      obtain ⟨hrow, hj⟩ := List.mem_filter.mp hx
      by_cases hid : x.id = a.id
      · rw [eq_of_id hids ha hrow hid]
        exact hdue
      · exact h x (List.mem_filter.mpr ⟨List.mem_filter.mpr ⟨hrow, by simpa using hid⟩, hj⟩)
    · intro h x hx
      obtain ⟨hrow, hj⟩ := List.mem_filter.mp hx
      exact h x (List.mem_filter.mpr ⟨(List.mem_filter.mp hrow).1, hj⟩)
  refine congrArg (List.map ResearchJob.id) (List.filter_congr fun job _ => ?_)
  show (_ && ((withoutArtifact db a.id).artifactsOf job.id).all (artifactDue settings now db)) = _
  rw [hsame]
  rfl

include hids ha in
theorem retained_withoutArtifact (hdue : artifactDue settings now db a = true) :
    retained settings now (withoutArtifact db a.id) = retained settings now db := by
  have hrows : (withoutArtifact db a.id).artifacts.keep (fun x => !artifactDue settings now db x) =
      db.artifacts.keep fun x => !artifactDue settings now db x := by
    refine Table.keep_keep fun x hx => ?_
    by_cases hid : x.id = a.id
    · rw [eq_of_id hids ha hx hid, hdue]
      rfl
    · simp [hid]
  have hdb : ({withoutArtifact db a.id with
        events := (withoutArtifact db a.id).events.keep fun e => !eventDue settings now db e
        artifacts := (withoutArtifact db a.id).artifacts.keep fun x => !artifactDue settings now db x} :
          Database) =
      {db with
        events := db.events.keep fun e => !eventDue settings now db e
        artifacts := db.artifacts.keep fun x => !artifactDue settings now db x} := by
    rw [hrows]
    rfl
  show withoutJobs _ (jobsDue settings now (withoutArtifact db a.id)) = _
  rw [jobsDue_withoutArtifact hids ha hdue]
  exact congrArg (withoutJobs · (jobsDue settings now db)) hdb

include hids ha in
theorem retainedObjects_withoutArtifact {store : ArtifactStore} (hgone : store.Fresh a.objectKey) :
    retainedObjects settings now (withoutArtifact db a.id) store = retainedObjects settings now db store := by
  refine Table.keep_congr fun object hobject => ?_
  have hkey : a.objectKey ≠ object.objectKey := (hgone object hobject).symm
  have hobjects : objectDue settings now (withoutArtifact db a.id) object = objectDue settings now db object :=
    any_withoutArtifact hids ha (by simp [hkey])
  have horphans : orphanDue settings now (withoutArtifact db a.id) object = orphanDue settings now db object := by
    have hany : (withoutArtifact db a.id).artifacts.rows.any
          (fun x => !artifactDue settings now db x && x.objectKey = object.objectKey) =
        db.artifacts.rows.any fun x => !artifactDue settings now db x && x.objectKey = object.objectKey :=
      any_withoutArtifact hids ha (by simp [hkey])
    unfold orphanDue
    exact congrArg (fun b => _ && !b) hany
  rw [hobjects, horphans]

end

/-- An object that is due may be deleted at any time. -/
theorem retainedObjects_keep {store : ArtifactStore} {p : ArtifactObject → Bool}
    (h : ∀ object ∈ store.rows, p object = false →
      objectDue settings now db object = true ∨ orphanDue settings now db object = true) :
    retainedObjects settings now db (store.keep p) = retainedObjects settings now db store := by
  refine Table.keep_keep fun object hobject => ?_
  cases hp : p object with
  | true => exact Bool.and_true _
  | false => rcases h object hobject hp with hdue | hdue <;> simp [hdue]

/-! ### Old events and jobs -/

/-- Some events that are due go. -/
theorem retained_withoutEvents {expired : List (JobId × Nat)}
    (h : ∀ e ∈ db.events.rows, (e.jobId, e.sequence) ∈ expired → eventDue settings now db e = true) :
    retained settings now (withoutEvents db expired) = retained settings now db := by
  have hrows : (withoutEvents db expired).events.keep (fun e => !eventDue settings now db e) =
      db.events.keep fun e => !eventDue settings now db e := by
    refine Table.keep_keep fun e he => ?_
    by_cases hmem : (e.jobId, e.sequence) ∈ expired
    · rw [h e he hmem]
      rfl
    · simp [hmem]
  have hdb : ({withoutEvents db expired with
        events := (withoutEvents db expired).events.keep fun e => !eventDue settings now db e
        artifacts := (withoutEvents db expired).artifacts.keep fun x => !artifactDue settings now db x} :
          Database) =
      {db with
        events := db.events.keep fun e => !eventDue settings now db e
        artifacts := db.artifacts.keep fun x => !artifactDue settings now db x} := by
    rw [hrows]
    rfl
  exact congrArg (withoutJobs · (jobsDue settings now db)) hdb

theorem all_congr_mem {α : Type} {l : List α} {p q : α → Bool} (h : ∀ x ∈ l, p x = q x) :
    l.all p = l.all q := by
  rw [Bool.eq_iff_iff, List.all_eq_true, List.all_eq_true]
  exact forall₂_congr fun x hx => by rw [h x hx]

theorem any_congr_mem {α : Type} {l : List α} {p q : α → Bool} (h : ∀ x ∈ l, p x = q x) :
    l.any p = l.any q := by
  rw [Bool.eq_iff_iff, List.any_eq_true, List.any_eq_true]
  exact exists_congr fun x => and_congr_right fun hx => by rw [h x hx]

theorem Database.ext_rows {db db' : Database} (hjobs : db.jobs.rows = db'.jobs.rows)
    (hevents : db.events.rows = db'.events.rows) (hartifacts : db.artifacts.rows = db'.artifacts.rows)
    (hserial : db.artifactSerial = db'.artifactSerial) : db = db' := by
  cases db
  cases db'
  rw [Database.mk.injEq]
  exact ⟨Table.ext_rows hjobs, Table.ext_rows hevents, Table.ext_rows hartifacts, hserial⟩

theorem finishedBefore_orphaned (cutoff : Time) (gone : List JobId) (job : ResearchJob) :
    finishedBefore cutoff (orphaned gone job) = finishedBefore cutoff job := by
  rcases orphaned_cases gone job with h | h
  · rw [h]
  · rw [h]
    rfl

theorem state_orphaned (gone : List JobId) (job : ResearchJob) :
    (orphaned gone job).state = job.state := by
  rcases orphaned_cases gone job with h | h
  · rw [h]
  · rw [h]

/-- The rows of a job that is not gone are due as before. -/
theorem artifactDue_withoutJobs {gone : List JobId} {x : ResearchArtifact} (hx : x.jobId ∉ gone) :
    artifactDue settings now (withoutJobs db gone) x = artifactDue settings now db x := by
  show ((withoutJobs db gone).job? x.jobId).any (finishedBefore _) = _
  rw [job?_withoutJobs, if_neg hx, Option.any_map]
  simp only [finishedBefore_orphaned]
  rfl

theorem eventDue_withoutJobs {gone : List JobId} {e : ResearchEvent} (he : e.jobId ∉ gone) :
    eventDue settings now (withoutJobs db gone) e = eventDue settings now db e := by
  have hterminal : ofTerminalJob (withoutJobs db gone) e = ofTerminalJob db e := by
    show ((withoutJobs db gone).job? e.jobId).any _ = _
    rw [job?_withoutJobs, if_neg he, Option.any_map]
    simp only [state_orphaned]
    rfl
  unfold eventDue
  rw [hterminal]

section
variable {gone : List JobId} (hgone : ∀ j ∈ gone, ∃ job, db.job? j = some job ∧
  finishedBefore (settings.jobCutoff now) job = true ∧ db.artifactsOf j = [])

include hgone in
theorem jobsDue_of_gone {j : JobId} (hj : j ∈ gone) : j ∈ jobsDue settings now db := by
  obtain ⟨job, hjob, hold, hempty⟩ := hgone j hj
  refine mem_jobsDue.mpr ⟨job, hjob, ?_⟩
  have hid := Database.id_of_job? hjob
  unfold jobDue
  rw [hid, hempty, hold]
  rfl

include hgone in
/-- No artifact row goes with the jobs. -/
theorem artifact_not_gone {x : ResearchArtifact} (hx : x ∈ db.artifacts.rows) : x.jobId ∉ gone := by
  intro hj
  obtain ⟨_, -, -, hempty⟩ := hgone x.jobId hj
  have hmem : x ∈ db.artifactsOf x.jobId := List.mem_filter.mpr ⟨hx, by simp⟩
  rw [hempty] at hmem
  cases hmem

include hgone in
theorem artifacts_withoutJobs : (withoutJobs db gone).artifacts = db.artifacts :=
  Table.keep_all fun x hx => by simpa using artifact_not_gone hgone hx

theorem mem_jobsDue_withoutJobs {j : JobId} (hj : j ∉ gone) :
    j ∈ jobsDue settings now (withoutJobs db gone) ↔ j ∈ jobsDue settings now db := by
  have hdue (job : ResearchJob) (hjob : db.job? j = some job) :
      jobDue settings now (withoutJobs db gone) (orphaned gone job) = jobDue settings now db job := by
    have hid := Database.id_of_job? hjob
    have hrows : (withoutJobs db gone).artifactsOf j = db.artifactsOf j := by
      rw [artifactsOf_withoutJobs, if_neg hj]
    unfold jobDue
    rw [finishedBefore_orphaned, orphaned_id, hid, hrows]
    refine congrArg _ (all_congr_mem fun x hx => ?_)
    have hxj : x.jobId = j := by simpa using (List.mem_filter.mp hx).2
    exact artifactDue_withoutJobs (by rwa [hxj])
  rw [mem_jobsDue, mem_jobsDue, job?_withoutJobs, if_neg hj]
  constructor
  · rintro ⟨_, hjob, h⟩
    obtain ⟨job, hrow, rfl⟩ := Option.map_eq_some_iff.mp hjob
    exact ⟨job, hrow, by rwa [← hdue job hrow]⟩
  · rintro ⟨job, hrow, h⟩
    exact ⟨orphaned gone job, by rw [hrow]; rfl, by rwa [hdue job hrow]⟩

theorem orphaned_orphaned {gone more all : List JobId} (h : ∀ p, p ∈ all ↔ p ∈ gone ∨ p ∈ more)
    (job : ResearchJob) : orphaned more (orphaned gone job) = orphaned all job := by
  cases hparent : job.parentJobId with
  | none => simp [orphaned, hparent]
  | some p =>
    by_cases hp : p ∈ gone
    · simp [orphaned, hparent, hp, h]
    · by_cases hp' : p ∈ more <;> simp [orphaned, hparent, hp, hp', h]

include hgone in
/-- Some jobs that are due and have no artifact row go. -/
theorem retained_withoutJobs :
    retained settings now (withoutJobs db gone) = retained settings now db := by
  have hall (p : JobId) : p ∈ jobsDue settings now db ↔
      p ∈ gone ∨ p ∈ jobsDue settings now (withoutJobs db gone) := by
    by_cases hp : p ∈ gone
    · simp [hp, jobsDue_of_gone hgone hp]
    · simp [hp, mem_jobsDue_withoutJobs hp]
  have hkept {ρ : Type} (owner : ρ → JobId) (due due' : ρ → Bool)
      (h : ∀ r, owner r ∉ gone → due' r = due r) (rows : List ρ) :
      ((rows.filter fun r => owner r ∉ gone).filter fun r => !due' r).filter
          (fun r => owner r ∉ jobsDue settings now (withoutJobs db gone)) =
        (rows.filter fun r => !due r).filter fun r => owner r ∉ jobsDue settings now db := by
    rw [List.filter_filter, List.filter_filter, List.filter_filter]
    refine List.filter_congr fun r _ => ?_
    by_cases hr : owner r ∈ gone
    · simp [hr, hall]
    · simp [hr, hall, h r hr]
  have hjobs : List.map (orphaned (jobsDue settings now (withoutJobs db gone)))
        (List.filter (fun job => job.id ∉ jobsDue settings now (withoutJobs db gone))
          (List.map (orphaned gone) (List.filter (fun job => job.id ∉ gone) db.jobs.rows))) =
      List.map (orphaned (jobsDue settings now db))
        (List.filter (fun job => job.id ∉ jobsDue settings now db) db.jobs.rows) := by
    rw [List.filter_map, List.map_map, List.filter_filter]
    have hkeep : db.jobs.rows.filter (fun job =>
          ((fun job : ResearchJob => decide (job.id ∉ jobsDue settings now (withoutJobs db gone))) ∘
            orphaned gone) job && decide (job.id ∉ gone)) =
        db.jobs.rows.filter fun job => job.id ∉ jobsDue settings now db := by
      refine List.filter_congr fun job _ => ?_
      simp [orphaned_id, hall, Bool.and_comm]
    rw [hkeep]
    exact List.map_congr_left fun job _ => orphaned_orphaned hall job
  have hevents := hkept ResearchEvent.jobId (eventDue settings now db)
    (eventDue settings now (withoutJobs db gone)) (fun _ h => eventDue_withoutJobs h) db.events.rows
  have hartifacts := hkept ResearchArtifact.jobId (artifactDue settings now db)
    (artifactDue settings now (withoutJobs db gone)) (fun _ h => artifactDue_withoutJobs h)
    db.artifacts.rows
  exact Database.ext_rows hjobs hevents hartifacts rfl

include hgone in
/-- The objects do not go with the jobs. -/
theorem retainedObjects_withoutJobs (store : ArtifactStore) :
    retainedObjects settings now (withoutJobs db gone) store = retainedObjects settings now db store := by
  have hdue (x : ResearchArtifact) (hx : x ∈ db.artifacts.rows) :
      artifactDue settings now (withoutJobs db gone) x = artifactDue settings now db x :=
    artifactDue_withoutJobs (artifact_not_gone hgone hx)
  refine Table.keep_congr fun object _ => ?_
  have hobjects : objectDue settings now (withoutJobs db gone) object = objectDue settings now db object := by
    unfold objectDue
    rw [artifacts_withoutJobs hgone]
    exact any_congr_mem fun x hx => by rw [hdue x hx]
  have horphans : orphanDue settings now (withoutJobs db gone) object = orphanDue settings now db object := by
    unfold orphanDue
    rw [artifacts_withoutJobs hgone]
    exact congrArg (fun b => _ && !b) (any_congr_mem fun x hx => by rw [hdue x hx])
  rw [hobjects, horphans]

end

/-! ### The transaction of a run -/

theorem expiredEvents_due {limit : Nat} {e : ResearchEvent} (he : e ∈ db.events.rows)
    (h : (e.jobId, e.sequence) ∈ (expiredEvents db (settings.eventCutoff now) limit).map
      fun e => (e.jobId, e.sequence)) : eventDue settings now db e = true := by
  obtain ⟨x, hx, hkey⟩ := List.mem_map.mp h
  obtain ⟨hrow, hdue⟩ := List.mem_filter.mp (List.mem_of_mem_take hx)
  rwa [List.inj_on_of_nodup_map db.events.unique hrow he hkey] at hdue

theorem expiredJobs_gone {cutoff : Time} {limit : Nat} :
    ∀ j ∈ (expiredJobs db cutoff limit).map ResearchJob.id, ∃ job, db.job? j = some job ∧
      finishedBefore cutoff job = true ∧ db.artifactsOf j = [] := by
  intro j hj
  obtain ⟨job, hjob, rfl⟩ := List.mem_map.mp hj
  obtain ⟨hrow, hold⟩ :=
    List.mem_filter.mp ((List.mem_insertionSort _).mp (List.mem_of_mem_take hjob))
  obtain ⟨hfinished, hempty⟩ := Bool.and_eq_true_iff.mp hold
  exact ⟨job, Database.job?_iff.mpr ⟨hrow, rfl⟩, hfinished, List.isEmpty_iff.mp hempty⟩

theorem retained_expiredRecords :
    retained settings now (expiredRecords settings now db) = retained settings now db :=
  (retained_withoutJobs expiredJobs_gone).trans (retained_withoutEvents fun _ he => expiredEvents_due he)

theorem retainedObjects_expiredRecords (store : ArtifactStore) :
    retainedObjects settings now (expiredRecords settings now db) store =
      retainedObjects settings now db store := retainedObjects_withoutJobs expiredJobs_gone store

theorem artifacts_expiredRecords : (expiredRecords settings now db).artifacts = db.artifacts :=
  artifacts_withoutJobs expiredJobs_gone

end

/-! ### Nothing left to do -/

/-- No row is due. -/
structure RowsSettled (settings : RetentionSettings) (now : Time) (db : Database) : Prop where
  artifacts : ∀ a ∈ db.artifacts.rows, artifactDue settings now db a = false
  events : ∀ e ∈ db.events.rows, eventDue settings now db e = false
  jobs : ∀ job ∈ db.jobs.rows, jobDue settings now db job = false

section
variable {settings : RetentionSettings} {now : Time} {db : Database}

/-- An object that no row refers to is due when it is old. -/
theorem orphanDue_of_unreferenced {object : ArtifactObject}
    (hpath : (settings.artifactJobsPrefix ++ "/").toList.isPrefixOf object.objectKey.toList = true)
    (hkey : object.objectKey ∉ listArtifactKeys db)
    (hold : object.lastModified < settings.orphanCutoff now) : orphanDue settings now db object = true := by
  have hnone : (db.artifacts.rows.any fun a =>
      !artifactDue settings now db a && a.objectKey = object.objectKey) = false := by
    rw [List.any_eq_false]
    intro a ha hmatch
    have hsame : a.objectKey = object.objectKey := by simpa using (Bool.and_eq_true_iff.mp hmatch).2
    exact hkey (List.mem_map.mpr ⟨a, ha, hsame⟩)
  unfold orphanDue
  rw [hpath, hnone]
  simpa using hold

/-- When no row is due, an object that a row refers to is not due either. -/
theorem RowsSettled.not_orphanDue (h : RowsSettled settings now db) {object : ArtifactObject}
    (hkey : object.objectKey ∈ listArtifactKeys db) : orphanDue settings now db object = false := by
  obtain ⟨a, ha, hsame⟩ := List.mem_map.mp hkey
  have hsome : (db.artifacts.rows.any fun a =>
      !artifactDue settings now db a && a.objectKey = object.objectKey) = true :=
    List.any_eq_true.mpr ⟨a, ha, by simp [h.artifacts a ha, hsame]⟩
  unfold orphanDue
  rw [hsome]
  simp

theorem not_orphanDue_of_young {object : ArtifactObject}
    (hyoung : settings.orphanCutoff now ≤ object.lastModified) :
    orphanDue settings now db object = false := by
  unfold orphanDue
  rw [decide_eq_false (Int.not_lt.mpr hyoung)]
  simp

theorem retained_of_settled (h : RowsSettled settings now db) : retained settings now db = db := by
  have hnone : jobsDue settings now db = [] := by
    have : db.jobs.rows.filter (jobDue settings now db) = [] :=
      List.filter_eq_nil_iff.mpr fun job hjob => by simp [h.jobs job hjob]
    unfold jobsDue
    rw [this]
    rfl
  have hjobs : db.jobs.rows.map (orphaned []) = db.jobs.rows := by
    refine List.map_id'' (fun job => ?_) _
    unfold orphaned
    split <;> rfl
  have hevents : db.events.keep (fun e => !eventDue settings now db e) = db.events :=
    Table.keep_all fun e he => by simp [h.events e he]
  have hartifacts : db.artifacts.keep (fun a => !artifactDue settings now db a) = db.artifacts :=
    Table.keep_all fun a ha => by simp [h.artifacts a ha]
  unfold retained
  rw [hnone, hevents, hartifacts]
  refine Database.ext_rows ?_ ?_ ?_ rfl
  · show (db.jobs.rows.filter _).map _ = _
    rw [List.filter_eq_self.mpr (by simp), hjobs]
  · exact List.filter_eq_self.mpr (by simp)
  · exact List.filter_eq_self.mpr (by simp)

theorem retainedObjects_of_settled (h : RowsSettled settings now db) {store : ArtifactStore}
    (hobjects : ∀ object ∈ store.rows, orphanDue settings now db object = false) :
    retainedObjects settings now db store = store := by
  refine Table.keep_all fun object hobject => ?_
  have hnone : objectDue settings now db object = false := by
    unfold objectDue
    rw [List.any_eq_false]
    intro a ha
    simp [h.artifacts a ha]
  rw [hnone, hobjects object hobject]
  rfl

end

end ResearchGateway
