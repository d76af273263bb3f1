import ResearchGateway.ArtifactStore
import ResearchGateway.Operation

/-! The retention cleaner.

`RetentionCleaner.run` goes once over the tables and the store, with cutoffs that it
fixes when it starts: it deletes the objects and then the rows of expired artifacts,
the rows of expired events and jobs, and at last the objects that no row refers to. A
step is one query, one transaction or one call of the store, so that a crash may come
between any two of them. -/
namespace ResearchGateway
open Library

/-- The settings of the cleaner, within the bounds of `config.py`. -/
structure RetentionSettings where
  artifactRetentionDays : Nat
  eventRetentionDays : Nat
  jobRetentionDays : Nat
  orphanGraceSeconds : Nat
  cleanupBatchSize : Nat
  artifactJobsPrefix : String
  grace_ge : 3600 ≤ orphanGraceSeconds
  batch_ge : 1 ≤ cleanupBatchSize
  retention_order : artifactRetentionDays ≤ jobRetentionDays

def days (n : Nat) : Time := seconds (86400 * n)

namespace RetentionSettings
variable (settings : RetentionSettings) (now : Time)

def artifactCutoff : Time := now - days settings.artifactRetentionDays

def eventCutoff : Time := now - days settings.eventRetentionDays

def jobCutoff : Time := now - days settings.jobRetentionDays

def orphanCutoff : Time := now - seconds settings.orphanGraceSeconds

end RetentionSettings

/-- Where a run of the cleaner that started at `now` is. -/
inductive CleanerPhase where
  /-- Before `run`, after it, or crashed. -/
  | idle
  | listingArtifacts (now : Time)
  | deletingArtifacts (now : Time) (artifacts : List ResearchArtifact)
  /-- The object is deleted and its row is not. -/
  | recording (now : Time) (artifact : ResearchArtifact) (rest : List ResearchArtifact)
  | expiring (now : Time)
  | referencing (now : Time)
  | listingObjects (now : Time) (referenced : List String)
  | sweeping (now : Time) (referenced : List String) (objects : List ArtifactObject) (deleted : Nat)

/-- What `delete` of the store does: it returns, or it raises with or without effect. -/
inductive Deletion where
  | succeeded
  | failed (removed : Bool)
  deriving DecidableEq

/-- What a step learns from the store. -/
structure StoreAnswer where
  deletion : Deletion := .succeeded
  /-- An order in which the store may list its objects. -/
  order : List ArtifactObject := []

/-- The store after a `delete`. -/
def Deletion.apply (deletion : Deletion) (store : ArtifactStore) (key : String) : ArtifactStore :=
  match deletion with
  | .succeeded | .failed true => store.delete key
  | .failed false => store

/-- The objects under the prefix in the order of the answer, if it is one of them. -/
def StoreAnswer.listing (answer : StoreAnswer) (objects : List ArtifactObject) : List ArtifactObject :=
  if answer.order.Perm objects then answer.order else objects

theorem StoreAnswer.listing_perm (answer : StoreAnswer) (objects : List ArtifactObject) :
    (answer.listing objects).Perm objects := by
  unfold listing
  split
  · assumption
  · exact .refl _

section
variable (settings : RetentionSettings)

/-- The one transaction that deletes events and jobs. -/
def expireRecords (now : Time) : Transaction (Nat × Nat) := do
  let events ← deleteExpiredEvents (settings.eventCutoff now) settings.cleanupBatchSize
  let jobs ← deleteExpiredJobs (settings.jobCutoff now) settings.cleanupBatchSize
  return (events, jobs)

/-- The next step of a run. An exception that leaves `run` ends it. -/
def CleanerPhase.next (answer : StoreAnswer) (db : Database) (store : ArtifactStore) :
    CleanerPhase → Database × ArtifactStore × CleanerPhase
  | .idle => (db, store, .idle)
  | .listingArtifacts now =>
    (db, store, .deletingArtifacts now
      (listExpiredArtifacts db (settings.artifactCutoff now) settings.cleanupBatchSize))
  | .deletingArtifacts now [] => (db, store, .expiring now)
  | .deletingArtifacts now (artifact :: rest) =>
    (db, answer.deletion.apply store artifact.objectKey,
      if answer.deletion = .succeeded then .recording now artifact rest
      else .deletingArtifacts now rest)
  | .recording now artifact rest =>
    match commit (deleteArtifactRecord artifact.id) db with
    | (.ok _, db') => (db', store, .deletingArtifacts now rest)
    | (.error _, db') => (db', store, .idle)
  | .expiring now =>
    match commit (expireRecords settings now) db with
    | (.ok _, db') => (db', store, .referencing now)
    | (.error _, db') => (db', store, .idle)
  | .referencing now => (db, store, .listingObjects now (listArtifactKeys db))
  | .listingObjects now referenced =>
    (db, store, .sweeping now referenced
      (answer.listing (store.listObjects settings.artifactJobsPrefix)) 0)
  | .sweeping _ _ [] _ => (db, store, .idle)
  | .sweeping now referenced (object :: rest) deleted =>
    if settings.cleanupBatchSize ≤ deleted then (db, store, .idle)
    else if object.objectKey ∈ referenced ∨ settings.orphanCutoff now ≤ object.lastModified then
      (db, store, .sweeping now referenced rest deleted)
    else
      (db, answer.deletion.apply store object.objectKey, .sweeping now referenced rest
        (if answer.deletion = .succeeded then deleted + 1 else deleted))

end

/-! ### What a step does to the tables -/

/-- The operations that a step commits. -/
def CleanerPhase.ops (settings : RetentionSettings) : CleanerPhase → List Op
  | .recording _ artifact _ => [.deleteArtifactRecord artifact.id]
  | .expiring now =>
    [.deleteExpiredEvents (settings.eventCutoff now) settings.cleanupBatchSize,
      .deleteExpiredJobs (settings.jobCutoff now) settings.cleanupBatchSize]
  | _ => []

/-- The tables without what the transaction of a run deletes. -/
def expiredRecords (settings : RetentionSettings) (now : Time) (db : Database) : Database :=
  let pruned := withoutEvents db ((expiredEvents db (settings.eventCutoff now)
    settings.cleanupBatchSize).map fun e => (e.jobId, e.sequence))
  withoutJobs pruned ((expiredJobs pruned (settings.jobCutoff now) settings.cleanupBatchSize).map
    ResearchJob.id)

/-! ### The steps of a run -/

section
variable (settings : RetentionSettings) (answer : StoreAnswer) (db : Database) (store : ArtifactStore)

/-- What one step of a run does, with what it passed. -/
inductive CleanerStep : CleanerPhase → Database → ArtifactStore → CleanerPhase → Prop
  | rested : CleanerStep .idle db store .idle
  | listed (now : Time) :
      CleanerStep (.listingArtifacts now) db store (.deletingArtifacts now
        (listExpiredArtifacts db (settings.artifactCutoff now) settings.cleanupBatchSize))
  | emptied (now : Time) : CleanerStep (.deletingArtifacts now []) db store (.expiring now)
  | deleted {now artifact rest} (h : answer.deletion = .succeeded) :
      CleanerStep (.deletingArtifacts now (artifact :: rest)) db (store.delete artifact.objectKey)
        (.recording now artifact rest)
  | kept {now artifact rest} (h : answer.deletion ≠ .succeeded) :
      CleanerStep (.deletingArtifacts now (artifact :: rest)) db
        (answer.deletion.apply store artifact.objectKey) (.deletingArtifacts now rest)
  | recorded {now artifact rest} :
      CleanerStep (.recording now artifact rest)
        {db with artifacts := db.artifacts.keep fun a => a.id ≠ artifact.id} store
        (.deletingArtifacts now rest)
  | expired (now : Time) :
      CleanerStep (.expiring now) (expiredRecords settings now db) store (.referencing now)
  | referenced (now : Time) :
      CleanerStep (.referencing now) db store (.listingObjects now (listArtifactKeys db))
  | objectsListed {now referenced} :
      CleanerStep (.listingObjects now referenced) db store (.sweeping now referenced
        (answer.listing (store.listObjects settings.artifactJobsPrefix)) 0)
  | finished {now referenced deleted} : CleanerStep (.sweeping now referenced [] deleted) db store .idle
  | stopped {now referenced object rest deleted} (h : settings.cleanupBatchSize ≤ deleted) :
      CleanerStep (.sweeping now referenced (object :: rest) deleted) db store .idle
  | skipped {now referenced object rest deleted}
      (h : object.objectKey ∈ referenced ∨ settings.orphanCutoff now ≤ object.lastModified) :
      CleanerStep (.sweeping now referenced (object :: rest) deleted) db store
        (.sweeping now referenced rest deleted)
  | collected {now referenced object rest deleted} (hroom : deleted < settings.cleanupBatchSize)
      (hkey : object.objectKey ∉ referenced) (hold : object.lastModified < settings.orphanCutoff now) :
      CleanerStep (.sweeping now referenced (object :: rest) deleted) db
        (answer.deletion.apply store object.objectKey) (.sweeping now referenced rest
          (if answer.deletion = .succeeded then deleted + 1 else deleted))

/-- The only things that a step of a run does. -/
theorem CleanerPhase.next_step (phase : CleanerPhase) :
    CleanerStep settings answer db store phase (phase.next settings answer db store).1
      (phase.next settings answer db store).2.1 (phase.next settings answer db store).2.2 := by
  cases phase with
  | idle => exact .rested
  | listingArtifacts now => exact .listed now
  | deletingArtifacts now artifacts =>
    cases artifacts with
    | nil => exact .emptied now
    | cons artifact rest =>
      cases h : answer.deletion with
      | succeeded =>
        simp only [CleanerPhase.next, h]
        exact .deleted h
      | failed removed =>
        simp only [CleanerPhase.next, if_neg (show answer.deletion ≠ .succeeded by simp [h])]
        exact .kept (by simp [h])
  | recording now artifact rest => exact .recorded
  | expiring now => exact .expired now
  | referencing now => exact .referenced now
  | listingObjects now referenced => exact .objectsListed
  | sweeping now referenced objects deleted =>
    cases objects with
    | nil => exact .finished
    | cons object rest =>
      simp only [CleanerPhase.next]
      split
      · next hfull => exact .stopped hfull
      · next hroom =>
        split
        · next hskip => exact .skipped hskip
        · next horphan =>
          obtain ⟨hkey, hold⟩ := not_or.mp horphan
          exact .collected (Nat.lt_of_not_le hroom) hkey (Int.lt_of_not_ge hold)

end

end ResearchGateway
