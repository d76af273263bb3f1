import ResearchGateway.Domain
import ResearchGateway.Json
import ResearchGateway.Library.Journal
import ResearchGateway.Library.Table

/-! The three tables.

Rows are the columns of `db.py`; a table's list is in insertion order, which is
the order of the `id` serials of events and artifacts. The primary key of jobs
and the two unique constraints of events and artifacts are table keys, so they
hold of every `Database`. Everything said about one job is about its
`Slice`: its row, its events and its artifacts. -/
namespace ResearchGateway
open Library

structure ResearchJob where
  id : JobId
  userId : String
  idempotencyKey : String
  requestHash : String
  query : String
  chatId : String
  messageId : String
  sources : List SourceRef
  contextDocuments : List ContextDocument
  parentJobId : Option JobId
  iteration : Nat
  research : ResearchShape
  budget : ResearchBudget
  models : ModelRoles
  modelCapabilities : List ModelCapability
  reportType : String
  reportFormats : List String
  state : JobState
  runnerTokenHash : Option String := none
  attempt : Nat := 0
  dispatchLeaseExpiresAt : Option Time := none
  result : Option Dict := none
  usage : Option Dict := none
  error : Option String := none
  createdAt : Time
  updatedAt : Time
  startedAt : Option Time := none
  finishedAt : Option Time := none

structure ResearchEvent where
  jobId : JobId
  sequence : Nat
  eventType : String
  data : Dict
  createdAt : Time

structure ResearchArtifact where
  id : Nat
  jobId : JobId
  name : String
  objectKey : String
  mediaType : String
  size : Nat
  createdAt : Time

structure Database where
  jobs : Table ResearchJob JobId ResearchJob.id
  /-- `uq_event_job_sequence`. -/
  events : Table ResearchEvent (JobId × Nat) fun e => (e.jobId, e.sequence)
  /-- `uq_artifact_job_name`. -/
  artifacts : Table ResearchArtifact (JobId × String) fun a => (a.jobId, a.name)
  /-- The next `research_artifacts.id`. -/
  artifactSerial : Nat

/-- What the tables hold about one job. -/
structure Slice where
  job : Option ResearchJob
  events : List ResearchEvent
  artifacts : List ResearchArtifact

namespace Database

def empty : Database := ⟨.empty, .empty, .empty, 1⟩

def job? (db : Database) (j : JobId) : Option ResearchJob := db.jobs.find? j

def eventsOf (db : Database) (j : JobId) : List ResearchEvent :=
  db.events.rows.filter fun e => e.jobId = j

def artifactsOf (db : Database) (j : JobId) : List ResearchArtifact :=
  db.artifacts.rows.filter fun a => a.jobId = j

def slice (db : Database) (j : JobId) : Slice := ⟨db.job? j, db.eventsOf j, db.artifactsOf j⟩

/-- `max(sequence)` of a job's events, or zero. -/
def currentSequence (db : Database) (j : JobId) : Nat :=
  Journal.lastNumber ((db.eventsOf j).map ResearchEvent.sequence)

def putJob (db : Database) (job : ResearchJob) : Database := {db with jobs := db.jobs.put job}

def addJob (db : Database) (job : ResearchJob) (h : db.jobs.Fresh job.id) : Database :=
  {db with jobs := db.jobs.insert job h}

def newEvent (db : Database) (now : Time) (j : JobId) (eventType : String) (data : Dict) :
    ResearchEvent := ⟨j, db.currentSequence j + 1, eventType, data, now⟩

theorem newEvent_fresh (db : Database) (now : Time) (j : JobId) (eventType : String) (data : Dict) :
    db.events.Fresh (j, (db.newEvent now j eventType data).sequence) := by
  intro e he hk
  obtain ⟨hj, hs⟩ := Prod.mk.inj hk
  have hmem : e.sequence ∈ (db.eventsOf j).map ResearchEvent.sequence :=
    List.mem_map.mpr ⟨e, List.mem_filter.mpr ⟨he, by simpa using hj⟩, rfl⟩
  rw [hs] at hmem
  exact Journal.lastNumber_fresh _ hmem

/-- The sequence is one past the largest, so the unique constraint cannot fail. -/
def appendEvent (db : Database) (now : Time) (j : JobId) (eventType : String) (data : Dict) :
    Database :=
  let fresh := db.newEvent_fresh now j eventType data
  {db with events := db.events.insert (db.newEvent now j eventType data) fresh}

end Database

/-- A row as a transaction leaves it, with the events it appends for the job. -/
structure Write where
  now : Time
  job : ResearchJob
  notes : List (String × Dict) := []

namespace Database

def appendNotes (db : Database) (now : Time) (j : JobId) (notes : List (String × Dict)) : Database :=
  notes.foldl (fun db n => db.appendEvent now j n.1 n.2) db

def write (db : Database) (w : Write) : Database := (db.putJob w.job).appendNotes w.now w.job.id w.notes

/-! ### Reading back -/

@[simp] theorem job?_appendEvent (db : Database) (now : Time) (j k : JobId) (t : String) (d : Dict) :
    (db.appendEvent now j t d).job? k = db.job? k := rfl

@[simp] theorem artifacts_appendEvent (db : Database) (now : Time) (j : JobId) (t : String) (d : Dict) :
    (db.appendEvent now j t d).artifacts = db.artifacts := rfl

theorem eventsOf_appendEvent (db : Database) (now : Time) (j k : JobId) (t : String) (d : Dict) :
    (db.appendEvent now j t d).eventsOf k =
      db.eventsOf k ++ if j = k then [db.newEvent now j t d] else [] := by
  show List.filter _ (db.events.rows ++ [db.newEvent now j t d]) = _
  rw [List.filter_append]
  congr 1
  by_cases h : j = k
  · simp [newEvent, h]
  · simp [newEvent, h]

@[simp] theorem eventsOf_putJob (db : Database) (job : ResearchJob) (k : JobId) :
    (db.putJob job).eventsOf k = db.eventsOf k := rfl

theorem job?_putJob (db : Database) (job : ResearchJob) (k : JobId) :
    (db.putJob job).job? k = if job.id = k then (db.job? k).map (fun _ => job) else db.job? k :=
  Table.find?_put ..

theorem job?_addJob (db : Database) (job : ResearchJob) (h : db.jobs.Fresh job.id) (k : JobId) :
    (db.addJob job h).job? k = if job.id = k then some job else db.job? k :=
  Table.find?_insert db.jobs job h k

theorem id_of_job? {db : Database} {j : JobId} {job : ResearchJob} (h : db.job? j = some job) :
    job.id = j := Table.key_of_find? h

theorem job?_iff {db : Database} {j : JobId} {job : ResearchJob} :
    db.job? j = some job ↔ job ∈ db.jobs.rows ∧ job.id = j := Table.find?_eq_some

theorem artifacts_appendNotes (db : Database) (now : Time) (j : JobId) (notes : List (String × Dict)) :
    (db.appendNotes now j notes).artifacts = db.artifacts := by
  induction notes generalizing db with
  | nil => rfl
  | cons n rest ih => exact (ih _).trans (artifacts_appendEvent ..)

theorem artifactSerial_appendNotes (db : Database) (now : Time) (j : JobId)
    (notes : List (String × Dict)) :
    (db.appendNotes now j notes).artifactSerial = db.artifactSerial := by
  induction notes generalizing db with
  | nil => rfl
  | cons n rest ih => exact ih _

theorem job?_appendNotes (db : Database) (now : Time) (j k : JobId) (notes : List (String × Dict)) :
    (db.appendNotes now j notes).job? k = db.job? k := by
  induction notes generalizing db with
  | nil => rfl
  | cons n rest ih => exact (ih _).trans (job?_appendEvent ..)

/-- The events a list of notes becomes behind a log. -/
def numbered (log : List ResearchEvent) (now : Time) (j : JobId) :
    List (String × Dict) → List ResearchEvent
  | [] => []
  | n :: rest =>
    let e : ResearchEvent := ⟨j, Journal.lastNumber (log.map ResearchEvent.sequence) + 1, n.1, n.2, now⟩
    e :: numbered (log ++ [e]) now j rest

theorem eventsOf_appendNotes (db : Database) (now : Time) (j k : JobId) (notes : List (String × Dict)) :
    (db.appendNotes now j notes).eventsOf k =
      db.eventsOf k ++ if j = k then numbered (db.eventsOf j) now j notes else [] := by
  induction notes generalizing db with
  | nil => simp [appendNotes, numbered]
  | cons n rest ih =>
    show ((db.appendEvent now j n.1 n.2).appendNotes now j rest).eventsOf k = _
    rw [ih, eventsOf_appendEvent]
    by_cases h : j = k
    · subst h
      simp [eventsOf_appendEvent, numbered, newEvent, currentSequence]
    · simp [h]

@[simp] theorem artifacts_write (db : Database) (w : Write) : (db.write w).artifacts = db.artifacts :=
  artifacts_appendNotes ..

@[simp] theorem artifactSerial_write (db : Database) (w : Write) :
    (db.write w).artifactSerial = db.artifactSerial := artifactSerial_appendNotes ..

/-- The slice of the job a transaction writes. -/
theorem slice_write (db : Database) (w : Write) {job : ResearchJob} (h : db.job? w.job.id = some job) :
    (db.write w).slice w.job.id =
      ⟨some w.job, db.eventsOf w.job.id ++ numbered (db.eventsOf w.job.id) w.now w.job.id w.notes,
        db.artifactsOf w.job.id⟩ := by
  simp only [slice, write, job?_appendNotes, job?_putJob, eventsOf_appendNotes, eventsOf_putJob, h,
    if_true, Option.map_some, Slice.mk.injEq, true_and]
  show List.filter _ ((db.putJob w.job).appendNotes w.now w.job.id w.notes).artifacts.rows = _
  rw [artifacts_appendNotes]
  rfl

theorem job?_write {db : Database} {w : Write} {j : JobId} {job : ResearchJob}
    (hj : db.job? j = some job) (hid : w.job.id = job.id) : (db.write w).job? j = some w.job := by
  obtain rfl : w.job.id = j := hid.trans (id_of_job? hj)
  exact congrArg Slice.job (slice_write db w hj)

/-- The slice of any other job. -/
theorem slice_write_other (db : Database) (w : Write) {k : JobId} (h : w.job.id ≠ k) :
    (db.write w).slice k = db.slice k := by
  simp only [slice, write, job?_appendNotes, job?_putJob, eventsOf_appendNotes, eventsOf_putJob,
    if_neg h, List.append_nil, Slice.mk.injEq, true_and]
  show List.filter _ ((db.putJob w.job).appendNotes w.now w.job.id w.notes).artifacts.rows = _
  rw [artifacts_appendNotes]
  rfl

end Database

end ResearchGateway
