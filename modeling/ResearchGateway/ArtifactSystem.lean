import Mathlib.Logic.Function.Basic
import ResearchGateway.Cleaner
import ResearchGateway.ControllerSteps

/-! Completions and cleaners over the tables and the store.

A request of `runner_complete` is a check transaction, one `put` a file and a commit
transaction, and it may fail or be cut off anywhere between them. Any number of
requests and of cleaner runs go on at once, and between their steps goes every other
transaction. Each upload draws an identifier that no upload has drawn before. -/
namespace ResearchGateway
open Library

/-- A request of `runner_complete`. -/
structure CompletionRequest where
  jobId : JobId
  runnerToken : String
  completion : RunnerCompletion

/-- A request between its two transactions. -/
structure Upload where
  request : CompletionRequest
  attempt : Nat
  uploadId : UploadId
  pending : List CompletionFile
  stored : List StoredObject := []
  /-- The time of its first `put`. -/
  began : Option Time := none

inductive CompletionPhase where
  | waiting
  | uploading (upload : Upload)
  /-- Answered with a state, or with an error, or cut off. -/
  | ended (state : Option JobState)

/-- What `put` of the store does: it returns, or it raises and may leave something behind. -/
inductive PutOutcome where
  | stored
  | failed (leftover : Option String)

structure ArtifactSystem where
  clock : Time
  db : Database
  store : ArtifactStore
  /-- The identifiers that uploads have drawn. -/
  drawn : List UploadId
  requests : Nat → CompletionPhase
  cleaners : Nat → CleanerPhase

/-- What goes on besides: no completion, and no retention but the cleaners'. -/
def Op.isOther (op : Op) : Bool := op.completion?.isNone && !op.isRetention

inductive ArtifactInput where
  | tick (microseconds : Nat)
  | other (op : Op) (h : op.isOther = true)
  /-- The first transaction of a request, and the identifier that it draws next. -/
  | check (r : Nat) (request : CompletionRequest) (uploadId : UploadId)
  | upload (r : Nat) (outcome : PutOutcome)
  /-- The second transaction. -/
  | commit (r : Nat)
  /-- A request is cut off. -/
  | abandon (r : Nat)
  | clean (c : Nat)
  | cleaner (c : Nat) (answer : StoreAnswer)
  /-- A run of a cleaner crashes. -/
  | crash (c : Nat)

/-- A request whose second transaction was committed. -/
structure Win where
  request : Nat
  upload : Upload
  time : Time

def Upload.key (settings : RetentionSettings) (u : Upload) (name : String) : String :=
  objectKey settings.artifactJobsPrefix u.request.jobId u.attempt u.uploadId name

def Upload.commit (H : Hashing) (now : Time) (u : Upload) : Transaction ResearchJob :=
  completionCommit H now u.request.jobId u.request.runnerToken u.request.completion u.stored

namespace ArtifactSystem

def initial : ArtifactSystem := ⟨0, .empty, .empty, [], fun _ => .waiting, fun _ => .idle⟩

def enter (w : ArtifactSystem) (r : Nat) (phase : CompletionPhase) : ArtifactSystem :=
  {w with requests := Function.update w.requests r phase}

def cleanerAt (w : ArtifactSystem) (c : Nat) (phase : CleanerPhase) : ArtifactSystem :=
  {w with cleaners := Function.update w.cleaners c phase}

section
variable (H : Hashing) (encoding : Encoding) (settings : RetentionSettings)

def check (w : ArtifactSystem) (r : Nat) (request : CompletionRequest) (uploadId : UploadId) :
    ArtifactSystem :=
  match w.requests r with
  | .waiting =>
    if uploadId ∈ w.drawn then w
    else match ResearchGateway.commit (completionCheck H request.jobId request.runnerToken) w.db with
      | (.ok attempt, db) =>
        {w with db := db, drawn := uploadId :: w.drawn}.enter r (.uploading
          ⟨request, attempt, uploadId, completionFiles encoding request.completion, [], none⟩)
      | (.error _, db) => {w with db := db}.enter r (.ended none)
  | _ => w

/-- One `put`; an exception of the store ends the request. -/
def upload (w : ArtifactSystem) (r : Nat) (outcome : PutOutcome) : ArtifactSystem :=
  match w.requests r with
  | .uploading u =>
    match u.pending with
    | [] => w
    | file :: rest =>
      let key := u.key settings file.name
      match outcome with
      | .stored =>
        {w with store := w.store.put w.clock key file.content}.enter r (.uploading
          {u with
            pending := rest
            stored := u.stored ++ [file.stored key]
            began := some (u.began.getD w.clock)})
      | .failed none => w.enter r (.ended none)
      | .failed (some content) => {w with store := w.store.put w.clock key content}.enter r (.ended none)
  | _ => w

def commit (w : ArtifactSystem) (r : Nat) : ArtifactSystem :=
  match w.requests r with
  | .uploading u =>
    if u.pending.isEmpty then
      match ResearchGateway.commit (u.commit H w.clock) w.db with
      | (.ok job, db) => {w with db := db}.enter r (.ended (some job.state))
      | (.error _, db) => {w with db := db}.enter r (.ended none)
    else w
  | _ => w

/-- The commit of a request that goes through. -/
def wins (w : ArtifactSystem) (r : Nat) : List Win :=
  match w.requests r with
  | .uploading u =>
    if u.pending.isEmpty then
      match (ResearchGateway.commit (u.commit H w.clock) w.db).1 with
      | .ok _ => [⟨r, u, w.clock⟩]
      | .error _ => []
    else []
  | _ => []

def abandon (w : ArtifactSystem) (r : Nat) : ArtifactSystem :=
  match w.requests r with
  | .uploading _ => w.enter r (.ended none)
  | _ => w

/-- A run of a cleaner starts and fixes its cutoffs. -/
def clean (w : ArtifactSystem) (c : Nat) : ArtifactSystem :=
  match w.cleaners c with
  | .idle => w.cleanerAt c (.listingArtifacts w.clock)
  | _ => w

def cleanerTurn (w : ArtifactSystem) (c : Nat) (answer : StoreAnswer) : ArtifactSystem :=
  let (db, store, phase) := (w.cleaners c).next settings answer w.db w.store
  {w with db := db, store := store}.cleanerAt c phase

end

end ArtifactSystem

/-- Requests and cleaners together; the outputs are the commits of completions. -/
def artifactSystem (H : Hashing) (encoding : Encoding) (settings : RetentionSettings) :
    Machine ArtifactSystem ArtifactInput Win where
  next
    | .tick microseconds, w => {w with clock := w.clock + microseconds}
    | .other op _, w => {w with db := step H (op.stamped w.clock) w.db}
    | .check r request uploadId, w => w.check H encoding r request uploadId
    | .upload r outcome, w => w.upload settings r outcome
    | .commit r, w => w.commit H r
    | .abandon r, w => w.abandon r
    | .clean c, w => w.clean c
    | .cleaner c answer, w => w.cleanerTurn settings c answer
    | .crash c, w => w.cleanerAt c .idle
  out
    | .commit r, w => w.wins H r
    | _, _ => []

/-! ### A step is some operations -/

/-- The operations that an input commits, in the state that takes it. -/
def ArtifactInput.ops (settings : RetentionSettings) (w : ArtifactSystem) : ArtifactInput → List Op
  | .other op _ => [op.stamped w.clock]
  | .commit r =>
    match w.requests r with
    | .uploading u =>
      if u.pending.isEmpty then
        [.completionCommit w.clock u.request.jobId u.request.runnerToken u.request.completion u.stored]
      else []
    | _ => []
  | .cleaner c _ => (w.cleaners c).ops settings
  | _ => []

/-- No part of a cleaner's run. -/
def ArtifactInput.isCleanup : ArtifactInput → Bool
  | .clean _ | .cleaner _ _ => true
  | _ => false

section
variable {H : Hashing} {encoding : Encoding} {settings : RetentionSettings}

theorem completionCheck_ok {j : JobId} {token : String} {db db' : Database} {attempt : Nat}
    (h : completionCheck H j token db = .ok (attempt, db')) :
    db' = db ∧ ∃ job, db.job? j = some job ∧ accepts H job token = true ∧ job.attempt = attempt := by
  obtain ⟨job, _, hrow, hcheck⟩ := ok_bind h
  obtain ⟨rfl, hj, haccepts⟩ := ok_runner hrow
  rcases ok_ite hcheck with ⟨-, hbad⟩ | ⟨-, hret⟩
  · exact (ok_throw hbad).elim
  · obtain ⟨hattempt, rfl⟩ := ok_pure hret
    exact ⟨rfl, job, hj, haccepts, hattempt⟩

theorem completionCheck_state {j : JobId} {token : String} {db : Database} :
    (commit (completionCheck H j token) db).2 = db := by
  cases h : completionCheck H j token db with
  | error e => rw [commit_error h]
  | ok p =>
    rw [commit_ok h]
    exact (completionCheck_ok h).1

theorem CleanerPhase.next_db (H : Hashing) (phase : CleanerPhase) (answer : StoreAnswer)
    (db : Database) (store : ArtifactStore) :
    (phase.next settings answer db store).1 = (controlPlane H).run db (phase.ops settings) := by
  cases phase with
  | deletingArtifacts now artifacts => cases artifacts <;> rfl
  | sweeping now referenced objects deleted =>
    cases objects with
    | nil => rfl
    | cons object rest =>
      simp only [CleanerPhase.next]
      split
      · rfl
      · split <;> rfl
  | _ => rfl

/-- What an input does to the tables. -/
theorem artifactSystem_db (i : ArtifactInput) (w : ArtifactSystem) :
    ((artifactSystem H encoding settings).next i w).db =
      (controlPlane H).run w.db (i.ops settings w) := by
  cases i with
  | check r request uploadId =>
    show (w.check H encoding r request uploadId).db = w.db
    unfold ArtifactSystem.check
    split
    · split
      · rfl
      · have hstate := @completionCheck_state H request.jobId request.runnerToken w.db
        split
        · next h =>
          rw [h] at hstate
          exact hstate
        · next h =>
          rw [h] at hstate
          exact hstate
    · rfl
  | upload r outcome =>
    show (w.upload settings r outcome).db = w.db
    unfold ArtifactSystem.upload
    split
    · split
      · rfl
      · split <;> rfl
    · rfl
  | commit r =>
    show (w.commit H r).db = _
    simp only [ArtifactSystem.commit, ArtifactInput.ops]
    split
    · next u _ =>
      split
      · have hstep : step H (.completionCommit w.clock u.request.jobId u.request.runnerToken
            u.request.completion u.stored) w.db = (ResearchGateway.commit (u.commit H w.clock) w.db).2 :=
          step_of_commit rfl w.db
        show _ = step H _ w.db
        rw [hstep]
        split <;> simp_all [ArtifactSystem.enter]
      · rfl
    · rfl
  | abandon r =>
    show (w.abandon r).db = w.db
    unfold ArtifactSystem.abandon
    split <;> rfl
  | clean c =>
    show (w.clean c).db = w.db
    unfold ArtifactSystem.clean
    split <;> rfl
  | cleaner c answer => exact CleanerPhase.next_db ..
  | _ => rfl

end

end ResearchGateway
