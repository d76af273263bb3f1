import ResearchGateway.Api.MessageEvents
import ResearchGateway.Api.RunnerTransactions

/-! What the runner endpoints answer.

An endpoint commits its transaction and turns the exceptions it catches into a
status; an `HTTPException` carries its own and anything else is a 500. The messages
to Open WebUI that follow a commit fail the request only if they have no URL. -/
namespace ResearchGateway

inductive Reply (α : Type) where
  | ok (body : α)
  | status (code : Nat)

/-- The status of an exception, given those the endpoint catches. -/
def statusOf (caught : Failure → Option Nat) : Failure → Nat
  | .httpError status _ => status
  | e => (caught e).getD 500

/-- `except JobNotFoundError`: 404. -/
def notFound : Failure → Option Nat
  | .jobNotFound => some 404
  | _ => none

/-- `except (JobNotFoundError, InvalidStateError)`: 409. -/
def conflict : Failure → Option Nat
  | .jobNotFound | .invalidState _ => some 409
  | _ => none

def respond {α : Type} (caught : Failure → Option Nat) (t : Transaction α) (db : Database) :
    Reply α × Database :=
  match commit t db with
  | (.ok a, db') => (.ok a, db')
  | (.error e, db') => (.status (statusOf caught e), db')

/-- The message after the commit: `httpx.InvalidURL` is none of the errors that are
suppressed around it. -/
def published : Reply ResearchJob × Database → Reply ResearchJob × Database
  | (.ok job, db) => (if job.isAddressable then .ok job else .status 500, db)
  | refused => refused

section
variable (H : Hashing)

def runnerJob (jobId : JobId) (runnerToken : String) (db : Database) : Reply ResearchJob :=
  (respond notFound (do
    let job ← getForRunner H jobId runnerToken
    ensureActive job
    return job) db).1

def runnerJobState (jobId : JobId) (runnerToken : String) (db : Database) : Reply JobState :=
  (respond notFound (do
    let job ← getForRunner H jobId runnerToken
    return job.state) db).1

def runnerStarted (now : Time) (jobId : JobId) (runnerToken : String) (db : Database) :
    Reply ResearchJob × Database :=
  published (respond conflict (markStarted H now jobId runnerToken) db)

/-- The part of `runner_complete` before the uploads. -/
def runnerCompleteCheck (jobId : JobId) (runnerToken : String) : Database → Reply Nat × Database :=
  respond conflict (completionCheck H jobId runnerToken)

/-- The part of `runner_complete` after the uploads. -/
def runnerCompleteCommit (now : Time) (jobId : JobId) (runnerToken : String)
    (completion : RunnerCompletion) (stored : List StoredObject) (db : Database) :
    Reply ResearchJob × Database :=
  published (respond conflict (completionCommit H now jobId runnerToken completion stored) db)

/-- The body of a failure report must hold between 1 and 20,000 characters. -/
def runnerFailed (now : Time) (jobId : JobId) (runnerToken error : String) (db : Database) :
    Reply ResearchJob × Database :=
  if error.length < 1 ∨ 20000 < error.length then (.status 422, db)
  else published (respond notFound (markFailed H now jobId runnerToken error) db)

def runnerCancelled (now : Time) (jobId : JobId) (runnerToken : String) (db : Database) :
    Reply ResearchJob × Database :=
  published (respond notFound (markCancelled H now jobId runnerToken) db)

end

/-! ### Reading an answer back -/

section
variable {α : Type} {caught : Failure → Option Nat} {t : Transaction α} {db db' : Database} {a : α}

theorem respond_ok (h : t db = .ok (a, db')) : respond caught t db = (.ok a, db') := by
  rw [respond, commit_ok h]

theorem respond_error {e : Failure} (h : t db = .error e) :
    respond caught t db = (.status (statusOf caught e), db) := by
  rw [respond, commit_error h]

theorem ok_respond (h : respond caught t db = (.ok a, db')) : t db = .ok (a, db') := by
  cases ht : t db with
  | ok p =>
    rw [respond_ok ht] at h
    cases h
    rfl
  | error e =>
    rw [respond_error ht] at h
    cases h

/-- The message changes no table. -/
@[simp] theorem published_snd (r : Reply ResearchJob × Database) : (published r).2 = r.2 := by
  obtain ⟨_ | _, _⟩ := r <;> rfl

/-- A refused request leaves the tables alone. -/
theorem respond_refused {code : Nat} (h : respond caught t db = (.status code, db')) : db' = db := by
  cases ht : t db with
  | ok p =>
    rw [respond_ok ht] at h
    cases h
  | error e =>
    rw [respond_error ht] at h
    cases h
    rfl

end

end ResearchGateway
