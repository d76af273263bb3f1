import ResearchGateway.Api.RunnerReplies
import ResearchGateway.Library.Text
import ResearchGateway.Operation

/-! The runner process.

`Runner.run` fetches its job, reports the start, waits for the research or for a
stop, and reports how it ended. Each HTTP call is one step on the tables; what the
research does, when the clock runs out and when the process is interrupted are
inputs, and so is every transaction of somebody else, the calls of the research and
of the heartbeat among them. -/
namespace ResearchGateway
open Library

/-- Where `Runner.run` is: before a call, waiting, or at its end. -/
inductive RunnerPhase where
  | fetching
  | starting
  | researching
  /-- The poll saw a cancel request; the research is being cancelled. -/
  | acknowledging
  /-- The clock ran out; the research is being cancelled. -/
  | expired
  | completing (completion : RunnerCompletion)
  /-- Inside `runner_complete`, after its first transaction. -/
  | uploading (completion : RunnerCompletion)
  /-- The handler of `Exception`, before its report. -/
  | failing (error : Text)
  /-- The handler of `CancelledError`, before its report. -/
  | interrupted
  /-- Returned or raised; `started` tells whether the gateway had taken the start. -/
  | ended (started : Bool)

def RunnerPhase.isEnded : RunnerPhase → Bool
  | .ended _ => true
  | _ => false

inductive RunnerInput where
  /-- A transaction of somebody else. -/
  | other (op : Op)
  /-- The HTTP call that the phase is at, its next transaction, or the end of a grace period. -/
  | call (now : Time) (stored : List StoredObject)
  /-- A state poll. -/
  | poll
  | finished (completion : RunnerCompletion)
  | raised (error : Text)
  | timedOut
  | interrupt

structure RunnerSystem where
  db : Database
  phase : RunnerPhase

/-- What `_wait_for_stop` makes of an answer: a state to return, or none to poll on. An
error status raises an `httpx.HTTPError`, which is logged and waited out. -/
def stopState? : Reply JobState → Option JobState
  | .ok state => if state = .cancelRequested ∨ state = .failed then some state else none
  | .status _ => none

/-- `RunnerClient.failed`: `none` where the body cannot be encoded. -/
def reportFailed (H : Hashing) (now : Time) (jobId : JobId) (token : String) (error : Text)
    (db : Database) : Option (Reply ResearchJob) × Database :=
  match Text.encode? (error.take 20000) with
  | none => (none, db)
  | some error =>
    let (reply, db') := runnerFailed H now jobId token error db
    (some reply, db')

section
variable (H : Hashing) (jobId : JobId) (token : String) (statusText : Nat → Text)

/-- The next step of the process; `statusText` is the text of the exception that
`raise_for_status` raises. -/
def RunnerSystem.call (now : Time) (stored : List StoredObject) (r : RunnerSystem) : RunnerSystem :=
  match r.phase with
  | .fetching =>
    match runnerJob H jobId token r.db with
    | .ok _ => ⟨r.db, .starting⟩
    | .status _ => ⟨r.db, .ended false⟩
  | .starting =>
    match runnerStarted H now jobId token r.db with
    | (.ok _, db) => ⟨db, .researching⟩
    -- a 500 is the message of a start that was committed
    | (.status code, db) => ⟨db, .ended (code == 500)⟩
  | .acknowledging =>
    match runnerCancelled H now jobId token r.db with
    | (.ok _, db) => ⟨db, .ended true⟩
    | (.status code, db) => ⟨db, .failing (statusText code)⟩
  | .expired => ⟨r.db, .failing (Text.ofString "research exceeded its wall-time budget")⟩
  | .completing completion =>
    match runnerCompleteCheck H jobId token r.db with
    | (.ok _, db) => ⟨db, .uploading completion⟩
    | (.status code, db) => ⟨db, .failing (statusText code)⟩
  | .uploading completion =>
    match runnerCompleteCommit H now jobId token completion stored r.db with
    | (.ok _, db) => ⟨db, .ended true⟩
    | (.status code, db) => ⟨db, .failing (statusText code)⟩
  -- nothing follows the last report, whatever becomes of it
  | .failing error => ⟨(reportFailed H now jobId token error r.db).2, .ended true⟩
  | .interrupted => ⟨(runnerCancelled H now jobId token r.db).2, .ended true⟩
  | .researching | .ended _ => r

/-- A poll while the research is running; a stop because of a failure is not reported. -/
def RunnerSystem.poll (r : RunnerSystem) : RunnerSystem :=
  match r.phase with
  | .researching =>
    match stopState? (runnerJobState H jobId token r.db) with
    | some .cancelRequested => ⟨r.db, .acknowledging⟩
    | some _ => ⟨r.db, .ended true⟩
    | none => r
  | _ => r

/-- An outcome of the wait only matters while the process waits. -/
def RunnerSystem.turn (phase : RunnerPhase) (r : RunnerSystem) : RunnerSystem :=
  match r.phase with
  | .researching => ⟨r.db, phase⟩
  | _ => r

/-- A cancellation of the process itself, while no call is under way. -/
def RunnerSystem.interrupt (r : RunnerSystem) : RunnerSystem :=
  match r.phase with
  | .researching | .acknowledging | .expired => ⟨r.db, .interrupted⟩
  | _ => r

/-- One runner process over the tables. -/
def runnerSystem : Machine RunnerSystem RunnerInput Unit where
  next
    | .other op, r => ⟨step H op r.db, r.phase⟩
    | .call now stored, r => r.call H jobId token statusText now stored
    | .poll, r => r.poll H jobId token
    | .finished completion, r => r.turn (.completing completion)
    | .raised error, r => r.turn (.failing error)
    | .timedOut, r => r.turn .expired
    | .interrupt, r => r.interrupt
  out _ _ := []

end

/-- What `raise_for_status` says, without the URL. -/
def Sample.statusText (code : Nat) : Text :=
  Text.ofString ((if code < 500 then "Client error " else "Server error ") ++ toString code)

end ResearchGateway
