import ResearchGateway.Api.RunnerTransactions
import ResearchGateway.Library.Machine
import ResearchGateway.Repository.Retention

/-! The control plane as a machine.

An operation is one transaction of the gateway: a repository method the API or the
controller commits alone, or a runner endpoint's transaction that calls several.
Everything drawn at random, read from a clock or decided by a caller is part of the
operation, so a run is a list of operations and every interleaving is some list.
`add_artifact` is no operation: it only runs inside the commit of a completion. -/
namespace ResearchGateway
open Library

inductive Op where
  | createJob (now : Time) (id : JobId) (userId idempotencyKey : String) (request : CreateJobRequest)
  | claimNext (now : Time) (runnerToken : String) (maxConcurrentJobs leaseSeconds : Nat)
      (locked : List JobId)
  | reconcileExpiredDispatch (now : Time) (dispatch : ExpiredDispatch) (action : DispatchAction)
      (leaseSeconds : Nat) (error : String)
  | reconcileStaleRunner (now : Time) (runner : StaleRunner) (action : StaleAction) (error : String)
  | requestCancel (now : Time) (jobId : JobId) (userId : String)
  | appendRunnerEvent (now : Time) (jobId : JobId) (runnerToken eventType : String) (data : Dict)
  | heartbeat (now : Time) (jobId : JobId) (runnerToken : String)
  | markStarted (now : Time) (jobId : JobId) (runnerToken : String)
  | markCancelled (now : Time) (jobId : JobId) (runnerToken : String)
  | markFailed (now : Time) (jobId : JobId) (runnerToken error : String)
  | markCompleted (now : Time) (jobId : JobId) (runnerToken : String) (completion : RunnerCompletion)
      (result : Dict)
  | consumeUsage (now : Time) (jobId : JobId) (runnerToken : String) (charge : Charge)
  | runnerSearch (now : Time) (jobId : JobId) (runnerToken : String)
  | runnerPublicSearch (now : Time) (jobId : JobId) (runnerToken : String) (publicSearchEnabled : Bool)
  | chatAdmission (now : Time) (jobId : JobId) (runnerToken : String) (model : Option String)
      (estimatedInput safetyTokens : Nat)
  | completionCommit (now : Time) (jobId : JobId) (runnerToken : String)
      (completion : RunnerCompletion) (stored : List StoredObject)
  | deleteArtifactRecord (artifactId : Nat)
  | deleteExpiredEvents (cutoff : Time) (limit : Nat)
  | deleteExpiredJobs (cutoff : Time) (limit : Nat)

namespace Op

/-- The operations of the retention cleaner. -/
def isRetention : Op → Bool
  | deleteArtifactRecord _ | deleteExpiredEvents _ _ | deleteExpiredJobs _ _ => true
  | _ => false

/-- The identifier a creation draws. -/
def createdId : Op → Option JobId
  | createJob _ id _ _ _ => some id
  | _ => none

end Op

/-- What a committed transaction returned, as far as anything later depends on it. -/
inductive Outcome where
  | done
  | claimed (claim : Option ClaimedJob)
  | searched (limitFailure : Option ResearchJob)

def Outcome.claims : Outcome → List ClaimedJob
  | .claimed (some claim) => [claim]
  | _ => []

/-- What an operation charges to a job once it has committed. -/
def Op.charge (op : Op) (outcome : Outcome) (j : JobId) : Charge :=
  match op, outcome with
  | .consumeUsage _ jobId _ charge, _ => if jobId = j then charge else {}
  | .runnerSearch _ jobId _, _ => if jobId = j then {privateSearches := 1} else {}
  | .runnerPublicSearch _ jobId _ _, .searched none => if jobId = j then {searches := 1} else {}
  | _, _ => {}

section
variable (H : Hashing)

def transact : Op → Transaction Outcome
  | .createJob now id userId key request => do
    let _ ← createJob H now id userId key request
    return .done
  | .claimNext now token maxConcurrentJobs leaseSeconds locked => do
    let claim ← claimNext H now token maxConcurrentJobs leaseSeconds locked
    return .claimed claim
  | .reconcileExpiredDispatch now dispatch action leaseSeconds error => do
    let _ ← reconcileExpiredDispatch now dispatch action leaseSeconds error
    return .done
  | .reconcileStaleRunner now runner action error => do
    let _ ← reconcileStaleRunner now runner action error
    return .done
  | .requestCancel now jobId userId => do
    let _ ← requestCancel now jobId userId
    return .done
  | .appendRunnerEvent now jobId token eventType data => do
    let _ ← appendRunnerEvent H now jobId token eventType data
    return .done
  | .heartbeat now jobId token => do
    let _ ← heartbeat H now jobId token
    return .done
  | .markStarted now jobId token => do
    let _ ← markStarted H now jobId token
    return .done
  | .markCancelled now jobId token => do
    let _ ← markCancelled H now jobId token
    return .done
  | .markFailed now jobId token error => do
    let _ ← markFailed H now jobId token error
    return .done
  | .markCompleted now jobId token completion result => do
    let _ ← markCompleted H now jobId token completion result
    return .done
  | .consumeUsage now jobId token charge => do
    let _ ← consumeUsage H now jobId token charge
    return .done
  | .runnerSearch now jobId token => do
    let _ ← runnerSearch H now jobId token
    return .done
  | .runnerPublicSearch now jobId token enabled => do
    let limitFailure ← runnerPublicSearch H now jobId token enabled
    return .searched limitFailure
  | .chatAdmission now jobId token model estimatedInput safetyTokens => do
    let _ ← chatAdmission H now jobId token model estimatedInput safetyTokens
    return .done
  | .completionCommit now jobId token completion stored => do
    let _ ← completionCommit H now jobId token completion stored
    return .done
  | .deleteArtifactRecord artifactId => do
    let _ ← deleteArtifactRecord artifactId
    return .done
  | .deleteExpiredEvents cutoff limit => do
    let _ ← deleteExpiredEvents cutoff limit
    return .done
  | .deleteExpiredJobs cutoff limit => do
    let _ ← deleteExpiredJobs cutoff limit
    return .done

def step (op : Op) (db : Database) : Database := (commit (transact H op) db).2

/-- The claims that an operation hands to the executor. -/
def claimsOf (op : Op) (db : Database) : List ClaimedJob :=
  match (commit (transact H op) db).1 with
  | .ok outcome => outcome.claims
  | .error _ => []

/-- What an operation charges to a job. -/
def chargeOf (op : Op) (db : Database) (j : JobId) : Charge :=
  match (commit (transact H op) db).1 with
  | .ok outcome => op.charge outcome j
  | .error _ => {}

/-- The operation creates the job. -/
def opens (op : Op) (db : Database) (j : JobId) : Bool :=
  (db.job? j).isNone && ((step H op db).job? j).isSome

/-- The control plane; its trace is the history of claims. -/
def controlPlane : Machine Database Op ClaimedJob := ⟨step H, claimsOf H⟩

/-- The tables after a list of operations on an empty database. -/
def after (ops : List Op) : Database := (controlPlane H).run .empty ops

end

theorem after_snoc (H : Hashing) (ops : List Op) (op : Op) :
    after H (ops ++ [op]) = step H op (after H ops) := Machine.run_snoc ..

/-! ### A job on its way

One user, one job, one runner; the statements about single runs start from here. -/
namespace Sample

def hashing : Hashing := ⟨fun token => "sha256:" ++ token, fun request => request.query⟩

def request : CreateJobRequest where
  query := "query"
  chatId := "chat"
  messageId := "message"
  models := ⟨"model", "model", "model"⟩
  modelCapabilities := [⟨"model", 8192, 1024, by decide, by decide⟩]

def created : List Op := [.createJob 0 1 "user" "key" request]

def claimed : List Op := created ++ [.claimNext 1 "token" 4 60 []]

def started : List Op := claimed ++ [.markStarted 2 1 "token"]

/-- The uploads of the first attempt. -/
def stored : List StoredObject :=
  [("report.md", "text/markdown"), ("research-notes.md", "text/markdown"),
    ("sources.json", "application/json"), ("run.json", "application/json")].map fun file =>
      ⟨file.1, "jobs/1/attempts/1/upload/" ++ file.1, file.2, 16⟩

/-- A job with one search left. -/
def oneSearch : List Op :=
  [.createJob 0 1 "user" "key" {request with budget := {maxQueries := 1}},
    .claimNext 1 "token" 4 60 []]

end Sample

end ResearchGateway
