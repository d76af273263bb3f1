import Mathlib.Logic.Function.Basic
import ResearchGateway.Library.Text
import ResearchGateway.Operation

/-! The controller replicas.

Every gateway process runs `Controller.run_forever` over the same tables. One step of
a replica is one transaction, one statement of `claim_next`, one call of the
executor or one look at its lease; between two of them go the steps of the other
replicas and the transactions of runners and users. At most one connection holds
the advisory lock. It can be lost at any moment, and who held it notices when it
looks, at the top of its loop. -/
namespace ResearchGateway
open Library

inductive DispatchStatus where
  | missing
  | active
  | exited
  deriving DecidableEq

def DispatchStatus.value : DispatchStatus → String
  | missing => "missing"
  | active => "active"
  | exited => "exited"

/-- The settings of the controller, within the bounds of `config.py`. -/
structure ControllerSettings where
  maxConcurrentJobs : Nat
  dispatchLeaseSeconds : Nat
  dispatchReconcileBatchSize : Nat
  runnerStaleSeconds : Nat
  runnerMaxAttempts : Nat
  jobs_ge : 1 ≤ maxConcurrentJobs
  lease_ge : 10 ≤ dispatchLeaseSeconds
  stale_ge : 10 ≤ runnerStaleSeconds
  attempts_ge : 1 ≤ runnerMaxAttempts

/-- Where a replica is: before a look at the lease, a query, a call or a transaction. -/
inductive ControllerPhase where
  /-- Outside `_dispatch_forever`. -/
  | follower
  | checkingLease
  | listingDispatches
  | inspectingDispatches (dispatches : List ExpiredDispatch)
  | stoppingDispatch (dispatch : ExpiredDispatch) (rest : List ExpiredDispatch)
  | settlingDispatch (dispatch : ExpiredDispatch) (action : DispatchAction)
      (rest : List ExpiredDispatch)
  | listingRunners
  | inspectingRunners (runners : List StaleRunner)
  | stoppingRunner (runner : StaleRunner) (rest : List StaleRunner)
  | settlingRunner (runner : StaleRunner) (status : DispatchStatus) (rest : List StaleRunner)
  | claiming
  /-- Inside `claim_next`, after a count below the limit. -/
  | counted
  | submitting (claim : ClaimedJob)
  | reporting (claim : ClaimedJob) (error : Text)
  deriving DecidableEq

/-- What a step learns from outside of the tables. -/
structure Surroundings where
  /-- What `executor.inspect` answers; none when it raises. -/
  inspection : Option DispatchStatus := none
  /-- `executor.stop` returns. -/
  stopped : Bool := true
  /-- The exception that `executor.submit` raises; none when it returns. -/
  submission : Option Text := none
  /-- The token that a claim draws. -/
  runnerToken : String := ""
  /-- The rows that other transactions have locked. -/
  locked : List JobId := []

/-- The action of `reconcile_expired_dispatches` on a dispatch that it inspected. -/
def dispatchAction (dispatch : ExpiredDispatch) (status : DispatchStatus) : DispatchAction :=
  if dispatch.state = .cancelRequested then .cancel
  else match status with
    | .active => .renew
    | .missing => .requeue
    | .exited => .fail

/-- `f"runner dispatch failed: {error}"`. -/
def dispatchFailure (error : Text) : Text := Text.ofString "runner dispatch failed: " ++ error

def dispatchError : String := "runner exited before reporting its state"

/-- The action of `reconcile_stale_runners`. -/
def staleAction (settings : ControllerSettings) (runner : StaleRunner) : StaleAction :=
  if runner.state = .cancelRequested then .cancel
  else if runner.attempt < settings.runnerMaxAttempts then .retry
  else .fail

def staleError (status : DispatchStatus) : String :=
  s!"runner heartbeat expired; executor status was {status.value}"

section
variable (H : Hashing) (settings : ControllerSettings)

/-- The next step of a replica. An exception that leaves the loop ends it; so does a
lease that is no longer valid. -/
def ControllerPhase.next (now : Time) (leads : Bool) (s : Surroundings) (db : Database) :
    ControllerPhase → Database × ControllerPhase
  | .follower => (db, .follower)
  | .checkingLease => (db, if leads then .listingDispatches else .follower)
  | .listingDispatches =>
    (db, .inspectingDispatches (listExpiredDispatches db now settings.dispatchReconcileBatchSize))
  | .inspectingDispatches [] => (db, .listingRunners)
  | .inspectingDispatches (dispatch :: rest) =>
    match s.inspection with
    | none => (db, .inspectingDispatches rest)
    | some status =>
      if dispatch.state = .cancelRequested ∧ status = .active then
        (db, .stoppingDispatch dispatch rest)
      else (db, .settlingDispatch dispatch (dispatchAction dispatch status) rest)
  | .stoppingDispatch dispatch rest =>
    (db, if s.stopped then .settlingDispatch dispatch .cancel rest else .inspectingDispatches rest)
  | .settlingDispatch dispatch action rest =>
    match commit (reconcileExpiredDispatch now dispatch action settings.dispatchLeaseSeconds
        dispatchError) db with
    | (.ok _, db') => (db', .inspectingDispatches rest)
    | (.error _, db') => (db', .follower)
  | .listingRunners =>
    (db, .inspectingRunners (listStaleRunners db now settings.runnerStaleSeconds
      settings.dispatchReconcileBatchSize))
  | .inspectingRunners [] => (db, .claiming)
  | .inspectingRunners (runner :: rest) =>
    match s.inspection with
    | none => (db, .inspectingRunners rest)
    | some status =>
      if status = .active then (db, .stoppingRunner runner rest)
      else (db, .settlingRunner runner status rest)
  | .stoppingRunner runner rest =>
    (db, if s.stopped then .settlingRunner runner .active rest else .inspectingRunners rest)
  | .settlingRunner runner status rest =>
    match commit (reconcileStaleRunner now runner (staleAction settings runner)
        (staleError status)) db with
    | (.ok _, db') => (db', .inspectingRunners rest)
    | (.error _, db') => (db', .follower)
  | .claiming =>
    (db, if settings.maxConcurrentJobs ≤ activeCount db then .checkingLease else .counted)
  | .counted =>
    match commit (claimPending H now s.runnerToken settings.dispatchLeaseSeconds s.locked) db with
    | (.ok (some claim), db') => (db', .submitting claim)
    | (.ok none, db') => (db', .checkingLease)
    | (.error _, db') => (db', .follower)
  | .submitting claim =>
    match s.submission with
    | none => (db, .checkingLease)
    | some error => (db, .reporting claim error)
  | .reporting claim error =>
    -- what `mark_failed` keeps of the text is encoded for PostgreSQL
    match Text.encode? ((dispatchFailure error).take 20000) with
    | none => (db, .follower)
    | some error =>
      match commit (markFailed H now claim.id claim.runnerToken error) db with
      | (.ok _, db') => (db', .checkingLease)
      | (.error _, db') => (db', .follower)

end

/-! ### The replicas together -/

/-- The operation at another time; the retention cleaner's have none. -/
def Op.stamped (now : Time) : Op → Op
  | .createJob _ id userId key request => .createJob now id userId key request
  | .claimNext _ token limit lease locked => .claimNext now token limit lease locked
  | .reconcileExpiredDispatch _ dispatch action lease error =>
    .reconcileExpiredDispatch now dispatch action lease error
  | .reconcileStaleRunner _ runner action error => .reconcileStaleRunner now runner action error
  | .requestCancel _ jobId userId => .requestCancel now jobId userId
  | .appendRunnerEvent _ jobId token eventType data =>
    .appendRunnerEvent now jobId token eventType data
  | .heartbeat _ jobId token => .heartbeat now jobId token
  | .markStarted _ jobId token => .markStarted now jobId token
  | .markCancelled _ jobId token => .markCancelled now jobId token
  | .markFailed _ jobId token error => .markFailed now jobId token error
  | .markCompleted _ jobId token completion result => .markCompleted now jobId token completion result
  | .consumeUsage _ jobId token charge => .consumeUsage now jobId token charge
  | .runnerSearch _ jobId token => .runnerSearch now jobId token
  | .runnerPublicSearch _ jobId token enabled => .runnerPublicSearch now jobId token enabled
  | .chatAdmission _ jobId token model estimated safety =>
    .chatAdmission now jobId token model estimated safety
  | .completionCommit _ jobId token completion stored =>
    .completionCommit now jobId token completion stored
  | op => op

/-- What users and runners ask for: no pass of the controller and no retention. -/
def Op.isRequest : Op → Bool
  | .claimNext .. | .reconcileExpiredDispatch .. | .reconcileStaleRunner .. => false
  | op => !op.isRetention

structure ControllerSystem where
  clock : Time
  db : Database
  /-- The replica whose connection holds the advisory lock. -/
  leader : Option Nat
  phases : Nat → ControllerPhase

inductive ControllerInput where
  | tick (microseconds : Nat)
  /-- A transaction of a user or a runner, now. -/
  | request (op : Op) (h : op.isRequest = true)
  /-- A follower tries the advisory lock. -/
  | acquire (replica : Nat)
  /-- The connection with the lock is lost. -/
  | loseLock
  /-- A replica crashes, or its loop ends by an exception. -/
  | abandon (replica : Nat)
  | turn (replica : Nat) (s : Surroundings)

namespace ControllerSystem

def initial : ControllerSystem := ⟨0, .empty, none, fun _ => .follower⟩

/-- A replica is in a phase; out of its loop it does not keep the lock. -/
def enter (w : ControllerSystem) (replica : Nat) (phase : ControllerPhase) : ControllerSystem where
  clock := w.clock
  db := w.db
  leader := if phase = .follower ∧ w.leader = some replica then none else w.leader
  phases := Function.update w.phases replica phase

def acquire (w : ControllerSystem) (replica : Nat) : ControllerSystem :=
  if w.phases replica = .follower ∧ w.leader = none then
    {w with leader := some replica, phases := Function.update w.phases replica .checkingLease}
  else w

def turn (H : Hashing) (settings : ControllerSettings) (w : ControllerSystem) (replica : Nat)
    (s : Surroundings) : ControllerSystem :=
  let (db, phase) := (w.phases replica).next H settings w.clock (w.leader = some replica) s w.db
  {w with db := db}.enter replica phase

end ControllerSystem

/-- Any number of replicas over the tables, with all that runners and users do. -/
def controllers (H : Hashing) (settings : ControllerSettings) :
    Machine ControllerSystem ControllerInput Unit where
  next
    | .tick microseconds, w => {w with clock := w.clock + microseconds}
    | .request op _, w => {w with db := step H (op.stamped w.clock) w.db}
    | .acquire replica, w => w.acquire replica
    | .loseLock, w => {w with leader := none}
    | .abandon replica, w => w.enter replica .follower
    | .turn replica s, w => w.turn H settings replica s
  out _ _ := []

end ResearchGateway
