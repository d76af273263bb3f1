import Mathlib.Data.List.Sort
import ResearchGateway.Repository.Transaction

/-! Creating, claiming and reconciling jobs: what the API and the controller do to
the queue. The clock, the identifier and the token that a method draws are
arguments. -/
namespace ResearchGateway

structure ClaimedJob where
  id : JobId
  runnerToken : String
  attempt : Nat
  deriving DecidableEq

structure ExpiredDispatch where
  id : JobId
  attempt : Nat
  state : JobState
  deriving DecidableEq

structure StaleRunner where
  id : JobId
  attempt : Nat
  state : JobState
  updatedAt : Time
  deriving DecidableEq

/-! ### Creation -/

def newJob (id : JobId) (now : Time) (userId idempotencyKey digest : String)
    (request : CreateJobRequest) (parent : Option ResearchJob) : ResearchJob where
  id := id
  userId := userId
  idempotencyKey := idempotencyKey
  requestHash := digest
  query := request.query
  chatId := request.chatId
  messageId := request.messageId
  sources := request.sources
  contextDocuments := request.contextDocuments
  parentJobId := parent.map ResearchJob.id
  iteration := match parent with
    | some parent => parent.iteration + 1
    | none => 1
  research := request.research
  budget := request.budget
  models := request.models
  modelCapabilities := request.modelCapabilities
  reportType := request.reportType
  reportFormats := request.reportFormats
  state := .pending
  createdAt := now
  updatedAt := now

def byIdempotency? (db : Database) (userId idempotencyKey : String) : Option ResearchJob :=
  db.jobs.rows.find? fun job => job.userId = userId ∧ job.idempotencyKey = idempotencyKey

/-- The latest succeeded job of the user in the chat. -/
def latestSucceeded? (db : Database) (userId chatId : String) : Option ResearchJob :=
  ((db.jobs.rows.filter fun job =>
      job.userId = userId ∧ job.chatId = chatId ∧ job.state = .succeeded).insertionSort
    fun a b => b.createdAt ≤ a.createdAt).head?

/-- The texts of a row fit their columns. What goes into a column of JSON is escaped,
and the other texts are the gateway's own. -/
def ResearchJob.isStorable (job : ResearchJob) : Bool :=
  fitsColumn job.userId && fitsColumn job.idempotencyKey && ResearchGateway.isStorable job.query &&
    fitsColumn job.chatId && fitsColumn job.messageId

/-- `session.add(job)` and flush: the texts, the primary key and `uq_job_user_idempotency`.
A header has no blank at its end, so that no text is cut to its column. -/
def insertJob (job : ResearchJob) : Transaction Unit := do
  let db ← get
  if ¬ job.isStorable then throw .database
  else if h : db.jobs.Fresh job.id then
    if (byIdempotency? db job.userId job.idempotencyKey).isSome then throw .integrity
    else set (db.addJob job h)
  else throw .integrity

def createJob (H : Hashing) (now : Time) (id : JobId) (userId idempotencyKey : String)
    (request : CreateJobRequest) : Transaction (ResearchJob × Bool) := do
  let db ← get
  let digest := H.requestDigest request
  match byIdempotency? db userId idempotencyKey with
  | some existing =>
    if existing.requestHash ≠ digest then throw .idempotencyConflict
    else return (existing, false)
  | none =>
    let parent := latestSucceeded? db userId request.chatId
    let job := newJob id now userId idempotencyKey digest request parent
    insertJob job
    let _ ← appendEventLocked now job "job.created" (record [("state", .str job.state.value)])
    return (job, true)

/-! ### Claiming -/

def activeCount (db : Database) : Nat := (db.jobs.rows.filter fun job => job.state.isActive).length

/-- The oldest pending row that no concurrent transaction has locked. -/
def oldestPending? (db : Database) (locked : List JobId) : Option ResearchJob :=
  ((db.jobs.rows.filter fun job => job.state = .pending ∧ job.id ∉ locked).insertionSort
    fun a b => a.createdAt ≤ b.createdAt).head?

def dispatchedJob (H : Hashing) (now : Time) (runnerToken : String) (leaseSeconds : Nat)
    (job : ResearchJob) : ResearchJob :=
  {job with
    runnerTokenHash := some (H.hashToken runnerToken)
    state := .dispatched
    attempt := job.attempt + 1
    dispatchLeaseExpiresAt := some (now + seconds leaseSeconds)
    updatedAt := now}

def claimNext (H : Hashing) (now : Time) (runnerToken : String) (maxConcurrentJobs leaseSeconds : Nat)
    (locked : List JobId) : Transaction (Option ClaimedJob) := do
  let db ← get
  if maxConcurrentJobs ≤ activeCount db then return none
  else match oldestPending? db locked with
    | none => return none
    | some pending =>
      let job := dispatchedJob H now runnerToken leaseSeconds pending
      save job
      let _ ← appendEventLocked now job "job.dispatched" (record [("attempt", .int job.attempt)])
      return some ⟨job.id, runnerToken, job.attempt⟩

/-- What `claim_next` does once it has counted, in its second statement on. -/
def claimPending (H : Hashing) (now : Time) (runnerToken : String) (leaseSeconds : Nat)
    (locked : List JobId) : Transaction (Option ClaimedJob) := do
  match oldestPending? (← get) locked with
  | none => return none
  | some pending =>
    let job := dispatchedJob H now runnerToken leaseSeconds pending
    save job
    let _ ← appendEventLocked now job "job.dispatched" (record [("attempt", .int job.attempt)])
    return some ⟨job.id, runnerToken, job.attempt⟩

/-- With nothing between its statements, a claim is the count and then the rest. -/
theorem claimNext_of_room {H : Hashing} {db : Database} {maxConcurrentJobs : Nat}
    (h : activeCount db < maxConcurrentJobs) (now : Time) (runnerToken : String) (leaseSeconds : Nat)
    (locked : List JobId) :
    claimNext H now runnerToken maxConcurrentJobs leaseSeconds locked db =
      claimPending H now runnerToken leaseSeconds locked db := by
  show (if maxConcurrentJobs ≤ activeCount db then _ else _ : Transaction _) db = _
  rw [if_neg (Nat.not_le.mpr h)]
  rfl

/-! ### Dispatches whose lease expired -/

inductive DispatchAction where
  | renew
  | requeue
  | fail
  | cancel
  deriving DecidableEq

def dispatchExpired (now : Time) (job : ResearchJob) : Bool :=
  (job.state = .dispatched ∨ job.state = .cancelRequested) ∧ job.startedAt = none ∧
    job.dispatchLeaseExpiresAt.any fun expires => expires ≤ now

def listExpiredDispatches (db : Database) (now : Time) (limit : Nat) : List ExpiredDispatch :=
  (((db.jobs.rows.filter (dispatchExpired now)).insertionSort fun a b =>
      a.dispatchLeaseExpiresAt.getD 0 ≤ b.dispatchLeaseExpiresAt.getD 0).take limit).map
    fun job => ⟨job.id, job.attempt, job.state⟩

/-- The row after a dispatch was given up, the event type and its data. -/
def settleDispatch (now : Time) (action : DispatchAction) (error : String) (job : ResearchJob) :
    ResearchJob × String × Dict :=
  if job.state = .cancelRequested then
    ({job with state := .cancelled, finishedAt := some now}, "job.cancelled",
      record [("reason", .str "dispatch reconciliation")])
  else if action = .requeue then
    ({job with state := .pending, runnerTokenHash := none}, "job.dispatch_requeued",
      record [("attempt", .int job.attempt)])
  else
    let text := orDefault (clip error) "runner exited before reporting its state"
    ({job with state := .failed, error := some text, finishedAt := some now}, "job.failed",
      record [("error", .str text)])

/-- What both reconcilers do to the row last. -/
def closeReconciled (now : Time) (job : ResearchJob) : ResearchJob :=
  let job := if job.state.isTerminal then {job with runnerTokenHash := none} else job
  {job with dispatchLeaseExpiresAt := none, updatedAt := now}

def dispatchMatches (dispatch : ExpiredDispatch) (job : ResearchJob) : Prop :=
  job.attempt = dispatch.attempt ∧ (job.state = .dispatched ∨ job.state = .cancelRequested) ∧
    job.startedAt = none

instance (dispatch : ExpiredDispatch) (job : ResearchJob) : Decidable (dispatchMatches dispatch job) :=
  inferInstanceAs (Decidable (_ ∧ _))

def reconcileExpiredDispatch (now : Time) (dispatch : ExpiredDispatch) (action : DispatchAction)
    (leaseSeconds : Nat) (error : String) : Transaction Bool := do
  match (← get).job? dispatch.id with
  | none => return false
  | some job =>
    if ¬ dispatchMatches dispatch job then return false
    else if action = .renew then
      save {job with dispatchLeaseExpiresAt := some (now + seconds leaseSeconds), updatedAt := now}
      return true
    else
      let (settled, eventType, data) := settleDispatch now action error job
      let settled := closeReconciled now settled
      save settled
      let _ ← appendEventLocked now settled eventType data
      return true

/-! ### Runners that stopped reporting -/

inductive StaleAction where
  | refresh
  | retry
  | fail
  | cancel
  deriving DecidableEq

def runnerStale (cutoff : Time) (job : ResearchJob) : Bool :=
  (job.state = .running ∨ job.state = .cancelRequested) ∧ job.startedAt ≠ none ∧
    job.updatedAt ≤ cutoff

def listStaleRunners (db : Database) (now : Time) (staleSeconds limit : Nat) : List StaleRunner :=
  (((db.jobs.rows.filter (runnerStale (now - seconds staleSeconds))).insertionSort fun a b =>
      a.updatedAt ≤ b.updatedAt).take limit).map
    fun job => ⟨job.id, job.attempt, job.state, job.updatedAt⟩

def settleStale (now : Time) (action : StaleAction) (error : String) (job : ResearchJob) :
    ResearchJob × String × Dict :=
  if action = .cancel ∨ job.state = .cancelRequested then
    ({job with state := .cancelled, finishedAt := some now}, "job.cancelled",
      record [("reason", .str "stale runner reconciliation")])
  else if action = .retry then
    if job.createdAt + seconds job.budget.maxWallTimeSeconds ≤ now then
      let text := "wall-time budget exhausted before runner recovery"
      ({job with state := .failed, error := some text, finishedAt := some now}, "job.failed",
        record [("error", .str text)])
    else
      ({job with
          state := .pending
          runnerTokenHash := none
          startedAt := none
          finishedAt := none
          error := none}, "job.runner_requeued",
        record [("attempt", .int job.attempt), ("reason", .str (orDefault error "runner disappeared"))])
  else
    let text := orDefault (clip error) "runner stopped sending heartbeats"
    ({job with state := .failed, error := some text, finishedAt := some now}, "job.failed",
      record [("error", .str text)])

def staleMatches (runner : StaleRunner) (job : ResearchJob) : Prop :=
  job.attempt = runner.attempt ∧ (job.state = .running ∨ job.state = .cancelRequested) ∧
    job.updatedAt ≤ runner.updatedAt

instance (runner : StaleRunner) (job : ResearchJob) : Decidable (staleMatches runner job) :=
  inferInstanceAs (Decidable (_ ∧ _))

def reconcileStaleRunner (now : Time) (runner : StaleRunner) (action : StaleAction) (error : String) :
    Transaction Bool := do
  match (← get).job? runner.id with
  | none => return false
  | some job =>
    if ¬ staleMatches runner job then return false
    else if action = .refresh then
      save {job with updatedAt := now}
      return true
    else
      let (settled, eventType, data) := settleStale now action error job
      let settled := closeReconciled now settled
      save settled
      let _ ← appendEventLocked now settled eventType data
      return true

/-! ### The user's cancel -/

def requestCancel (now : Time) (jobId : JobId) (userId : String) : Transaction ResearchJob := do
  let job ← getForUserLocked jobId userId
  if job.state = .pending then
    let job := {job with
      state := .cancelled, runnerTokenHash := none, finishedAt := some now, updatedAt := now}
    save job
    let _ ← appendEventLocked now job "job.cancelled" ∅
    return job
  else if job.state = .dispatched ∨ job.state = .running then
    let job := {job with state := .cancelRequested, updatedAt := now}
    save job
    let _ ← appendEventLocked now job "job.cancel_requested" ∅
    return job
  else if job.state.isTerminal then
    let job := revokeToken now job
    save job
    return job
  else return job

end ResearchGateway
