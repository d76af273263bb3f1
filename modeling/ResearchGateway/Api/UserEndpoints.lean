import ResearchGateway.ArtifactStore
import ResearchGateway.EventStream

/-! What a user can ask.

Every endpoint under `/v1/research-jobs` as a function of the tables and the store,
with its status, its body and the texts of its errors. The identity of the caller
comes from the trusted adapter; clocks and identifiers are arguments. -/
namespace ResearchGateway
open Library

/-! ### Admission -/

def ResearchStrategy.value : ResearchStrategy → String
  | focused => "focused"
  | balanced => "balanced"
  | broad => "broad"
  | deep => "deep"
  | custom => "custom"

namespace ResearchShape

/-- One level of the loop: its breadth, its workers and the workers so far. -/
def nextLevel (level : Nat) : Nat × Nat × Nat → Nat × Nat × Nat
  | (currentBreadth, workersAtLevel, workers) =>
    let breadth := if level = 0 then currentBreadth else max 2 (currentBreadth / 2)
    let atLevel := if level = 0 then workersAtLevel else workersAtLevel * breadth
    (breadth, atLevel, workers + atLevel)

def totalWorkers (shape : ResearchShape) : Nat :=
  ((List.range shape.depth).foldl (fun acc level => nextLevel level acc)
    (shape.breadth, shape.breadth, 0)).2.2

def estimatedMaxQueries (shape : ResearchShape) : Nat :=
  1 + shape.totalWorkers * (shape.queriesPerBranch + 2)

end ResearchShape

/-- The administrator's limits in the settings. -/
structure AdminLimits where
  hardMaxQueries : Nat := 100
  hardMaxWallTimeSeconds : Int := 7200

namespace AdminLimits

def validateBudget (limits : AdminLimits) (budget : ResearchBudget) : Except String Unit :=
  if limits.hardMaxQueries < budget.maxQueries then
    .error s!"max_queries exceeds administrator limit {limits.hardMaxQueries}"
  else if limits.hardMaxWallTimeSeconds < budget.maxWallTimeSeconds then
    .error s!"max_wall_time_seconds exceeds administrator limit {limits.hardMaxWallTimeSeconds}"
  else .ok ()

def validateResearchShape (research : ResearchShape) (budget : ResearchBudget) : Except String Unit :=
  let required := research.estimatedMaxQueries
  if budget.maxQueries < required then
    .error (s!"{research.strategy.value} research may require up to {required} queries, " ++
      s!"but max_queries is {budget.maxQueries}")
  else .ok ()

/-- The checks of `create_job` before it opens a transaction. -/
def validate (limits : AdminLimits) (request : CreateJobRequest) : Except String Unit := do
  limits.validateBudget request.budget
  validateResearchShape request.research request.budget

end AdminLimits

/-! ### Views -/

/-- Public job representation. -/
structure JobView where
  id : JobId
  state : JobState
  query : String
  chatId : String
  messageId : String
  sources : List SourceRef
  parentJobId : Option JobId
  iteration : Nat
  contextDocumentCount : Nat
  research : ResearchShape
  budget : ResearchBudget
  models : ModelRoles
  modelCapabilities : List ModelCapability
  createdAt : Time
  updatedAt : Time
  startedAt : Option Time
  finishedAt : Option Time
  result : Option Dict
  usage : Option Dict
  error : Option String

def toJobView (job : ResearchJob) : JobView where
  id := job.id
  state := job.state
  query := job.query
  chatId := job.chatId
  messageId := job.messageId
  sources := job.sources
  parentJobId := job.parentJobId
  iteration := job.iteration
  contextDocumentCount := job.contextDocuments.length
  research := job.research
  budget := job.budget
  models := job.models
  modelCapabilities := job.modelCapabilities
  createdAt := job.createdAt
  updatedAt := job.updatedAt
  startedAt := job.startedAt
  finishedAt := job.finishedAt
  result := job.result
  usage := job.usage
  error := job.error

structure JobEventView where
  sequence : Nat
  eventType : String
  data : Dict
  createdAt : Time

def toEventView (event : ResearchEvent) : JobEventView :=
  ⟨event.sequence, event.eventType, event.data, event.createdAt⟩

structure ArtifactView where
  name : String
  mediaType : String
  size : Nat

inductive UserReply where
  | job (status : Nat) (view : JobView)
  | resolved (id : JobId) (state : JobState)
  | artifacts (items : List ArtifactView)
  | content (mediaType disposition body : String)
  | stream (chunks : List String)
  | error (status : Nat) (detail : String)

def UserReply.status : UserReply → Nat
  | .job status _ | .error status _ => status
  | _ => 200

/-- An exception that no handler catches. -/
def internalError : UserReply := .error 500 "Internal Server Error"

/-- What `get` of a store raises for a missing object. -/
inductive ArtifactBackend where
  /-- `FileNotFoundError`. -/
  | filesystem
  /-- An error of the S3 client. -/
  | s3

/-! ### The endpoints -/

/-- `except IntegrityError`: the job of the request that came first. -/
def concurrentReply (H : Hashing) (userId idempotencyKey : String) (request : CreateJobRequest)
    (db : Database) : UserReply :=
  match byIdempotency? db userId idempotencyKey with
  | none => .error 409 "concurrent job creation conflict"
  | some job =>
    if job.requestHash ≠ H.requestDigest request then .error 409 "idempotency key reused"
    else .job 200 (toJobView job)

/-- What `create_job` answers when its transaction fails otherwise. -/
def creationFailed : Failure → UserReply
  | .idempotencyConflict => .error 409 "idempotency key reused"
  | _ => internalError

def createJobEndpoint (H : Hashing) (limits : AdminLimits) (now : Time) (id : JobId)
    (userId idempotencyKey : String) (request : CreateJobRequest) (db : Database) :
    UserReply × Database :=
  match limits.validate request with
  | .error detail => (.error 422 detail, db)
  | .ok () =>
    match commit (createJob H now id userId idempotencyKey request) db with
    | (.ok (job, created), db') => (.job (if created then 202 else 200) (toJobView job), db')
    | (.error .integrity, db') => (concurrentReply H userId idempotencyKey request db', db')
    | (.error e, db') => (creationFailed e, db')

/-- `get_by_chat_message`: the latest job of the user under the message. -/
def byChatMessage? (db : Database) (userId chatId messageId : String) : Option ResearchJob :=
  ((db.jobs.rows.filter fun job =>
      job.userId = userId ∧ job.chatId = chatId ∧ job.messageId = messageId).insertionSort
    fun a b => b.createdAt ≤ a.createdAt).head?

def resolveJob (userId chatId messageId : String) (db : Database) : UserReply :=
  match byChatMessage? db userId chatId messageId with
  | some job => .resolved job.id job.state
  | none => .error 404 "job not found"

/-- The reply of a transaction of which only `JobNotFoundError` is caught. -/
def ofTransaction {α : Type} (missing : String) (reply : α → UserReply) : Except Failure α → UserReply
  | .ok a => reply a
  | .error .jobNotFound => .error 404 missing
  | .error _ => internalError

def getJob (jobId : JobId) (userId : String) (db : Database) : UserReply :=
  ofTransaction "job not found" (fun job => .job 200 (toJobView job)) (commit (getForUser jobId userId) db).1

def cancelJob (now : Time) (jobId : JobId) (userId : String) (db : Database) : UserReply × Database :=
  let (outcome, db') := commit (requestCancel now jobId userId) db
  (ofTransaction "job not found" (fun job => .job 200 (toJobView job)) outcome, db')

/-- `list_artifacts`. -/
def listArtifacts (db : Database) (jobId : JobId) : List ResearchArtifact :=
  (db.artifactsOf jobId).insertionSort fun a b => a.id ≤ b.id

def listJobArtifacts (jobId : JobId) (userId : String) (db : Database) : UserReply :=
  ofTransaction "job not found"
    (fun _ => .artifacts ((listArtifacts db jobId).map fun item => ⟨item.name, item.mediaType, item.size⟩))
    (commit (getForUser jobId userId) db).1

/-- `get_artifact`. -/
def getArtifact (jobId : JobId) (name : String) : Transaction ResearchArtifact := do
  match (← get).artifacts.find? (jobId, name) with
  | some artifact => return artifact
  | none => throw .jobNotFound

theorem getArtifact_found {jobId : JobId} {name : String} {db : Database} {artifact : ResearchArtifact}
    (h : db.artifacts.find? (jobId, name) = some artifact) :
    getArtifact jobId name db = .ok (artifact, db) := by
  show (match db.artifacts.find? (jobId, name) with
    | some artifact => pure artifact
    | none => throw .jobNotFound : Transaction ResearchArtifact) db = _
  rw [h]
  rfl

theorem getArtifact_missing {jobId : JobId} {name : String} {db : Database}
    (h : db.artifacts.find? (jobId, name) = none) : getArtifact jobId name db = .error .jobNotFound := by
  show (match db.artifacts.find? (jobId, name) with
    | some artifact => pure artifact
    | none => throw .jobNotFound : Transaction ResearchArtifact) db = _
  rw [h]
  rfl

def fetchArtifact (backend : ArtifactBackend) (jobId : JobId) (artifactName userId : String)
    (db : Database) (store : ArtifactStore) : UserReply :=
  ofTransaction "artifact not found"
    (fun artifact => match store.find? artifact.objectKey, backend with
      | some object, _ =>
        .content artifact.mediaType s!"attachment; filename=\"{artifact.name}\"" object.content
      | none, .filesystem => .error 404 "artifact not found"
      | none, .s3 => internalError)
    (commit (do
      let _ ← getForUser jobId userId
      getArtifact jobId artifactName) db).1

/-- What `generate` yields with its next statement. -/
def Stream.chunk (dumps : JobEventView → String) (jobId : JobId) (userId : String) (db : Database)
    (s : Stream) : List String :=
  match s.phase with
  | .looping | .authorizing _ =>
    match getForUser jobId userId db with
    | .ok _ => []
    | .error _ => ["event: error\ndata: \x7b\"error\":\"job not found\"\x7d\n\n"]
  | .emitting _ (e :: _) =>
    [s!"id: {e.sequence}\nevent: {e.eventType}\ndata: {dumps (toEventView e)}\n\n"]
  | .emitting state [] => if state.isTerminal then [] else [": keepalive\n\n"]
  | _ => []

/-- What `generate` yields with its next statements. -/
def Stream.chunks (dumps : JobEventView → String) (jobId : JobId) (userId : String) (db : Database) :
    Nat → Stream → List String
  | 0, _ => []
  | n + 1, s => s.chunk dumps jobId userId db ++ chunks dumps jobId userId db n (s.advance jobId userId db)

/-! ### Requests -/

/-- A request about one job, with the clock that it takes. -/
inductive JobRequest where
  | get
  /-- The stream, read for a number of its statements. -/
  | events (after statements : Nat)
  | cancel (now : Time)
  | artifacts
  | content (artifactName : String)

/-- A request of a user, with the clock and the identifier that it takes. -/
inductive UserRequest where
  | create (now : Time) (id : JobId) (idempotencyKey : String) (request : CreateJobRequest)
  | resolve (chatId messageId : String)
  | about (jobId : JobId) (request : JobRequest)

/-- What a deployment fixes. -/
structure UserApi where
  hashing : Hashing
  limits : AdminLimits
  backend : ArtifactBackend
  dumps : JobEventView → String

namespace UserApi
variable (api : UserApi) (userId : String)

def serveJob (jobId : JobId) (request : JobRequest) (db : Database) (store : ArtifactStore) :
    UserReply × Database :=
  match request with
  | .get => (getJob jobId userId db, db)
  | .events after statements =>
    (.stream ((Stream.start after).chunks api.dumps jobId userId db statements), db)
  | .cancel now => cancelJob now jobId userId db
  | .artifacts => (listJobArtifacts jobId userId db, db)
  | .content artifactName => (fetchArtifact api.backend jobId artifactName userId db store, db)

/-- The answer to a request, and the tables after it. No endpoint writes to the store. -/
def serve (request : UserRequest) (db : Database) (store : ArtifactStore) : UserReply × Database :=
  match request with
  | .create now id idempotencyKey request =>
    createJobEndpoint api.hashing api.limits now id userId idempotencyKey request db
  | .resolve chatId messageId => (resolveJob userId chatId messageId db, db)
  | .about jobId request => api.serveJob userId jobId request db store

end UserApi

end ResearchGateway
