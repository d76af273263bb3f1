import ResearchGateway.Repository.Jobs

/-! The methods behind a runner token, and the artifact rows of a completion. -/
namespace ResearchGateway

/-- Research results returned by a runner. -/
structure RunnerCompletion where
  reportMarkdown : String
  researchNotesMarkdown : String := ""
  sources : List Dict := []
  usage : Dict := ∅

/-! ### Usage -/

inductive Counter where
  | inputTokens
  | outputTokens
  | searches
  | privateSearches
  | estimatedTokenCalls
  deriving DecidableEq

/-- The counter's key in the usage dictionary. -/
def Counter.key : Counter → String
  | inputTokens => "input_tokens"
  | outputTokens => "output_tokens"
  | searches => "searches"
  | privateSearches => "private_searches"
  | estimatedTokenCalls => "estimated_token_calls"

def Counter.all : List Counter :=
  [inputTokens, outputTokens, searches, privateSearches, estimatedTokenCalls]

/-- The keyword arguments of `consume_usage`. -/
structure Charge where
  inputTokens : Int := 0
  outputTokens : Int := 0
  searches : Int := 0
  privateSearches : Int := 0
  estimatedTokenCalls : Int := 0
  deriving DecidableEq

def Charge.amount (charge : Charge) : Counter → Int
  | .inputTokens => charge.inputTokens
  | .outputTokens => charge.outputTokens
  | .searches => charge.searches
  | .privateSearches => charge.privateSearches
  | .estimatedTokenCalls => charge.estimatedTokenCalls

/-- `int(usage.get(key, 0))`; `none` where `int` raises. -/
def usageInt? (usage : Dict) (key : String) : Option Int :=
  match usage.lookup key with
  | none => some 0
  | some value => value.toInt?

/-- `usage[key] = max(0, int(usage.get(key, 0)) + amount)`. -/
def addUsage (charge : Charge) (usage : Dict) (c : Counter) : Option Dict :=
  (usageInt? usage c.key).map fun current =>
    usage.insert c.key (.int (max 0 (current + charge.amount c)))

/-- The usage dictionary after a charge. -/
def chargedUsage (charge : Charge) (usage : Dict) : Option Dict :=
  Counter.all.foldlM (addUsage charge) usage

/-- `{key: int(value) for key, value in usage.items()}`. -/
def usageTotals (usage : Dict) : Option (List (String × Int)) :=
  usage.entries.mapM fun entry => entry.2.toInt?.map fun n => (entry.1, n)

def consumeUsage (H : Hashing) (now : Time) (jobId : JobId) (runnerToken : String) (charge : Charge) :
    Transaction (List (String × Int)) := do
  let job ← getForRunnerLocked H jobId runnerToken
  match chargedUsage charge (job.usage.getD ∅) with
  | none => throw .valueError
  | some usage =>
    save {job with usage := some usage, updatedAt := now}
    match usageTotals usage with
    | none => throw .valueError
    | some totals => return totals

/-! ### Progress -/

def appendRunnerEvent (H : Hashing) (now : Time) (jobId : JobId) (runnerToken eventType : String)
    (data : Dict) : Transaction ResearchEvent := do
  let job ← getForRunnerLocked H jobId runnerToken
  if job.state.isTerminal then throw (.invalidState "cannot append to a terminal job")
  else if ¬ isStorable eventType then throw .database
  else
    let job := {job with updatedAt := now}
    save job
    appendEventLocked now job eventType data

def heartbeat (H : Hashing) (now : Time) (jobId : JobId) (runnerToken : String) :
    Transaction ResearchJob := do
  let job ← getForRunnerLocked H jobId runnerToken
  if job.state = .running ∨ job.state = .cancelRequested then
    let job := {job with updatedAt := now}
    save job
    return job
  else throw (.invalidState s!"cannot heartbeat job in state {job.state.value}")

def markStarted (H : Hashing) (now : Time) (jobId : JobId) (runnerToken : String) :
    Transaction ResearchJob := do
  let job ← getForRunnerLocked H jobId runnerToken
  if ¬ job.state.isActive then
    throw (.invalidState s!"cannot start job in state {job.state.value}")
  else if job.state = .cancelRequested then return job
  else if job.state ≠ .running then
    let job := {job with
      state := .running, dispatchLeaseExpiresAt := none, startedAt := some now, updatedAt := now}
    save job
    let _ ← appendEventLocked now job "job.started" ∅
    return job
  else return job

/-! ### Outcomes -/

def cancelledJob (now : Time) (job : ResearchJob) : ResearchJob :=
  {job with
    state := .cancelled
    runnerTokenHash := none
    finishedAt := some now
    updatedAt := now
    dispatchLeaseExpiresAt := none}

def markCancelled (H : Hashing) (now : Time) (jobId : JobId) (runnerToken : String) :
    Transaction ResearchJob := do
  let job ← getForRunnerLocked H jobId runnerToken
  if job.state = .cancelled then
    let job := revokeToken now job
    save job
    return job
  else if job.state = .cancelRequested ∨ job.state = .running then
    let job := cancelledJob now job
    save job
    let _ ← appendEventLocked now job "job.cancelled" ∅
    return job
  else throw (.invalidState s!"cannot cancel job in state {job.state.value}")

def failedJob (now : Time) (error : String) (job : ResearchJob) : ResearchJob :=
  {job with
    state := .failed
    runnerTokenHash := none
    error := some (clip error)
    finishedAt := some now
    updatedAt := now
    dispatchLeaseExpiresAt := none}

def markFailed (H : Hashing) (now : Time) (jobId : JobId) (runnerToken error : String) :
    Transaction ResearchJob := do
  let job ← getForRunnerLocked H jobId runnerToken
  if job.state = .failed then
    let job := revokeToken now job
    save job
    return job
  else if job.state = .dispatched ∨ job.state = .running then
    if isStorable (clip error) then
      let job := failedJob now error job
      save job
      let _ ← appendEventLocked now job "job.failed" (record [("error", .str (clip error))])
      return job
    else throw .database
  else throw (.invalidState s!"cannot fail job in state {job.state.value}")

/-- `{**(job.usage or {}), **completion.usage}`: the completion's keys win. -/
def mergedUsage (job : ResearchJob) (completion : RunnerCompletion) : Dict :=
  completion.usage ∪ job.usage.getD ∅

def succeededJob (now : Time) (completion : RunnerCompletion) (result : Dict) (job : ResearchJob) :
    ResearchJob :=
  {job with
    state := .succeeded
    runnerTokenHash := none
    result := some result
    usage := some (mergedUsage job completion)
    finishedAt := some now
    updatedAt := now
    dispatchLeaseExpiresAt := none}

def markCompleted (H : Hashing) (now : Time) (jobId : JobId) (runnerToken : String)
    (completion : RunnerCompletion) (result : Dict) : Transaction ResearchJob := do
  let job ← getForRunnerLocked H jobId runnerToken
  if job.state = .cancelRequested then markCancelled H now jobId runnerToken
  else if job.state ≠ .running then
    throw (.invalidState s!"cannot complete job in state {job.state.value}")
  else
    let job := succeededJob now completion result job
    save job
    let _ ← appendEventLocked now job "job.succeeded" result
    return job

/-- An object the artifact store has accepted. -/
structure StoredObject where
  name : String
  objectKey : String
  mediaType : String
  size : Nat

/-- A row of `research_artifacts`; the job must exist and the name be new to it. -/
def addArtifact (now : Time) (jobId : JobId) (stored : StoredObject) : Transaction ResearchArtifact := do
  let db ← get
  let artifact : ResearchArtifact :=
    ⟨db.artifactSerial, jobId, stored.name, stored.objectKey, stored.mediaType, stored.size, now⟩
  if h : db.artifacts.Fresh (artifact.jobId, artifact.name) then
    if (db.job? jobId).isNone then throw .integrity
    else
      set {db with
        artifacts := db.artifacts.insert artifact h, artifactSerial := db.artifactSerial + 1}
      return artifact
  else throw .integrity

end ResearchGateway
