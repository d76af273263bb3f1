import ResearchGateway.Repository.Runner

/-! The transactions of the runner endpoints that do more than call one method. -/
namespace ResearchGateway

def ensureActive (job : ResearchJob) : Transaction Unit :=
  if job.state.isTerminal then throw (.httpError 409 "job is terminal") else pure ()

/-- Private search: one charge before Open WebUI is asked. -/
def runnerSearch (H : Hashing) (now : Time) (jobId : JobId) (runnerToken : String) :
    Transaction ResearchJob := do
  let job ← getForRunnerLocked H jobId runnerToken
  ensureActive job
  let _ ← consumeUsage H now jobId runnerToken {privateSearches := 1}
  return job

def searchLimitMessage : String := "public search query limit exhausted"

/-- Public search: `some` job when the limit was used up and the job failed for it,
`none` when the search was charged and goes on to SearXNG. -/
def runnerPublicSearch (H : Hashing) (now : Time) (jobId : JobId) (runnerToken : String)
    (publicSearchEnabled : Bool) : Transaction (Option ResearchJob) := do
  let job ← getForRunnerLocked H jobId runnerToken
  ensureActive job
  if publicSearchEnabled = false then throw (.httpError 403 "public search is disabled")
  else match usageInt? (job.usage.getD ∅) Counter.searches.key with
    | none => throw .valueError
    | some current =>
      if (job.budget.maxQueries : Int) ≤ current then
        let failed ← markFailed H now jobId runnerToken searchLimitMessage
        return some failed
      else
        let _ ← consumeUsage H now jobId runnerToken {searches := 1}
        return none

/-- The model a chat request is for. -/
def requestedModel (job : ResearchJob) (model : Option String) : String :=
  match model with
  | none => job.models.smart
  | some model => orDefault model job.models.smart

def capabilityOf? (job : ResearchJob) (model : String) : Option ModelCapability :=
  job.modelCapabilities.reverse.find? fun capability => capability.id = model

def contextMessage (estimatedInput : Nat) (model : String) (capability : ModelCapability) : String :=
  s!"model context exhausted: request needs approximately {estimatedInput} input tokens but {model} has a {capability.contextLength} token context window"

/-- Admission of a model call: `some` job when the request leaves no room for an
answer and the job failed for it. -/
def chatAdmission (H : Hashing) (now : Time) (jobId : JobId) (runnerToken : String)
    (model : Option String) (estimatedInput safetyTokens : Nat) : Transaction (Option ResearchJob) := do
  let job ← getForRunnerLocked H jobId runnerToken
  ensureActive job
  let requested := requestedModel job model
  match capabilityOf? job requested with
  | none => throw (.httpError 403
      "runner attempted to use a model outside the user's frozen model selection")
  | some capability =>
    if capability.contextLength - (estimatedInput : Int) - safetyTokens ≤ 0 then
      let failed ← markFailed H now jobId runnerToken
        (contextMessage estimatedInput requested capability)
      return some failed
    else return none

/-- The first transaction of a completion; the attempt names the upload directory. -/
def completionCheck (H : Hashing) (jobId : JobId) (runnerToken : String) : Transaction Nat := do
  let job ← getForRunnerLocked H jobId runnerToken
  if job.state ≠ .running then
    throw (.invalidState s!"cannot complete job in state {job.state.value}")
  else return job.attempt

def addArtifacts (now : Time) (jobId : JobId) : List StoredObject → Transaction Unit
  | [] => pure ()
  | stored :: rest => do
    let _ ← addArtifact now jobId stored
    addArtifacts now jobId rest

def completionResult (completion : RunnerCompletion) (stored : List StoredObject) : Dict :=
  record [("artifact_names", .arr (stored.map fun s => .str s.name)),
    ("source_count", .int completion.sources.length)]

/-- The second transaction of a completion, after the uploads. -/
def completionCommit (H : Hashing) (now : Time) (jobId : JobId) (runnerToken : String)
    (completion : RunnerCompletion) (stored : List StoredObject) : Transaction ResearchJob := do
  let job ← getForRunnerLocked H jobId runnerToken
  if job.state ≠ .running then
    throw (.invalidState s!"cannot complete job in state {job.state.value}")
  else
    let job ← markCompleted H now jobId runnerToken completion (completionResult completion stored)
    addArtifacts now jobId stored
    return job

end ResearchGateway
