import ResearchGateway.Api.MessageEvents
import ResearchGateway.Api.RunnerReplies
import ResearchGateway.Operation

/-! The handlers of the runner endpoints, one stop at a time.

A handler is what is left of a request: the next transaction, with what it writes and
what the handler does after it, or the next message event, or the answer. Between two
of its stops anything else may happen. What Open WebUI, SearXNG and the artifact store
answer is part of the call. -/
namespace ResearchGateway
open Library

/-- How a request ends. -/
inductive Served where
  | replied (status : Nat)
  /-- An exception that the handler turned into a response. -/
  | caught (error : Failure) (status : Nat)
  /-- An exception after the response was begun: logged. -/
  | logged (error : Failure)
  /-- An exception that leaves the handler. -/
  | unhandled (error : Failure)
  /-- An exception that is neither the gateway's nor the repository's leaves the handler. -/
  | broken

inductive Handler where
  | finish (served : Served)
  | emit (emission : Emission) (next : Handler)
  | transaction (writes : Time → Database → Database) (next : Time → Database → Handler)

/-- What becomes of an exception, given those the handler catches. -/
def Served.of (caught : Failure → Option Nat) : Failure → Served
  | .httpError status _ => .replied status
  | e =>
    match caught e with
    | some status => .caught e status
    | none => .unhandled e

/-- The status that the client sees. -/
def Served.status : Served → Nat
  | .replied status | .caught _ status => status
  | .logged _ => 200
  | .unhandled _ | .broken => 500

theorem Served.of_status (caught : Failure → Option Nat) (e : Failure) :
    (Served.of caught e).status = statusOf caught e := by
  cases e with
  | httpError => rfl
  | jobNotFound | idempotencyConflict | invalidState | integrity | database | valueError =>
    simp only [Served.of, statusOf]
    cases caught _ <;> rfl

/-! ### What the calls carry -/

/-- What a service answers: a result, an error that the endpoint turns into a 502, or
an exception that it does not know. -/
inductive Upstream where
  | answered
  | refused
  | broken

/-- What a model answers. An answer carries what the provider reported or the gateway
estimated; a stream that breaks off is charged as one that ends. -/
inductive ModelAnswer where
  | answered (charge : Charge)
  | refused
  | broken

/-- Progress produced by a runner. -/
structure RunnerEvent where
  eventType : String
  data : Dict
  type_length : 1 ≤ eventType.length ∧ eventType.length ≤ 100

structure ErrorBody where
  error : String
  error_length : 1 ≤ error.length ∧ error.length ≤ 20000

/-- The endpoints under `/internal/jobs/{job_id}`. -/
inductive RunnerCall where
  | job
  | state
  | started
  | heartbeat
  | events (event : RunnerEvent)
  | search (retrieved : Upstream)
  | publicSearch (searched : Upstream)
  /-- The uploads of an attempt: what the store returned, or `none` where it raised. -/
  | complete (completion : RunnerCompletion) (uploads : Nat → Option (List StoredObject))
  | failed (body : ErrorBody)
  | cancelled
  | chatCompletions (model : Option String) (estimatedInput : Nat) (stream : Bool) (answer : ModelAnswer)
  | embeddings (answer : Upstream)

structure RunnerRequest where
  jobId : JobId
  runnerToken : String
  call : RunnerCall

structure RunnerSettings where
  publicSearchEnabled : Bool := true
  modelContextSafetyTokens : Nat := 256

namespace Handler

/-- One transaction of a handler, and what it does with the result. -/
def commits {α : Type} (caught : Failure → Option Nat) (t : Time → Transaction α) (next : α → Handler) :
    Handler :=
  .transaction (fun now db => (commit (t now) db).2) fun now db =>
    match (commit (t now) db).1 with
    | .ok a => next a
    | .error e => .finish (Served.of caught e)

/-- The handler returns a value. -/
def returns : Handler := .finish (.replied 200)

def answers : Upstream → Handler
  | .answered => returns
  | .refused => .finish (.replied 502)
  | .broken => .finish .broken

/-! ### Messages -/

def publishProgress (job : ResearchJob) (data : Dict) (next : Handler) : Handler :=
  .emit (job.emission (.status (progressDescription data) false none)) next

def publishFailure (job : ResearchJob) (error : String) (next : Handler) : Handler :=
  .emit (job.emission (.status s!"Deep research failed: {error}" true none)) next

def publishCancelled (job : ResearchJob) (next : Handler) : Handler :=
  .emit (job.emission (.status "Deep research cancelled" true none)) next

def publishCompletion (job : ResearchJob) (report : String) (next : Handler) : Handler :=
  .emit (job.emission (.replace report))
    (.emit (job.emission (.status "Deep research complete" true (some job.id))) next)

/-! ### The endpoints -/

section
variable (H : Hashing) (settings : RunnerSettings) (jobId : JobId) (runnerToken : String)

def runnerJob : Handler :=
  commits notFound (fun _ => do
    let job ← getForRunner H jobId runnerToken
    ensureActive job) fun _ => returns

def runnerJobState : Handler := commits notFound (fun _ => getForRunner H jobId runnerToken) fun _ => returns

def runnerStarted : Handler :=
  commits conflict (fun now => markStarted H now jobId runnerToken) fun job =>
    publishProgress job (record [("stage", .str ResearchStage.starting.value)]) returns

def runnerHeartbeat : Handler :=
  commits conflict (fun now => heartbeat H now jobId runnerToken) fun _ => returns

def runnerEvent (event : RunnerEvent) : Handler :=
  commits conflict (fun now => do
    let _ ← appendRunnerEvent H now jobId runnerToken event.eventType event.data
    getForRunner H jobId runnerToken) fun job =>
      if event.eventType = "research.progress" then publishProgress job event.data returns
      else returns

/-- Open WebUI is only asked when the job has sources. -/
def runnerSearch (retrieved : Upstream) : Handler :=
  commits notFound (fun now => ResearchGateway.runnerSearch H now jobId runnerToken) fun job =>
    if job.sources.isEmpty then returns else answers retrieved

def runnerPublicSearch (searched : Upstream) : Handler :=
  commits notFound (fun now =>
    ResearchGateway.runnerPublicSearch H now jobId runnerToken settings.publicSearchEnabled) fun
    | some limitFailure => publishFailure limitFailure searchLimitMessage (.finish (.replied 429))
    | none => answers searched

def runnerComplete (completion : RunnerCompletion) (uploads : Nat → Option (List StoredObject)) :
    Handler :=
  commits conflict (fun _ => completionCheck H jobId runnerToken) fun attempt =>
    match uploads attempt with
    | none => .finish .broken
    | some stored =>
      commits conflict (fun now => completionCommit H now jobId runnerToken completion stored) fun job =>
        if job.state = .succeeded then publishCompletion job completion.reportMarkdown returns
        else returns

def runnerFailed (body : ErrorBody) : Handler :=
  commits notFound (fun now => markFailed H now jobId runnerToken body.error) fun job =>
    publishFailure job body.error returns

def runnerCancelled : Handler :=
  commits notFound (fun now => markCancelled H now jobId runnerToken) fun job =>
    publishCancelled job returns

/-- The charge of a stream is made after its last byte was sent. -/
def chargeStream (charge : Charge) : Handler :=
  .transaction (fun now db => (commit (consumeUsage H now jobId runnerToken charge) db).2) fun now db =>
    match (commit (consumeUsage H now jobId runnerToken charge) db).1 with
    | .ok _ => returns
    | .error e => .finish (.logged e)

/-- The message of a request that left no room, from the job that failed for it. -/
def contextError (job : ResearchJob) (model : Option String) (estimatedInput : Nat) : String :=
  let requested := requestedModel job model
  match capabilityOf? job requested with
  | some capability => contextMessage estimatedInput requested capability
  | none => ""

/-- No exception of the two transactions is caught. -/
def proxyChatCompletion (model : Option String) (estimatedInput : Nat) (stream : Bool)
    (answer : ModelAnswer) : Handler :=
  commits (fun _ => none) (fun now => chatAdmission H now jobId runnerToken model estimatedInput
    settings.modelContextSafetyTokens) fun
    | some contextFailure =>
      publishFailure contextFailure (contextError contextFailure model estimatedInput)
        (.finish (.replied 422))
    | none =>
      match answer with
      | .refused => .finish (.replied 502)
      | .broken => .finish .broken
      | .answered charge =>
        if stream then chargeStream H jobId runnerToken charge
        else commits (fun _ => none) (fun now => consumeUsage H now jobId runnerToken charge) fun _ => returns

/-- Embeddings are not charged. The check of the state is outside of the `try`. -/
def proxyEmbeddings (answer : Upstream) : Handler :=
  commits notFound (fun _ => do
    let job ← getForRunner H jobId runnerToken
    ensureActive job) fun _ => answers answer

end

end Handler

/-- The handler of a request. -/
def RunnerRequest.handler (H : Hashing) (settings : RunnerSettings) (r : RunnerRequest) : Handler :=
  match r.call with
  | .job => Handler.runnerJob H r.jobId r.runnerToken
  | .state => Handler.runnerJobState H r.jobId r.runnerToken
  | .started => Handler.runnerStarted H r.jobId r.runnerToken
  | .heartbeat => Handler.runnerHeartbeat H r.jobId r.runnerToken
  | .events event => Handler.runnerEvent H r.jobId r.runnerToken event
  | .search retrieved => Handler.runnerSearch H r.jobId r.runnerToken retrieved
  | .publicSearch searched => Handler.runnerPublicSearch H settings r.jobId r.runnerToken searched
  | .complete completion uploads => Handler.runnerComplete H r.jobId r.runnerToken completion uploads
  | .failed body => Handler.runnerFailed H r.jobId r.runnerToken body
  | .cancelled => Handler.runnerCancelled H r.jobId r.runnerToken
  | .chatCompletions model estimatedInput stream answer =>
    Handler.proxyChatCompletion H settings r.jobId r.runnerToken model estimatedInput stream answer
  | .embeddings answer => Handler.proxyEmbeddings H r.jobId r.runnerToken answer

end ResearchGateway
