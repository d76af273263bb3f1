import ResearchGateway.FunctionCalls
import ResearchGateway.Pipe.Admission
import ResearchGateway.Pipe.Context
import ResearchGateway.Pipe.ModelSelection

/-! A turn of the Pipe, up to the stream of the result.

It collects the context of the request, lets the user select models and approve of the plan, and
creates the job. Open WebUI, the service and the user may answer anything. -/
namespace ResearchGateway
open Library

namespace Turn
open FunctionCalls
open ResultStream (HttpResponse)

/-! ### Questions -/

/-- The valves that a turn reads. -/
structure Valves where
  serviceToken : Text
  publicSearchEnabled : Bool
  requirePlanApproval : Bool
  admission : AdmissionValves
  context : ContextValves
  defaultModels : List (Text × Text)
  completionGraceSeconds : Nat

/-- What `pipe` is called with, and what is built in. -/
structure Invocation where
  valves : Valves
  user : Fields
  userValues : Option UserValues
  chatId : Option Text
  messageId : Option Text
  body : Fields
  files : List Value
  authorization : Option Text
  hasEventCall : Bool
  hasEmitter : Bool
  /-- `str` of a float, a list or a dictionary. -/
  repr : Value → Text
  /-- `json.dumps(content, ensure_ascii=False, default=str)`. -/
  dumps : Value → Text
  /-- `hashlib.sha256(text.encode()).hexdigest()`. -/
  digest : Text → Text
  /-- The value of a decimal digit, in any script. -/
  digit? : CodePoint → Option Nat
  /-- `int` of a string. -/
  intOfText : Text → Option Int
  /-- So many messages of a chat are walked at most. -/
  fuel : Nat

/-- The body of `POST /v1/research-jobs`. -/
structure JobBody where
  query : Text
  chatId : Text
  messageId : Text
  sources : List SourceEntry
  contextDocuments : List ContextEntry
  research : ShapeFields
  budget : BudgetFields
  models : SelectedModels
  modelCapabilities : List CapabilityEntry
  reportType : String := "deep"
  reportFormats : List String := ["markdown", "json"]

inductive Call where
  | getChat (chatId : Text)
  | listModels
  | select (prompt : Pipe.Prompt)
  | approve (plan : Text)
  /-- The status `Starting deep research…`. -/
  | announce
  | createJob (idempotencyKey : Text) (request : JobBody)

inductive Result where
  | message (text : Text)
  /-- The stream of the result of a job, with its first text. -/
  | stream (jobId started : Text) (maxWaitSeconds : Int)

/-! ### The message of the user -/

/-- The texts of a message's content: an exception where one of them is no string. -/
def joinedTexts (items : List Value) : Option Text :=
  let texts := ((items.filterMap Value.fields?).filter fun item => (Fields.get item "type").isText "text").mapM fun item =>
    match Fields.getOr item "text" (.str []) with
    | .str text => some text
    | _ => none
  texts.map (Text.join "\n")

/-- The message of a user with some text in it, from the last one back. -/
def lastUserText : List Value → Option Text
  | [] => some []
  | message :: earlier => message.fields?.bind fun fields =>
    if (fields.get "role").isText "user" then
      match fields.getOr "content" (.str []) with
      | .str content => some content.strip
      | .list items => (joinedTexts items).map Text.strip
      | _ => lastUserText earlier
    else lastUserText earlier

/-- `_last_user_message`; `none` is an exception. -/
def lastUserMessage (body : Fields) : Option Text :=
  (body.getOr "messages" (.list [])).items?.bind fun messages => lastUserText messages.reverse

/-- `_request_preview`. -/
def requestPreview (query : Text) : Text :=
  if query.length ≤ 1000 then query
  else query.take 500 ++ .ofString "\n...\n" ++ query.drop (query.length - 500)

section
variable (inv : Invocation)

def userId : Text := (inv.user.getOr "id" (.str [])).toText inv.repr

/-! ### The context -/

def contextHost (getChat : Nat → Text → Option Fields) : ContextHost Text := ⟨inv.repr, inv.dumps, inv.digest, getChat⟩

/-- `_get_chat`; `quote` encodes the id. -/
def getChat (chatId : Text) : Asks Call Fields :=
  if chatId.isEncodable then do
    let response ← request (.getChat chatId)
    let payload ← orRaise response.json
    return payload.fields?.getD []
  else orRaise none

/-- The items of a linked chat, and its document. -/
def linkedContent (chatId : Text) (linked : Fields) : Option (List Fields × List ContextEntry) := do
  let chat ← ((linked.get "chat").orElse (.dict [])).fields?
  let items ← Pipe.chatItems chat
  let messages ← Pipe.activeMessages inv.repr inv.fuel chat
  let title := ((linked.get "title").orElse (.str (.ofString "Linked Open WebUI chat"))).toText inv.repr
  return (items, (Pipe.document? .linkedChat chatId title (Pipe.formatMessages inv.repr inv.dumps messages)).toList)

/-- The linked chats, one after another. -/
def readLinked : List Text → Asks Call (List Fields × List ContextEntry)
  | [] => return ([], [])
  | chatId :: rest => do
    let linked ← getChat chatId
    let (items, documents) ← orRaise (linkedContent inv chatId linked)
    let (items', documents') ← readLinked rest
    return (items ++ items', documents ++ documents')

def chatContent (current : Fields) : Option (List Fields) := do
  let chat ← ((current.get "chat").orElse (.dict [])).fields?
  Pipe.chatItems chat

/-- What has been collected, cut to the limit. -/
def compacted (documents : List ContextEntry) (items : List Value) (linked : Nat) :
    Option (List ContextEntry × List SourceEntry × Nat) := do
  let compacted ← Compaction.compactDocuments inv.digest inv.valves.context.contextCharLimit documents
  let sources ← Pipe.sources inv.repr [] items
  return (compacted, sources, min linked inv.valves.context.linkedChatLimit)

/-- The chats that the user has attached. -/
def attachedIds : List Text := Pipe.linkedIds inv.repr (inv.files.filterMap Value.fields?)

def conversation (chatId : Text) : Option (List ContextEntry) :=
  (Pipe.priorMessages (inv.body.getOr "messages" (.list []))).map fun prior =>
    (Pipe.document? .conversation chatId (.ofString "Current Open WebUI chat")
      (Pipe.formatMessages inv.repr inv.dumps prior)).toList

/-- `_collect_context`, with the user's authorization. -/
def collectContext (chatId : Text) : Asks Call (List ContextEntry × List SourceEntry × Nat) := do
  let documents ← orRaise (conversation inv chatId)
  let current ← getChat chatId
  let items ← orRaise (chatContent current)
  let ids := Text.sorted (attachedIds inv ++ Pipe.linkedIds inv.repr items)
  let (items', documents') ← readLinked inv (ids.take inv.valves.context.linkedChatLimit)
  orRaise (compacted inv (documents ++ documents') (inv.files ++ (items ++ items').map .dict) ids.length)

/-! ### Models -/

/-- The models of an answer that can be selected. -/
def selectable (payload : Value) : Option (List Fields) := do
  let models ← match payload with
    | .dict fields => (Fields.getOr fields "data" (.list [])).items?
    | _ => some []
  return (models.filterMap Value.fields?).filter fun model =>
    (Fields.get model "id").truthy && !(Fields.get model "id").isText "deep_research"

/-- `_available_models`. -/
def availableModels : Asks Call (List Fields) := do
  let response ← request .listModels
  let payload ← orRaise response.json
  orRaise (selectable payload)

/-- `_select_models`, whose prompts are event calls. -/
def selectModels (available : List Fields) : Asks Call Pipe.Selection :=
  (Pipe.selectModels ⟨inv.repr, inv.digit?⟩ inv.valves.defaultModels inv.hasEventCall available).via
    (fun prompt => eventCall (.select prompt)) fun _ => .raised

/-! ### The plan -/

def sourceScope (request : JobBody) (linked : Nat) : Text :=
  let sources := s!"{request.sources.length} file/Knowledge source(s)"
  let context := s!"{request.contextDocuments.length} conversation context document(s), including {linked} linked chat(s)"
  .ofString (if inv.valves.publicSearchEnabled then s!"public web plus {sources} and {context}"
    else s!"only {sources} and {context}; public web is disabled")

def requestLabel (query : Text) : Text :=
  .ofString (if requestPreview query ≠ query then
    s!"Request preview ({Pipe.thousands query.length} characters; the full request will be used unchanged)"
  else "Request")

/-- What the user is asked to approve of. -/
def plan (request : JobBody) (linked : Nat) : Text :=
  requestLabel request.query ++ .ofString ":\n\n" ++ requestPreview request.query ++ .ofString "\n\nSources: " ++
    sourceScope inv request linked ++
    .ofString (s!".\n\nResearch strategy: {request.research.strategy.value} — breadth {request.research.breadth}, " ++
      s!"depth {request.research.depth}, {request.research.queriesPerBranch} queries per branch " ++
      s!"(up to {Pipe.estimatedMaxQueries request.research} planned queries).\n\n" ++
      s!"Limits: up to {request.budget.maxQueries} search queries and " ++
      s!"{request.budget.maxWallTimeSeconds / 60} minutes.\n\nModels: fast `") ++ request.models.fast ++
    .ofString "`, smart `" ++ request.models.smart ++ .ofString "`, and strategic `" ++ request.models.strategic ++
    .ofString "`."

/-- Why the turn ends before the job is created, if it does. -/
def approval (plan : Text) : Asks Call (Option String) :=
  if !inv.valves.requirePlanApproval then return none
  else if !inv.hasEventCall then
    return some "Deep Research needs an active browser session to approve the research plan."
  else do
    let approved ← eventCall (.approve plan)
    return if approved.truthy then none else some "Deep research was not started."

/-! ### The job -/

def announced : Asks Call Unit :=
  if inv.hasEmitter then do
    let _ ← eventCall .announce
    return ()
  else return ()

/-- `hashlib.sha256(f"{user_id}:{chat_id}:{message_id}".encode()).hexdigest()`. -/
def idempotencyKey (chatId messageId : Text) : Option Text :=
  let text := userId inv ++ .ofString ":" ++ chatId ++ .ofString ":" ++ messageId
  if text.isEncodable then some (inv.digest text) else none

/-- The job of an answer: its id, and its first text. -/
def createdJob (payload : Value) : Option (Text × Text) := do
  let fields ← payload.fields?
  let id ← Fields.get? fields (.ofString "id")
  let iteration ← (Fields.getOr fields "iteration" (.int 1)).toInt? inv.intOfText
  let parent := Fields.get fields "parent_job_id"
  let jobId := id.toText inv.repr
  let continuation : Text := if parent.truthy then
    .ofString s!" Continuing research iteration {iteration} from job `" ++ parent.toText inv.repr ++ .ofString "`."
  else []
  return (jobId, .ofString "Deep research started (job `" ++ jobId ++ .ofString "`)." ++ continuation ++
    .ofString (" You can leave this chat; the report and its files will appear here automatically " ++
      "when it finishes."))

def createJob (body : JobBody) : Asks Call Result := do
  let key ← orRaise (idempotencyKey inv body.chatId body.messageId)
  let response ← request (.createJob key body)
  let payload ← orRaise response.json
  let (jobId, started) ← orRaise (createdJob inv payload)
  return .stream jobId started (body.budget.maxWallTimeSeconds + inv.valves.completionGraceSeconds)

/-- The plan of a request, and the job where it is approved of. -/
def approveAndCreate (body : JobBody) (linked : Nat) : Asks Call Result := do
  match ← approval inv (plan inv body linked) with
  | some text => return .message (.ofString text)
  | none =>
    announced inv
    createJob inv body

/-- The request is built with the models that the user has selected. -/
def proceed (query chatId messageId : Text) (research : ShapeFields) (budget : BudgetFields)
    (context : List ContextEntry × List SourceEntry × Nat) (models : SelectedModels) (capabilities : List CapabilityEntry) :
    Asks Call Result :=
  let (contextDocuments, sources, linked) := context
  if !inv.valves.publicSearchEnabled && sources.isEmpty && contextDocuments.isEmpty then
    return .message (.ofString ("Public search is disabled. Attach a file, select an Open WebUI Knowledge collection, " ++
      "or continue an existing research chat."))
  else approveAndCreate inv
    {query, chatId, messageId, sources, contextDocuments, research, budget, models, modelCapabilities := capabilities} linked

/-- What is tried: the requests to Open WebUI and to the service. -/
def attempt (query chatId messageId : Text) (research : ShapeFields) (budget : BudgetFields) : Asks Call Result := do
  let context ← collectContext inv chatId
  let available ← availableModels
  match ← selectModels inv available with
  | .message text => return .message text
  | .selected models capabilities => proceed inv query chatId messageId research budget context models capabilities

/-- The handlers around it. -/
def caught : Except CallError Result → Asks Call Result
  | .ok result => return result
  | .error (.status (some text)) => return .message (.ofString "Deep Research rejected the job: " ++ text.take 1000)
  | .error (.status none) => .done (.error .raised)
  | .error (.http message) => return .message (.ofString "Deep Research service is unavailable: " ++ message)
  | .error e => .done (.error e)

/-- The shape and the limits that the user asks for. -/
def requested : Except String (ShapeFields × BudgetFields) := do
  let research ← Pipe.researchShape inv.valves.admission inv.userValues
  let budget ← Pipe.budget inv.valves.admission inv.userValues research
  return (research, budget)

/-- A turn with a question, once the configuration is valid. -/
def ask (query chatId messageId : Text) : Asks Call Result :=
  match requested inv with
  | .error message => return .message (.ofString "Deep Research configuration is invalid: " ++ .ofString message)
  | .ok (research, budget) =>
    if inv.authorization.isNone then
      return .message (.ofString "Deep Research requires the initiating user's Open WebUI authorization.")
    else (attempt inv query chatId messageId research budget).handle caught

def missing (text : Option Text) : Bool := text.all List.isEmpty

/-- `pipe`. -/
def pipe : Asks Call Result :=
  if inv.valves.serviceToken.isEmpty then
    return .message (.ofString "Deep Research is not configured: the administrator must set a service token.")
  else if (userId inv).isEmpty || missing inv.chatId || missing inv.messageId then
    return .message (.ofString "Deep Research requires an authenticated chat session.")
  else do
    let query ← orRaise (lastUserMessage inv.body)
    if query.isEmpty then return .message (.ofString "Please provide a research question.")
    else ask inv query (inv.chatId.getD []) (inv.messageId.getD [])

end

end Turn
end ResearchGateway
