import ResearchGateway.FunctionCalls

/-! The action that saves a report to a Knowledge collection.

It finds the job of the message, lets the user choose a collection, uploads the report unless
the message has it already, and adds it to the collection. Open WebUI, the service and the
user may answer anything: what is asked of them, each time, has its reason in what they said
before, and the writes come in one order, each at most once (`KnowledgeWrites`). -/
namespace ResearchGateway
open Library

namespace SaveToKnowledge
open ResultStream (HttpResponse isTextual)
open FunctionCalls

/-- `CREATE_KNOWLEDGE_TARGET`. -/
def createKnowledgeTarget : Text := .ofString "__create_new_knowledge__"

/-- What `action` is called with. -/
structure Invocation where
  /-- Whether the service token is set. -/
  hasToken : Bool
  hasAuthorization : Bool
  hasEventCall : Bool
  hasEmitter : Bool
  body : Fields
  /-- `json.dumps` of the body. -/
  serialized : Text
  /-- `str` of a float, a list or a dictionary. -/
  repr : Value → Text
  /-- `int` of a string. -/
  intOfText : Text → Option Int
  /-- So many pages of collections are read at most. -/
  pages : Nat

/-- The requests, with the user's authorization to Open WebUI and with the user's id to the
service, and the events. -/
inductive Call where
  | resolveJob (chatId messageId : Text)
  | getChat (chatId : Text)
  | listKnowledge (page : Nat)
  /-- The labels and the values to choose from. -/
  | chooseKnowledge (options : List (Text × Text))
  | nameKnowledge
  | fetchReport (jobId : Text)
  | uploadReport (jobId : Text) (content : Bytes) (mediaType : Text)
  | setPreview (fileId content : Text)
  | createKnowledge (name : Text)
  | addFile (knowledgeId fileId : Text)
  | notify (isError : Bool) (content : Text)

abbrev Action (α : Type) := Asks Call α

/-! ### The job of the message -/

def isJobIdSymbol (c : CodePoint) : Bool :=
  (48 ≤ c.val && c.val ≤ 57) || (97 ≤ c.val && c.val ≤ 102) || c.val == 45

/-- `[0-9a-f-]{36}` at a position. -/
def jobIdPrefix (t : Text) : Option Text :=
  if (t.take 36).length = 36 ∧ (t.take 36).all isJobIdSymbol then some (t.take 36) else none

def after (literal : String) (t : Text) : Option Text :=
  if (Text.ofString literal).isPrefixOf t then some (t.drop literal.length) else none

/-- `"job_id"\s*:\s*"([0-9a-f-]{36})"` at a position: neither run of spaces can end earlier. -/
def quotedJobId (t : Text) : Option Text := do
  let t ← after "\"job_id\"" t
  let t ← after ":" (t.dropWhile CodePoint.isSpace)
  let t ← after "\"" (t.dropWhile CodePoint.isSpace)
  let jobId ← jobIdPrefix t
  let _ ← after "\"" (t.drop 36)
  return jobId

/-- `deep-research-job:([0-9a-f-]{36})` at a position. -/
def linkedJobId (t : Text) : Option Text := after "deep-research-job:" t >>= jobIdPrefix

/-- `re.search`: the first position with a match. -/
def search {α : Type} (at? : Text → Option α) : Text → Option α
  | [] => at? []
  | c :: t => (at? (c :: t)).orElse fun _ => search at? t

/-- `_job_id`. -/
def jobIdOf (serialized : Text) : Option Text :=
  (search quotedJobId serialized).orElse fun _ => search linkedJobId serialized

section
variable (inv : Invocation)

/-- The chat and the message of the body. -/
def messageOf : Option (Text × Text) :=
  let chatId := Fields.get inv.body "chat_id"
  let messageId := Fields.get inv.body "id"
  if chatId.truthy && messageId.truthy then some (chatId.toText inv.repr, messageId.toText inv.repr) else none

/-- The job of an answer of the service, if it has succeeded; the outer `none` is an exception. -/
def succeededJob (payload : Value) : Option (Option Text) := do
  let fields ← payload.fields?
  if (Fields.get fields "state").isText "succeeded" then
    let id ← Fields.get? fields (.ofString "id")
    return some (id.toText inv.repr)
  else return none

/-- `_resolve_job_id`. -/
def resolveJobId : Action (Option Text) :=
  match messageOf inv with
  | none => pure none
  | some (chatId, messageId) => do
    let answer ← .question (.resolveJob chatId messageId)
    let response ← .done (received answer.reply)
    if response.status = 404 then return none
    let response ← .done (successful response)
    let payload ← orRaise response.json
    orRaise (succeededJob inv payload)

/-! ### The files of the message -/

/-- `value.get(key) or {}`, where `none` is an exception. -/
def entriesUnder (value : Fields) (key : Text) : Option Fields := ((value.get? key).getD .none).entries?

/-- The files in an answer with a chat. -/
def filesOf (messageId : Text) (payload : Value) : Option (List Fields) := do
  let payload ← payload.fields?
  let chat ← entriesUnder payload (.ofString "chat")
  let history ← entriesUnder chat (.ofString "history")
  let messages ← entriesUnder history (.ofString "messages")
  let message ← entriesUnder messages messageId
  let files ← ((Fields.get message "files").orElse (.list [])).items?
  return files.filterMap Value.fields?

/-- `_message_files`. -/
def messageFiles : Action (List Fields) :=
  match messageOf inv with
  | none => pure []
  | some (chatId, messageId) => do
    let response ← request (.getChat chatId)
    let payload ← orRaise response.json
    orRaise (filesOf messageId payload)

/-- `_attached_report_id`. -/
def attachedReportId : List Fields → Option Text
  | [] => none
  | item :: items =>
    if (Fields.get item "name").isText "report.md" && (Fields.get item "id").truthy then
      some ((Fields.get item "id").toText inv.repr)
    else attachedReportId items

/-! ### The collections -/

structure Knowledge where
  id : Text
  name : Text

/-- A collection that the user may write to and that is not from elsewhere. -/
def writableItem? (item : Value) : Option Knowledge :=
  match item with
  | .dict fields =>
    let isWritable := match Fields.get fields "write_access" with
      | .bool true => true
      | _ => false
    let isExternal := match Fields.get fields "meta" with
      | .dict metadata => (Fields.get metadata "source").isText "external"
      | _ => false
    let id := Fields.get fields "id"
    let name := Fields.get fields "name"
    if isWritable && !isExternal && id.truthy && name.truthy then some ⟨id.toText inv.repr, name.toText inv.repr⟩
    else none
  | _ => none

/-- `n >= value`; what is no number cannot be compared. -/
def reaches? (n : Nat) : Value → Option Bool
  | .bool b => some (decide ((if b then 1 else 0) ≤ n))
  | .int m => some (decide (m ≤ n))
  | .float bits => some (if bits.msb then !(bits.extractLsb' 52 11 == 2047 && bits.setWidth 52 != 0) else
      match Value.floatInt? bits, Value.truncate? bits with
      | some m, _ => decide (m ≤ n)
      | none, some m => decide (m < n)
      | none, none => false)
  | _ => none

structure Page where
  items : List Value
  total : Value

/-- The items of a page and the number of all of them, where `none` is an exception. -/
def pageOf (payload : Value) : Option Page :=
  match payload with
  | .dict fields => do
    let items ← (Fields.getOr fields "items" (.list [])).items?
    return ⟨items, Fields.getOr fields "total" (.int items.length)⟩
  | _ => some ⟨[], .int 0⟩

/-- The loop of `_writable_knowledge`, from a page on. -/
def writableFrom : Nat → Nat → Nat → List Knowledge → Action (List Knowledge)
  | 0, _, _, _ => .done (.error .unfinished)
  | fuel + 1, number, seen, writable => do
    let response ← request (.listKnowledge number)
    let payload ← orRaise response.json
    let page ← orRaise (pageOf payload)
    let seen := seen + page.items.length
    let writable := writable ++ page.items.filterMap (writableItem? inv)
    if page.items.isEmpty then return writable
    if ← orRaise (reaches? seen page.total) then return writable
    writableFrom fuel (number + 1) seen writable

/-- `_writable_knowledge`. -/
def writableKnowledge : Action (List Knowledge) := writableFrom inv inv.pages 1 0 []

/-! ### The report -/

/-- `_fetch_artifact` of `report.md`: its bytes and their type. -/
def fetchReport (jobId : Text) : Action (HttpResponse × Text) := do
  let response ← request (.fetchReport jobId)
  return (response, response.contentType.getD (.ofString "application/octet-stream"))

/-- `_set_preview_content`. -/
def setPreviewContent (fileId : Text) (content : HttpResponse) (mediaType : Text) : Action Unit :=
  if isTextual mediaType then do
    let text ← orRaise (if fileId.isEncodable then content.decoded else none)
    let _ ← request (.setPreview fileId text)
    return ()
  else pure ()

/-- The fields of an answer that has an id, with that. -/
def identified (payload : Value) : Option (Fields × Text) := do
  let fields ← payload.fields?
  let id ← Fields.get? fields (.ofString "id")
  return (fields, id.toText inv.repr)

/-- `_upload_to_openwebui`: of the file that it describes only the id is used. -/
def uploadToOpenwebui (jobId : Text) (content : HttpResponse) (mediaType : Text) : Action Text := do
  let response ← request (.uploadReport jobId content.content mediaType)
  let payload ← orRaise response.json
  let fields ← orRaise payload.fields?
  let (_, fileId) ← orRaise (identified inv payload)
  setPreviewContent fileId content mediaType
  let metadata ← orRaise (Fields.get fields "meta").entries?
  let _ ← orRaise (((Fields.get metadata "size").orElse (.int content.content.length)).toInt? inv.intOfText)
  return fileId

/-- The file to add: the one that is attached to the message, or a new one. -/
def reportFile (jobId : Text) (existing : List Fields) : Action Text :=
  match attachedReportId inv existing with
  | some fileId => pure fileId
  | none => do
    let (content, mediaType) ← fetchReport jobId
    uploadToOpenwebui inv jobId content mediaType

/-! ### The action -/

/-- What was added where. -/
structure Addition where
  knowledgeId : Text
  fileId : Text

/-- The id of the collection that a target stands for, which is made if it is a new one. -/
def knowledgeFor (name : Text) (isNew : Bool) : Action Text :=
  if isNew then do
    let response ← request (.createKnowledge name)
    let payload ← orRaise response.json
    let (_, knowledgeId) ← orRaise (identified inv payload)
    return knowledgeId
  else pure name

def options (writable : List Knowledge) : List (Text × Text) :=
  (.ofString "Create a new Knowledge collection", createKnowledgeTarget) ::
    writable.map fun knowledge => (knowledge.name, knowledge.id)

/-- The user is asked where there is something to choose from. -/
def chosenKnowledge (writable : List Knowledge) : Action Value :=
  if writable.isEmpty then pure (.str createKnowledgeTarget) else eventCall (.chooseKnowledge (options writable))

/-- What the user chooses, and whether it is the name of a new collection. -/
def target (writable : List Knowledge) : Action (Value × Bool) := do
  let chosen ← chosenKnowledge writable
  if chosen.isText "__create_new_knowledge__" then
    return (← eventCall .nameKnowledge, true)
  else return (chosen, false)

/-- The writes, for a target that is not blank. -/
def addReport (jobId : Text) (existing : List Fields) (name : Text) (isNew : Bool) : Action Addition := do
  let fileId ← reportFile inv jobId existing
  let knowledgeId ← knowledgeFor inv name.strip isNew
  let _ ← request (.addFile knowledgeId fileId)
  return ⟨knowledgeId, fileId⟩

/-- `_save_to_knowledge`; an error is returned, not raised. -/
def saveToKnowledge (jobId : Text) (existing : List Fields) : Action (Except Text Addition) := do
  let writable ← writableKnowledge inv
  let (chosen, isNew) ← target writable
  match chosen with
  | .str name =>
    if name.strip.isEmpty then return .error (.ofString "Save cancelled.")
    if !isNew && !(name ∈ writable.map (·.id)) then
      return .error (.ofString "The selected Knowledge collection is not writable.")
    return .ok (← addReport inv jobId existing name isNew)
  | _ => return .error (.ofString "Save cancelled.")

/-- A notification, where there is an emitter; nothing catches what that raises. -/
def notified {α : Type} (isError : Bool) (content : Text) (result : α) : Action α :=
  if inv.hasEmitter then do
    let _ ← eventCall (.notify isError content)
    return result
  else return result

def savedMessage : Text := .ofString "Research report saved to Knowledge."

/-- `_error`. -/
def failedWith (message : Text) : Action (Except Text Addition) := notified inv true message (.error message)

/-- The job that the body names, or that the service knows. -/
def jobOfMessage : Action (Option Text) :=
  match jobIdOf inv.serialized with
  | some jobId => pure (some jobId)
  | none => resolveJobId inv

def attempt : Action (Except Text Addition) := do
  let jobId? ← jobOfMessage inv
  match jobId? with
  | none => return .error (.ofString "This message is not associated with a deep-research job.")
  | some jobId =>
    let existing ← messageFiles inv
    if inv.hasEventCall then saveToKnowledge inv jobId existing
    else return .error (.ofString "An active browser session is required.")

/-- `action`: the errors of httpx are caught. -/
def action : Action (Except Text Addition) :=
  if !inv.hasToken then failedWith inv (.ofString "The administrator has not configured the research service token.")
  else if !inv.hasAuthorization then failedWith inv (.ofString "An authenticated Open WebUI request is required.")
  else (attempt inv).handle fun result => match result with
    | .ok (.ok addition) => notified inv false savedMessage (.ok addition)
    | .ok (.error message) => failedWith inv message
    | .error (.status (some text)) =>
      failedWith inv (.ofString "Open WebUI rejected the Knowledge update: " ++ text.take 1000)
    | .error (.status none) => .done (.error .raised)
    | .error (.http message) => failedWith inv (.ofString "Knowledge update failed: " ++ message)
    | .error e => .done (.error e)

end
end SaveToKnowledge
end ResearchGateway
