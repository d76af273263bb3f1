import ResearchGateway.Library.Value
import ResearchGateway.Pipe.Compaction

/-! How the Pipe collects the context of a request from the current chat, the files and
the linked chats.

A chat is whatever Open WebUI answers: every access to it may raise, which is `none`.
The walk over the active branch of a chat runs for a number of turns that is given. -/
namespace ResearchGateway
open Library

/-- What the collection reads and computes outside of it. -/
structure ContextHost (δ : Type) where
  /-- `str` of a float, a list or a dictionary. -/
  repr : Value → Text
  /-- `json.dumps(content, ensure_ascii=False, default=str)`. -/
  dumps : Value → Text
  /-- `hashlib.sha256(text.encode()).hexdigest()`. -/
  digest : Text → δ
  /-- The dictionary that the request number `n`, for a chat, is answered with, if it succeeds. -/
  getChat : Nat → Text → Option Fields

/-- What `_collect_context` is called with. -/
structure ContextCall where
  body : Fields
  chatId : Text
  files : List Value
  authorization : Option Text

/-- A source as the Pipe sends it. -/
structure SourceEntry where
  kind : SourceKind
  id : Text
  name : Text

namespace Pipe

/-- An ASCII capital letter becomes small. Of the other code points only the Kelvin sign
has one of the letters `a` to `z` as its lower case, and that is `k`. -/
def lower (text : Text) : Text :=
  text.map fun c => if h : 65 ≤ c.val ∧ c.val ≤ 90 then ⟨c.val + 32, by omega⟩ else c

section
variable (repr dumps : Value → Text)

def messageText : Value → Text
  | .str content => content.strip
  | .list items => (Text.join "\n" (items.filterMap fun item =>
      item.fields?.bind fun fields =>
        if (fields.get "type").isText "text" then some ((fields.getOr "text" (.str [])).toText repr)
        else none)).strip
  | .none => []
  | content => dumps content

/-- The heading of a message: `role.title()`, for the two roles that are kept. -/
def heading? (message : Fields) : Option String :=
  let role := lower ((message.getOr "role" (.str [])).toText repr)
  if role = .ofString "user" then some "User"
  else if role = .ofString "assistant" then some "Assistant"
  else none

def formatMessages (messages : List Fields) : Text :=
  Text.join "\n\n" (messages.filterMap fun message =>
    (heading? repr message).bind fun heading =>
      let content := messageText repr dumps (message.get "content")
      if content = [] then none else some (.ofString s!"### {heading}\n" ++ content))

/-- What stands before the last message of the user, or all messages. They are looked at
from the last one back, and one that is not a dictionary has no role to ask for. -/
def beforeLastUser (all : List Value) : List Value → Option (List Value)
  | [] => some all
  | message :: earlier => message.fields?.bind fun fields =>
      if (fields.get "role").isText "user" then some earlier.reverse else beforeLastUser all earlier

def priorMessages : Value → Option (List Fields)
  | .list messages => (beforeLastUser messages messages.reverse).map (·.filterMap Value.fields?)
  | _ => some []

def chatItems (chat : Fields) : Option (List Fields) := do
  let files ← (chat.getOr "files" (.list [])).items?
  let history ← ((chat.get "history").orElse (.dict [])).fields?
  let messages ← ((history.get "messages").orElse (.dict [])).fields?
  let nested ← (messages.filterMap fun field => field.2.fields?).mapM fun message =>
    (message.getOr "files" (.list [])).items?
  return (files ++ nested.flatten).filterMap Value.fields?

/-- The end of a turn of the walk. -/
inductive Turn where
  | raised
  | ended
  | next (message : Fields) (parent : Value)

/-- One turn: an id that is a list or a dictionary cannot be looked up in the set. -/
def activeTurn (messages : Fields) (seen : List Text) (current : Value) : Turn :=
  if current.truthy = false then .ended
  else match current.memberOf? seen with
    | none => .raised
    | some true => .ended
    | some false => match messages.get? (current.toText repr) with
      | some (.dict message) => .next message (Fields.get message "parentId")
      | _ => .ended

/-- The loop, for as many turns as `fuel` allows; `none` where it takes more or raises. -/
def activeLoop (messages : Fields) : Nat → List Text → List Fields → Value → Option (List Fields)
  | 0, _, _, _ => none
  | fuel + 1, seen, result, current =>
    match activeTurn repr messages seen current with
    | .raised => none
    | .ended => some result
    | .next message parent =>
      activeLoop messages fuel (current.toText repr :: seen) (message :: result) parent

/-- The branch from its root to the current message. -/
def activeMessages (fuel : Nat) (chat : Fields) : Option (List Fields) := do
  let history ← ((chat.get "history").orElse (.dict [])).fields?
  let messages ← ((history.get "messages").orElse (.dict [])).fields?
  activeLoop repr messages fuel [] [] (history.get "currentId")

def sources (seen : List (SourceKind × Text)) : List Value → Option (List SourceEntry)
  | [] => some []
  | item :: rest => do
    let fields ← item.fields?
    let sourceType := (fields.getOr "type" (.str (.ofString "file"))).toText repr
    if sourceType ∉ ["file", "doc", "text", "collection", "knowledge"].map Text.ofString then
      sources seen rest
    else
      let kind := if sourceType ∈ ["collection", "knowledge"].map Text.ofString then
        SourceKind.collection else .file
      let nested := (fields.get "file").fields?.getD []
      let id := (((fields.get "id").orElse (nested.get "id")).orElse (.str [])).toText repr
      if id = [] ∨ (kind, id) ∈ seen then sources seen rest
      else
        let name := (((fields.get "name").orElse (nested.get "filename")).orElse (.str id)).toText repr
        let result ← sources ((kind, id) :: seen) rest
        return ⟨kind, id, name⟩ :: result

/-- The chats that items link to. -/
def linkedIds (items : List Fields) : List Text :=
  items.filterMap fun item =>
    if (item.get "type").isText "chat" && (item.get "id").truthy then some ((item.get "id").toText repr)
    else none

end

section
variable {δ : Type} (host : ContextHost δ) (fuel : Nat)

/-- A document, unless the transcript is empty. -/
def document? (kind : ContextKind) (id title transcript : Text) : Option ContextEntry :=
  if transcript = [] then none else some ⟨kind, id, id, title, transcript⟩

/-- The linked chats in their order: the items of each and its document. -/
def readLinked (n : Nat) : List Text → Option (List Fields × List ContextEntry)
  | [] => some ([], [])
  | id :: rest => do
    let linked ← host.getChat n id
    let chat ← ((linked.get "chat").orElse (.dict [])).fields?
    let items ← chatItems chat
    let messages ← activeMessages host.repr fuel chat
    let title := ((linked.get "title").orElse (.str (.ofString "Linked Open WebUI chat"))).toText host.repr
    let document := document? .linkedChat id title (formatMessages host.repr host.dumps messages)
    let (items', documents) ← readLinked (n + 1) rest
    return (items ++ items', document.toList ++ documents)

/-- What is collected before it is cut: the documents, the items that may be sources and
the linked chats there are. -/
def gather (valves : ContextValves) (call : ContextCall) :
    Option (List ContextEntry × List Value × List Text) := do
  let prior ← priorMessages (call.body.getOr "messages" (.list []))
  let conversation := document? .conversation call.chatId (.ofString "Current Open WebUI chat")
    (formatMessages host.repr host.dumps prior)
  let linked := linkedIds host.repr (call.files.filterMap Value.fields?)
  match call.authorization with
  | none => return (conversation.toList, call.files, linked.dedup)
  | some _ =>
    let current ← host.getChat 0 call.chatId
    let chat ← ((current.get "chat").orElse (.dict [])).fields?
    let items ← chatItems chat
    let ids := Text.sorted (linked ++ linkedIds host.repr items)
    let (items', documents) ← readLinked host fuel 1 (ids.take valves.linkedChatLimit)
    return (conversation.toList ++ documents, call.files ++ (items ++ items').map .dict, ids)

/-- `Pipe._collect_context`. -/
def collectContext [DecidableEq δ] (valves : ContextValves) (call : ContextCall) :
    Option (List ContextEntry × List SourceEntry × Nat) := do
  let (documents, items, linked) ← gather host fuel valves call
  let compacted ← Compaction.compactDocuments host.digest valves.contextCharLimit documents
  let collected ← sources host.repr [] items
  return (compacted, collected, min linked.length valves.linkedChatLimit)

end

end Pipe

end ResearchGateway
