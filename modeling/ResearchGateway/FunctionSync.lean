import Mathlib.Logic.Function.Basic
import ResearchGateway.Library.Dialog
import ResearchGateway.Library.Value
import ResearchGateway.Settings

/-! How the Functions and the model of deep research are kept in Open WebUI.

A run reads all Functions once. It then brings each of its two Functions up to date: the
record, the managed Valves, the activation. At the end it merges its description and its
Action into the metadata of the model. `serve` is Open WebUI as the run relies on it. -/
namespace ResearchGateway
open Library

/-! ### What Open WebUI stores -/

structure FunctionRecord where
  name : Value
  content : Value
  metadata : Value
  isActive : Bool := false
  valves : Value := .none

/-- A missing field reads as null; only `access_grants` may be told apart. -/
structure ModelRecord where
  baseModelId : Value
  name : Value
  metadata : Value
  params : Option Fields
  accessGrants : Option Value
  isActive : Bool

/-- Functions and models by their ids. -/
structure Store where
  functions : String → Option FunctionRecord
  models : String → Option ModelRecord

namespace Store

def setFunction (store : Store) (id : String) (record : Option FunctionRecord) : Store :=
  {store with functions := Function.update store.functions id record}

def setModel (store : Store) (id : String) (record : Option ModelRecord) : Store :=
  {store with models := Function.update store.models id record}

section
variable (store : Store) (id : String)

@[simp] theorem functions_setFunction (record : Option FunctionRecord) :
    (store.setFunction id record).functions id = record := by simp [setFunction]

theorem functions_setFunction_of_ne (record : Option FunctionRecord) {id' : String} (h : id' ≠ id) :
    (store.setFunction id record).functions id' = store.functions id' := by simp [setFunction, h]

@[simp] theorem models_setModel (record : Option ModelRecord) : (store.setModel id record).models id = record := by
  simp [setModel]

theorem models_setModel_of_ne (record : Option ModelRecord) {id' : String} (h : id' ≠ id) :
    (store.setModel id record).models id' = store.models id' := by simp [setModel, h]

end

end Store

/-! ### The requests -/

structure FunctionForm where
  id : String
  name : String
  content : String
  metadata : Fields

structure ModelForm where
  id : String
  baseModelId : Value
  name : Value
  metadata : Fields
  params : Fields
  accessGrants : Value
  isActive : Bool

inductive SyncRequest where
  | exportFunctions
  | createFunction (form : FunctionForm)
  | updateFunction (id : String) (form : FunctionForm)
  | functionValves (id : String)
  | updateValves (id : String) (valves : Fields)
  | toggleFunction (id : String)
  | model (id : String)
  | createModel (form : ModelForm)
  | updateModel (form : ModelForm)

namespace SyncRequest

def path : SyncRequest → String
  | exportFunctions => "/api/v1/functions/export"
  | createFunction _ => "/api/v1/functions/create"
  | updateFunction id _ => s!"/api/v1/functions/id/{id}/update"
  | functionValves id => s!"/api/v1/functions/id/{id}/valves"
  | updateValves id _ => s!"/api/v1/functions/id/{id}/valves/update"
  | toggleFunction id => s!"/api/v1/functions/id/{id}/toggle"
  | model _ => "/api/v1/models/model"
  | createModel _ => "/api/v1/models/create"
  | updateModel _ => "/api/v1/models/model/update"

/-- Sent with POST; the others are reads. -/
def isWrite : SyncRequest → Bool
  | exportFunctions | functionValves _ | model _ => false
  | _ => true

end SyncRequest

/-- An error status, or what the body holds. -/
inductive SyncResponse where
  | failed (status : Nat)
  | functions (records : String → Option FunctionRecord)
  | function (record : FunctionRecord)
  | valves (value : Value)
  | model (record : ModelRecord)

namespace SyncResponse

def isDict : SyncResponse → Bool
  | function _ | model _ => true
  | valves value => value.fields?.isSome
  | _ => false

/-- `bool(payload.get("is_active"))`. -/
def isActive : SyncResponse → Bool
  | function record => record.isActive
  | model record => record.isActive
  | valves (.dict fields) => (Fields.get fields "is_active").truthy
  | _ => false

end SyncResponse

/-- What ends a run early. -/
inductive SyncError where
  | unreadable (filename : String)
  | valueError (message : String)
  | httpStatus (status : Nat)
  | runtimeError (message : String)
  | typeError
  deriving DecidableEq

abbrev Sync (α : Type) := Dialog SyncRequest SyncResponse SyncError α

/-! ### The Functions -/

structure FunctionSource where
  id : String
  name : String
  filename : String
  description : String

def deepResearch : FunctionSource where
  id := "deep_research"
  name := "Deep Research"
  filename := "deep_research_pipe.py"
  description := "Submit durable GPT Researcher jobs from Open WebUI."

def saveDeepResearchToKnowledge : FunctionSource where
  id := "save_deep_research_to_knowledge"
  name := "Deep Research Artifacts"
  filename := "save_research_to_knowledge.py"
  description := "Save a completed research report to Open WebUI Knowledge."

def functionSources : List FunctionSource := [deepResearch, saveDeepResearchToKnowledge]

/-- A managed Valve as the run writes it. -/
inductive Setting where
  | text (text : String)
  | flag (flag : Bool)
  | count (count : Int)
  | models (roles : ModelRoles)

namespace Setting

def value : Setting → Value
  | text t => .text t
  | flag b => .bool b
  | count n => .int n
  | models roles =>
    .object [("fast", .text roles.fast), ("smart", .text roles.smart), ("strategic", .text roles.strategic)]

/-- `stored == setting`. -/
def equals (setting : Setting) (stored : Value) : Bool :=
  match setting, stored with
  | text t, stored => stored.isText t
  | flag b, stored => stored.isNumber (if b then 1 else 0)
  | count n, stored => stored.isNumber n
  | models roles, .dict fields =>
    fields.length == 3 && (Fields.get fields "fast").isText roles.fast &&
      (Fields.get fields "smart").isText roles.smart && (Fields.get fields "strategic").isText roles.strategic
  | models _, _ => false

end Setting

def settingFields (valves : List (String × Setting)) : Fields :=
  valves.map fun (key, setting) => (.ofString key, setting.value)

/-- `{**current, **valves}`. -/
def desiredValves (current : Fields) (valves : List (String × Setting)) : Fields :=
  assignAll current (settingFields valves)

/-- `desired_valves != current_valves`: under another key both have the same object. -/
def valvesDiffer (current : Fields) (valves : List (String × Setting)) : Bool :=
  valves.any fun (key, setting) => !(current.get? (.ofString key)).any setting.equals

namespace FunctionSync

/-- What a run finds outside of its settings. -/
structure Host where
  /-- `__version__`. -/
  version : String
  /-- The text of a file in `function_sources_path`. -/
  readText : String → Option String

def replaceVersionLine (line : List Char) : List (List Char) → List (List Char)
  | [] => []
  | first :: rest =>
    if "version:".toList.isPrefixOf first then line :: rest else first :: replaceVersionLine line rest

/-- The first line that starts with `version:` names the version of the application. -/
def renderFunctionSource (version content : String) : String :=
  let lines := replaceVersionLine ("version: " ++ version).toList (content.toList.splitOn '\n')
  String.ofList (['\n'].intercalate lines)

def getJson (request : SyncRequest) : Sync SyncResponse := do
  match ← Dialog.question request with
  | .failed status => .done (.error (.httpStatus status))
  | response => return response

def post (request : SyncRequest) : Sync SyncResponse := do
  let payload ← getJson request
  if payload.isDict then return payload
  else .done (.error (.runtimeError s!"Open WebUI returned an invalid response for {request.path}"))

section
variable (settings : Settings) (host : Host)

def functionForm (source : FunctionSource) : Except SyncError FunctionForm :=
  match host.readText source.filename with
  | none => .error (.unreadable source.filename)
  | some content => .ok {
      id := source.id
      name := source.name
      content := renderFunctionSource host.version content
      metadata := [(.ofString "description", .text source.description)] }

def functionDiffers (current : FunctionRecord) (source : FunctionSource) (content : String) : Except SyncError Bool :=
  if !current.content.isText content || !current.name.isText source.name then .ok true
  else
    match current.metadata.entries? with
    | none => .error .typeError
    | some fields => .ok (!(fields.get "description").isText source.description)

/-- The function is created or updated where it differs; the result is its record. -/
def writeFunction (existing : String → Option FunctionRecord) (source : FunctionSource)
    (changed : List String) : Sync (SyncResponse × List String) := do
  let form ← .done (functionForm host source)
  match existing source.id with
  | none =>
    let result ← post (.createFunction form)
    return (result, changed ++ [s!"created:{source.id}"])
  | some current =>
    if ← .done (functionDiffers current source form.content) then
      let result ← post (.updateFunction source.id form)
      return (result, changed ++ [s!"updated:{source.id}"])
    else return (.function current, changed)

def managedValves (source : FunctionSource) : Except SyncError (List (String × Setting)) :=
  let valves := [("service_url", .text settings.internalBaseUrl), ("service_token", .text settings.serviceToken)]
  if source.id = "deep_research" then
    match settings.resolveDefaultModels with
    | .error message => .error (.valueError message)
    | .ok roles => .ok (valves ++ [
        ("public_search_enabled", .flag settings.publicSearchEnabled),
        ("openwebui_url", .text settings.openwebuiUrl),
        ("default_models", .models roles),
        ("default_research_strategy", .text settings.defaultResearchStrategy.value),
        ("default_max_queries", .count settings.defaultBudget.maxQueries),
        ("max_queries_cap", .count settings.hardMaxQueries)])
  else .ok (valves ++ [("openwebui_url", .text settings.openwebuiUrl)])

def invalidValves (source : FunctionSource) : SyncError :=
  .runtimeError s!"Open WebUI returned invalid Valves for {source.id}"

def writeValves (source : FunctionSource) (changed : List String) : Sync (List String) := do
  let valves ← .done (managedValves settings source)
  match ← getJson (.functionValves source.id) with
  | .valves value =>
    match value.entries? with
    | none => .done (.error (invalidValves source))
    | some current =>
      if valvesDiffer current valves then
        let _ ← post (.updateValves source.id (desiredValves current valves))
        return changed ++ [s!"valves:{source.id}"]
      else return changed
  | _ => .done (.error (invalidValves source))

/-- The endpoint flips the activation, so it is called for an inactive function only. -/
def activate (source : FunctionSource) (result : SyncResponse) (changed : List String) : Sync (List String) := do
  if !result.isActive then
    let _ ← post (.toggleFunction source.id)
    return changed ++ [s!"activated:{source.id}"]
  else return changed

def syncFunction (existing : String → Option FunctionRecord) (changed : List String)
    (source : FunctionSource) : Sync (List String) := do
  let (result, changed) ← writeFunction host existing source changed
  let changed ← writeValves settings source changed
  activate source result changed

end

/-! ### The model -/

/-- `dict((current or {}).get("meta") or {})`. -/
def modelMetadata (current : Option ModelRecord) : Except SyncError Fields :=
  match (current.elim .none (·.metadata)).entries? with
  | none => .error .typeError
  | some metadata => .ok metadata

def isManagedAction (id : Value) : Bool := id.isText "save_deep_research_to_knowledge"

/-- `list(meta.get("actionIds") or [])`, and the Action of deep research. -/
def syncedActionIds (metadata : Fields) : Except SyncError (List Value) :=
  match ((metadata.get "actionIds").orElse (.list [])).items? with
  | none => .error .typeError
  | some ids => .ok (if ids.any isManagedAction then ids else ids ++ [.text "save_deep_research_to_knowledge"])

/-- `stored != action_ids`: the ids are the same objects, so only a list that names the Action
is not different. -/
def actionIdsDiffer (stored : Value) : Bool :=
  match stored with
  | .list ids => !ids.any isManagedAction
  | _ => true

def modelDescription : String := "Durable, multi-source deep research."

def publicGrants : Value :=
  .list [.object [("principal_type", .text "user"), ("principal_id", .text "*"), ("permission", .text "read")]]

/-- `meta.update(…)`. -/
def updatedMetadata (metadata : Fields) (actionIds : List Value) : Fields :=
  assignAll metadata [(.ofString "description", .text modelDescription), (.ofString "actionIds", .list actionIds)]

def modelForm (current : Option ModelRecord) (metadata : Fields) (actionIds : List Value) : ModelForm where
  id := "deep_research"
  baseModelId := current.elim .none (·.baseModelId)
  name := (current.elim .none (·.name)).orElse (.text "Deep Research")
  metadata := updatedMetadata metadata actionIds
  params := (current.bind (·.params)).getD []
  accessGrants := current.elim publicGrants fun record => record.accessGrants.getD .none
  isActive := true

def modelDiffers (metadata : Fields) : Bool :=
  actionIdsDiffer (metadata.get "actionIds") || !(metadata.get "description").isText modelDescription

/-- `None` for a model that does not exist. -/
def currentModel : Sync (Option ModelRecord) := do
  match ← Dialog.question (.model "deep_research") with
  | .failed 404 => return none
  | .failed status => .done (.error (.httpStatus status))
  | .model record => return some record
  | _ => .done (.error (.runtimeError "Open WebUI returned invalid model metadata"))

def writeModel (current : Option ModelRecord) (changed : List String) : Sync (List String) := do
  let metadata ← .done (modelMetadata current)
  let actionIds ← .done (syncedActionIds metadata)
  let form := modelForm current metadata actionIds
  if current.isNone then
    let _ ← post (.createModel form)
    return changed ++ ["created:model:deep_research"]
  else if modelDiffers metadata then
    let _ ← post (.updateModel form)
    return changed ++ ["updated:model:deep_research"]
  else return changed

def syncModel (changed : List String) : Sync (List String) := do
  let current ← currentModel
  writeModel current changed

/-- A complete run; it returns what it has changed. -/
def run (settings : Settings) (host : Host) : Sync (List String) := do
  match ← getJson .exportFunctions with
  | .functions existing =>
    let changed ← functionSources.foldlM (syncFunction settings host existing) []
    syncModel changed
  | _ => .done (.error .typeError)

end FunctionSync

/-! ### Open WebUI -/

/-- A created function is inactive; an update keeps the activation and the Valves. -/
def FunctionForm.stored (form : FunctionForm) (old : Option FunctionRecord) : FunctionRecord where
  name := .text form.name
  content := .text form.content
  metadata := .dict form.metadata
  isActive := old.elim false (·.isActive)
  valves := old.elim .none (·.valves)

def ModelForm.stored (form : ModelForm) : ModelRecord where
  baseModelId := form.baseModelId
  name := form.name
  metadata := .dict form.metadata
  params := some form.params
  accessGrants := some form.accessGrants
  isActive := form.isActive

namespace Store

/-- A write of a function answers with its record. -/
def putFunction (store : Store) (id : String) (record : FunctionRecord) : SyncResponse × Store :=
  (.function record, store.setFunction id (some record))

def putModel (store : Store) (form : ModelForm) : SyncResponse × Store :=
  (.model form.stored, store.setModel form.id (some form.stored))

def serve (store : Store) : SyncRequest → SyncResponse × Store
  | .exportFunctions => (.functions store.functions, store)
  | .createFunction form =>
    match store.functions form.id with
    | none => store.putFunction form.id (form.stored none)
    | some _ => (.failed 400, store)
  | .updateFunction id form =>
    match store.functions id with
    | none => (.failed 404, store)
    | some old => store.putFunction id (form.stored (some old))
  | .functionValves id =>
    match store.functions id with
    | none => (.failed 404, store)
    | some record => (.valves record.valves, store)
  | .updateValves id valves =>
    match store.functions id with
    | none => (.failed 404, store)
    | some record =>
      (.valves (.dict valves), store.setFunction id (some {record with valves := .dict valves}))
  | .toggleFunction id =>
    match store.functions id with
    | none => (.failed 404, store)
    | some record => store.putFunction id {record with isActive := !record.isActive}
  | .model id =>
    match store.models id with
    | none => (.failed 404, store)
    | some record => (.model record, store)
  | .createModel form =>
    match store.models form.id with
    | none => store.putModel form
    | some _ => (.failed 400, store)
  | .updateModel form =>
    match store.models form.id with
    | none => (.failed 404, store)
    | some _ => store.putModel form

end Store

end ResearchGateway
