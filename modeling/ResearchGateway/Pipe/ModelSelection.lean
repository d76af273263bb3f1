import ResearchGateway.Library.Dialog
import ResearchGateway.Library.Value
import ResearchGateway.Pipe.RequestChecks

/-! How the Pipe selects the models of a job and freezes their limits.

The user is asked for a model for each role and then for the limits of the models that
the catalog has none for, at most three times for each. Limits flow through three
collections: what the catalog publishes, the ids without usable limits and all ids. -/
namespace ResearchGateway
open Library

/-- The exceptions that the selection can raise. -/
inductive Raised where
  | keyError
  | attributeError
  | valueError
  deriving DecidableEq

/-- A capability as the Pipe sends it. -/
structure CapabilityEntry where
  id : Text
  contextLength : Int
  maxOutputTokens : Int
  deriving DecidableEq

/-- The model of each role. -/
structure SelectedModels where
  fast : Text
  smart : Text
  strategic : Text

namespace SelectedModels

def values (selected : SelectedModels) : List Text := [selected.fast, selected.smart, selected.strategic]

/-- `dict.fromkeys(selected.values())`: each id once, where it comes first. -/
def distinct (selected : SelectedModels) : List Text := selected.values.reverse.dedup.reverse

end SelectedModels

namespace Pipe

/-- An option of a question. -/
structure Choice where
  label : Text
  description : String

/-- What the user is asked; the other texts of a question are the same every time. -/
inductive Prompt where
  | roles (fast smart strategic : List Choice)
  | limits (modelId : Text) (validationError : String)

inductive Selection where
  | message (text : Text)
  | selected (models : SelectedModels) (capabilities : List CapabilityEntry)

/-- What the selection computes outside of it. -/
structure SelectionHost where
  /-- `str` of a float, a list or a dictionary. -/
  repr : Value → Text
  /-- The value of a decimal digit, in any script. -/
  digit? : CodePoint → Option Nat

abbrev Asking (α : Type) := Dialog Prompt Value Raised α

/-! ### The catalog -/

structure Catalog where
  published : List (Text × CapabilityEntry) := []
  incomplete : List Text := []
  available : List Text := []

/-- The limits that a catalog entry publishes, if they are usable. -/
def published? (id : Text) (model : Fields) : Option CapabilityEntry :=
  match (model.get "context_length").int?, (model.get "max_output_tokens").int? with
  | some contextLength, some maxOutputTokens =>
    if contextLength < 4096 ∨ maxOutputTokens < 1 then none else some ⟨id, contextLength, maxOutputTokens⟩
  | _, _ => none

section
variable (host : SelectionHost)

/-- `str(model["id"])`. -/
def modelId? (model : Fields) : Option Text :=
  (model.get? (.ofString "id")).map fun value => value.toText host.repr

def addModel (catalog : Catalog) (model : Fields) : Except Raised Catalog :=
  match modelId? host model with
  | none => .error .keyError
  | some id =>
    match published? id model with
    | none => .ok {catalog with incomplete := id :: catalog.incomplete, available := id :: catalog.available}
    | some entry => .ok {catalog with published := (id, entry) :: catalog.published
                                      available := id :: catalog.available}

/-! ### The questions -/

/-- `f"{n:,}"`. -/
def thousands (n : Nat) : String :=
  String.ofList (group (toString n).toList.reverse).reverse
where
  group : List Char → List Char
    | a :: b :: c :: d :: rest => a :: b :: c :: ',' :: group (d :: rest)
    | digits => digits

/-- The options for a role: its default first where it is available. -/
def choices (catalog : Catalog) (default? : Option Text) : List Choice :=
  let sorted := Text.sorted catalog.available
  let ordered := match default? with
    | some id => if id ∈ catalog.available then id :: sorted.erase id else sorted
    | none => sorted
  ordered.map fun id => ⟨id, match catalog.published.lookup id with
    | some entry => s!"{thousands entry.contextLength.toNat} context; " ++
        s!"{thousands entry.maxOutputTokens.toNat} maximum output tokens"
    | none => "Open WebUI does not publish this model's limits; " ++
        "you will be asked to configure them for this run"⟩

/-- The answer that counts as one. -/
def answered? (answer : Value) : Option Fields :=
  answer.fields?.filter fun fields => (Fields.get fields "status").isText "answered"

def declined : Text := .ofString "Deep research was not started."

/-- `str((answers.get(role) or {}).get("label") or "")`. -/
def roleLabel (answers : Value) (role : String) : Except Raised Text := do
  let fields ← answers.fields?.elim (.error .attributeError) .ok
  let answer ← ((fields.get role).orElse (.dict [])).fields?.elim (.error .attributeError) .ok
  return ((answer.get "label").orElse (.str [])).toText host.repr

def selectedLabels (answers : Value) : Except Raised SelectedModels := do
  let fast ← roleLabel host answers "fast"
  let smart ← roleLabel host answers "smart"
  let strategic ← roleLabel host answers "strategic"
  return ⟨fast, smart, strategic⟩

/-! ### The limits of a model -/

/-- `int(text)` where `text.isdecimal()`. -/
def decimal? (text : Text) : Option Nat :=
  if text = [] then none
  else (text.mapM host.digit?).map fun digits => digits.foldl (fun n digit => n * 10 + digit) 0

/-- `Pipe._parse_token_limit`; Python does not convert more than 4,300 digits. -/
def parseTokenLimit (answer : Value) : Except Raised (Option Nat) :=
  match answer.fields? with
  | some fields =>
    match if (fields.get "type").isText "other" then fields.get "text" else fields.get "label" with
    | .str value =>
      let normalized := value.strip.filter fun c => c ∉ [',', '_', ' '].map CodePoint.ofChar
      match decimal? host normalized with
      | none => .ok none
      | some n => if 4300 < normalized.length then .error .valueError else .ok (some n)
    | _ => .ok none
  | none => .ok none

/-- A pass of the loop over an answer: the limits, or what is wrong with them. -/
def checkLimits (id : Text) (fields : Fields) : Except Raised (Except String CapabilityEntry) :=
  match (fields.get "answers").fields? with
  | some answers => do
    let contextLength ← parseTokenLimit host (answers.get "context_length")
    let maxOutputTokens ← parseTokenLimit host (answers.get "max_output_tokens")
    match contextLength.filter (4096 ≤ ·), maxOutputTokens.filter (1 ≤ ·) with
    | none, _ => return .error "Context window must be a whole number of at least 4,096. "
    | _, none => return .error "Maximum output must be a positive whole number. "
    | some context, some output =>
      if context < output then return .error "Maximum output cannot exceed the context window. "
      else return .ok ⟨id, context, output⟩
  | none => return .error "Both limits are required. "

/-- The attempts that are left of `Pipe._configure_model_limits`. -/
def attemptLimits (id : Text) : Nat → String → Asking (Except Text CapabilityEntry)
  | 0, _ => return .error (.ofString "Deep Research could not validate token limits for `" ++ id ++
      .ofString "` after three attempts. The job was not started.")
  | attempts + 1, validationError => do
    let answer ← Dialog.question (.limits id validationError)
    match answered? answer with
    | none => return .error declined
    | some fields =>
      match ← .done (checkLimits host id fields) with
      | .ok entry => return .ok entry
      | .error validationError => attemptLimits id attempts validationError

def configureModelLimits (id : Text) : Asking (Except Text CapabilityEntry) := attemptLimits host id 3 ""

/-- The loop over the models without limits, which adds theirs to the catalog. -/
def configureAll : List Text → List (Text × CapabilityEntry) →
    Asking (Except Text (List (Text × CapabilityEntry)))
  | [], catalog => return .ok catalog
  | id :: rest, catalog => do
    match ← configureModelLimits host id with
    | .error message => return .error message
    | .ok entry => configureAll rest ((id, entry) :: catalog)

/-- `catalog[model_id]`. -/
def lookUp (catalog : List (Text × CapabilityEntry)) (id : Text) : Except Raised CapabilityEntry :=
  (catalog.lookup id).elim (.error .keyError) .ok

/-- The second half of `_select_models`, with the models selected. -/
def freezeLimits (catalog : Catalog) (selected : SelectedModels) (interactive : Bool) : Asking Selection := do
  let incomplete := Text.sorted (selected.values.filter (· ∈ catalog.incomplete))
  if incomplete ≠ [] ∧ interactive = false then
    return .message (.ofString "Deep Research needs an active browser session to configure limits for: " ++
      Text.join ", " incomplete)
  else
    match ← configureAll host incomplete catalog.published with
    | .error message => return .message message
    | .ok limits =>
      let capabilities ← .done (selected.distinct.mapM (lookUp limits))
      return .selected selected capabilities

/-- `Pipe._select_models`; it is interactive where there is an `event_call`. -/
def selectModels (configured : List (Text × Text)) (interactive : Bool) (available : List Fields) :
    Asking Selection := do
  let catalog ← .done (available.foldlM (addModel host) {})
  if catalog.available = [] then
    return .message (.ofString "Deep Research found no accessible underlying Open WebUI models.")
  else if interactive = false then
    let default (role : String) := (configured.lookup (.ofString role)).getD []
    let selected : SelectedModels := ⟨default "fast", default "smart", default "strategic"⟩
    if selected.values.any (· ∉ catalog.available) then
      return .message (.ofString "Deep Research needs an active browser session to select accessible models.")
    else freezeLimits host catalog selected interactive
  else
    let options (role : String) := choices catalog (configured.lookup (.ofString role))
    let answer ← Dialog.question (.roles (options "fast") (options "smart") (options "strategic"))
    match answered? answer with
    | none => return .message declined
    | some fields =>
      let selected ← .done (selectedLabels host ((fields.get "answers").orElse (.dict [])))
      if selected.values.any (· ∉ catalog.available) then
        return .message (.ofString "Deep Research rejected an invalid or inaccessible model selection.")
      else freezeLimits host catalog selected interactive

end

end Pipe

/-! ### The gateway -/

namespace RequestChecks

/-- What `unique_sources` raises about the capabilities. -/
def capabilityError (selected : SelectedModels) (capabilities : List CapabilityEntry) : Option String :=
  let ids := capabilities.map CapabilityEntry.id
  if ¬ ids.Nodup then some "model capabilities must be unique"
  else if ¬ ((∀ id ∈ selected.values, id ∈ ids) ∧ ∀ id ∈ ids, id ∈ selected.values) then
    some "every selected model must have exactly one capability snapshot"
  else none

/-- The bounds of the numbers in `model_capabilities` and of its length. -/
def capabilitiesWithin (capabilities : List CapabilityEntry) : Bool :=
  1 ≤ capabilities.length && capabilities.length ≤ 3 &&
    capabilities.all fun c => 4096 ≤ c.contextLength && 1 ≤ c.maxOutputTokens

/-- The bounds of the ids in `models` and `model_capabilities`. -/
def idsWithin (selected : SelectedModels) (capabilities : List CapabilityEntry) : Bool :=
  selected.values.all (lengthWithin 1 512) && capabilities.all fun c => lengthWithin 1 512 c.id

end RequestChecks

end ResearchGateway
