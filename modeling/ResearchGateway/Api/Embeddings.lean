import Mathlib.Algebra.Ring.Int.Defs
import Mathlib.Data.List.Nodup
import ResearchGateway.Library.Dialog
import ResearchGateway.Library.Value

/-! The embedding proxy, in one request or in batches.

The upstream service says with each item which input it is for. The plain path passes
that on; the batched path numbers the items as they arrive. Both are dialogs with the
service: a request is its body and an answer the JSON of the response, or what
`proxy_embeddings` raises. -/
namespace ResearchGateway
open Library

namespace Embeddings

abbrev Asking (α : Type) := Dialog Fields (Except String Value) String α

def invalidResponse : String := "Open WebUI returned an invalid embeddings response"

/-- `(await client.proxy_embeddings(payload=payload, model=model)).json()`. -/
def proxyEmbeddings (payload : Fields) (model : Text) : Asking Value := do
  let answer ← Dialog.question (assign payload (.ofString "model") (.str model))
  .done answer

/-- What the batches have given so far. -/
structure Combined where
  head : Option Fields := none
  data : List Fields := []
  usage : List (Text × Int) := []

/-- The loop over the items of a batch. -/
def appendItems (data : List Fields) : List Value → Except String (List Fields)
  | [] => .ok data
  | .dict item :: rest => appendItems (data ++ [assign item (.ofString "index") (.int data.length)]) rest
  | _ :: _ => .error "Open WebUI returned an invalid embedding item"

/-- The loop over the usage counters of a batch. -/
def addUsage (usage : List (Text × Int)) : Fields → List (Text × Int)
  | [] => usage
  | (key, value) :: rest =>
    match value.int? with
    | some n => addUsage (assign usage key ((usage.lookup key).getD 0 + n)) rest
    | none => addUsage usage rest

def combine (combined : Combined) (response : Value) : Except String Combined :=
  match response.fields? with
  | none => .error invalidResponse
  | some batch =>
    match batch.get "data" with
    | .list items => do
      let data ← appendItems combined.data items
      return {
        head := combined.head.or
          (some (batch.filter fun field => field.1 ∉ ["data", "usage"].map Text.ofString))
        data
        usage := match (batch.get "usage").fields? with
          | some usage => addUsage combined.usage usage
          | none => combined.usage }
    | _ => .error invalidResponse

/-- `inputs[offset : offset + batch_size]`. -/
def slice {α : Type} (inputs : List α) (batchSize offset : Nat) : List α := (inputs.drop offset).take batchSize

/-- `range(0, length, batch_size)`. -/
def offsets (length batchSize : Nat) : List Nat :=
  (List.range ((length + batchSize - 1) / batchSize)).map (· * batchSize)

section
variable (payload : Fields) (model : Text) (batchSize : Nat)

/-- The loop over the batches. -/
def collect (inputs : List Value) : List Nat → Combined → Asking Combined
  | [], combined => return combined
  | offset :: rest, combined => do
    let response ← proxyEmbeddings
      (assign payload (.ofString "input") (.list (slice inputs batchSize offset))) model
    let combined ← .done (combine combined response)
    collect inputs rest combined

/-- The response of the plain path. -/
def proxyPlain : Asking Fields := do
  let response ← proxyEmbeddings payload model
  .done (response.fields?.elim (.error invalidResponse) .ok)

/-- The response made of the batches. -/
def Combined.response (combined : Combined) : Fields :=
  let result := assign (combined.head.getD []) (.ofString "data") (.list (combined.data.map .dict))
  if combined.usage = [] then result
  else assign result (.ofString "usage") (.dict (combined.usage.map fun (key, n) => (key, .int n)))

/-- `_proxy_embeddings_batched`. -/
def proxyBatched : Asking Fields :=
  match payload.get "input" with
  | .list inputs =>
    if inputs.length ≤ batchSize then proxyPlain payload model
    else do
      let combined ← collect payload model batchSize inputs (offsets inputs.length batchSize) {}
      return combined.response
  | _ => proxyPlain payload model

end

/-! ### The service -/

/-- What the upstream service computes: an embedding for each text, and for each of its
counters a number that adds up over the texts. -/
structure Service where
  embed : Text → Value
  counters : List Text
  cost : Text → Text → Int

/-- The items of a response as dictionaries. -/
def items (response : Fields) : List Fields :=
  match response.get "data" with
  | .list items => items.filterMap Value.fields?
  | _ => []

def embeddings (response : Fields) : List Value := (items response).map fun item => item.get "embedding"

/-- Embeddings with the indices from `n` on. -/
def numbered (n : Nat) (values : List Value) : List (Value × Value) :=
  (values.zipIdx n).map fun (value, i) => (.int i, value)

def usageOf (response : Fields) : Fields := (response.get "usage").fields?.getD []

/-- A response that assigns to the index of every text its embedding, with one item for
each text and the sums of the counters. -/
structure Agrees (service : Service) (texts : List Text) (response : Fields) : Prop where
  data : response.get "data" = .list ((items response).map .dict)
  assigned : List.Perm ((items response).map fun item => (item.get "index", item.get "embedding"))
    (numbered 0 (texts.map service.embed))
  usage : ∀ key, (usageOf response).get? key =
    if key ∈ service.counters then some (.int (texts.map (service.cost key)).sum) else none

/-- The texts of a request. -/
def requested (payload : Fields) : List Text :=
  match payload.get "input" with
  | .list inputs => inputs.filterMap fun input => match input with
    | .str text => some text
    | _ => none
  | _ => []

/-- The service answers a request properly, in any order of the items. -/
def Serves (service : Service) (payload : Fields) (answer : Except String Value) : Prop :=
  ∃ response, answer = .ok (.dict response) ∧ Agrees service (requested payload) response ∧
    ((usageOf response).map Prod.fst).Nodup

end Embeddings

end ResearchGateway
