import ResearchGateway.Pipe.Compaction

/-! What the gateway checks of the context documents of a `CreateJobRequest`. -/
namespace ResearchGateway
open Library

/-- `Field(min_length=…, max_length=…)`. -/
def lengthWithin (low high : Nat) (text : Text) : Bool := low ≤ text.length && text.length ≤ high

namespace ContextEntry

/-- The fields of `ContextDocument` that come from a chat. -/
def fieldsAccepted (document : ContextEntry) : Bool :=
  lengthWithin 1 255 document.id && lengthWithin 1 255 document.chatId &&
    lengthWithin 0 1024 document.title

def textAccepted (document : ContextEntry) : Bool := lengthWithin 1 300000 document.text

end ContextEntry

namespace RequestChecks

/-- What `unique_sources` raises about the context documents. -/
def contextError (documents : List ContextEntry) : Option String :=
  if ¬ (documents.map fun d => (d.kind, d.id)).Nodup then some "context documents must be unique"
  else if 500000 < (documents.map fun d => d.text.length).sum then
    some "context documents exceed the 500000 character request limit"
  else none

/-- `context_documents` passes the field checks and the validator. -/
def contextAccepted (documents : List ContextEntry) : Bool :=
  documents.length ≤ 50 && documents.all (fun d => d.fieldsAccepted && d.textAccepted) &&
    (contextError documents).isNone

theorem contextError_eq_none {documents : List ContextEntry} :
    contextError documents = none ↔ (documents.map fun d => (d.kind, d.id)).Nodup ∧
      (documents.map fun d => d.text.length).sum ≤ 500000 := by
  unfold contextError
  split
  · simp_all
  · split
    · simp_all
    · simp_all

theorem contextAccepted_iff {documents : List ContextEntry} :
    contextAccepted documents = true ↔ documents.length ≤ 50 ∧
      (∀ d ∈ documents, d.fieldsAccepted = true ∧ d.textAccepted = true) ∧
      (documents.map fun d => (d.kind, d.id)).Nodup ∧
      (documents.map fun d => d.text.length).sum ≤ 500000 := by
  rw [← contextError_eq_none]
  simp [contextAccepted, and_assoc]

end RequestChecks

end ResearchGateway
