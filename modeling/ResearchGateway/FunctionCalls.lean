import ResearchGateway.Library.DialogRules
import ResearchGateway.Pipe.ResultStream

/-! How a function of Open WebUI asks.

It sends requests through `httpx` and raises events of which it awaits the value. A request whose
answer has an error status raises, and so does one that is not answered. -/
namespace ResearchGateway
open Library

namespace FunctionCalls
open ResultStream (HttpResponse)

inductive HttpReply where
  /-- An `httpx.HTTPError`, with its text. -/
  | failed (message : Text)
  /-- Another exception. -/
  | raised
  | answered (response : HttpResponse)

/-- What comes back: a request reads the reply, an event call reads the value. -/
structure Answer where
  reply : HttpReply := .raised
  /-- `none` where the event call raises, nothing of `httpx`. -/
  value : Option Value := none

inductive CallError where
  /-- An `httpx.HTTPStatusError`, with the text of the response; `none` where reading it raises. -/
  | status (text : Option Text)
  /-- Another `httpx.HTTPError`. -/
  | http (message : Text)
  /-- An exception that nothing catches. -/
  | raised
  /-- There are more pages than are read. -/
  | unfinished

abbrev Asks (Call α : Type) := Dialog Call Answer CallError α

def received : HttpReply → Except CallError HttpResponse
  | .failed message => .error (.http message)
  | .raised => .error .raised
  | .answered response => .ok response

/-- `raise_for_status`. -/
def successful (response : HttpResponse) : Except CallError HttpResponse :=
  if 200 ≤ response.status ∧ response.status < 300 then .ok response else .error (.status response.text)

def checked (reply : HttpReply) : Except CallError HttpResponse := received reply >>= successful

/-- A value, or an exception that nothing catches. -/
def orRaise {Call α : Type} (value : Option α) : Asks Call α := .done (value.elim (.error .raised) .ok)

@[simp] theorem orRaise_some {Call α : Type} (a : α) : (orRaise (some a) : Asks Call α) = .done (.ok a) := rfl

def request {Call : Type} (call : Call) : Asks Call HttpResponse := do
  let answer ← .question call
  .done (checked answer.reply)

def eventCall {Call : Type} (call : Call) : Asks Call Value := do
  let answer ← .question call
  orRaise answer.value

end FunctionCalls
end ResearchGateway
