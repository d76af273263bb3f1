import ResearchGateway.Library.Machine

/-! Event streams as text.

A client reads a text of media type `text/event-stream` symbol by symbol. A line ends with a
carriage return, a line feed, or both; a line gives a field of the next message, and an empty
line delivers it. What a client makes of a frame that is written field by field is what was
written, provided that no value has an end of a line in it (`trace_frame`). -/
namespace Library

namespace EventSource

structure Message where
  lastEventId : List Char
  event : List Char
  data : List Char
  deriving DecidableEq

/-- The buffers of a client. -/
structure Client where
  line : List Char := []
  /-- The last symbol was a carriage return. -/
  returned : Bool := false
  data : List Char := []
  event : List Char := []
  lastEventId : List Char := []
  deriving DecidableEq

/-- The name and the value of a line: a blank behind the colon is not of the value. -/
def fieldOf (line : List Char) : List Char × List Char :=
  match line.dropWhile (· ≠ ':') with
  | [] => (line, [])
  | _ :: ' ' :: value => (line.takeWhile (· ≠ ':'), value)
  | _ :: value => (line.takeWhile (· ≠ ':'), value)

def Client.set (client : Client) (field : List Char × List Char) : Client :=
  if field.1 = ['e', 'v', 'e', 'n', 't'] then {client with event := field.2}
  else if field.1 = ['d', 'a', 't', 'a'] then {client with data := client.data ++ field.2 ++ ['\n']}
  else if field.1 = ['i', 'd'] ∧ '\x00' ∉ field.2 then {client with lastEventId := field.2}
  else client

/-- What an empty line delivers. -/
def Client.delivered (client : Client) : List Message :=
  if client.data = [] then []
  else [⟨client.lastEventId, if client.event = [] then ['m', 'e', 's', 's', 'a', 'g', 'e'] else client.event,
    client.data.dropLast⟩]

/-- The end of a line, which a colon at its beginning makes a comment. -/
def Client.endLine (client : Client) : Client :=
  match client.line with
  | [] => {client with data := [], event := []}
  | ':' :: _ => {client with line := []}
  | line => {client.set (fieldOf line) with line := []}

def machine : Machine Client Char Message where
  next c client :=
    if c = '\n' then if client.returned then {client with returned := false} else client.endLine
    else if c = '\r' then {client.endLine with returned := true}
    else {client with line := client.line ++ [c], returned := false}
  out c client :=
    if (c = '\n' ∧ client.returned = false) ∨ c = '\r' then
      match client.line with
      | [] => client.delivered
      | _ => []
    else []

/-- No end of a line. -/
def Plain (text : List Char) : Prop := '\n' ∉ text ∧ '\r' ∉ text

/-- A client between two lines. -/
structure Client.Ready (client : Client) : Prop where
  line : client.line = []
  returned : client.returned = false

section
variable {client : Client} {text : List Char}

/-- The symbols of a line are gathered. -/
theorem run_plain (h : Plain text) (hreturned : client.returned = false) :
    machine.run client text = {client with line := client.line ++ text} ∧ machine.trace client text = [] := by
  induction text generalizing client with
  | nil => simp
  | cons c text ih =>
    obtain ⟨hfeed, hreturn⟩ := h
    have hc : c ≠ '\n' := fun heq => hfeed (heq ▸ List.mem_cons_self ..)
    have hc' : c ≠ '\r' := fun heq => hreturn (heq ▸ List.mem_cons_self ..)
    have hnext : machine.next c client = {client with line := client.line ++ [c]} := by
      simp [machine, hc, hc', hreturned]
    have hreturned' : ({client with line := client.line ++ [c]} : Client).returned = false := hreturned
    obtain ⟨hrun, htrace⟩ := ih ⟨fun hmem => hfeed (List.mem_cons_of_mem _ hmem),
      fun hmem => hreturn (List.mem_cons_of_mem _ hmem)⟩ hreturned'
    refine ⟨?_, ?_⟩
    · rw [Machine.run, hnext, hrun]
      simp
    · rw [Machine.trace, hnext, htrace]
      simp [machine, hc, hc']

/-- A line and its end. -/
theorem run_line (h : Plain text) (hready : client.Ready) (hne : text ≠ []) :
    machine.run client (text ++ ['\n']) = ({client with line := text} : Client).endLine ∧
      machine.trace client (text ++ ['\n']) = [] := by
  obtain ⟨hrun, htrace⟩ := run_plain h hready.returned
  rw [Machine.run_append, Machine.trace_append, hrun, htrace, hready.line, List.nil_append]
  refine ⟨?_, ?_⟩
  · simp [Machine.run, machine, hready.returned]
  · obtain ⟨c, rest, rfl⟩ := List.exists_cons_of_ne_nil hne
    simp [Machine.trace, machine, hready.returned]

/-- An empty line. -/
theorem run_empty (hready : client.Ready) :
    machine.run client ['\n'] = {client with data := [], event := []} ∧
      machine.trace client ['\n'] = client.delivered := by
  refine ⟨?_, ?_⟩
  · simp [Machine.run, machine, hready.returned, Client.endLine, hready.line]
  · simp [Machine.trace, machine, hready.returned, hready.line]

end

/-! ### Writing -/

/-- A field as it is written. -/
def fieldLine (name value : List Char) : List Char := name ++ [':', ' '] ++ value ++ ['\n']

/-- A message with an id of its own, or without one. -/
def frame (id : Option (List Char)) (event data : List Char) : List Char :=
  id.elim [] (fieldLine ['i', 'd']) ++ fieldLine ['e', 'v', 'e', 'n', 't'] event ++ fieldLine ['d', 'a', 't', 'a'] data ++ ['\n']

/-- A comment, and an empty line. -/
def comment (text : List Char) : List Char := ':' :: text ++ ['\n', '\n']

section
variable {client : Client} {name value : List Char}

theorem Client.set_ready (hready : client.Ready) (field : List Char × List Char) : (client.set field).Ready := by
  unfold Client.set
  split_ifs <;> exact ⟨hready.line, hready.returned⟩

theorem Client.set_line (hline : client.line = []) (text : List Char) (field : List Char × List Char) :
    {({client with line := text} : Client).set field with line := []} = client.set field := by
  obtain ⟨line, returned, data, event, lastEventId⟩ := client
  cases hline
  unfold Client.set
  split_ifs <;> rfl

theorem fieldOf_written (hname : ':' ∉ name) : fieldOf (name ++ [':', ' '] ++ value) = (name, value) := by
  have hpos : ∀ c ∈ name, decide (c ≠ ':') = true := by
    rintro c hc
    refine decide_eq_true ?_
    rintro rfl
    exact hname hc
  rw [List.append_assoc, fieldOf, List.dropWhile_append_of_pos hpos, List.takeWhile_append_of_pos hpos]
  simp

/-- A field that is written is read. -/
theorem run_fieldLine (name : List Char) (hready : client.Ready) (hname : Plain name) (hcolon : ':' ∉ name) (hne : name ≠ [])
    (hvalue : Plain value) :
    machine.run client (fieldLine name value) = client.set (name, value) ∧
      machine.trace client (fieldLine name value) = [] := by
  have hplain : Plain (name ++ [':', ' '] ++ value) := by
    refine ⟨fun hmem => ?_, fun hmem => ?_⟩
    · rcases List.mem_append.mp hmem with hmem | hmem
      · rcases List.mem_append.mp hmem with hmem | hmem
        · exact hname.1 hmem
        · simp at hmem
      · exact hvalue.1 hmem
    · rcases List.mem_append.mp hmem with hmem | hmem
      · rcases List.mem_append.mp hmem with hmem | hmem
        · exact hname.2 hmem
        · simp at hmem
      · exact hvalue.2 hmem
  obtain ⟨hrun, htrace⟩ := run_line hplain hready (by simp)
  refine ⟨?_, htrace⟩
  rw [fieldLine, hrun]
  obtain ⟨c, rest, rfl⟩ := List.exists_cons_of_ne_nil hne
  have hc : c ≠ ':' := fun heq => hcolon (heq ▸ List.mem_cons_self ..)
  have hend : ({client with line := c :: rest ++ [':', ' '] ++ value} : Client).endLine =
      {({client with line := c :: rest ++ [':', ' '] ++ value} : Client).set
        (fieldOf (c :: rest ++ [':', ' '] ++ value)) with line := []} := by
    simp only [Client.endLine, List.cons_append]
    split
    · next hnil => cases hnil
    · next hcons => exact absurd (List.cons.inj hcons).1 hc
    · rfl
  rw [hend, fieldOf_written hcolon, Client.set_line hready.line]

theorem run_id {id : Option (List Char)} (hready : client.Ready) (hid : ∀ text ∈ id, Plain text ∧ '\x00' ∉ text) :
    machine.run client (id.elim [] (fieldLine ['i', 'd'])) = {client with lastEventId := id.getD client.lastEventId} ∧
      machine.trace client (id.elim [] (fieldLine ['i', 'd'])) = [] := by
  cases id with
  | none => exact ⟨rfl, rfl⟩
  | some text =>
    obtain ⟨hplain, hzero⟩ := hid text rfl
    obtain ⟨hrun, htrace⟩ := run_fieldLine ['i', 'd'] hready ⟨by decide, by decide⟩ (by decide) (by decide) hplain
    refine ⟨?_, htrace⟩
    rw [Option.elim_some, hrun]
    simp [Client.set, hzero]

/-- A frame gives its message, and the client is ready for the next one. -/
theorem trace_frame {id : Option (List Char)} {event data : List Char} (hready : client.Ready) (hbuffers : client.data = [])
    (hid : ∀ text ∈ id, Plain text ∧ '\x00' ∉ text) (hevent : Plain event) (hne : event ≠ []) (hdata : Plain data) :
    machine.run client (frame id event data) = {client with data := [], event := [], lastEventId := id.getD client.lastEventId} ∧
      machine.trace client (frame id event data) = [⟨id.getD client.lastEventId, event, data⟩] := by
  obtain ⟨hrun₁, htrace₁⟩ := run_id hready hid
  have hready₁ : ({client with lastEventId := id.getD client.lastEventId} : Client).Ready := ⟨hready.line, hready.returned⟩
  obtain ⟨hrun₂, htrace₂⟩ := run_fieldLine ['e', 'v', 'e', 'n', 't'] hready₁ ⟨by decide, by decide⟩ (by decide)
    (by decide) hevent
  have hready₂ := Client.set_ready hready₁ (['e', 'v', 'e', 'n', 't'], event)
  obtain ⟨hrun₃, htrace₃⟩ := run_fieldLine ['d', 'a', 't', 'a'] hready₂ ⟨by decide, by decide⟩ (by decide)
    (by decide) hdata
  have hready₃ := Client.set_ready hready₂ (['d', 'a', 't', 'a'], data)
  obtain ⟨hrun₄, htrace₄⟩ := run_empty hready₃
  simp only [frame, Machine.run_append, Machine.trace_append, hrun₁, hrun₂, hrun₃, hrun₄, htrace₁, htrace₂, htrace₃, htrace₄]
  exact ⟨by simp [Client.set], by simp [Client.set, Client.delivered, hbuffers, hne]⟩

/-- A comment gives nothing. -/
theorem trace_comment {text : List Char} (hready : client.Ready) (hbuffers : client.data = []) (htext : Plain text) :
    machine.run client (comment text) = {client with data := [], event := []} ∧
      machine.trace client (comment text) = [] := by
  have hplain : Plain (':' :: text) := ⟨by simpa using htext.1, by simpa using htext.2⟩
  obtain ⟨hrun, htrace⟩ := run_line hplain hready (by simp)
  have hsplit : comment text = (':' :: text ++ ['\n']) ++ ['\n'] := by simp [comment]
  have hended : ({client with line := ':' :: text} : Client).endLine = client := by
    have hline := hready.line
    cases client
    simp_all [Client.endLine]
  obtain ⟨hrun', htrace'⟩ := run_empty hready
  rw [hsplit, Machine.run_append, Machine.trace_append, hrun, htrace, hended, hrun', htrace']
  exact ⟨rfl, by simp [Client.delivered, hbuffers]⟩

end

end EventSource

end Library
