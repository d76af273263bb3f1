import ResearchGateway.Library.Bytes
import ResearchGateway.Library.Value

/-! What a model call is charged, from a JSON response or from a stream of events.

Both paths look the counts up under two names and convert them by `int`. The JSON path
converts whatever is there; the stream path only an integer or a string, and takes its own
estimate for a float. An event is a data line, and its parsing may raise what the stream
path does not catch. Apart from these two, the paths charge alike (`stream_usage_iff`). -/
namespace ResearchGateway
open Library

/-- What `json.loads` makes of the data of an event. -/
inductive Loaded where
  | value (value : Value)
  /-- A `JSONDecodeError` or a `UnicodeDecodeError`. -/
  | malformed
  /-- Another exception: an integer of too many digits, or too many nested brackets. -/
  | raised

/-- The input and output tokens of a call, and whether one of them is an estimate. -/
structure TokenUsage where
  inputTokens : Int
  outputTokens : Int
  estimated : Bool
  deriving DecidableEq

namespace StreamUsage

/-- What is built in or in the standard library. -/
structure Python where
  loads : Bytes → Loaded
  /-- `int` of a string. -/
  intOfText : Text → Option Int
  /-- `json.dumps(value, ensure_ascii=False, default=str)`. -/
  dumps : Value → Text

/-- `usage.get(name, usage.get(other))`. -/
def reported (usage : Fields) (name other : String) : Value := usage.getOr name (usage.get other)

def reportedInput (usage : Fields) : Value := reported usage "prompt_tokens" "input_tokens"

def reportedOutput (usage : Fields) : Value := reported usage "completion_tokens" "output_tokens"

/-- `math.ceil(length / 3)`. -/
def third (length : Nat) : Nat := (length + 2) / 3

section
variable (py : Python)

/-! ### The JSON response -/

/-- `_estimate_output_tokens`. -/
def estimateOutputTokens (payload : Value) : Option Int :=
  match payload with
  | .dict fields =>
    match Fields.getOr fields "choices" (.list []) with
    | .list (choice :: rest) =>
      let serialized := py.dumps (.list (choice :: rest))
      if serialized.isEmpty then some 0 else serialized.utf8Length?.map fun n => (third n : Int)
    | _ => some 0
  | _ => some 0

/-- `data.get("usage", {})`, or no usage at all. -/
def providerUsage (data : Value) : Fields :=
  match data with
  | .dict fields => ((Fields.getOr fields "usage" (.dict [])).fields?).getD []
  | _ => []

def isReported : Value → Bool
  | .none => false
  | _ => true

/-- The number that was reported, or else the estimate. -/
def chargedCount (reported : Bool) (value : Value) (estimate : Option Int) : Option Int :=
  if reported then value.toInt? py.intOfText else estimate

/-- The accounting of `proxy_chat_completion` for a response that is not streamed. -/
def completionUsage (data : Value) (estimatedInput : Int) : Option TokenUsage := do
  let usage := providerUsage data
  let input := reportedInput usage
  let output := reportedOutput usage
  let inputTokens ← chargedCount py (isReported input) input (some estimatedInput)
  let outputTokens ← chargedCount py (isReported output) output (estimateOutputTokens py data)
  return ⟨inputTokens, outputTokens, !isReported input || !isReported output⟩

/-! ### The stream -/

/-- What `_stream_usage` has collected. -/
structure Collected where
  reportedInput : Value := .none
  reportedOutput : Value := .none
  outputParts : List Text := []

/-- The text in `choice["delta"]["content"]`. -/
def deltaContent? (choice : Value) : Option Text := do
  let choice ← choice.fields?
  let delta ← (choice.get "delta").fields?
  match delta.get "content" with
  | .str content => some content
  | _ => none

/-- The usage object of an event. -/
def eventUsage? (event : Value) : Option Fields := do
  let event ← event.fields?
  (event.get "usage").fields?

def eventContent (event : Value) : List Text :=
  match event.fields? with
  | none => []
  | some event =>
    match event.get "choices" with
    | .list choices => choices.filterMap deltaContent?
    | _ => []

def Collected.event (event : Value) (c : Collected) : Collected where
  reportedInput := (eventUsage? event).elim c.reportedInput StreamUsage.reportedInput
  reportedOutput := (eventUsage? event).elim c.reportedOutput StreamUsage.reportedOutput
  outputParts := c.outputParts ++ eventContent event

/-- The data of an event, if the line is one and has any. -/
def lineData? (line : Bytes) : Option Bytes :=
  if (Bytes.ascii "data:").isPrefixOf line then
    let data := Bytes.strip (line.drop 5)
    if data.isEmpty || data = Bytes.ascii "[DONE]" then none else some data
  else none

/-- What becomes of a line: nothing, an event, or an exception. -/
def lineLoaded (line : Bytes) : Loaded := ((lineData? line).map py.loads).getD .malformed

def Collected.lines : List Bytes → Collected → Option Collected
  | [], c => some c
  | line :: rest, c =>
    match lineLoaded py line with
    | .value event => Collected.lines rest (c.event event)
    | .malformed => Collected.lines rest c
    | .raised => none

/-- `isinstance(value, (int, str))`. -/
def isCounted : Value → Bool
  | .bool _ | .int _ | .str _ => true
  | _ => false

/-- `_stream_usage`. -/
def streamUsage (body : Bytes) (estimatedInput : Int) : Option TokenUsage := do
  let c ← Collected.lines py (Bytes.splitLines body) {}
  let inputTokens ← chargedCount py (isCounted c.reportedInput) c.reportedInput (some estimatedInput)
  let outputTokens ← chargedCount py (isCounted c.reportedOutput) c.reportedOutput
    ((Text.utf8Length? c.outputParts.flatten).map fun n => (third n : Int))
  return ⟨inputTokens, outputTokens, !isCounted c.reportedInput || !isCounted c.reportedOutput⟩

/-! ### One usage object -/

/-- The usage objects of the events of a body, in order. -/
def usages (lines : List Bytes) : List Fields :=
  lines.filterMap fun line =>
    match lineLoaded py line with
    | .value event => eventUsage? event
    | _ => none

/-- No event makes `json.loads` raise anything else than a decoding error. -/
def Parses (lines : List Bytes) : Prop := ∀ line ∈ lines, lineLoaded py line ≠ .raised

/-- A count as a provider reports it: an integer, a finite float or the text of an integer. -/
def IsCount : Value → Prop
  | .int _ => True
  | .float bits => (Value.truncate? bits).isSome
  | .str t => (py.intOfText t).isSome
  | _ => False

def IsFloat : Value → Prop
  | .float _ => True
  | _ => False

end

section
variable {py : Python} {c : Collected} {lines : List Bytes} {usage : Fields} {value : Value}

theorem parses_of_loads (h : ∀ data, py.loads data ≠ .raised) : Parses py lines := by
  intro line _
  unfold lineLoaded
  cases lineData? line with
  | none => exact fun hraised => by cases hraised
  | some data => exact h data

theorem parses_cons {line : Bytes} :
    Parses py (line :: lines) ↔ lineLoaded py line ≠ .raised ∧ Parses py lines := List.forall_mem_cons

theorem lines_raised (h : ¬ Parses py lines) : Collected.lines py lines c = none := by
  induction lines generalizing c with
  | nil => exact absurd (fun _ h => by cases h) h
  | cons line rest ih =>
    rw [parses_cons] at h
    rw [Collected.lines]
    cases hline : lineLoaded py line with
    | raised => rfl
    | value event =>
      apply ih
      intro hrest
      exact h ⟨by simp [hline], hrest⟩
    | malformed =>
      apply ih
      intro hrest
      exact h ⟨by simp [hline], hrest⟩

/-- The counts that are collected are those of the last usage object, or what they were. -/
theorem lines_collected (h : Parses py lines) :
    ∃ c', Collected.lines py lines c = some c' ∧
      c'.reportedInput = (usages py lines).getLast?.elim c.reportedInput reportedInput ∧
      c'.reportedOutput = (usages py lines).getLast?.elim c.reportedOutput reportedOutput := by
  induction lines generalizing c with
  | nil => exact ⟨c, rfl, rfl, rfl⟩
  | cons line rest ih =>
    obtain ⟨hnotRaised, hrest⟩ := parses_cons.mp h
    cases hline : lineLoaded py line with
    | raised => exact absurd hline hnotRaised
    | malformed =>
      have husages : usages py (line :: rest) = usages py rest := by simp [usages, hline]
      rw [Collected.lines, hline, husages]
      exact ih hrest
    | value event =>
      obtain ⟨c', hlines, hinput, houtput⟩ := ih (c := c.event event) hrest
      refine ⟨c', by rw [Collected.lines, hline]; exact hlines, ?_⟩
      rw [hinput, houtput]
      cases hevent : eventUsage? event with
      | none =>
        have husages : usages py (line :: rest) = usages py rest := by simp [usages, hline, hevent]
        simp [husages, Collected.event, hevent]
      | some usage =>
        have husages : usages py (line :: rest) = usage :: usages py rest := by
          simp [usages, hline, hevent]
        rw [husages, List.getLast?_cons]
        cases (usages py rest).getLast? <;> simp [Collected.event, hevent]

theorem IsCount.toInt (h : IsCount py value) : ∃ n, value.toInt? py.intOfText = some n := by
  cases value with
  | int n => exact ⟨n, rfl⟩
  | float bits => exact Option.isSome_iff_exists.mp h
  | str t => exact Option.isSome_iff_exists.mp h
  | _ => cases h

theorem IsCount.isReported (h : IsCount py value) : isReported value = true := by
  cases value with
  | none => cases h
  | _ => rfl

/-- The stream path takes a count, unless it is a float. -/
theorem IsCount.isCounted (h : IsCount py value) : isCounted value = true ↔ ¬ IsFloat value := by
  cases value with
  | int | str => simp [StreamUsage.isCounted, IsFloat]
  | float => simp [StreamUsage.isCounted, IsFloat]
  | _ => cases h

/-- A JSON response with both counts is charged by them. -/
theorem completionUsage_counts {fields : Fields} (husage : fields.get "usage" = .dict usage)
    (hinput : IsCount py (reportedInput usage)) (houtput : IsCount py (reportedOutput usage))
    (estimatedInput : Int) :
    ∃ i o, (reportedInput usage).toInt? py.intOfText = some i ∧
      (reportedOutput usage).toInt? py.intOfText = some o ∧
      completionUsage py (.dict fields) estimatedInput = some ⟨i, o, false⟩ := by
  have hprovider : providerUsage (.dict fields) = usage := by
    have hfound : fields.getOr "usage" (.dict []) = .dict usage := by
      unfold Fields.get at husage
      unfold Fields.getOr
      cases hget : fields.get? (.ofString "usage") with
      | none =>
        rw [hget] at husage
        cases husage
      | some value =>
        rw [hget] at husage
        exact husage
    rw [providerUsage, hfound]
    rfl
  obtain ⟨i, hi⟩ := hinput.toInt
  obtain ⟨o, ho⟩ := houtput.toInt
  refine ⟨i, o, hi, ho, ?_⟩
  simp [completionUsage, chargedCount, hprovider, hinput.isReported, houtput.isReported, hi, ho]

/-- A stream with one usage object has collected its counts. -/
theorem streamUsage_counts {body : Bytes} (husages : usages py (Bytes.splitLines body) = [usage])
    (hparses : Parses py (Bytes.splitLines body)) :
    ∃ c : Collected, c.reportedInput = reportedInput usage ∧ c.reportedOutput = reportedOutput usage ∧
      Collected.lines py (Bytes.splitLines body) {} = some c := by
  obtain ⟨c, hlines, hinput, houtput⟩ := lines_collected (c := {}) hparses
  rw [husages] at hinput houtput
  exact ⟨c, hinput, houtput, hlines⟩

theorem streamUsage_estimated {body : Bytes} {estimatedInput : Int} {charged : TokenUsage}
    (hlines : Collected.lines py (Bytes.splitLines body) {} = some c)
    (h : streamUsage py body estimatedInput = some charged) :
    charged.estimated = (!isCounted c.reportedInput || !isCounted c.reportedOutput) := by
  unfold streamUsage at h
  rw [hlines] at h
  obtain ⟨collected, hc, h⟩ := Option.bind_eq_some_iff.mp h
  obtain rfl := Option.some.inj hc
  obtain ⟨inputTokens, -, h⟩ := Option.bind_eq_some_iff.mp h
  obtain ⟨outputTokens, -, h⟩ := Option.bind_eq_some_iff.mp h
  rw [← Option.some.inj h]

/-- The framing of the lines does not matter. -/
theorem streamUsage_framing {framed framed' : List (Bytes × Bytes.Framing)}
    (hlines : ∀ line ∈ framed, Bytes.IsLine line.1) (hsame : framed.map Prod.fst = framed'.map Prod.fst)
    (estimatedInput : Int) :
    streamUsage py (Bytes.frame framed) estimatedInput = streamUsage py (Bytes.frame framed') estimatedInput := by
  have hlines' : ∀ line ∈ framed', Bytes.IsLine line.1 := by
    intro line hline
    have hmem : line.1 ∈ framed.map Prod.fst := hsame ▸ List.mem_map_of_mem hline
    obtain ⟨other, hother, heq⟩ := List.mem_map.mp hmem
    rw [← heq]
    exact hlines other hother
  unfold streamUsage
  rw [Bytes.splitLines_frame hlines, Bytes.splitLines_frame hlines', hsame]

end

end StreamUsage

open StreamUsage

/-! ### A report in numbers and one in floats -/
namespace Sample

/-- The two events of a stream, and a parser that knows them. -/
def textEvent : Bytes := .ascii "\x7b\"choices\":[\x7b\"delta\":\x7b\"content\":\"answer\"\x7d\x7d]\x7d"

def usageEvent : Bytes := .ascii "\x7b\"usage\":\x7b\"prompt_tokens\":12,\"completion_tokens\":2\x7d\x7d"

def floatEvent : Bytes := .ascii "\x7b\"usage\":\x7b\"prompt_tokens\":12.0,\"completion_tokens\":2\x7d\x7d"

def usageOf (input : Value) : Fields :=
  [(.ofString "prompt_tokens", input), (.ofString "completion_tokens", .int 2)]

def python : Python where
  loads data :=
    if data = textEvent then
      .value (.object [("choices", .list [.object [("delta", .object [("content", .text "answer")])]])])
    else if data = usageEvent then .value (.object [("usage", .dict (usageOf (.int 12)))])
    else if data = floatEvent then
      .value (.object [("usage", .dict (usageOf (.float 0x4028000000000000)))])
    else .malformed
  intOfText _ := none
  dumps _ := []

theorem python_loads (data : Bytes) : python.loads data ≠ .raised := by
  unfold python
  dsimp only
  split
  · exact fun h => by cases h
  · split
    · exact fun h => by cases h
    · split
      · exact fun h => by cases h
      · exact fun h => by cases h

/-- A comment, the events and the end of a stream. -/
def stream (event : Bytes) : Bytes :=
  Bytes.frame [(.ascii ": ping", .crlf), (.ascii "data: " ++ textEvent, .crlf), ([], .crlf),
    (.ascii "data: " ++ event, .lf), ([], .lf), (.ascii "data: [DONE]", .lf)]

end Sample

end ResearchGateway
