import ResearchGateway.Library.Bytes
import ResearchGateway.Library.Polling
import ResearchGateway.Library.Value

/-! How the Pipe streams the result of a job.

It asks for the job until the job is over or the time is, attaches the artifacts of a job that
has succeeded and fetches its report. A poll that fails is repeated; what else is raised while
the job is read, or while the report is fetched, leaves the stream without a last message, and
so does what `_attach_artifacts` raises besides the exceptions that are caught around it
(`result_stream_iff`): an `AttributeError`, an `OverflowError`, the `RecursionError` of a value
that nests too deeply for `json` or `str`, and the `InvalidURL` of a name that is too long. So does
the text of a report under a charset that is none of texts. -/
namespace ResearchGateway
open Library

namespace ResultStream

inductive PipeError where
  | httpError (message : Text)
  | keyError
  | typeError
  | valueError
  | attributeError
  | overflowError
  | recursionError
  /-- An `httpx.InvalidURL`, which is no `httpx.HTTPError`. -/
  | invalidUrl
  /-- What `text` raises of a charset that Python knows and that is none of texts. -/
  | charset

/-- What is caught around `_attach_artifacts`. -/
def PipeError.isCaught : PipeError → Bool
  | .httpError _ | .keyError | .typeError | .valueError => true
  | .attributeError | .overflowError | .recursionError | .invalidUrl | .charset => false

/-! ### Answers -/

structure HttpResponse where
  status : Nat
  /-- The text of what `raise_for_status` raises. -/
  reason : Text := []
  contentType : Option Text := none
  content : Bytes := []
  /-- `json()`; `none` where it raises. -/
  json : Option Value := none
  /-- It then raises a `RecursionError`, of a body that is nested too deeply, and no `ValueError`. -/
  nestsDeeply : Bool := false
  /-- The text of the content as UTF-8; `none` where `decode` raises. -/
  decoded : Option Text := none
  /-- `text`; `none` where it raises. -/
  text : Option Text := some []

inductive HttpAnswer where
  /-- An `httpx.HTTPError`, with its text. -/
  | failed (message : Text)
  /-- No request is sent, because the URL is longer than `httpx` takes. -/
  | refused
  | answered (response : HttpResponse)

/-- A request and `raise_for_status`. -/
def HttpAnswer.checked : HttpAnswer → Except PipeError HttpResponse
  | .failed message => .error (.httpError message)
  | .refused => .error .invalidUrl
  | .answered response =>
    if 200 ≤ response.status ∧ response.status < 300 then .ok response else .error (.httpError response.reason)

def HttpResponse.value (response : HttpResponse) : Except PipeError Value :=
  match response.json with
  | some value => .ok value
  | none => .error (if response.nestsDeeply then .recursionError else .valueError)

def HttpResponse.shown (response : HttpResponse) : Except PipeError Text :=
  match response.text with
  | some text => .ok text
  | none => .error .charset

/-- What the stream meets: answers, readings of the clock and what is built in. -/
structure Surroundings where
  jobId : Text
  hasEmitter : Bool
  maxWaitSeconds : Int
  /-- The readings of the clock, the first one before the loop. -/
  clock : Nat → Int
  polls : Nat → HttpAnswer
  manifest : HttpAnswer
  /-- The answers about the artifact with a position in the manifest. -/
  contents : Nat → HttpAnswer
  uploads : Nat → HttpAnswer
  previews : Nat → HttpAnswer
  /-- What the report would be answered at each attempt, and when. -/
  reports : Nat → HttpAnswer
  reportTimes : Nat → Int
  /-- `str` of a float, a list or a dictionary. -/
  repr : Value → Text
  /-- `repr` of the list or the dictionary runs into the recursion limit. -/
  deep : Value → Bool
  /-- `int` of a string. -/
  intOfText : Text → Option Int
  /-- `str` of an exception. -/
  errorText : PipeError → Text

/-! ### Artifacts -/

structure AttachedFile where
  id : Text
  name : Text
  size : Int
  contentType : Text

section
variable (s : Surroundings)

def tooDeep (value : Value) : Bool :=
  match value with
  | .list _ | .dict _ => s.deep value
  | _ => false

/-- `str(value)`. -/
def shown (value : Value) : Except PipeError Text :=
  if tooDeep s value then .error .recursionError else .ok (value.toText s.repr)

/-- `quote(text, safe="")`, which encodes it. -/
def quoted (text : Text) : Except PipeError Unit := if text.isEncodable then .ok () else .error .valueError

def decoded (content : HttpResponse) : Except PipeError Unit :=
  if content.decoded.isSome then .ok () else .error .valueError

/-- `payload["id"]`, of a dictionary. -/
def identified (payload : Value) : Except PipeError (Fields × Value) :=
  match payload with
  | .dict fields =>
    match Fields.get? fields (.ofString "id") with
    | some id => .ok (fields, id)
    | none => .error .keyError
  | _ => .error .typeError

def isTextual (mediaType : Text) : Bool :=
  (Text.ofString "text/").isPrefixOf mediaType || (Text.ofString "application/json").isPrefixOf mediaType

/-- The content of an artifact. -/
def fetched (i : Nat) (name : Text) : Except PipeError HttpResponse := do
  quoted name
  (s.contents i).checked

def HttpResponse.mediaType (content : HttpResponse) : Text :=
  content.contentType.getD (.ofString "application/octet-stream")

/-- The answer to the upload of an artifact, and the identifier in it. -/
def posted (i : Nat) : Except PipeError (Fields × Text) := do
  let upload ← (s.uploads i).checked
  let payload ← upload.value
  let (fields, id) ← identified payload
  let fileId ← shown s id
  return (fields, fileId)

/-- The preview of a textual file. -/
def previewed (i : Nat) (content : HttpResponse) (fileId : Text) : Except PipeError Unit :=
  if isTextual content.mediaType then do
    quoted fileId
    decoded content
    let _ ← (s.previews i).checked
    return ()
  else .ok ()

structure Upload where
  content : HttpResponse
  fileId : Text
  payload : Fields

/-- The requests for one artifact. -/
def uploadArtifact (i : Nat) (name : Text) : Except PipeError Upload := do
  let content ← fetched s i name
  let (payload, fileId) ← posted s i
  previewed s i content fileId
  return ⟨content, fileId, payload⟩

/-- The largest exponent, without a fraction. -/
def isInfinite (bits : BitVec 64) : Bool := bits.extractLsb' 52 11 == 2047 && bits.setWidth 52 == 0

/-- `int(value)`. -/
def sizeOf (value : Value) : Except PipeError Int :=
  match value.toInt? s.intOfText with
  | some n => .ok n
  | none =>
    match value with
    | .float bits => .error (if isInfinite bits then .overflowError else .valueError)
    | .str _ => .error .valueError
    | _ => .error .typeError

/-- `payload.get("meta") or {}`, on which `get` is called. -/
def metadataOf (payload : Fields) : Except PipeError Fields :=
  match (payload.get "meta").entries? with
  | some metadata => .ok metadata
  | none => .error .attributeError

def Upload.nameValue (upload : Upload) (metadata : Fields) (name : Text) : Value :=
  ((metadata.get "name").orElse (upload.payload.get "filename")).orElse (.str name)

def Upload.sizeValue (upload : Upload) (metadata : Fields) : Value :=
  (metadata.get "size").orElse (.int upload.content.content.length)

def Upload.contentTypeValue (upload : Upload) (metadata : Fields) : Value :=
  (metadata.get "content_type").orElse (.str upload.content.mediaType)

/-- The entry of a file that was uploaded. -/
def listed (name : Text) (upload : Upload) : Except PipeError AttachedFile := do
  let metadata ← metadataOf upload.payload
  let fileName ← shown s (upload.nameValue metadata name)
  let size ← sizeOf s (upload.sizeValue metadata)
  let contentType ← shown s (upload.contentTypeValue metadata)
  return ⟨upload.fileId, fileName, size, contentType⟩

/-- The name of an entry of the manifest, unless it is skipped. -/
def artifactName (artifact : Value) : Except PipeError (Option Text) :=
  match artifact with
  | .dict fields =>
    if (Fields.get fields "name").truthy then some <$> shown s (Fields.get fields "name") else .ok none
  | _ => .ok none

def attachArtifact (i : Nat) (artifact : Value) : Except PipeError (List AttachedFile) := do
  match ← artifactName s artifact with
  | none => return []
  | some name =>
    let upload ← uploadArtifact s i name
    let file ← listed s name upload
    return [file]

/-- The loop over the manifest, from a position on. -/
def attachFrom (i : Nat) : List Value → Except PipeError (List AttachedFile)
  | [] => .ok []
  | artifact :: rest => do
    let file ← attachArtifact s i artifact
    let files ← attachFrom (i + 1) rest
    return file ++ files

/-- `_attach_artifacts`. -/
def attachArtifacts : Except PipeError (List AttachedFile) := do
  let response ← s.manifest.checked
  let manifest ← response.value
  match manifest with
  | .list artifacts => attachFrom s 0 artifacts
  | _ => .error (.httpError (.ofString "Research service returned an invalid artifact manifest"))

end

/-! ### The stream -/

inductive Final where
  | report (text : Text)
  | failed (reason : Text)
  | cancelled
  | stillRunning (jobId : Text)
  | notRetrieved (error : Text)

def Final.text : Final → Text
  | .report text => text
  | .failed reason => .ofString "\n\nDeep Research failed: " ++ reason
  | .cancelled => .ofString "\n\nDeep Research was cancelled."
  | .stillRunning jobId =>
    .ofString "\n\nDeep Research is still running beyond this chat request's wait window. The durable job is `" ++
      jobId ++ .ofString "`."
  | .notRetrieved error => .ofString "\n\nDeep Research could not retrieve the completed job: " ++ error

/-- What is emitted beside the stream. -/
inductive PipeEvent where
  | files (files : List AttachedFile)
  | warning (content : Text)
  | complete

inductive Chunk where
  | started
  | keepalive
  | final (message : Final)

def Chunk.isFinal : Chunk → Bool
  | .final _ => true
  | _ => false

/-- How the stream ends: with a last message, or by an exception. -/
structure Ending where
  events : List PipeEvent := []
  result : Except PipeError Final

/-- What a poll has shown; what is broken is raised past the handler around it. -/
inductive Polled where
  | failed (message : Text)
  | broken (error : PipeError)
  | job (job : Fields)

def HttpAnswer.polled (answer : HttpAnswer) : Polled :=
  match answer.checked with
  | .error (.httpError message) => .failed message
  | .error e => .broken e
  | .ok response =>
    match response.value with
    | .error e => .broken e
    | .ok (.dict job) => .job job
    | .ok _ => .broken .attributeError

section
variable (s : Surroundings)

def deadline : Int := s.clock 0 + s.maxWaitSeconds

/-- The attached files, and the text of the exception that was caught. -/
def attachment : Except PipeError (List AttachedFile × Text) :=
  if s.hasEmitter then
    match attachArtifacts s with
    | .ok files => .ok (files, [])
    | .error e => if e.isCaught then .ok ([], s.errorText e) else .error e
  else .ok ([], [])

def emitted (files : List AttachedFile) (attachmentError : Text) : List PipeEvent :=
  if s.hasEmitter then
    (if files.isEmpty then [] else [.files files]) ++
      (if attachmentError.isEmpty then []
      else [.warning (.ofString "The report completed, but its files could not be attached automatically: " ++
        attachmentError)]) ++
      [.complete]
  else []

/-- What follows when the job has succeeded. -/
def delivered : Ending :=
  match attachment s with
  | .error e => {result := .error e}
  | .ok (files, attachmentError) =>
    match (s.reports 0).checked with
    | .error e => {result := .error e}
    | .ok report => {events := emitted s files attachmentError, result := .report <$> report.shown}

def failureReason (job : Fields) : Value := (job.get "error").orElse (.text "the research worker failed")

def isState (job : Fields) (state : String) : Bool := (job.get "state").isText state

/-- One round of the loop. -/
def round (n : Nat) : Option Ending :=
  match (s.polls n).polled with
  | .failed message =>
    if deadline s ≤ s.clock (n + 1) then some {result := .ok (.notRetrieved message)} else none
  | .broken e => some {result := .error e}
  | .job job =>
    if isState job "succeeded" then some (delivered s)
    else if isState job "failed" then some {result := .failed <$> shown s (failureReason job)}
    else if isState job "cancelled" then some {result := .ok .cancelled}
    else if deadline s ≤ s.clock (n + 1) then some {result := .ok (.stillRunning s.jobId)}
    else none

def chunks (n : Nat) (ending : Ending) : List Chunk :=
  .started :: (List.replicate n .keepalive ++
    match ending.result with
    | .ok message => [.final message]
    | .error _ => [])

/-- `_stream_job_result`: what it yields and how it ends, if it does within so many rounds. -/
def streamJobResult (rounds : Nat) : Option (List Chunk × Ending) :=
  (firstResult (round s) rounds 0).map fun (n, ending) => (chunks n ending, ending)

end

/-! ### What the Pipe relies on -/

section
variable (s : Surroundings)

/-- The poll leaves the job open, and there is time for another one. -/
def Waits (n : Nat) : Prop :=
  s.clock (n + 1) < deadline s ∧
    match (s.polls n).polled with
    | .failed _ => True
    | .broken _ => False
    | .job job => isState job "succeeded" = false ∧ isState job "failed" = false ∧ isState job "cancelled" = false

def Reached (n : Nat) : Prop := ∀ m, m < n → Waits s m

def SeenSucceeded (n : Nat) : Prop := ∃ job, (s.polls n).polled = .job job ∧ isState job "succeeded" = true

/-- The answer's body is nested too deeply. -/
def HttpResponse.IsDeep (response : HttpResponse) : Prop := response.json = none ∧ response.nestsDeeply = true

/-- An upload gets no answer, or one that nests too deeply as a whole or in its identifier. -/
def BreaksUpload (answer : HttpAnswer) : Prop :=
  answer = .refused ∨ ∃ response, answer.checked = .ok response ∧
    (response.IsDeep ∨ ∃ fields id, response.json = some (.dict fields) ∧
      Fields.get? fields (.ofString "id") = some id ∧ tooDeep s id = true)

/-- The metadata of a file that was uploaded is something else than a dictionary, gives an infinite size,
or nests too deeply. -/
def BreaksListing (name : Text) (upload : Upload) : Prop :=
  (upload.payload.get "meta").entries? = none ∨ ∃ metadata, (upload.payload.get "meta").entries? = some metadata ∧
    (tooDeep s (upload.nameValue metadata name) = true ∨
      (∃ bits, Fields.get metadata "size" = .float bits ∧ isInfinite bits = true) ∨
      (∃ size, sizeOf s (upload.sizeValue metadata) = .ok size) ∧ tooDeep s (upload.contentTypeValue metadata) = true)

/-- An artifact that the Pipe comes to is answered with something that the handler around
`_attach_artifacts` does not expect. -/
inductive Breaks (i : Nat) (artifact : Value) : Prop
  | name {fields} (hartifact : artifact = .dict fields) (htruthy : (Fields.get fields "name").truthy = true)
      (hdeep : tooDeep s (Fields.get fields "name") = true)
  | content {name} (hname : artifactName s artifact = .ok (some name)) (hquoted : name.isEncodable = true)
      (hrefused : s.contents i = .refused)
  | upload {name content} (hname : artifactName s artifact = .ok (some name))
      (hcontent : fetched s i name = .ok content) (hupload : BreaksUpload s (s.uploads i))
  | preview {name content payload fileId} (hname : artifactName s artifact = .ok (some name))
      (hcontent : fetched s i name = .ok content) (hposted : posted s i = .ok (payload, fileId))
      (htextual : isTextual content.mediaType = true) (hquoted : fileId.isEncodable = true)
      (hdecoded : content.decoded.isSome = true) (hrefused : s.previews i = .refused)
  | listing {name upload} (hname : artifactName s artifact = .ok (some name))
      (hupload : uploadArtifact s i name = .ok upload) (hlisting : BreaksListing s name upload)

/-- No artifact that the Pipe comes to is answered so. -/
def Listable (artifacts : List Value) : Prop :=
  ∀ before artifact, before ++ [artifact] <+: artifacts → (∃ files, attachFrom s 0 before = .ok files) →
    ¬ Breaks s before.length artifact

/-- The manifest is asked for, does not nest too deeply, and its artifacts can be listed. -/
structure Attachable : Prop where
  asked : s.manifest ≠ .refused
  shallow : ∀ response, s.manifest.checked = .ok response → ¬ response.IsDeep
  listable : ∀ response artifacts, s.manifest.checked = .ok response → response.json = some (.list artifacts) →
    Listable s artifacts

/-- The artifacts can be listed where they are attached, and the report is fetched at once, as a text. -/
structure Deliverable : Prop where
  attachable : s.hasEmitter = true → Attachable s
  report : ∃ report, (s.reports 0).checked = .ok report ∧ report.text.isSome

/-- The reason that the job gives for its failure nests too deeply. -/
def FailsUnreadably (n : Nat) : Prop :=
  ∃ job, (s.polls n).polled = .job job ∧ isState job "failed" = true ∧ tooDeep s (failureReason job) = true

/-- Every poll is a job or has failed, the reason of a failure can be read, and a job that is seen
succeeded is deliverable. -/
def Legible : Prop :=
  ∀ n, Reached s n → (∀ e, (s.polls n).polled ≠ .broken e) ∧ ¬ FailsUnreadably s n ∧
    (SeenSucceeded s n → Deliverable s)

/-- The stream ends with one last message, and with the report if the job has succeeded. -/
structure ExplicitOutcome : Prop where
  ends : ∀ rounds yielded ending, streamJobResult s rounds = some (yielded, ending) →
    ∃ message, ending.result = .ok message ∧ yielded.getLast? = some (.final message) ∧
      yielded.countP Chunk.isFinal = 1
  reported : ∀ rounds yielded ending text, streamJobResult s rounds = some (yielded, ending) →
    .final (.report text) ∈ yielded → ∃ n, Reached s n ∧ SeenSucceeded s n
  /-- A report that can be fetched before the deadline is not lost. -/
  kept : ∀ n, Reached s n → SeenSucceeded s n → ∀ attempt report, s.reportTimes attempt < deadline s →
    (s.reports attempt).checked = .ok report →
    ∃ rounds yielded ending text, streamJobResult s rounds = some (yielded, ending) ∧
      .final (.report text) ∈ yielded

end

/-! ### What escapes -/

/-- It raises something that is not caught around `_attach_artifacts`. -/
def Escapes {α : Type} (result : Except PipeError α) : Prop := ∃ e, result = .error e ∧ e.isCaught = false

section
variable {α β : Type}

@[simp] theorem escapes_ok {a : α} : ¬ Escapes (.ok a : Except PipeError α) := nofun

@[simp] theorem escapes_pure {a : α} : ¬ Escapes (pure a : Except PipeError α) := nofun

@[simp] theorem escapes_error {e : PipeError} : Escapes (.error e : Except PipeError α) ↔ e.isCaught = false := by
  constructor
  · intro h
    obtain ⟨e', hsame, he⟩ := h
    cases hsame
    exact he
  · intro h
    exact ⟨e, rfl, h⟩

theorem escapes_bind {x : Except PipeError α} {f : α → Except PipeError β} :
    Escapes (x >>= f) ↔ Escapes x ∨ ∃ a, x = .ok a ∧ Escapes (f a) := by
  cases x with
  | error e =>
    show Escapes (.error e) ↔ _
    simp
  | ok a =>
    show Escapes (f a) ↔ _
    simp

@[simp] theorem escapes_map {x : Except PipeError α} {f : α → β} : Escapes (f <$> x) ↔ Escapes x := by
  cases x with
  | error e =>
    show Escapes (.error e) ↔ _
    simp
  | ok a =>
    show Escapes (.ok (f a)) ↔ _
    simp

theorem checked_escapes (answer : HttpAnswer) : Escapes answer.checked ↔ answer = .refused := by
  cases answer with
  | failed message => simp [HttpAnswer.checked, PipeError.isCaught]
  | refused => simp [HttpAnswer.checked, PipeError.isCaught]
  | answered response =>
    unfold HttpAnswer.checked
    dsimp only
    split <;> simp [PipeError.isCaught]

theorem value_eq_ok {response : HttpResponse} {value : Value} :
    response.value = .ok value ↔ response.json = some value := by
  unfold HttpResponse.value
  cases response.json <;> simp

theorem value_escapes (response : HttpResponse) : Escapes response.value ↔ response.IsDeep := by
  unfold HttpResponse.value HttpResponse.IsDeep
  cases response.json with
  | some value => simp
  | none => cases response.nestsDeeply <;> simp [PipeError.isCaught]

theorem quoted_escapes (text : Text) : ¬ Escapes (quoted text) := by
  unfold quoted
  split <;> simp [PipeError.isCaught]

theorem quoted_eq_ok {text : Text} {u : Unit} : quoted text = .ok u ↔ text.isEncodable = true := by
  unfold quoted
  split <;> simp [*]

theorem decoded_escapes (content : HttpResponse) : ¬ Escapes (decoded content) := by
  unfold decoded
  split <;> simp [PipeError.isCaught]

theorem decoded_eq_ok {content : HttpResponse} {u : Unit} :
    decoded content = .ok u ↔ content.decoded.isSome = true := by
  unfold decoded
  split <;> simp [*]

theorem identified_escapes (payload : Value) : ¬ Escapes (identified payload) := by
  unfold identified
  split
  · split <;> simp [PipeError.isCaught]
  · simp [PipeError.isCaught]

theorem identified_eq_ok {payload : Value} {fields : Fields} {id : Value} :
    identified payload = .ok (fields, id) ↔
      payload = .dict fields ∧ Fields.get? fields (.ofString "id") = some id := by
  unfold identified
  cases payload with
  | dict entries =>
    simp only [Value.dict.injEq]
    constructor
    · intro h
      cases hid : Fields.get? entries (.ofString "id") with
      | none =>
        rw [hid] at h
        cases h
      | some found =>
        rw [hid] at h
        cases h
        exact ⟨rfl, hid⟩
    · rintro ⟨rfl, hid⟩
      rw [hid]
  | _ => simp

end

section
variable {s : Surroundings}

theorem shown_escapes (value : Value) : Escapes (shown s value) ↔ tooDeep s value = true := by
  unfold shown
  split <;> simp [*, PipeError.isCaught]

theorem fetched_escapes (i : Nat) (name : Text) :
    Escapes (fetched s i name) ↔ name.isEncodable = true ∧ s.contents i = .refused := by
  unfold fetched
  simp [escapes_bind, quoted_escapes, quoted_eq_ok, checked_escapes]

theorem posted_escapes (i : Nat) : Escapes (posted s i) ↔ BreaksUpload s (s.uploads i) := by
  unfold posted BreaksUpload
  rw [escapes_bind, checked_escapes]
  refine or_congr_right (exists_congr fun response => and_congr_right fun _ => ?_)
  rw [escapes_bind, value_escapes]
  refine or_congr_right ?_
  simp only [value_eq_ok, escapes_bind, identified_escapes, false_or, Prod.exists, identified_eq_ok, shown_escapes,
    escapes_pure, and_false, exists_false, or_false]
  constructor
  · rintro ⟨payload, hjson, fields, id, ⟨rfl, hid⟩, hdeep⟩
    exact ⟨fields, id, hjson, hid, hdeep⟩
  · rintro ⟨fields, id, hjson, hid, hdeep⟩
    exact ⟨.dict fields, hjson, fields, id, ⟨rfl, hid⟩, hdeep⟩

theorem previewed_escapes (i : Nat) (content : HttpResponse) (fileId : Text) :
    Escapes (previewed s i content fileId) ↔ isTextual content.mediaType = true ∧ fileId.isEncodable = true ∧
      content.decoded.isSome = true ∧ s.previews i = .refused := by
  unfold previewed
  by_cases htextual : isTextual content.mediaType = true
  · simp [htextual, escapes_bind, quoted_escapes, decoded_escapes, quoted_eq_ok, decoded_eq_ok, checked_escapes]
  · simp [htextual]

theorem uploadArtifact_escapes (i : Nat) (name : Text) : Escapes (uploadArtifact s i name) ↔
    Escapes (fetched s i name) ∨ ∃ content, fetched s i name = .ok content ∧
      (Escapes (posted s i) ∨ ∃ payload fileId, posted s i = .ok (payload, fileId) ∧
        Escapes (previewed s i content fileId)) := by
  unfold uploadArtifact
  simp only [escapes_bind, Prod.exists, escapes_pure, and_false, exists_false, or_false]

theorem truncate?_infinite {bits : BitVec 64} (h : isInfinite bits = true) : Value.truncate? bits = none := by
  unfold isInfinite at h
  obtain ⟨hexponent, -⟩ := Bool.and_eq_true_iff.mp h
  unfold Value.truncate?
  rw [eq_of_beq hexponent]
  rfl

theorem truthy_infinite {bits : BitVec 64} (h : isInfinite bits = true) : (Value.float bits).truthy = true := by
  unfold isInfinite at h
  obtain ⟨hexponent, -⟩ := Bool.and_eq_true_iff.mp h
  have hexponent : bits.toNat / 2 ^ 52 % 2 ^ 11 = 2047 := by
    have hnat := congrArg BitVec.toNat (eq_of_beq hexponent)
    rwa [BitVec.extractLsb'_toNat, Nat.shiftRight_eq_div_pow] at hnat
  show (bits.setWidth 63 != 0) = true
  rw [bne_iff_ne]
  intro hzero
  have hzero := congrArg BitVec.toNat hzero
  simp only [BitVec.toNat_setWidth, BitVec.ofNat_eq_ofNat, BitVec.toNat_ofNat] at hzero
  omega

theorem sizeOf_escapes {value : Value} :
    Escapes (sizeOf s value) ↔ ∃ bits, value = .float bits ∧ isInfinite bits = true := by
  unfold sizeOf
  cases value with
  | float bits =>
    by_cases hinfinite : isInfinite bits = true
    · simp [Value.toInt?, truncate?_infinite hinfinite, hinfinite, PipeError.isCaught]
    · simp only [Value.toInt?, hinfinite]
      split <;> simp [PipeError.isCaught, hinfinite]
  | str text =>
    simp only [Value.toInt?]
    split <;> simp [PipeError.isCaught]
  | none | bool b | int n | list items | dict fields => simp [Value.toInt?, PipeError.isCaught]

theorem sizeValue_infinite {upload : Upload} {metadata : Fields} :
    (∃ bits, upload.sizeValue metadata = .float bits ∧ isInfinite bits = true) ↔
      ∃ bits, Fields.get metadata "size" = .float bits ∧ isInfinite bits = true := by
  unfold Upload.sizeValue Value.orElse
  constructor
  · rintro ⟨bits, hsize, hinfinite⟩
    split at hsize
    · exact ⟨bits, hsize, hinfinite⟩
    · cases hsize
  · rintro ⟨bits, hsize, hinfinite⟩
    refine ⟨bits, ?_, hinfinite⟩
    rw [hsize, if_pos (truthy_infinite hinfinite)]

theorem shown_eq_ok {value : Value} : (∃ text, shown s value = .ok text) ↔ tooDeep s value = false := by
  unfold shown
  cases tooDeep s value <;> simp

theorem listed_escapes {name : Text} {upload : Upload} :
    Escapes (listed s name upload) ↔ BreaksListing s name upload := by
  unfold listed BreaksListing metadataOf
  cases (upload.payload.get "meta").entries? with
  | none => simp [escapes_bind, PipeError.isCaught]
  | some metadata =>
    simp only [reduceCtorEq, false_or, Option.some.injEq, exists_eq_left']
    rw [escapes_bind]
    simp only [escapes_ok, false_or, Except.ok.injEq, exists_eq_left']
    rw [escapes_bind, shown_escapes]
    cases hname : tooDeep s (upload.nameValue metadata name) with
    | true => simp
    | false =>
      obtain ⟨text, htext⟩ := shown_eq_ok.mpr hname
      simp only [htext, Except.ok.injEq, exists_eq_left', Bool.false_eq_true, false_or, escapes_bind, sizeOf_escapes,
        shown_escapes, escapes_pure, and_false, exists_false, or_false, sizeValue_infinite]
      exact or_congr_right exists_and_right

theorem artifactName_escapes {artifact : Value} : Escapes (artifactName s artifact) ↔
    ∃ fields, artifact = .dict fields ∧ (Fields.get fields "name").truthy = true ∧
      tooDeep s (Fields.get fields "name") = true := by
  unfold artifactName
  cases artifact with
  | dict fields =>
    cases htruthy : (Fields.get fields "name").truthy <;> simp [shown_escapes, htruthy]
  | _ => simp

theorem attachArtifact_escapes {i : Nat} {artifact : Value} :
    Escapes (attachArtifact s i artifact) ↔ Breaks s i artifact := by
  have hsteps : Escapes (attachArtifact s i artifact) ↔ Escapes (artifactName s artifact) ∨
      ∃ name, artifactName s artifact = .ok (some name) ∧ (Escapes (uploadArtifact s i name) ∨
        ∃ upload, uploadArtifact s i name = .ok upload ∧ Escapes (listed s name upload)) := by
    unfold attachArtifact
    rw [escapes_bind]
    refine or_congr_right ?_
    constructor
    · rintro ⟨name?, hname, hrest⟩
      cases name? with
      | none => exact (escapes_pure hrest).elim
      | some name =>
        refine ⟨name, hname, ?_⟩
        simpa only [escapes_bind, escapes_pure, and_false, exists_false, or_false] using hrest
    · rintro ⟨name, hname, hrest⟩
      refine ⟨some name, hname, ?_⟩
      simpa only [escapes_bind, escapes_pure, and_false, exists_false, or_false] using hrest
  rw [hsteps, artifactName_escapes]
  simp only [uploadArtifact_escapes, fetched_escapes, posted_escapes, previewed_escapes, listed_escapes]
  constructor
  · rintro (⟨fields, hartifact, htruthy, hdeep⟩ | ⟨name, hname, (⟨hquoted, hrefused⟩ | ⟨content, hcontent, hupload |
      ⟨payload, fileId, hposted, htextual, hquoted, hdecoded, hrefused⟩⟩) | ⟨upload, hupload, hlisting⟩⟩)
    · exact .name hartifact htruthy hdeep
    · exact .content hname hquoted hrefused
    · exact .upload hname hcontent hupload
    · exact .preview hname hcontent hposted htextual hquoted hdecoded hrefused
    · exact .listing hname hupload hlisting
  · intro h
    cases h with
    | name hartifact htruthy hdeep => exact .inl ⟨_, hartifact, htruthy, hdeep⟩
    | content hname hquoted hrefused => exact .inr ⟨_, hname, .inl (.inl ⟨hquoted, hrefused⟩)⟩
    | upload hname hcontent hupload => exact .inr ⟨_, hname, .inl (.inr ⟨_, hcontent, .inl hupload⟩)⟩
    | preview hname hcontent hposted htextual hquoted hdecoded hrefused =>
      exact .inr ⟨_, hname, .inl (.inr ⟨_, hcontent, .inr ⟨_, _, hposted, htextual, hquoted, hdecoded, hrefused⟩⟩)⟩
    | listing hname hupload hlisting => exact .inr ⟨_, hname, .inr ⟨_, hupload, hlisting⟩⟩

theorem attachFrom_snoc (i : Nat) (front : List Value) (last : Value) :
    attachFrom s i (front ++ [last]) = (do
      let files ← attachFrom s i front
      let file ← attachArtifact s (i + front.length) last
      return files ++ file) := by
  induction front generalizing i with
  | nil =>
    simp only [List.nil_append, attachFrom, List.length_nil, Nat.add_zero]
    cases attachArtifact s i last with
    | error e => rfl
    | ok file =>
      show Except.ok (file ++ []) = Except.ok ([] ++ file)
      rw [List.append_nil, List.nil_append]
  | cons artifact rest ih =>
    simp only [List.cons_append, attachFrom, ih, List.length_cons, bind_assoc, pure_bind, List.append_assoc]
    refine congrArg _ (funext fun file => congrArg _ (funext fun files => ?_))
    rw [Nat.add_right_comm, Nat.add_assoc]

/-- A loop over artifacts raises what is not caught where one of them that it comes to does. -/
theorem attachFrom_escapes (artifacts : List Value) :
    Escapes (attachFrom s 0 artifacts) ↔ ¬ Listable s artifacts := by
  induction artifacts using List.reverseRecOn with
  | nil =>
    simp only [attachFrom, escapes_ok, false_iff, not_not]
    intro before artifact hb
    simp at hb
  | append_singleton front last ih =>
    rw [attachFrom_snoc, escapes_bind, ih, Nat.zero_add]
    constructor
    · intro h hlistable
      rcases h with hfront | ⟨files, hfiles, hlast⟩
      · exact hfront fun before artifact hb => hlistable before artifact (hb.trans (List.prefix_append ..))
      · rw [escapes_bind, attachArtifact_escapes] at hlast
        rcases hlast with hbreaks | ⟨_, _, hpure⟩
        · exact hlistable front last List.prefix_rfl ⟨files, hfiles⟩ hbreaks
        · exact (escapes_pure hpure).elim
    · intro h
      by_contra hnone
      rw [not_or, not_not] at hnone
      apply h
      intro before artifact hb hfiles hbreaks
      rcases List.prefix_concat_iff.mp hb with heq | hfront
      · obtain ⟨rfl, hartifact⟩ := List.append_inj' heq rfl
        obtain rfl := List.singleton_inj.mp hartifact
        obtain ⟨files, hfiles⟩ := hfiles
        exact hnone.2 ⟨files, hfiles, escapes_bind.mpr (.inl (attachArtifact_escapes.mpr hbreaks))⟩
      · exact hnone.1 before artifact hfront hfiles hbreaks

theorem attachArtifacts_escapes : ¬ Escapes (attachArtifacts s) ↔ Attachable s := by
  have hlist (manifest : Value) : Escapes (match manifest with
      | .list artifacts => attachFrom s 0 artifacts
      | _ => .error (.httpError (.ofString "Research service returned an invalid artifact manifest"))) ↔
      ∃ artifacts, manifest = .list artifacts ∧ ¬ Listable s artifacts := by
    cases manifest with
    | list artifacts => simp [attachFrom_escapes]
    | _ => simp [PipeError.isCaught]
  have hsteps : Escapes (attachArtifacts s) ↔ s.manifest = .refused ∨ ∃ response, s.manifest.checked = .ok response ∧
      (response.IsDeep ∨ ∃ artifacts, response.json = some (.list artifacts) ∧ ¬ Listable s artifacts) := by
    unfold attachArtifacts
    rw [escapes_bind, checked_escapes]
    refine or_congr_right (exists_congr fun response => and_congr_right fun _ => ?_)
    rw [escapes_bind, value_escapes]
    refine or_congr_right ?_
    constructor
    · rintro ⟨manifest, hjson, hbroken⟩
      obtain ⟨artifacts, rfl, hlistable⟩ := (hlist manifest).mp hbroken
      exact ⟨artifacts, value_eq_ok.mp hjson, hlistable⟩
    · rintro ⟨artifacts, hjson, hlistable⟩
      exact ⟨.list artifacts, value_eq_ok.mpr hjson, (hlist _).mpr ⟨artifacts, rfl, hlistable⟩⟩
  rw [hsteps]
  constructor
  · intro h
    rw [not_or] at h
    refine ⟨h.1, fun response hchecked hdeep => h.2 ⟨response, hchecked, .inl hdeep⟩, fun response artifacts hchecked hjson => ?_⟩
    by_contra hlistable
    exact h.2 ⟨response, hchecked, .inr ⟨artifacts, hjson, hlistable⟩⟩
  · rintro h (hrefused | ⟨response, hchecked, hdeep | ⟨artifacts, hjson, hlistable⟩⟩)
    · exact h.asked hrefused
    · exact h.shallow response hchecked hdeep
    · exact hlistable (h.listable response artifacts hchecked hjson)

/-! ### How the stream ends -/

theorem attachment_escapes : (∃ found, attachment s = .ok found) ↔ (s.hasEmitter = true → Attachable s) := by
  rw [← attachArtifacts_escapes]
  unfold attachment
  by_cases hemitter : s.hasEmitter = true
  · rw [if_pos hemitter]
    cases attachArtifacts s with
    | ok files => simp
    | error e =>
      simp only [escapes_error, hemitter, true_imp_iff]
      cases e.isCaught <;> simp
  · rw [if_neg hemitter]
    simp [hemitter]

/-- The report is delivered where it can be, and otherwise an exception is raised. -/
theorem delivered_result : (∃ text, (delivered s).result = .ok (.report text)) ∧ Deliverable s ∨
    (∃ e, (delivered s).result = .error e) ∧ ¬ Deliverable s := by
  unfold delivered
  cases hattachment : attachment s with
  | error e =>
    refine .inr ⟨⟨e, rfl⟩, fun h => ?_⟩
    obtain ⟨found, hfound⟩ := attachment_escapes.mpr h.attachable
    rw [hattachment] at hfound
    cases hfound
  | ok found =>
    cases hreport : (s.reports 0).checked with
    | error e =>
      refine .inr ⟨⟨_, rfl⟩, fun h => ?_⟩
      obtain ⟨report, hfetched, -⟩ := h.report
      rw [hreport] at hfetched
      cases hfetched
    | ok report =>
      cases htext : report.text with
      | none =>
        refine .inr ⟨⟨.charset, by simp only [HttpResponse.shown, htext]; rfl⟩, fun h => ?_⟩
        obtain ⟨fetched, hfetched, hshown⟩ := h.report
        obtain rfl := Except.ok.inj (hreport.symm.trans hfetched)
        rw [htext] at hshown
        cases hshown
      | some text =>
        refine .inl ⟨⟨text, by simp only [HttpResponse.shown, htext]; rfl⟩, attachment_escapes.mp ⟨found, hattachment⟩,
          report, hreport, ?_⟩
        rw [htext]
        rfl

theorem round_eq_none {n : Nat} : round s n = none ↔ Waits s n := by
  unfold ResultStream.round Waits
  cases (s.polls n).polled with
  | failed message => simp
  | broken e => simp
  | job job =>
    simp only
    cases hsucceeded : isState job "succeeded" <;> cases hfailed : isState job "failed" <;>
      cases hcancelled : isState job "cancelled" <;> simp

/-- The rounds up to the last one are waited for. -/
theorem streamJobResult_eq_some {rounds : Nat} {yielded : List Chunk} {ending : Ending} :
    streamJobResult s rounds = some (yielded, ending) ↔
      ∃ n, n < rounds ∧ Reached s n ∧ round s n = some ending ∧ yielded = chunks n ending := by
  unfold streamJobResult Reached
  simp only [Option.map_eq_some_iff, Prod.exists, firstResult_zero, round_eq_none, Prod.mk.injEq]
  constructor
  · intro h
    obtain ⟨n, ending', ⟨hn, hwaits, hround⟩, rfl, rfl⟩ := h
    exact ⟨n, hn, hwaits, hround, rfl⟩
  · intro h
    obtain ⟨n, hn, hwaits, hround, rfl⟩ := h
    exact ⟨n, ending, ⟨hn, hwaits, hround⟩, rfl, rfl⟩

theorem round_succeeded {n : Nat} (h : SeenSucceeded s n) : round s n = some (delivered s) := by
  obtain ⟨job, hjob, hsucceeded⟩ := h
  unfold ResultStream.round
  rw [hjob]
  exact if_pos hsucceeded

/-- A job is in one state. -/
theorem isState_failed {job : Fields} (h : isState job "failed" = true) : isState job "succeeded" = false := by
  unfold isState at h ⊢
  cases hstate : Fields.get job "state" with
  | str text =>
    rw [hstate] at h
    obtain rfl := eq_of_beq h
    decide
  | _ => rfl

theorem round_unreadable {n : Nat} (h : FailsUnreadably s n) :
    round s n = some {result := .error .recursionError} := by
  obtain ⟨job, hjob, hfailed, hdeep⟩ := h
  unfold ResultStream.round
  rw [hjob]
  simp only [isState_failed hfailed, hfailed, shown, hdeep, if_true, Bool.false_eq_true, if_false]
  rfl

/-- What a round ends with. -/
theorem round_cases {n : Nat} {ending : Ending} (h : round s n = some ending) :
    ((∃ e, (s.polls n).polled = .broken e) ∨ FailsUnreadably s n) ∧ (∃ e, ending.result = .error e) ∨
      (SeenSucceeded s n ∧ ending = delivered s) ∨
      ∃ message, ending.result = .ok message ∧ ∀ text, message ≠ .report text := by
  unfold ResultStream.round at h
  cases hpolled : (s.polls n).polled with
  | failed message =>
    rw [hpolled] at h
    obtain ⟨-, h⟩ := Option.ite_none_right_eq_some.mp h
    obtain rfl := Option.some.inj h
    exact .inr (.inr ⟨_, rfl, nofun⟩)
  | broken e =>
    rw [hpolled] at h
    obtain rfl := Option.some.inj h
    exact .inl ⟨.inl ⟨e, rfl⟩, e, rfl⟩
  | job job =>
    rw [hpolled] at h
    simp only at h
    split at h
    · next hsucceeded => exact .inr (.inl ⟨⟨job, hpolled, hsucceeded⟩, (Option.some.inj h).symm⟩)
    · split at h
      · next hfailed =>
        obtain rfl := Option.some.inj h
        cases hdeep : tooDeep s (failureReason job) with
        | true =>
          refine .inl ⟨.inr ⟨job, hpolled, hfailed, hdeep⟩, .recursionError, ?_⟩
          simp only [shown, hdeep, if_true]
          rfl
        | false =>
          refine .inr (.inr ⟨.failed ((failureReason job).toText s.repr), ?_, nofun⟩)
          simp only [shown, hdeep, Bool.false_eq_true, if_false]
          rfl
      · split at h
        · obtain rfl := Option.some.inj h
          exact .inr (.inr ⟨_, rfl, nofun⟩)
        · obtain ⟨-, h⟩ := Option.ite_none_right_eq_some.mp h
          obtain rfl := Option.some.inj h
          exact .inr (.inr ⟨_, rfl, nofun⟩)

theorem mem_chunks {n : Nat} {ending : Ending} {message : Final} :
    .final message ∈ chunks n ending ↔ ending.result = .ok message := by
  unfold chunks
  cases ending.result with
  | error e => simp
  | ok last => simp [eq_comm]

theorem chunks_last {n : Nat} {ending : Ending} {message : Final} (h : ending.result = .ok message) :
    (chunks n ending).getLast? = some (.final message) ∧ (chunks n ending).countP Chunk.isFinal = 1 := by
  unfold chunks
  rw [h]
  constructor
  · simp [List.getLast?_cons]
  · rw [List.countP_cons, List.countP_append, List.countP_replicate]
    rfl

end

end ResultStream

open ResultStream in
/-- The stream has an explicit outcome if and only if every poll that it comes to is a job or has
failed, the reason of a job that has failed can be read, and the artifacts of a job that has succeeded
can be listed and its report is fetched by the one request that is made for it. -/
theorem result_stream_iff (s : ResultStream.Surroundings) : ExplicitOutcome s ↔ Legible s := by
  constructor
  · intro h n hreached
    have hends {ending : Ending} (hround : round s n = some ending) : ∃ message, ending.result = .ok message := by
      obtain ⟨message, hresult, -⟩ := h.ends (n + 1) _ ending
        (streamJobResult_eq_some.mpr ⟨n, Nat.lt_succ_self n, hreached, hround, rfl⟩)
      exact ⟨message, hresult⟩
    refine ⟨?_, ?_, ?_⟩
    · intro e hbroken
      have hround : round s n = some {result := .error e} := by
        unfold ResultStream.round
        rw [hbroken]
      obtain ⟨message, hresult⟩ := hends hround
      cases hresult
    · intro hunreadable
      obtain ⟨message, hresult⟩ := hends (round_unreadable hunreadable)
      cases hresult
    · intro hsucceeded
      obtain ⟨message, hresult⟩ := hends (round_succeeded hsucceeded)
      rcases delivered_result (s := s) with ⟨-, hdeliverable⟩ | ⟨⟨e, herror⟩, -⟩
      · exact hdeliverable
      · rw [herror] at hresult
        cases hresult
  · intro h
    have hdelivered {n : Nat} (hreached : Reached s n) (hsucceeded : SeenSucceeded s n) :
        ∃ text, (delivered s).result = .ok (.report text) := by
      rcases delivered_result (s := s) with ⟨hreport, -⟩ | ⟨-, hnot⟩
      · exact hreport
      · exact (hnot ((h n hreached).2.2 hsucceeded)).elim
    refine ⟨fun rounds yielded ending hstream => ?_, fun rounds yielded ending text hstream hmem => ?_,
      fun n hreached hsucceeded attempt report htime hreport => ?_⟩
    · obtain ⟨n, -, hreached, hround, rfl⟩ := streamJobResult_eq_some.mp hstream
      have hresult : ∃ message, ending.result = .ok message := by
        rcases round_cases hround with ⟨⟨e, hbroken⟩ | hunreadable, -⟩ | ⟨hsucceeded, rfl⟩ | ⟨message, hresult, -⟩
        · exact ((h n hreached).1 e hbroken).elim
        · exact ((h n hreached).2.1 hunreadable).elim
        · obtain ⟨text, hresult⟩ := hdelivered hreached hsucceeded
          exact ⟨_, hresult⟩
        · exact ⟨message, hresult⟩
      obtain ⟨message, hresult⟩ := hresult
      exact ⟨message, hresult, chunks_last hresult⟩
    · obtain ⟨n, -, hreached, hround, rfl⟩ := streamJobResult_eq_some.mp hstream
      rw [mem_chunks] at hmem
      rcases round_cases hround with ⟨-, e, hresult⟩ | ⟨hsucceeded, -⟩ | ⟨message, hresult, hother⟩
      · rw [hresult] at hmem
        cases hmem
      · exact ⟨n, hreached, hsucceeded⟩
      · rw [hresult] at hmem
        exact (hother text (Except.ok.inj hmem)).elim
    · obtain ⟨text, hresult⟩ := hdelivered hreached hsucceeded
      exact ⟨n + 1, _, delivered s, text, streamJobResult_eq_some.mpr
        ⟨n, Nat.lt_succ_self n, hreached, round_succeeded hsucceeded, rfl⟩, mem_chunks.mpr hresult⟩

namespace ResultStream.Sample

def answered (json : Value) : HttpAnswer := .answered {status := 200, json := some json}

/-- The job has succeeded, and the first request for its report fails. -/
def transient : Surroundings where
  jobId := .ofString "1"
  hasEmitter := false
  maxWaitSeconds := 60
  clock n := n
  polls _ := answered (.object [("state", .text "succeeded")])
  manifest := answered (.list [])
  contents _ := .failed []
  uploads _ := .failed []
  previews _ := .failed []
  reports attempt := if attempt = 0 then .failed (.ofString "connection reset") else .answered {status := 200}
  reportTimes attempt := attempt
  repr _ := []
  deep _ := false
  intOfText _ := none
  errorText _ := []

end ResultStream.Sample

open ResultStream in
/-- The stream then ends by an exception, and the report is lost. -/
theorem result_stream_lost : ¬ ExplicitOutcome ResultStream.Sample.transient := by
  intro h
  have hstream : streamJobResult Sample.transient 1 =
      some ([.started], {result := .error (.httpError (.ofString "connection reset"))}) := rfl
  obtain ⟨message, hresult, -⟩ := h.ends 1 _ _ hstream
  cases hresult

end ResearchGateway
