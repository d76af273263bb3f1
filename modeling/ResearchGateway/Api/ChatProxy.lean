import ResearchGateway.Api.Handlers
import ResearchGateway.Api.StreamUsage
import ResearchGateway.JobStepProofs

/-! The proxy for chat completions, up to the request to Open WebUI.

The endpoint looks up the capability of the model as a text, with the smart model for a value
that is falsy; the client then compares the value itself with the models of the job, and only
replaces a missing one. What gets through both is a model of the job, and the one whose
capability was looked up: a value that is no text is refused by the client, whatever its text
is, and so is a falsy one other than null. -/
namespace ResearchGateway
open Library

namespace ChatProxy

structure Settings where
  modelContextSafetyTokens : Nat := 256
  reasoningEffort : Option String := none

/-- What is built in or in other packages. -/
structure Python extends StreamUsage.Python where
  /-- `str` of a float, a list or a dictionary. -/
  repr : Value → Text
  /-- httpx writes the dictionary as a JSON body. -/
  writes : Fields → Bool

section
variable (py : Python)

/-- `_estimate_input_tokens`. -/
def estimateInputTokens (payload : Fields) : Option Nat :=
  (py.dumps (payload.getOr "messages" (.list []))).utf8Length?.map fun n => max 1 (StreamUsage.third n + 16)

/-! ### Admission -/

/-- `str(payload.get("model") or model_roles.smart)`. -/
def requestedModel (payload : Fields) (roles : ModelRoles) : Text :=
  ((payload.get "model").orElse (.text roles.smart)).toText py.repr

def capability? (capabilities : List ModelCapability) (requested : Text) : Option ModelCapability :=
  capabilities.reverse.find? fun capability => Text.ofString capability.id = requested

/-- `model_output_capacity`. -/
def outputCapacity (capability : ModelCapability) (estimatedInput safetyTokens : Nat) : Int :=
  capability.contextLength - (estimatedInput : Int) - safetyTokens

inductive Admission where
  | exhausted (failed : ResearchJob)
  | admitted (job : ResearchJob) (capability : ModelCapability)

/-- The transaction under the lock of the job. -/
def admission (H : Hashing) (settings : Settings) (now : Time) (jobId : JobId) (runnerToken : String)
    (payload : Fields) (estimatedInput : Nat) : Transaction Admission := do
  let job ← getForRunnerLocked H jobId runnerToken
  ensureActive job
  match capability? job.modelCapabilities (requestedModel py payload job.models) with
  | none => throw (.httpError 403
      "runner attempted to use a model outside the user's frozen model selection")
  | some capability =>
    if outputCapacity capability estimatedInput settings.modelContextSafetyTokens ≤ 0 then
      let failed ← markFailed H now jobId runnerToken
        (contextMessage estimatedInput capability.id capability)
      return .exhausted failed
    else return .admitted job capability

/-! ### The payload -/

def limitKeys : List String := ["max_tokens", "max_completion_tokens"]

def withReasoning (settings : Settings) (payload : Fields) : Fields :=
  match settings.reasoningEffort with
  | none => payload
  | some effort => assign payload (.ofString "reasoning_effort") (.text effort)

/-- `request_payload[key] = min(int(request_payload[key]), output_limit)`, for a key that is there. -/
def capLimit? (outputLimit : Int) (payload : Fields) (key : String) : Option Fields :=
  match payload.get? (.ofString key) with
  | none => some payload
  | some value =>
    (value.toInt? py.intOfText).map fun n => assign payload (.ofString key) (.int (min n outputLimit))

def foundOutputLimit (payload : Fields) : Bool :=
  limitKeys.any fun key => (payload.get? (.ofString key)).isSome

def orLimit (outputLimit : Int) (payload : Fields) : Fields :=
  if foundOutputLimit payload then payload else assign payload (.ofString "max_tokens") (.int outputLimit)

/-- `payload.get("stream") is True`. -/
def isStream (payload : Fields) : Bool :=
  match payload.get "stream" with
  | .bool b => b
  | _ => false

def withTransport (stream : Bool) (payload : Fields) : Fields :=
  if stream then
    let payload := assign payload (.ofString "stream") (.bool true)
    let options := (Fields.get payload "stream_options").fields?.getD []
    assign payload (.ofString "stream_options") (.dict (assign options (.ofString "include_usage") (.bool true)))
  else assign payload (.ofString "stream") (.bool false)

/-- `request_payload`; `none` where `int` raises. -/
def requestPayload? (settings : Settings) (capability : ModelCapability) (estimatedInput : Nat)
    (payload : Fields) : Option Fields :=
  let outputLimit := min (outputCapacity capability estimatedInput settings.modelContextSafetyTokens)
    capability.maxOutputTokens
  (limitKeys.foldlM (capLimit? py outputLimit) (withReasoning settings payload)).map fun capped =>
    withTransport (isStream payload) (orLimit outputLimit capped)

/-! ### The client -/

def allowedModels (roles : ModelRoles) : List String := [roles.fast, roles.smart, roles.strategic]

/-- `requested_model in allowed_models | {None}`. -/
def isAllowed? (roles : ModelRoles) (requested : Value) : Option Bool :=
  match requested with
  | .none => some true
  | value => value.memberOf? ((allowedModels roles).map .ofString)

inductive Reply where
  | finished (served : Served)
  | forwarded (stream : Bool) (proxied : Fields)

/-- `proxy_chat_completions` and `proxy_chat_completions_stream`, up to the request. -/
def proxyChatCompletions (stream : Bool) (payload : Fields) (roles : ModelRoles) : Reply :=
  match isAllowed? roles (payload.get "model") with
  | none => .finished .broken
  | some false => .finished (.replied 502)
  | some true =>
    let proxied := assign payload (.ofString "model") ((payload.get "model").orElse (.text roles.smart))
    if py.writes proxied then .forwarded stream proxied else .finished .broken

/-- What is forwarded for a job that was admitted. -/
def forward (settings : Settings) (job : ResearchJob) (capability : ModelCapability) (estimatedInput : Nat)
    (payload : Fields) : Reply :=
  match requestPayload? py settings capability estimatedInput payload with
  | none => .finished .broken
  | some request => proxyChatCompletions py (isStream payload) request job.models

/-- What follows from the transaction; a request that left no room is announced and refused. -/
def afterAdmission (settings : Settings) (estimatedInput : Nat) (payload : Fields) :
    Except Failure Admission → Reply
  | .error e => .finished (Served.of (fun _ => none) e)
  | .ok (.exhausted _) => .finished (.replied 422)
  | .ok (.admitted job capability) => forward py settings job capability estimatedInput payload

/-- `proxy_chat_completion`, up to the answer of Open WebUI. -/
def proxyChatCompletion (H : Hashing) (settings : Settings) (now : Time) (jobId : JobId)
    (runnerToken : String) (payload : Fields) (db : Database) : Reply × Database :=
  match estimateInputTokens py payload with
  | none => (.finished .broken, db)
  | some estimatedInput =>
    let committed := commit (admission py H settings now jobId runnerToken payload estimatedInput) db
    (afterAdmission py settings estimatedInput payload committed.1, committed.2)

end

/-! ### What is rewritten -/

/-- The keys that the gateway may write. -/
def rewrittenKeys : List String := limitKeys ++ ["model", "stream", "stream_options", "reasoning_effort"]

/-- Every other key has the value that it had. -/
def KeptBut (keys : List String) (payload payload' : Fields) : Prop :=
  ∀ key, key ∉ keys.map Text.ofString → payload'.get? key = payload.get? key

section
variable {keys more : List String} {payload payload' payload'' : Fields}

theorem get?_assign (payload : Fields) (key key' : Text) (value : Value) :
    Fields.get? (assign payload key value) key' = if key' = key then some value else payload.get? key' :=
  lookup_assign payload key key' value

theorem KeptBut.refl (keys : List String) (payload : Fields) : KeptBut keys payload payload := fun _ _ => rfl

theorem KeptBut.trans (h : KeptBut keys payload payload') (h' : KeptBut keys payload' payload'') :
    KeptBut keys payload payload'' := fun key hkey => (h' key hkey).trans (h key hkey)

theorem KeptBut.mono (h : KeptBut keys payload payload') (hsub : keys ⊆ more) :
    KeptBut more payload payload' := fun key hkey => h key fun hmem => hkey (List.map_subset _ hsub hmem)

theorem keptBut_assign (key : String) (value : Value) (h : key ∈ keys) :
    KeptBut keys payload (assign payload (.ofString key) value) := by
  intro key' hkey
  rw [get?_assign, if_neg]
  intro heq
  exact hkey (heq ▸ List.mem_map_of_mem h)

theorem withReasoning_kept (settings : Settings) :
    KeptBut ["reasoning_effort"] payload (withReasoning settings payload) := by
  unfold withReasoning
  cases settings.reasoningEffort with
  | none => exact .refl _ _
  | some effort => exact keptBut_assign _ _ (List.mem_singleton_self _)

theorem withTransport_kept (stream : Bool) :
    KeptBut ["stream", "stream_options"] payload (withTransport stream payload) := by
  unfold withTransport
  cases stream with
  | true => exact (keptBut_assign _ _ (by simp)).trans (keptBut_assign _ _ (by simp))
  | false => exact keptBut_assign _ _ (by simp)

end

/-! ### The limits -/

/-- Of the limits that are given, none is larger than this. -/
def Bounded (outputLimit : Int) (payload : Fields) : Prop :=
  ∀ key ∈ limitKeys, ∀ value, payload.get? (.ofString key) = some value → ∃ n ≤ outputLimit, value = .int n

section
variable {py : Python} {settings : Settings} {capability : ModelCapability} {outputLimit : Int}
  {estimatedInput : Nat} {payload payload' : Fields} {roles : ModelRoles}

theorem capLimit?_spec {key : String} (h : capLimit? py outputLimit payload key = some payload') :
    KeptBut [key] payload payload' ∧
      ∀ value, payload'.get? (.ofString key) = some value → ∃ n ≤ outputLimit, value = .int n := by
  unfold capLimit? at h
  cases hkey : payload.get? (.ofString key) with
  | none =>
    rw [hkey] at h
    obtain rfl := Option.some.inj h
    refine ⟨.refl _ _, fun value hvalue => ?_⟩
    rw [hkey] at hvalue
    cases hvalue
  | some old =>
    rw [hkey] at h
    obtain ⟨n, -, rfl⟩ := Option.map_eq_some_iff.mp h
    refine ⟨keptBut_assign key _ (List.mem_singleton_self key), fun value hvalue => ?_⟩
    rw [get?_assign, if_pos rfl] at hvalue
    exact ⟨_, min_le_right .., (Option.some.inj hvalue).symm⟩

/-- Both limits in turn. -/
theorem capLimits_spec (h : limitKeys.foldlM (capLimit? py outputLimit) payload = some payload') :
    KeptBut limitKeys payload payload' ∧ Bounded outputLimit payload' := by
  obtain ⟨first, hfirst, h⟩ := Option.bind_eq_some_iff.mp h
  obtain ⟨second, hsecond, h⟩ := Option.bind_eq_some_iff.mp h
  obtain rfl := Option.some.inj h
  obtain ⟨hkept₁, hbound₁⟩ := capLimit?_spec hfirst
  obtain ⟨hkept₂, hbound₂⟩ := capLimit?_spec hsecond
  refine ⟨(hkept₁.mono (by simp [limitKeys])).trans (hkept₂.mono (by simp [limitKeys])), ?_⟩
  intro key hkey value hvalue
  rcases List.mem_pair.mp hkey with rfl | rfl
  · rw [hkept₂ _ (by decide)] at hvalue
    exact hbound₁ value hvalue
  · exact hbound₂ value hvalue

theorem orLimit_spec (h : Bounded outputLimit payload) :
    KeptBut limitKeys payload (orLimit outputLimit payload) ∧ Bounded outputLimit (orLimit outputLimit payload) ∧
      foundOutputLimit (orLimit outputLimit payload) = true := by
  unfold orLimit
  split
  · next hfound => exact ⟨.refl _ _, h, hfound⟩
  · refine ⟨keptBut_assign _ _ (by simp [limitKeys]), fun key hkey value hvalue => ?_, ?_⟩
    · rw [get?_assign] at hvalue
      split at hvalue
      · exact ⟨_, le_rfl, (Option.some.inj hvalue).symm⟩
      · exact h key hkey value hvalue
    · rw [foundOutputLimit, List.any_eq_true]
      refine ⟨"max_tokens", by simp [limitKeys], ?_⟩
      rw [get?_assign, if_pos rfl]
      rfl

/-- The limits that the payload gives leave the request inside the window of the model. -/
structure WithinWindow (capability : ModelCapability) (estimatedInput safetyTokens : Nat)
    (payload : Fields) : Prop where
  limited : ∃ key ∈ limitKeys, (payload.get? (.ofString key)).isSome
  fits : ∀ key ∈ limitKeys, ∀ value, payload.get? (.ofString key) = some value →
    ∃ limit : Int, value = .int limit ∧ estimatedInput + safetyTokens + limit ≤ capability.contextLength ∧
      limit ≤ capability.maxOutputTokens

theorem WithinWindow.congr {safetyTokens : Nat} (h : WithinWindow capability estimatedInput safetyTokens payload)
    (hlimits : ∀ key ∈ limitKeys, payload'.get? (.ofString key) = payload.get? (.ofString key)) :
    WithinWindow capability estimatedInput safetyTokens payload' := by
  obtain ⟨key, hkey, hsome⟩ := h.limited
  refine ⟨⟨key, hkey, by rwa [hlimits key hkey]⟩, fun key hkey value hvalue => ?_⟩
  rw [hlimits key hkey] at hvalue
  exact h.fits key hkey value hvalue

/-- What is handed to the client. -/
theorem requestPayload?_spec (h : requestPayload? py settings capability estimatedInput payload = some payload') :
    KeptBut (limitKeys ++ ["stream", "stream_options", "reasoning_effort"]) payload payload' ∧
      WithinWindow capability estimatedInput settings.modelContextSafetyTokens payload' := by
  obtain ⟨capped, hcapped, rfl⟩ := Option.map_eq_some_iff.mp h
  obtain ⟨hkept, hbound⟩ := capLimits_spec hcapped
  obtain ⟨horKept, horBound, hfound⟩ := orLimit_spec hbound
  have htransport := @withTransport_kept (orLimit (min (outputCapacity capability estimatedInput
    settings.modelContextSafetyTokens) capability.maxOutputTokens) capped) (isStream payload)
  constructor
  · refine ((withReasoning_kept settings).mono ?_).trans ((hkept.mono ?_).trans
      ((horKept.mono ?_).trans (htransport.mono ?_))) <;> simp [limitKeys]
  · refine WithinWindow.congr ⟨?_, fun key hkey value hvalue => ?_⟩
      (fun key hkey => htransport _ ?_)
    · simpa only [foundOutputLimit, List.any_eq_true] using hfound
    · obtain ⟨n, hn, rfl⟩ := horBound key hkey value hvalue
      have hwindow := le_min_iff.mp hn
      refine ⟨n, rfl, ?_, hwindow.2⟩
      have hcapacity := hwindow.1
      unfold outputCapacity at hcapacity
      omega
    · rcases List.mem_pair.mp hkey with rfl | rfl <;> decide

/-- The client forwards a model of the job: the text that was asked for, or the smart one. -/
theorem proxyChatCompletions_forwarded {stream stream' : Bool} {proxied : Fields}
    (h : proxyChatCompletions py stream payload roles = .forwarded stream' proxied) :
    ∃ model ∈ allowedModels roles, (payload.get "model").orElse (.text roles.smart) = .text model ∧
      proxied = assign payload (.ofString "model") (.text model) := by
  unfold proxyChatCompletions at h
  cases hallowed : isAllowed? roles (payload.get "model") with
  | none =>
    rw [hallowed] at h
    cases h
  | some allowed =>
    rw [hallowed] at h
    cases allowed with
    | false => cases h
    | true =>
      have hmodel : ∃ model ∈ allowedModels roles,
          (payload.get "model").orElse (.text roles.smart) = .text model := by
        cases hvalue : payload.get "model" with
        | none => exact ⟨roles.smart, by simp [allowedModels], rfl⟩
        | str t =>
          rw [hvalue] at hallowed
          obtain ⟨model, hmem, rfl⟩ := List.mem_map.mp (of_decide_eq_true (Option.some.inj hallowed))
          unfold Value.orElse
          split
          · exact ⟨model, hmem, rfl⟩
          · exact ⟨roles.smart, by simp [allowedModels], rfl⟩
        | _ =>
          rw [hvalue] at hallowed
          cases hallowed
      obtain ⟨model, hmem, horElse⟩ := hmodel
      refine ⟨model, hmem, horElse, ?_⟩
      simp only [horElse] at h
      split at h
      · cases h
        rfl
      · cases h

end

/-! ### The transaction -/

/-- The usage of a job, if there is one. -/
def usageRow (db : Database) (j : JobId) : Option (Option Dict) := (db.job? j).map ResearchJob.usage

section
variable {py : Python} {H : Hashing} {settings : Settings} {now : Time} {jobId : JobId} {token : String}
  {payload : Fields} {estimatedInput : Nat} {db db' : Database}

theorem usageRow_write {w : Write} (job : ResearchJob) (hj : db.job? w.job.id = some job)
    (husage : w.job.usage = job.usage) (j : JobId) : usageRow (db.write w) j = usageRow db j := by
  unfold usageRow
  by_cases hid : w.job.id = j
  · obtain rfl := hid
    rw [Database.job?_write hj (Database.id_of_job? hj).symm, hj, Option.map_some, Option.map_some, husage]
  · have hother := congrArg Slice.job (Database.slice_write_other db w hid)
    exact congrArg (Option.map ResearchJob.usage) hother

theorem markFailed_usage {error : String} {failed : ResearchJob}
    (h : markFailed H now jobId token error db = .ok (failed, db')) (j : JobId) :
    usageRow db' j = usageRow db j := by
  obtain ⟨job, _, hrow, hfail⟩ := ok_bind h
  obtain ⟨rfl, hj, -⟩ := ok_runner hrow
  have hid : job.id = jobId := Database.id_of_job? hj
  rcases ok_ite hfail with ⟨-, hfail⟩ | ⟨-, hfail⟩
  · obtain ⟨-, rfl⟩ := ok_saved now hfail
    have hkept : (revokeToken now job).usage = job.usage ∧ (revokeToken now job).id = job.id :=
      revokeToken_rule (P := fun after => after.usage = job.usage ∧ after.id = job.id) ⟨rfl, rfl⟩ ⟨rfl, rfl⟩
    exact usageRow_write job (by rw [hkept.2, hid, hj]) hkept.1 j
  · rcases ok_ite hfail with ⟨-, hfail⟩ | ⟨-, hbad⟩
    · rcases ok_ite hfail with ⟨-, hfail⟩ | ⟨-, hbad⟩
      · obtain ⟨-, rfl⟩ := ok_written hfail
        exact usageRow_write job (show db.job? job.id = some job by rw [hid, hj]) rfl j
      · exact (ok_throw hbad).elim
    · exact (ok_throw hbad).elim

/-! The transaction is the admission of the control plane, for the model that the payload names. -/

def Admission.failure? : Admission → Option ResearchJob
  | .exhausted failed => some failed
  | .admitted _ _ => none

theorem requestedModel_text {model : Option String} (h : payload.get "model" = model.elim .none .text)
    (job : ResearchJob) :
    requestedModel py payload job.models = .ofString (ResearchGateway.requestedModel job model) := by
  unfold requestedModel ResearchGateway.requestedModel
  rw [h]
  cases model with
  | none => rfl
  | some model =>
    simp only [Option.elim_some, orDefault]
    by_cases hempty : model = ""
    · rw [if_pos hempty, hempty]
      rfl
    · have htruthy : (Value.text model).truthy = true := by
        show (!(Text.ofString model).isEmpty) = true
        simpa [Text.ofString] using hempty
      rw [if_neg hempty, Value.orElse, if_pos htruthy]
      rfl

theorem capability?_text (job : ResearchJob) (model : String) :
    capability? job.modelCapabilities (.ofString model) = capabilityOf? job model := by
  unfold capability? capabilityOf?
  simp only [Text.ofString_injective.eq_iff]

theorem admission_chatAdmission {model : Option String} (h : payload.get "model" = model.elim .none .text) :
    Admission.failure? <$> admission py H settings now jobId token payload estimatedInput =
      chatAdmission H now jobId token model estimatedInput settings.modelContextSafetyTokens := by
  unfold admission chatAdmission
  simp only [map_bind, requestedModel_text h, capability?_text, outputCapacity]
  refine congrArg _ (funext fun job => congrArg _ (funext fun _ => ?_))
  cases hc : capabilityOf? job (ResearchGateway.requestedModel job model) with
  | none => rfl
  | some capability =>
    have hid : capability.id = ResearchGateway.requestedModel job model := by
      have hfound := List.find?_some hc
      exact of_decide_eq_true hfound
    simp only [hid]
    split
    · simp only [map_bind]
      rfl
    · rfl

/-- What the transaction found, and that no usage is written. -/
theorem admission_ok {admitted : Admission}
    (h : admission py H settings now jobId token payload estimatedInput db = .ok (admitted, db')) :
    (∀ j, usageRow db' j = usageRow db j) ∧ ∀ job capability, admitted = .admitted job capability →
      db.job? jobId = some job ∧
        capability? job.modelCapabilities (requestedModel py payload job.models) = some capability := by
  obtain ⟨job, _, hrow, hadmit⟩ := ok_bind h
  obtain ⟨rfl, hj, -⟩ := ok_runner hrow
  obtain ⟨_, _, hactive, hadmit⟩ := ok_bind hadmit
  obtain ⟨-, rfl⟩ := ensureActive_ok hactive
  cases hc : capability? job.modelCapabilities (requestedModel py payload job.models) with
  | none =>
    simp only [hc] at hadmit
    exact (ok_throw hadmit).elim
  | some capability =>
    simp only [hc] at hadmit
    rcases ok_ite hadmit with ⟨-, hfail⟩ | ⟨-, hret⟩
    · obtain ⟨_, _, hmark, hret⟩ := ok_bind hfail
      obtain ⟨rfl, rfl⟩ := ok_pure hret
      refine ⟨markFailed_usage hmark, fun _ _ hsame => ?_⟩
      cases hsame
    · obtain ⟨rfl, rfl⟩ := ok_pure hret
      refine ⟨fun _ => rfl, fun job' capability' hsame => ?_⟩
      cases hsame
      exact ⟨hj, hc⟩

end

/-- A request that is forwarded is inside the selection and the window of the job. -/
structure Inside (py : Python) (settings : Settings) (db : Database) (jobId : JobId)
    (payload proxied : Fields) : Prop where
  kept : KeptBut rewrittenKeys payload proxied
  selected : ∃ job model capability estimatedInput, db.job? jobId = some job ∧
    estimateInputTokens py payload = some estimatedInput ∧
    capability? job.modelCapabilities (requestedModel py payload job.models) = some capability ∧
    model ∈ allowedModels job.models ∧ capability.id = model ∧ proxied.get? (.ofString "model") = some (.text model) ∧
    WithinWindow capability estimatedInput settings.modelContextSafetyTokens proxied

theorem forward_inside {py : Python} {settings : Settings} {db : Database} {jobId : JobId} {job : ResearchJob}
    {capability : ModelCapability} {estimatedInput : Nat} {payload proxied : Fields} {stream : Bool}
    (hj : db.job? jobId = some job) (hestimated : estimateInputTokens py payload = some estimatedInput)
    (hcapability :
      capability? job.modelCapabilities (requestedModel py payload job.models) = some capability)
    (h : forward py settings job capability estimatedInput payload = .forwarded stream proxied) :
    Inside py settings db jobId payload proxied := by
  unfold forward at h
  cases hrequest : requestPayload? py settings capability estimatedInput payload with
  | none =>
    rw [hrequest] at h
    cases h
  | some request =>
    rw [hrequest] at h
    obtain ⟨hkept, hwindow⟩ := requestPayload?_spec hrequest
    obtain ⟨model, hmem, hmodel, rfl⟩ := proxyChatCompletions_forwarded h
    have hmodelKept := @keptBut_assign ["model"] request "model" (.text model)
      (List.mem_singleton_self _)
    -- The client sees the value that the endpoint has looked up.
    have hsame : request.get "model" = payload.get "model" :=
      congrArg (fun value => value.getD .none) (hkept (.ofString "model") (by decide))
    have hid : capability.id = model := by
      have hfound := List.find?_some hcapability
      rw [decide_eq_true_eq, requestedModel, ← hsame, hmodel] at hfound
      exact Text.ofString_injective hfound
    refine ⟨(hkept.mono ?_).trans (hmodelKept.mono ?_), job, model, capability, estimatedInput, hj, hestimated,
      hcapability, hmem, hid, by rw [get?_assign, if_pos rfl], hwindow.congr fun key hkey => hmodelKept _ ?_⟩
    · simp [rewrittenKeys]
    · simp [rewrittenKeys]
    · rcases List.mem_pair.mp hkey with rfl | rfl <;> decide

end ChatProxy

open ChatProxy in
/-- What the proxy forwards is inside the selection and the window, and nothing is charged before. -/
theorem chat_forwarding (py : ChatProxy.Python) (H : Hashing) (settings : ChatProxy.Settings) (now : Time)
    (jobId : JobId) (runnerToken : String) (payload : Fields) (db : Database) :
    let served := proxyChatCompletion py H settings now jobId runnerToken payload db
    (∀ stream proxied, served.1 = .forwarded stream proxied → Inside py settings db jobId payload proxied) ∧
      ∀ j, usageRow served.2 j = usageRow db j := by
  intro served
  cases hestimated : estimateInputTokens py payload with
  | none =>
    have hserved : served = (.finished .broken, db) := by
      unfold served proxyChatCompletion
      rw [hestimated]
    rw [hserved]
    exact ⟨nofun, fun _ => rfl⟩
  | some estimatedInput =>
    have hserved : served =
        let committed := commit (admission py H settings now jobId runnerToken payload estimatedInput) db
        (afterAdmission py settings estimatedInput payload committed.1, committed.2) := by
      unfold served proxyChatCompletion
      rw [hestimated]
    rw [hserved]
    cases hadmission : admission py H settings now jobId runnerToken payload estimatedInput db with
    | error e =>
      rw [commit_error hadmission]
      exact ⟨nofun, fun _ => rfl⟩
    | ok p =>
      obtain ⟨husage, hadmitted⟩ := admission_ok hadmission
      rw [commit_ok hadmission]
      refine ⟨fun stream proxied hforward => ?_, husage⟩
      cases hp : p.1 with
      | exhausted failed =>
        rw [hp] at hforward
        cases hforward
      | admitted job capability =>
        rw [hp] at hforward
        obtain ⟨hj, hcapability⟩ := hadmitted job capability hp
        exact forward_inside hj hestimated hcapability hforward

def Sample.chatPython : ChatProxy.Python where
  loads _ := .malformed
  intOfText _ := none
  dumps _ := .ofString "[]"
  repr _ := []
  writes _ := true

open ChatProxy in
/-- A limit above that of the model is lowered. -/
example :
    (match (proxyChatCompletion Sample.chatPython Sample.hashing {} 3 1 "token"
        [(.ofString "max_completion_tokens", .int 100000), (.ofString "n", .int 1)]
        (after Sample.hashing Sample.started)).1 with
      | .forwarded _ proxied =>
        (Fields.get proxied "max_completion_tokens").isNumber 1024 && (Fields.get proxied "model").isText "model"
      | .finished _ => false) = true := by
  decide +kernel

end ResearchGateway
