import ResearchGateway.SaveToKnowledge

/-! What the action that saves a report asks, and why. -/
namespace ResearchGateway
open Library Dialog

namespace SaveToKnowledge
open ResultStream (HttpResponse isTextual)
open FunctionCalls

/-! ### Reasons -/

section
variable (inv : Invocation) (said : List (Call × Answer))

/-- The request was made, and answered with success. -/
def Replied (call : Call) (response : HttpResponse) : Prop :=
  ∃ answer, (call, answer) ∈ said ∧ checked answer.reply = .ok response

/-- The user was asked, and gave the value. -/
def Gave (call : Call) (value : Value) : Prop := ∃ answer, (call, answer) ∈ said ∧ answer.value = some value

/-- The request made something that has the id. -/
def Made (call : Call) (id : Text) : Prop :=
  ∃ response payload fields, Replied said call response ∧ response.json = some payload ∧
    identified inv payload = some (fields, id)

/-- The body names the job, or names none and the service knows the message to be of the job. -/
def IsJob (jobId : Text) : Prop :=
  jobIdOf inv.serialized = some jobId ∨
    jobIdOf inv.serialized = none ∧ ∃ chatId messageId response payload, messageOf inv = some (chatId, messageId) ∧
      Replied said (.resolveJob chatId messageId) response ∧ response.json = some payload ∧
      succeededJob inv payload = some (some jobId)

/-- It is known of which job the message is. -/
def Resolved : Prop := ∃ jobId, IsJob inv said jobId

/-- The files of the message are these. -/
def HasFiles (files : List Fields) : Prop :=
  messageOf inv = none ∧ files = [] ∨
    ∃ chatId messageId response payload, messageOf inv = some (chatId, messageId) ∧
      Replied said (.getChat chatId) response ∧ response.json = some payload ∧ filesOf messageId payload = some files

def Attached (fileId : Text) : Prop := ∃ files, HasFiles inv said files ∧ attachedReportId inv files = some fileId

def Unattached : Prop := ∃ files, HasFiles inv said files ∧ attachedReportId inv files = none

/-- A page of the collections shows this one, which the user may write to. -/
def Listed (knowledge : Knowledge) : Prop :=
  ∃ number response payload page item, Replied said (.listKnowledge number) response ∧ response.json = some payload ∧
    pageOf payload = some page ∧ item ∈ page.items ∧ writableItem? inv item = some knowledge

/-- The user gave a new collection this name. -/
def NamedNew (name : Text) : Prop := ∃ t, Gave said .nameKnowledge (.str t) ∧ name = t.strip ∧ name ≠ []

/-- The user chose a collection that was listed; what the spaces around its id leave is this. -/
def ChoseListed (id : Text) : Prop :=
  ∃ knowledge choices, Listed inv said knowledge ∧ Gave said (.chooseKnowledge choices) (.str knowledge.id) ∧
    id = knowledge.id.strip ∧ id ≠ []

/-- The file has the bytes that the service gives for the report of the job. -/
def Uploaded (fileId : Text) : Prop :=
  ∃ jobId response mediaType, IsJob inv said jobId ∧ Replied said (.fetchReport jobId) response ∧
    Made inv said (.uploadReport jobId response.content mediaType) fileId

def IsReport (fileId : Text) : Prop := Attached inv said fileId ∨ Unattached inv said ∧ Uploaded inv said fileId

/-- The user has said where the report is to be. -/
def Decided : Prop := (∃ name, NamedNew said name) ∨ ∃ id, ChoseListed inv said id

/-- The reason that there must be for a call in what was said before. -/
def Justified : Call → Prop
  | .resolveJob chatId messageId => jobIdOf inv.serialized = none ∧ messageOf inv = some (chatId, messageId)
  | .getChat chatId => Resolved inv said ∧ ∃ messageId, messageOf inv = some (chatId, messageId)
  | .listKnowledge _ | .nameKnowledge => Resolved inv said
  | .chooseKnowledge choices => Resolved inv said ∧
      ∀ choice ∈ choices.tail, ∃ knowledge, Listed inv said knowledge ∧ choice.2 = knowledge.id
  | .fetchReport jobId => IsJob inv said jobId ∧ Unattached inv said ∧ Decided inv said
  | .uploadReport jobId content _ => Unattached inv said ∧ Decided inv said ∧
      IsJob inv said jobId ∧ ∃ response, Replied said (.fetchReport jobId) response ∧ content = response.content
  | .setPreview fileId content => ∃ jobId response mediaType, IsJob inv said jobId ∧
      Replied said (.fetchReport jobId) response ∧ response.decoded = some content ∧
      Made inv said (.uploadReport jobId response.content mediaType) fileId
  | .createKnowledge name => Resolved inv said ∧ NamedNew said name ∧ ∃ fileId, IsReport inv said fileId
  | .addFile knowledgeId fileId => Resolved inv said ∧ IsReport inv said fileId ∧
      ((∃ name, NamedNew said name ∧ Made inv said (.createKnowledge name) knowledgeId) ∨
        ChoseListed inv said knowledgeId)
  | .notify .. => True

end

/-! ### The order of the writes -/

/-- The place of a write among the writes. -/
def Call.place? : Call → Option Nat
  | .uploadReport .. => some 0
  | .setPreview .. => some 1
  | .createKnowledge _ => some 2
  | .addFile .. => some 3
  | _ => none

/-- The writes until now come before the place. -/
def WritesBefore (said : List (Call × Answer)) (n : Nat) : Prop :=
  ∀ exchange ∈ said, ∀ m, exchange.1.place? = some m → m < n

/-- A call with its reason and in its place. -/
structure Sound (inv : Invocation) (said : List (Call × Answer)) (call : Call) : Prop where
  justified : Justified inv said call
  ordered : ∀ n, call.place? = some n → WritesBefore said n

/-- Nothing was added to a collection. -/
def NotAdded (said : List (Call × Answer)) : Prop :=
  ∀ knowledgeId fileId response, ¬ Replied said (.addFile knowledgeId fileId) response

section
variable {inv : Invocation} {said said' : List (Call × Answer)} {call : Call} {response : HttpResponse} {n m : Nat}

theorem Replied.mono (h : Replied said call response) (hsaid : said <+: said') : Replied said' call response := by
  obtain ⟨answer, hmem, hreply⟩ := h
  exact ⟨answer, hsaid.subset hmem, hreply⟩

theorem Gave.mono {value : Value} (h : Gave said call value) (hsaid : said <+: said') : Gave said' call value := by
  obtain ⟨answer, hmem, hvalue⟩ := h
  exact ⟨answer, hsaid.subset hmem, hvalue⟩

theorem Made.mono {id : Text} (h : Made inv said call id) (hsaid : said <+: said') : Made inv said' call id := by
  obtain ⟨response, payload, fields, hreplied, hrest⟩ := h
  exact ⟨response, payload, fields, hreplied.mono hsaid, hrest⟩

theorem IsJob.mono {jobId : Text} (h : IsJob inv said jobId) (hsaid : said <+: said') : IsJob inv said' jobId := by
  rcases h with h | ⟨hnone, chatId, messageId, response, payload, hmessage, hreplied, hrest⟩
  · exact .inl h
  · exact .inr ⟨hnone, chatId, messageId, response, payload, hmessage, hreplied.mono hsaid, hrest⟩

theorem Resolved.mono (h : Resolved inv said) (hsaid : said <+: said') : Resolved inv said' := by
  obtain ⟨jobId, hjob⟩ := h
  exact ⟨jobId, hjob.mono hsaid⟩

theorem HasFiles.mono {files : List Fields} (h : HasFiles inv said files) (hsaid : said <+: said') :
    HasFiles inv said' files := by
  rcases h with h | ⟨chatId, messageId, response, payload, hmessage, hreplied, hrest⟩
  · exact .inl h
  · exact .inr ⟨chatId, messageId, response, payload, hmessage, hreplied.mono hsaid, hrest⟩

theorem Listed.mono {knowledge : Knowledge} (h : Listed inv said knowledge) (hsaid : said <+: said') :
    Listed inv said' knowledge := by
  obtain ⟨number, response, payload, page, item, hreplied, hrest⟩ := h
  exact ⟨number, response, payload, page, item, hreplied.mono hsaid, hrest⟩

theorem NamedNew.mono {name : Text} (h : NamedNew said name) (hsaid : said <+: said') : NamedNew said' name := by
  obtain ⟨t, hgave, hrest⟩ := h
  exact ⟨t, hgave.mono hsaid, hrest⟩

theorem ChoseListed.mono {id : Text} (h : ChoseListed inv said id) (hsaid : said <+: said') : ChoseListed inv said' id := by
  obtain ⟨knowledge, choices, hlisted, hgave, hrest⟩ := h
  exact ⟨knowledge, choices, hlisted.mono hsaid, hgave.mono hsaid, hrest⟩

theorem Decided.mono (h : Decided inv said) (hsaid : said <+: said') : Decided inv said' :=
  h.imp (fun ⟨name, hname⟩ => ⟨name, hname.mono hsaid⟩) fun ⟨id, hid⟩ => ⟨id, hid.mono hsaid⟩

theorem Unattached.mono (h : Unattached inv said) (hsaid : said <+: said') : Unattached inv said' := by
  obtain ⟨files, hfiles, hnone⟩ := h
  exact ⟨files, hfiles.mono hsaid, hnone⟩

theorem Uploaded.mono {fileId : Text} (h : Uploaded inv said fileId) (hsaid : said <+: said') : Uploaded inv said' fileId := by
  obtain ⟨jobId, response, mediaType, hjob, hreplied, hmade⟩ := h
  exact ⟨jobId, response, mediaType, hjob.mono hsaid, hreplied.mono hsaid, hmade.mono hsaid⟩

theorem IsReport.mono {fileId : Text} (h : IsReport inv said fileId) (hsaid : said <+: said') : IsReport inv said' fileId := by
  rcases h with ⟨files, hfiles, hattached⟩ | ⟨hunattached, huploaded⟩
  · exact .inl ⟨files, hfiles.mono hsaid, hattached⟩
  · exact .inr ⟨hunattached.mono hsaid, huploaded.mono hsaid⟩

theorem WritesBefore.mono (h : WritesBefore said n) (hle : n ≤ m) : WritesBefore said m :=
  fun exchange hexchange k hk => Nat.lt_of_lt_of_le (h exchange hexchange k hk) hle

theorem WritesBefore.snoc {answer : Answer} (h : WritesBefore said n) (hcall : ∀ k, call.place? = some k → k < n) :
    WritesBefore (said ++ [(call, answer)]) n := by
  intro exchange hexchange k hk
  rcases List.mem_append.mp hexchange with hexchange | hexchange
  · exact h exchange hexchange k hk
  · obtain rfl := List.mem_singleton.mp hexchange
    exact hcall k hk

theorem WritesBefore.notAdded (h : WritesBefore said n) (hn : n ≤ 3) : NotAdded said := by
  rintro knowledgeId fileId response ⟨answer, hmem, -⟩
  exact absurd (h _ hmem 3 rfl) (by omega)

theorem replied_snoc {answer : Answer} (h : checked answer.reply = .ok response) :
    Replied (said ++ [(call, answer)]) call response :=
  ⟨answer, List.mem_append_right _ (List.mem_singleton_self _), h⟩

theorem replied_snoc_iff {call' : Call} {answer : Answer} : Replied (said ++ [(call', answer)]) call response ↔
    Replied said call response ∨ call = call' ∧ checked answer.reply = .ok response := by
  constructor
  · rintro ⟨answer', hmem, hreply⟩
    rcases List.mem_append.mp hmem with hmem | hmem
    · exact .inl ⟨answer', hmem, hreply⟩
    · obtain ⟨rfl, rfl⟩ := Prod.mk.inj (List.mem_singleton.mp hmem)
      exact .inr ⟨rfl, hreply⟩
  · rintro (h | ⟨rfl, hreply⟩)
    · exact h.mono (List.prefix_append ..)
    · exact replied_snoc hreply

theorem gave_snoc {answer : Answer} {value : Value} (h : answer.value = some value) :
    Gave (said ++ [(call, answer)]) call value :=
  ⟨answer, List.mem_append_right _ (List.mem_singleton_self _), h⟩

end

/-! ### Along the program -/

/-- The calls are sound, and where the program raises nothing was added. -/
abbrev Safe {α : Type} (inv : Invocation) (said : List (Call × Answer)) (F : List (Call × Answer) → α → Prop)
    (d : Action α) : Prop :=
  Keeps (Sound inv) (Ends NotAdded F) said d

section
variable {inv : Invocation} {said : List (Call × Answer)} {call : Call} {n m : Nat} {α : Type}

theorem safe_pure {F : List (Call × Answer) → α → Prop} {a : α} (h : F said a) : Safe inv said F (pure a) := h

section
variable {β : Type} {F : List (Call × Answer) → β → Prop} {f : α → Action β}

theorem safe_done_bind {value : Except CallError α} (hbefore : WritesBefore said n) (hn : n ≤ 3)
    (h : ∀ a, value = .ok a → Safe inv said F (f a)) : Safe inv said F (.done value >>= f) := by
  cases value with
  | error e => exact hbefore.notAdded hn
  | ok a => exact h a rfl

theorem safe_orRaise_bind {value : Option α} (hbefore : WritesBefore said n) (hn : n ≤ 3)
    (h : ∀ a, value = some a → Safe inv said F (f a)) : Safe inv said F (orRaise value >>= f) := by
  cases value with
  | none => exact hbefore.notAdded hn
  | some a => exact h a rfl

end

theorem safe_orRaise {F : List (Call × Answer) → α → Prop} {value : Option α} (hbefore : WritesBefore said n) (hn : n ≤ 3)
    (h : ∀ a, value = some a → F said a) : Safe inv said F (orRaise value) := by
  cases value with
  | none => exact hbefore.notAdded hn
  | some a => exact h a rfl

/-- A call that is justified, after the writes before place `m`, and no later write than `n`. -/
theorem sound_call (hjustified : Justified inv said call) (hbefore : WritesBefore said m)
    (hplace : ∀ k, call.place? = some k → m ≤ k) : Sound inv said call :=
  ⟨hjustified, fun k hk => hbefore.mono (hplace k hk)⟩

section
variable {β : Type} {F : List (Call × Answer) → β → Prop}

theorem safe_request_bind {f : HttpResponse → Action β} (hjustified : Justified inv said call) (hbefore : WritesBefore said m)
    (hmn : m ≤ n) (hn : n ≤ 3) (hplace : ∀ k, call.place? = some k → m ≤ k ∧ k < n)
    (h : ∀ said' response, said <+: said' → Replied said' call response → WritesBefore said' n →
      Safe inv said' F (f response)) : Safe inv said F (request call >>= f) := by
  have hrequest : Safe inv said (fun said' response => Replied said' call response ∧ WritesBefore said' n) (request call) := by
    refine ⟨sound_call hjustified hbefore fun k hk => (hplace k hk).1, fun answer => ?_⟩
    have hafter : WritesBefore (said ++ [(call, answer)]) n := (hbefore.mono hmn).snoc fun k hk => (hplace k hk).2
    show Ends _ _ _ (checked answer.reply)
    cases hreply : checked answer.reply with
    | ok response => exact ⟨replied_snoc hreply, hafter⟩
    | error e => exact hafter.notAdded hn
  exact hrequest.andThen fun said' response hsaid hresponse => h said' response hsaid hresponse.1 hresponse.2

/-- A request that writes nothing. -/
theorem safe_read_bind {f : HttpResponse → Action β} (hjustified : Justified inv said call) (hbefore : WritesBefore said n)
    (hn : n ≤ 3) (hplace : call.place? = none)
    (h : ∀ said' response, said <+: said' → Replied said' call response → WritesBefore said' n →
      Safe inv said' F (f response)) : Safe inv said F (request call >>= f) :=
  safe_request_bind hjustified hbefore (Nat.le_refl n) hn (by simp [hplace]) h

end

theorem safe_eventCall (hjustified : Justified inv said call) (hbefore : WritesBefore said n) (hn : n ≤ 3)
    (hplace : call.place? = none) :
    Safe inv said (fun said' value => Gave said' call value ∧ WritesBefore said' n) (eventCall call) := by
  have hnone : ∀ k, call.place? ≠ some k := by simp [hplace]
  refine ⟨sound_call hjustified hbefore fun k hk => absurd hk (hnone k), fun answer => ?_⟩
  have hafter : WritesBefore (said ++ [(call, answer)]) n := hbefore.snoc fun k hk => absurd hk (hnone k)
  exact safe_orRaise hafter hn fun value hvalue => ⟨gave_snoc hvalue, hafter⟩

theorem resolveJobId_safe (hnone : jobIdOf inv.serialized = none) (hbefore : WritesBefore said n) (hn : n ≤ 3) :
    Safe inv said (fun said' jobId? => (∀ jobId, jobId? = some jobId → IsJob inv said' jobId) ∧ WritesBefore said' n)
      (resolveJobId inv) := by
  unfold resolveJobId
  cases hmessage : messageOf inv with
  | none =>
    refine safe_pure ⟨fun jobId hjob => ?_, hbefore⟩
    cases hjob
  | some message =>
    obtain ⟨chatId, messageId⟩ := message
    simp only [question_bind]
    refine ⟨sound_call ⟨hnone, hmessage⟩ hbefore (by simp [Call.place?]), fun answer => ?_⟩
    have hafter : WritesBefore (said ++ [(.resolveJob chatId messageId, answer)]) n := hbefore.snoc (by simp [Call.place?])
    refine safe_done_bind hafter hn fun response hreceived => ?_
    split
    · refine safe_pure ⟨fun jobId hjob => ?_, hafter⟩
      cases hjob
    refine safe_done_bind hafter hn fun response' hsuccessful => ?_
    refine safe_orRaise_bind hafter hn fun payload hpayload => ?_
    refine safe_orRaise hafter hn fun jobId? hjob => ⟨fun jobId heq => ?_, hafter⟩
    have hreplied : checked answer.reply = .ok response' := by
      rw [checked, hreceived]
      exact hsuccessful
    exact .inr ⟨hnone, chatId, messageId, response', payload, hmessage, replied_snoc hreplied, hpayload, heq ▸ hjob⟩

theorem messageFiles_safe (hresolved : Resolved inv said) (hbefore : WritesBefore said n) (hn : n ≤ 3) :
    Safe inv said (fun said' files => HasFiles inv said' files ∧ WritesBefore said' n) (messageFiles inv) := by
  unfold messageFiles
  cases hmessage : messageOf inv with
  | none => exact safe_pure ⟨.inl ⟨hmessage, rfl⟩, hbefore⟩
  | some message =>
    obtain ⟨chatId, messageId⟩ := message
    refine safe_read_bind ⟨hresolved, messageId, hmessage⟩ hbefore hn rfl fun said' response _ hreplied hafter => ?_
    refine safe_orRaise_bind hafter hn fun payload hpayload => ?_
    refine safe_orRaise hafter hn fun files hfiles => ⟨?_, hafter⟩
    exact .inr ⟨chatId, messageId, response, payload, hmessage, hreplied, hpayload, hfiles⟩

theorem writableFrom_safe (fuel number seen : Nat) (writable : List Knowledge) (hresolved : Resolved inv said)
    (hbefore : WritesBefore said n) (hn : n ≤ 3) (hlisted : ∀ knowledge ∈ writable, Listed inv said knowledge) :
    Safe inv said (fun said' listed => (∀ knowledge ∈ listed, Listed inv said' knowledge) ∧ WritesBefore said' n)
      (writableFrom inv fuel number seen writable) := by
  induction fuel generalizing said number seen writable with
  | zero => exact hbefore.notAdded hn
  | succ fuel ih =>
    rw [writableFrom]
    refine safe_read_bind hresolved hbefore hn rfl fun said' response hsaid hreplied hafter => ?_
    refine safe_orRaise_bind hafter hn fun payload hpayload => ?_
    refine safe_orRaise_bind hafter hn fun page hpage => ?_
    have hmore : ∀ knowledge ∈ writable ++ page.items.filterMap (writableItem? inv), Listed inv said' knowledge := by
      intro knowledge hknowledge
      rcases List.mem_append.mp hknowledge with hold | hnew
      · exact (hlisted knowledge hold).mono hsaid
      · obtain ⟨item, hitem, hwritable⟩ := List.mem_filterMap.mp hnew
        exact ⟨number, response, payload, page, item, hreplied, hpayload, hpage, hitem, hwritable⟩
    simp only
    split
    · exact safe_pure ⟨hmore, hafter⟩
    refine safe_orRaise_bind hafter hn fun reached _ => ?_
    split
    · exact safe_pure ⟨hmore, hafter⟩
    · exact ih _ _ _ (hresolved.mono hsaid) hafter hmore

/-- Where the answer of the user comes from. -/
def IsTarget (said : List (Call × Answer)) (writable : List Knowledge) : Value × Bool → Prop
  | (name, true) => Gave said .nameKnowledge name
  | (chosen, false) => writable = [] ∨ ∃ choices, Gave said (.chooseKnowledge choices) chosen

theorem target_safe {writable : List Knowledge} (hresolved : Resolved inv said)
    (hlisted : ∀ knowledge ∈ writable, Listed inv said knowledge)
    (hbefore : WritesBefore said n) (hn : n ≤ 3) :
    Safe inv said (fun said' chosen => IsTarget said' writable chosen ∧ WritesBefore said' n) (target writable) := by
  have hchosen : Safe inv said (fun said' chosen => IsTarget said' writable (chosen, false) ∧ WritesBefore said' n)
      (chosenKnowledge writable) := by
    unfold chosenKnowledge
    split
    · next hempty => exact safe_pure ⟨.inl (List.isEmpty_iff.mp hempty), hbefore⟩
    · have hjustified : Justified inv said (.chooseKnowledge (options writable)) := by
        refine ⟨hresolved, fun choice hchoice => ?_⟩
        obtain ⟨knowledge, hmem, rfl⟩ := List.mem_map.mp hchoice
        exact ⟨knowledge, hlisted knowledge hmem, rfl⟩
      exact (safe_eventCall hjustified hbefore hn rfl).weaken fun said' chosen _ h => ⟨.inr ⟨_, h.1⟩, h.2⟩
  unfold target
  refine hchosen.andThen fun said' chosen hsaid htarget => ?_
  split
  · have hjustified : Justified inv said' .nameKnowledge := hresolved.mono hsaid
    exact (safe_eventCall hjustified htarget.2 hn rfl).andThen fun said'' name _ hname => safe_pure hname
  · exact safe_pure htarget

/-! ### The writes -/

theorem setPreviewContent_safe {jobId fileId mediaType : Text} {content : HttpResponse} (hjob : IsJob inv said jobId)
    (hreplied : Replied said (.fetchReport jobId) content)
    (hmade : Made inv said (.uploadReport jobId content.content mediaType) fileId) (hbefore : WritesBefore said 1) :
    Safe inv said (fun said' _ => WritesBefore said' 2) (setPreviewContent fileId content mediaType) := by
  unfold setPreviewContent
  split
  · refine safe_orRaise_bind hbefore (by omega) fun text htext => ?_
    have hdecoded : content.decoded = some text := by
      split at htext
      · exact htext
      · cases htext
    refine safe_request_bind ⟨jobId, content, mediaType, hjob, hreplied, hdecoded, hmade⟩ hbefore (n := 2) (by omega) (by omega)
      (by simp [Call.place?]) fun said' response _ _ hafter => ?_
    exact safe_pure hafter
  · exact safe_pure (hbefore.mono (by omega))

theorem reportFile_safe {jobId : Text} {existing : List Fields} (hjob : IsJob inv said jobId)
    (hfiles : HasFiles inv said existing) (hdecided : Decided inv said) (hbefore : WritesBefore said 0) :
    Safe inv said (fun said' fileId => IsReport inv said' fileId ∧ WritesBefore said' 2) (reportFile inv jobId existing) := by
  unfold reportFile
  cases hattached : attachedReportId inv existing with
  | some fileId => exact safe_pure ⟨.inl ⟨existing, hfiles, hattached⟩, hbefore.mono (by omega)⟩
  | none =>
    have hunattached : Unattached inv said := ⟨existing, hfiles, hattached⟩
    have hfetched : Safe inv said (fun said' content => Replied said' (.fetchReport jobId) content.1 ∧ WritesBefore said' 0)
        (fetchReport jobId) := by
      unfold fetchReport
      refine safe_read_bind ⟨hjob, hunattached, hdecided⟩ hbefore (by omega) rfl fun said' response _ hreplied hafter => ?_
      exact safe_pure ⟨hreplied, hafter⟩
    refine hfetched.andThen fun said' ⟨content, mediaType⟩ hsaid ⟨hreplied, hbefore⟩ => ?_
    have hjustified : Justified inv said' (.uploadReport jobId content.content mediaType) :=
      ⟨hunattached.mono hsaid, hdecided.mono hsaid, hjob.mono hsaid, content, hreplied, rfl⟩
    refine safe_request_bind hjustified hbefore (n := 1) (by omega) (by omega) (by simp [Call.place?])
      fun said'' response hsaid' huploaded hbefore => ?_
    refine safe_orRaise_bind hbefore (by omega) fun payload hpayload => ?_
    refine safe_orRaise_bind hbefore (by omega) fun fields _ => ?_
    refine safe_orRaise_bind hbefore (by omega) fun ⟨entries, fileId⟩ hidentified => ?_
    have hmade : Made inv said'' (.uploadReport jobId content.content mediaType) fileId :=
      ⟨response, payload, entries, huploaded, hpayload, hidentified⟩
    refine (setPreviewContent_safe (hjob.mono (hsaid.trans hsaid')) (hreplied.mono hsaid') hmade hbefore).andThen
      fun said₃ _ hsaid'' hbefore => ?_
    refine safe_orRaise_bind hbefore (by omega) fun metadata _ => ?_
    refine safe_orRaise_bind hbefore (by omega) fun size _ => ?_
    have hsaid₃ := hsaid.trans (hsaid'.trans hsaid'')
    refine safe_pure ⟨.inr ⟨hunattached.mono hsaid₃, jobId, content, mediaType, hjob.mono hsaid₃, ?_, ?_⟩, hbefore⟩
    · exact hreplied.mono (hsaid'.trans hsaid'')
    · exact hmade.mono hsaid''

/-- The target is a new name or the id of a collection that was listed. -/
def IsDestination (inv : Invocation) (said : List (Call × Answer)) (name : Text) (isNew : Bool) : Prop :=
  if isNew then NamedNew said name else ChoseListed inv said name

/-- The report goes into a collection that was made for it or that was chosen. -/
def IsPlace (inv : Invocation) (said : List (Call × Answer)) (knowledgeId : Text) : Prop :=
  (∃ name, NamedNew said name ∧ Made inv said (.createKnowledge name) knowledgeId) ∨ ChoseListed inv said knowledgeId

theorem IsDestination.decided {name : Text} {isNew : Bool} (h : IsDestination inv said name isNew) : Decided inv said := by
  cases isNew with
  | true => exact .inl ⟨name, h⟩
  | false => exact .inr ⟨name, h⟩

theorem IsDestination.mono {said' : List (Call × Answer)} {name : Text} {isNew : Bool}
    (h : IsDestination inv said name isNew) (hsaid : said <+: said') : IsDestination inv said' name isNew := by
  cases isNew with
  | true => exact NamedNew.mono h hsaid
  | false => exact ChoseListed.mono h hsaid

theorem knowledgeFor_safe {name fileId : Text} {isNew : Bool} (hresolved : Resolved inv said)
    (hdestination : IsDestination inv said name isNew) (hreport : IsReport inv said fileId) (hbefore : WritesBefore said 2) :
    Safe inv said (fun said' knowledgeId => IsPlace inv said' knowledgeId ∧ WritesBefore said' 3)
      (knowledgeFor inv name isNew) := by
  cases isNew with
  | false => exact safe_pure ⟨.inr hdestination, hbefore.mono (by omega)⟩
  | true =>
    have hname : NamedNew said name := hdestination
    refine safe_request_bind ⟨hresolved, hname, fileId, hreport⟩ hbefore (n := 3) (by omega) (by omega) (by simp [Call.place?])
      fun said' response hsaid hreplied hbefore => ?_
    refine safe_orRaise_bind hbefore (by omega) fun payload hpayload => ?_
    refine safe_orRaise_bind hbefore (by omega) fun ⟨fields, knowledgeId⟩ hidentified => ?_
    exact safe_pure ⟨.inl ⟨name, hname.mono hsaid, response, payload, fields, hreplied, hpayload, hidentified⟩, hbefore⟩

/-- This file was added there, and nothing else was added. -/
def OnlyAdded (said : List (Call × Answer)) (addition : Addition) : Prop :=
  ∀ knowledgeId fileId,
    (∃ response, Replied said (.addFile knowledgeId fileId) response) ↔ addition = ⟨knowledgeId, fileId⟩

theorem addReport_safe {jobId name : Text} {existing : List Fields} {isNew : Bool} (hjob : IsJob inv said jobId)
    (hfiles : HasFiles inv said existing) (hdestination : IsDestination inv said name.strip isNew)
    (hbefore : WritesBefore said 0) : Safe inv said OnlyAdded (addReport inv jobId existing name isNew) := by
  refine (reportFile_safe hjob hfiles hdestination.decided hbefore).andThen fun said' fileId hsaid ⟨hreport, hbefore⟩ => ?_
  have hresolved : Resolved inv said' := ⟨jobId, hjob.mono hsaid⟩
  refine (knowledgeFor_safe hresolved (hdestination.mono hsaid) hreport hbefore).andThen
    fun said'' knowledgeId hsaid' ⟨hplace, hbefore⟩ => ?_
  have hjustified : Justified inv said'' (.addFile knowledgeId fileId) :=
    ⟨hresolved.mono hsaid', hreport.mono hsaid', hplace⟩
  refine ⟨sound_call hjustified hbefore (by simp [Call.place?]), fun answer => ?_⟩
  have hnone := hbefore.notAdded (Nat.le_refl 3)
  show Safe inv _ OnlyAdded (.done (checked answer.reply) >>= fun _ => pure ⟨knowledgeId, fileId⟩)
  cases hreply : checked answer.reply with
  | error e =>
    rintro knowledgeId' fileId' response hreplied
    rcases replied_snoc_iff.mp hreplied with hbefore | ⟨-, hok⟩
    · exact hnone _ _ _ hbefore
    · rw [hreply] at hok
      cases hok
  | ok response =>
    refine safe_pure fun knowledgeId' fileId' => ⟨?_, ?_⟩
    · rintro ⟨response', hreplied⟩
      rcases replied_snoc_iff.mp hreplied with hbefore | ⟨hcall, -⟩
      · exact absurd hbefore (hnone _ _ _)
      · cases hcall
        rfl
    · rintro ⟨rfl, rfl⟩
      exact ⟨response, replied_snoc hreply⟩

/-- What was added is what is returned. -/
def Returned (said : List (Call × Answer)) : Except Text Addition → Prop
  | .ok addition => OnlyAdded said addition
  | .error _ => NotAdded said

theorem saveToKnowledge_safe {jobId : Text} {existing : List Fields} (hjob : IsJob inv said jobId)
    (hfiles : HasFiles inv said existing) (hbefore : WritesBefore said 0) :
    Safe inv said Returned (saveToKnowledge inv jobId existing) := by
  have hresolved : Resolved inv said := ⟨jobId, hjob⟩
  refine (writableFrom_safe inv.pages 1 0 [] hresolved hbefore (by omega) (by simp)).andThen
    fun said' writable hsaid ⟨hlisted, hbefore⟩ => ?_
  refine (target_safe (hresolved.mono hsaid) hlisted hbefore (by omega)).andThen fun said'' ⟨chosen, isNew⟩ hsaid' ⟨htarget, hbefore⟩ => ?_
  have hnone := hbefore.notAdded (Nat.zero_le 3)
  cases chosen with
  | str name =>
    simp only
    split
    · exact safe_pure hnone
    next hblank =>
    split
    · exact safe_pure hnone
    next hchosen =>
    have hstrip : name.strip ≠ [] := fun hnil => hblank (List.isEmpty_iff.mpr hnil)
    have hdestination : IsDestination inv said'' name.strip isNew := by
      cases isNew with
      | true => exact ⟨name, htarget, rfl, hstrip⟩
      | false =>
        have hmem : name ∈ writable.map (·.id) := by simpa using hchosen
        obtain ⟨knowledge, hknowledge, rfl⟩ := List.mem_map.mp hmem
        rcases htarget with rfl | ⟨choices, hgave⟩
        · cases hknowledge
        · exact ⟨knowledge, choices, (hlisted knowledge hknowledge).mono hsaid', hgave, rfl, hstrip⟩
    have hsaid'' := hsaid.trans hsaid'
    refine (addReport_safe (hjob.mono hsaid'') (hfiles.mono hsaid'') hdestination hbefore).andThen
      fun said₃ addition _ hadded => ?_
    exact safe_pure hadded
  | _ => exact safe_pure hnone

theorem attempt_safe : Safe inv [] Returned (attempt inv) := by
  have hstart : WritesBefore [] 0 := fun exchange hexchange => by cases hexchange
  have hjob : Safe inv [] (fun said jobId? => (∀ jobId, jobId? = some jobId → IsJob inv said jobId) ∧ WritesBefore said 0)
      (jobOfMessage inv) := by
    unfold jobOfMessage
    cases hbody : jobIdOf inv.serialized with
    | none => exact resolveJobId_safe hbody hstart (by omega)
    | some jobId =>
      refine safe_pure ⟨fun jobId' heq => ?_, hstart⟩
      obtain rfl := Option.some.inj heq
      exact .inl hbody
  refine hjob.andThen fun said jobId? _ ⟨hjob, hbefore⟩ => ?_
  cases jobId? with
  | none => exact safe_pure (hbefore.notAdded (by omega))
  | some jobId =>
    refine (messageFiles_safe ⟨jobId, hjob jobId rfl⟩ hbefore (by omega)).andThen
      fun said' existing hsaid ⟨hfiles, hbefore⟩ => ?_
    split
    · exact saveToKnowledge_safe ((hjob jobId rfl).mono hsaid) hfiles hbefore
    · exact safe_pure (hbefore.notAdded (by omega))

end

/-! ### The action -/

/-- The notification that the report is saved raised, and nothing came after it. -/
def LostNotification (said : List (Call × Answer)) : Prop :=
  ∃ before answer, said = before ++ [(.notify false savedMessage, answer)] ∧ answer.value = none

/-- An addition that is returned was made, and no other; any other end has added nothing, but for a
notification of what was added that raised. -/
structure Reports (said : List (Call × Answer)) (result : Except CallError (Except Text Addition)) : Prop where
  returned : ∀ addition, result = .ok (.ok addition) → OnlyAdded said addition
  otherwise : (∀ addition, result ≠ .ok (.ok addition)) →
    NotAdded said ∨ result = .error .raised ∧ LostNotification said ∧ ∃ addition, OnlyAdded said addition

section
variable {inv : Invocation} {said : List (Call × Answer)}

theorem reports_of_notAdded {result : Except CallError (Except Text Addition)} (h : NotAdded said)
    (hresult : ∀ addition, result ≠ .ok (.ok addition)) : Reports said result :=
  ⟨fun addition heq => absurd heq (hresult addition), fun _ => .inl h⟩

section
variable {isError : Bool} {content : Text} {answer : Answer}

theorem replied_notify {knowledgeId fileId : Text} {response : HttpResponse} :
    Replied (said ++ [(.notify isError content, answer)]) (.addFile knowledgeId fileId) response ↔
      Replied said (.addFile knowledgeId fileId) response := by
  rw [replied_snoc_iff]
  constructor
  · rintro (h | ⟨hcall, -⟩)
    · exact h
    · cases hcall
  · exact .inl

theorem NotAdded.notify (h : NotAdded said) : NotAdded (said ++ [(.notify isError content, answer)]) :=
  fun knowledgeId fileId response hreplied => h knowledgeId fileId response (replied_notify.mp hreplied)

theorem OnlyAdded.notify {addition : Addition} (h : OnlyAdded said addition) :
    OnlyAdded (said ++ [(.notify isError content, answer)]) addition := by
  intro knowledgeId fileId
  simp only [replied_notify]
  exact h knowledgeId fileId

end

theorem notified_keeps {isError : Bool} {content : Text} {result : Except Text Addition}
    (hquiet : Reports said (.ok result))
    (hnotified : ∀ answer, Reports (said ++ [(.notify isError content, answer)]) (.ok result))
    (hraised : ∀ answer, answer.value = none →
      Reports (said ++ [(.notify isError content, answer)]) (.error .raised)) :
    Keeps (Sound inv) Reports said (notified inv isError content result) := by
  unfold notified
  split
  · refine ⟨⟨trivial, fun n hn => by cases hn⟩, fun answer => ?_⟩
    show Keeps _ _ _ (orRaise answer.value >>= fun _ => pure result)
    cases hvalue : answer.value with
    | none => exact hraised answer hvalue
    | some value => exact hnotified answer
  · exact hquiet

theorem failedWith_keeps (message : Text) (h : NotAdded said) :
    Keeps (Sound inv) Reports said (failedWith inv message) :=
  notified_keeps (reports_of_notAdded h nofun) (fun _ => reports_of_notAdded h.notify nofun)
    fun _ _ => reports_of_notAdded h.notify nofun

theorem saved_keeps {addition : Addition} (h : OnlyAdded said addition) :
    Keeps (Sound inv) Reports said (notified inv false savedMessage (.ok addition)) := by
  have hreports {said' : List (Call × Answer)} (h : OnlyAdded said' addition) : Reports said' (.ok (.ok addition)) := by
    refine ⟨fun addition' heq => ?_, fun hother => absurd rfl (hother addition)⟩
    cases heq
    exact h
  refine notified_keeps (hreports h) (fun _ => hreports h.notify) fun answer hvalue =>
    ⟨nofun, fun _ => .inr ⟨rfl, ?_, ?_⟩⟩
  · exact ⟨said, answer, rfl, hvalue⟩
  · exact ⟨addition, h.notify⟩

theorem action_keeps : Keeps (Sound inv) Reports [] (action inv) := by
  have hnothing : NotAdded [] := by
    rintro knowledgeId fileId response ⟨answer, hmem, -⟩
    cases hmem
  unfold action
  split
  · exact failedWith_keeps _ hnothing
  split
  · exact failedWith_keeps _ hnothing
  refine attempt_safe.handle fun said result _ hresult => ?_
  cases result with
  | ok returned =>
    cases returned with
    | ok addition => exact saved_keeps hresult
    | error message => exact failedWith_keeps _ hresult
  | error e =>
    cases e with
    | status text =>
      cases text with
      | some text => exact failedWith_keeps _ hresult
      | none => exact reports_of_notAdded hresult nofun
    | http message => exact failedWith_keeps _ hresult
    | raised => exact reports_of_notAdded hresult nofun
    | unfinished => exact reports_of_notAdded hresult nofun

variable {exchanges : List (Call × Answer)} {result : Except CallError (Except Text Addition)}

namespace Sample

def replied (json : Value) : Answer :=
  {reply := .answered {status := 200, contentType := some (.ofString "text/markdown"), json := some json, decoded := some []}}

def savedJob : Text := .ofString "00000000-0000-4000-8000-000000000000"

def savedInvocation : Invocation where
  hasToken := true
  hasAuthorization := true
  hasEventCall := true
  hasEmitter := true
  body := []
  serialized := .ofString "deep-research-job:" ++ savedJob
  repr _ := []
  intOfText _ := none
  pages := 2

/-- The user chooses the only collection; the report is uploaded and added to it. -/
def savedExchanges : List (Call × Answer) :=
  [(.listKnowledge 1, replied (.object [("items", .list [.object [("id", .text "k"), ("name", .text "K"),
      ("write_access", .bool true)]]), ("total", .int 1)])),
    (.chooseKnowledge [(.ofString "Create a new Knowledge collection", createKnowledgeTarget),
      (.ofString "K", .ofString "k")], {value := some (.text "k")}),
    (.fetchReport savedJob, replied .none),
    (.uploadReport savedJob [] (.ofString "text/markdown"), replied (.object [("id", .text "f")])),
    (.setPreview (.ofString "f") [], replied .none),
    (.addFile (.ofString "k") (.ofString "f"), replied .none),
    (.notify false savedMessage, {value := some .none})]

theorem savedExchanges_run :
    Runs (action savedInvocation) savedExchanges (.ok (.ok ⟨.ofString "k", .ofString "f"⟩)) := by
  have hrun : (action savedInvocation).run (savedExchanges.map (·.2)) =
      some (savedExchanges, .ok (.ok ⟨.ofString "k", .ofString "f"⟩)) := rfl
  exact runs_of_run hrun

end Sample

theorem places_increasing {said : List (Call × Answer)}
    (h : ∀ before call answer after, said = before ++ (call, answer) :: after →
      ∀ n, call.place? = some n → WritesBefore before n) :
    (said.filterMap fun exchange => exchange.1.place?).Pairwise (· < ·) := by
  rw [List.pairwise_filterMap, List.pairwise_iff_getElem]
  intro i j hi hj hij n hn m hm
  have hsplit : said = said.take j ++ (said[j].1, said[j].2) :: said.drop (j + 1) := by
    rw [Prod.mk.eta, ← List.drop_eq_getElem_cons hj, List.take_append_drop]
  have hmem : said[i] ∈ said.take j := List.mem_take_iff_getElem.mpr ⟨i, by omega, rfl⟩
  exact h _ _ _ _ hsplit m hm _ hmem n hn

end

/-! ### All pages -/

/-- The items of a page, so many a page. -/
def pageAt (items : List Value) (size number : Nat) : List Value := (items.drop ((number - 1) * size)).take size

/-- An answer with one page of the items, and with their number. -/
def IsPageOf (items : List Value) (size number : Nat) (answer : Answer) : Prop :=
  ∃ response payload, checked answer.reply = .ok response ∧ response.json = some payload ∧
    pageOf payload = some ⟨pageAt items size number, .int items.length⟩

/-- Each request for a page is answered with that page. -/
def Paged (items : List Value) (size : Nat) (exchanges : List (Call × Answer)) : Prop :=
  ∀ number answer, (.listKnowledge number, answer) ∈ exchanges → IsPageOf items size number answer

section
variable {inv : Invocation} {items : List Value} {size number fuel seen : Nat} {writable : List Knowledge}
  {exchanges : List (Call × Answer)} {result : Except CallError (List Knowledge)}

/-- One round of the loop against such a server. -/
theorem runs_page (hpaged : Paged items size exchanges)
    (hrun : Runs (writableFrom inv (fuel + 1) number seen writable) exchanges result) :
    ∃ answer rest, exchanges = (.listKnowledge number, answer) :: rest ∧ Paged items size rest ∧
      if pageAt items size number = [] ∨ items.length ≤ seen + (pageAt items size number).length then
        rest = [] ∧ result = .ok (writable ++ (pageAt items size number).filterMap (writableItem? inv))
      else Runs (writableFrom inv fuel (number + 1) (seen + (pageAt items size number).length)
        (writable ++ (pageAt items size number).filterMap (writableItem? inv))) rest result := by
  simp only [writableFrom, request, question_bind] at hrun
  obtain ⟨answer, rest, rfl, hrest⟩ := runs_ask.mp hrun
  obtain ⟨response, payload, hreply, hpayload, hpage⟩ := hpaged number answer (List.mem_cons_self ..)
  refine ⟨answer, rest, rfl, fun k a h => hpaged k a (List.mem_cons_of_mem _ h), ?_⟩
  simp only [hreply, hpayload, hpage, orRaise_some, Dialog.bind, Dialog.ok_bind, reaches?, List.isEmpty_iff] at hrest
  by_cases hempty : pageAt items size number = []
  · rw [if_pos hempty] at hrest
    rw [if_pos (.inl hempty)]
    exact runs_pure.mp hrest
  rw [if_neg hempty] at hrest
  by_cases hreached : items.length ≤ seen + (pageAt items size number).length
  · rw [if_pos (decide_eq_true (by omega))] at hrest
    rw [if_pos (.inr hreached)]
    exact runs_pure.mp hrest
  · rw [if_neg (by rw [decide_eq_true_eq]; omega)] at hrest
    rw [if_neg (not_or.mpr ⟨hempty, hreached⟩)]
    exact hrest

theorem length_pageAt (items : List Value) (size k : Nat) :
    (pageAt items size (k + 1)).length = min size (items.length - k * size) := by
  simp [pageAt]

theorem take_pageAt (items : List Value) (size k : Nat) :
    items.take (k * size) ++ pageAt items size (k + 1) = items.take ((k + 1) * size) := by
  rw [pageAt, Nat.add_sub_cancel, Nat.add_mul, Nat.one_mul, List.take_add]

/-- From any page on, with the collections of the pages before it. -/
theorem writableFrom_pages (hsize : 0 < size) (k : Nat) (hk : k = 0 ∨ k * size < items.length) (hfuel : 0 < fuel)
    (hpages : items.length ≤ (k + fuel) * size) (hpaged : Paged items size exchanges)
    (hrun : Runs (writableFrom inv fuel (k + 1) (min (k * size) items.length)
      ((items.take (k * size)).filterMap (writableItem? inv))) exchanges result) :
    result = .ok (items.filterMap (writableItem? inv)) ∧
      ∃ m, exchanges.map (·.1) = (List.range' (k + 1) m).map .listKnowledge ∧ 0 < m ∧ items.length ≤ (k + m) * size ∧
        (m = 1 ∨ (k + m - 1) * size < items.length) := by
  induction fuel generalizing k exchanges with
  | zero => cases hfuel
  | succ fuel ih =>
    obtain ⟨answer, rest, rfl, hrestPaged, hrest⟩ := runs_page hpaged hrun
    have hlength := length_pageAt items size k
    rw [← List.filterMap_append, take_pageAt] at hrest
    have hmul : (k + 1) * size = k * size + size := by rw [Nat.add_mul, Nat.one_mul]
    split at hrest
    · next hlast =>
      obtain ⟨rfl, rfl⟩ := hrest
      have hle : items.length ≤ (k + 1) * size := by
        rcases hlast with hempty | hreached
        · rw [hempty, List.length_nil] at hlength
          rcases hk with rfl | hk <;> omega
        · omega
      rw [List.take_of_length_le hle]
      exact ⟨rfl, 1, rfl, Nat.one_pos, hle, .inl rfl⟩
    · next hmore =>
      rw [not_or] at hmore
      have hlt : (k + 1) * size < items.length := by omega
      have hseen : min (k * size) items.length + (pageAt items size (k + 1)).length = min ((k + 1) * size) items.length := by
        omega
      have hfuel' : 0 < fuel := by
        by_contra hzero
        obtain rfl : fuel = 0 := by omega
        have hle : items.length ≤ (k + 1) * size := hpages
        omega
      rw [hseen] at hrest
      obtain ⟨hresult, m, hcalls, hm, hle, hlast⟩ :=
        ih (k + 1) (.inr hlt) hfuel' (by rw [Nat.add_right_comm, Nat.add_assoc]; exact hpages) hrestPaged hrest
      refine ⟨hresult, m + 1, ?_, Nat.succ_pos m, ?_, .inr ?_⟩
      · rw [List.map_cons, hcalls, List.range'_succ, List.map_cons]
      · rw [show k + (m + 1) = k + 1 + m by omega]
        exact hle
      · rcases hlast with rfl | hlast
        · exact hlt
        · rw [show k + (m + 1) - 1 = k + 1 + m - 1 by omega]
          exact hlast

end

/-- Against a server that gives the items page by page, the user chooses among all collections
that are writable, in the order of the server; and as many pages are asked for as there are,
at least one. -/
theorem writableKnowledge_complete {inv : Invocation} {items : List Value} {size : Nat} {exchanges : List (Call × Answer)}
    {result : Except CallError (List Knowledge)} (hsize : 0 < size) (hpages : 0 < inv.pages)
    (hfuel : items.length ≤ inv.pages * size) (hpaged : Paged items size exchanges)
    (hrun : Runs (writableKnowledge inv) exchanges result) :
    result = .ok (items.filterMap (writableItem? inv)) ∧
      exchanges.map (·.1) = (List.range' 1 (max 1 ((items.length + size - 1) / size))).map .listKnowledge := by
  have hrun' : Runs (writableFrom inv inv.pages (0 + 1) (min (0 * size) items.length)
      ((items.take (0 * size)).filterMap (writableItem? inv))) exchanges result := by
    simpa [writableKnowledge] using hrun
  obtain ⟨hresult, m, hcalls, hm, hle, hlast⟩ := writableFrom_pages hsize 0 (.inl rfl) hpages (by simpa using hfuel) hpaged hrun'
  have hcount : max 1 ((items.length + size - 1) / size) = m := by
    rw [Nat.zero_add] at hle hlast
    have hupper : (items.length + size - 1) / size ≤ m := by
      rw [← Nat.lt_succ_iff, Nat.div_lt_iff_lt_mul hsize, Nat.succ_mul]
      omega
    rcases hlast with rfl | hlast
    · omega
    · have hlower : m ≤ (items.length + size - 1) / size := by
        rw [Nat.le_div_iff_mul_le hsize]
        have hmul : m * size = (m - 1) * size + size := by
          rw [← Nat.succ_mul, Nat.succ_eq_add_one, Nat.sub_add_cancel hm]
        omega
      omega
  rw [hcount]
  exact ⟨hresult, hcalls⟩

namespace Sample

def writableItem (id : String) (isWritable : Bool) : Value :=
  .object [("id", .text id), ("name", .text id), ("write_access", .bool isWritable)]

def catalog : List Value := [writableItem "a" true, writableItem "b" false, writableItem "c" true]

def catalogPage (items : List Value) : Answer := replied (.object [("items", .list items), ("total", .int 3)])

def catalogExchanges : List (Call × Answer) :=
  [(.listKnowledge 1, catalogPage (catalog.take 2)), (.listKnowledge 2, catalogPage (catalog.drop 2))]

theorem catalogExchanges_run : Runs (writableKnowledge savedInvocation) catalogExchanges
    (.ok [⟨.ofString "a", .ofString "a"⟩, ⟨.ofString "c", .ofString "c"⟩]) := by
  have hrun : (writableKnowledge savedInvocation).run (catalogExchanges.map (·.2)) =
      some (catalogExchanges, .ok [⟨.ofString "a", .ofString "a"⟩, ⟨.ofString "c", .ofString "c"⟩]) := rfl
  exact runs_of_run hrun

theorem catalogExchanges_paged : Paged catalog 2 catalogExchanges := by
  intro number answer hmem
  simp only [catalogExchanges, List.mem_cons, Prod.mk.injEq, Call.listKnowledge.injEq, List.not_mem_nil, or_false] at hmem
  rcases hmem with ⟨rfl, rfl⟩ | ⟨rfl, rfl⟩
  · exact ⟨_, _, rfl, rfl, rfl⟩
  · exact ⟨_, _, rfl, rfl, rfl⟩

end Sample

theorem writableKnowledge_complete_catalog :
    Sample.catalogExchanges.map (·.1) = [.listKnowledge 1, .listKnowledge 2] :=
  (writableKnowledge_complete (by decide) (by decide) (by decide) Sample.catalogExchanges_paged
    Sample.catalogExchanges_run).2

end SaveToKnowledge
end ResearchGateway
