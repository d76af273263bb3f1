import ResearchGateway.Pipe.FrozenModels
import ResearchGateway.Pipe.Turn

/-! What a turn of the Pipe creates, and why.

A turn asks for a job at most once, as its last question; the job is what the user has approved
of, with models that the service has listed and the context that the chats gave, and its key is
that of the message (`turn_creates`). -/
namespace ResearchGateway
open Library Dialog

namespace Turn
open FunctionCalls
open ResultStream (HttpResponse)

def Call.isCreation : Call → Bool
  | createJob .. => true
  | _ => false

/-- The service was not asked for a job. -/
def NoJob (said : List (Call × Answer)) : Prop := ∀ e ∈ said, e.1.isCreation = false

section
variable {α : Type} {exchanges : List (Call × Answer)}

@[simp] theorem runs_orRaise {value : Option α} {a : α} :
    Runs (orRaise value : Asks Call α) exchanges (.ok a) ↔ exchanges = [] ∧ value = some a := by
  cases value <;> simp [orRaise, eq_comm]

theorem runs_request {call : Call} {response : HttpResponse} :
    Runs (request call) exchanges (.ok response) ↔
      ∃ answer, exchanges = [(call, answer)] ∧ checked answer.reply = .ok response := by
  rw [request, question_bind, runs_ask]
  constructor
  · rintro ⟨answer, rest, rfl, hrest⟩
    obtain ⟨rfl, hchecked⟩ := runs_done.mp hrest
    exact ⟨answer, rfl, hchecked.symm⟩
  · rintro ⟨answer, rfl, hchecked⟩
    exact ⟨answer, [], rfl, hchecked ▸ .done⟩

theorem runs_eventCall {call : Call} {value : Value} :
    Runs (eventCall call) exchanges (.ok value) ↔ ∃ answer, exchanges = [(call, answer)] ∧ answer.value = some value := by
  rw [eventCall, question_bind, runs_ask]
  constructor
  · rintro ⟨answer, rest, rfl, hrest⟩
    obtain ⟨rfl, hvalue⟩ := runs_orRaise.mp hrest
    exact ⟨answer, rfl, hvalue⟩
  · rintro ⟨answer, rfl, hvalue⟩
    exact ⟨answer, [], rfl, runs_orRaise.mpr ⟨rfl, hvalue⟩⟩

end

/-! ### The context -/

/-- The chat that the request with a number was answered with. -/
def chatAnswered (said : List (Call × Answer)) (n : Nat) (chatId : Text) : Option Fields :=
  match said[n]? with
  | some (.getChat chatId', answer) =>
    if chatId' = chatId then
      ((checked answer.reply).toOption.bind HttpResponse.json).map fun payload => payload.fields?.getD []
    else none
  | _ => none

section
variable {inv : Invocation} {exchanges : List (Call × Answer)}

theorem getChat_runs {chatId : Text} {chat : Fields} (h : Runs (getChat chatId) exchanges (.ok chat)) :
    exchanges.length = 1 ∧ ∀ before after, chatAnswered (before ++ exchanges ++ after) before.length chatId = some chat := by
  unfold getChat at h
  split at h
  · obtain ⟨asked, rest, response, rfl, hrequest, hrest⟩ := runs_bind_ok h
    obtain ⟨answer, rfl, hchecked⟩ := runs_request.mp hrequest
    obtain ⟨none, last, payload, rfl, hread, hend⟩ := runs_bind_ok hrest
    obtain ⟨rfl, hjson⟩ := runs_orRaise.mp hread
    obtain ⟨rfl, hchat⟩ := runs_pure.mp hend
    refine ⟨rfl, fun before after => ?_⟩
    rw [Except.ok.inj hchat, chatAnswered]
    simp [hchecked, hjson, Except.toOption]
  · obtain ⟨-, hnone⟩ := runs_orRaise.mp h
    cases hnone

/-- The linked chats are read as they were answered. -/
theorem readLinked_runs {ids : List Text} {result : List Fields × List ContextEntry}
    (h : Runs (readLinked inv ids) exchanges (.ok result)) (before after : List (Call × Answer)) :
    Pipe.readLinked (contextHost inv (chatAnswered (before ++ exchanges ++ after))) inv.fuel before.length ids = some result := by
  induction ids generalizing exchanges result before with
  | nil =>
    obtain ⟨-, hresult⟩ := runs_pure.mp h
    rw [Except.ok.inj hresult]
    rfl
  | cons chatId rest ih =>
    obtain ⟨asked, _, linked, rfl, hchat, hcontents⟩ := runs_bind_ok h
    obtain ⟨hone, hanswered⟩ := getChat_runs hchat
    obtain ⟨_, _, ⟨items, documents⟩, rfl, hread, hrest⟩ := runs_bind_ok hcontents
    obtain ⟨rfl, hcontent⟩ := runs_orRaise.mp hread
    obtain ⟨linkedAsked, _, ⟨items', documents'⟩, rfl, hothers, hend⟩ := runs_bind_ok hrest
    obtain ⟨rfl, hresult⟩ := runs_pure.mp hend
    have hlinked := ih hothers (before ++ asked)
    have hhere := hanswered before (linkedAsked ++ after)
    simp only [List.append_nil, List.nil_append, List.append_assoc, List.length_append, hone] at hlinked hhere ⊢
    obtain ⟨chat, hfields, hcontent⟩ := Option.bind_eq_some_iff.mp hcontent
    obtain ⟨items, hitems, hcontent⟩ := Option.bind_eq_some_iff.mp hcontent
    obtain ⟨messages, hmessages, hcontent⟩ := Option.bind_eq_some_iff.mp hcontent
    obtain ⟨rfl, rfl⟩ := Prod.mk.inj (Option.some.inj hcontent)
    rw [Except.ok.inj hresult]
    simp only [Pipe.readLinked, contextHost] at hlinked ⊢
    simp only [hhere, hfields, hitems, hmessages, hlinked, Option.bind_eq_bind, Option.bind_some]
    rfl

/-- What a turn collects is what `_collect_context` collects of the chats that were answered. -/
theorem collectContext_runs {chatId : Text} (authorization : Text) {result : List ContextEntry × List SourceEntry × Nat}
    (h : Runs (collectContext inv chatId) exchanges (.ok result)) :
    Pipe.collectContext (contextHost inv (chatAnswered exchanges)) inv.fuel inv.valves.context
      ⟨inv.body, chatId, inv.files, some authorization⟩ = some result := by
  rw [collectContext] at h
  obtain ⟨_, _, documents, rfl, htranscript, hchats⟩ := runs_bind_ok h
  obtain ⟨rfl, hdocuments⟩ := runs_orRaise.mp htranscript
  obtain ⟨asked, _, current, rfl, hchat, hcontents⟩ := runs_bind_ok hchats
  obtain ⟨hone, hanswered⟩ := getChat_runs hchat
  obtain ⟨_, _, items, rfl, hcontent, hrest⟩ := runs_bind_ok hcontents
  obtain ⟨rfl, hitems⟩ := runs_orRaise.mp hcontent
  obtain ⟨linkedAsked, _, ⟨items', documents'⟩, rfl, hlinked, hend⟩ := runs_bind_ok hrest
  obtain ⟨rfl, hcompacted⟩ := runs_orRaise.mp hend
  have hread := readLinked_runs hlinked asked []
  have hhere := hanswered [] linkedAsked
  simp only [List.append_nil, List.nil_append, hone, List.length_nil] at hread hhere ⊢
  obtain ⟨prior, hprior, rfl⟩ := Option.map_eq_some_iff.mp hdocuments
  obtain ⟨chat, hfields, hitems⟩ := Option.bind_eq_some_iff.mp hitems
  obtain ⟨cut, hcut, hcompacted⟩ := Option.bind_eq_some_iff.mp hcompacted
  obtain ⟨sources, hsources, hcompacted⟩ := Option.bind_eq_some_iff.mp hcompacted
  obtain rfl := Option.some.inj hcompacted
  simp only [attachedIds, contextHost] at hread hcut hsources
  simp only [Pipe.collectContext, Pipe.gather, contextHost, hprior, hhere, hfields, hitems, hread, hcut, hsources, attachedIds,
    Option.bind_eq_bind, Option.bind_some, Option.pure_def]

end

/-! ### The models -/

section
variable {host : Pipe.SelectionHost} {catalog : Pipe.Catalog} {selected models : SelectedModels}
  {capabilities : List CapabilityEntry} {interactive : Bool} {exchanges : List (Pipe.Prompt × Value)}

theorem freezeLimits_same
    (h : Runs (Pipe.freezeLimits host catalog selected interactive) exchanges (.ok (.selected models capabilities))) :
    models = selected := by
  simp only [Pipe.freezeLimits] at h
  split at h
  · obtain ⟨-, hsame⟩ := runs_pure.mp h
    cases hsame
  · obtain ⟨_, _, outcome, rfl, -, hrest⟩ := runs_bind_ok h
    cases outcome with
    | error message =>
      obtain ⟨-, hsame⟩ := runs_pure.mp hrest
      cases hsame
    | ok limits =>
      obtain ⟨_, _, entries, rfl, -, hend⟩ := runs_bind_ok hrest
      obtain ⟨-, hsame⟩ := runs_pure.mp hend
      cases hsame
      rfl

/-- A selection is of available models, whose limits are then frozen. -/
theorem selectModels_runs {configured : List (Text × Text)} {available : List Fields}
    (h : Runs (Pipe.selectModels host configured interactive available) exchanges (.ok (.selected models capabilities))) :
    ∃ catalog part, available.foldlM (Pipe.addModel host) {} = .ok catalog ∧
      (∀ id ∈ models.values, id ∈ catalog.available) ∧ part ⊆ exchanges ∧
      Runs (Pipe.freezeLimits host catalog models interactive) part (.ok (.selected models capabilities)) := by
  have hchosen (catalog : Pipe.Catalog) (selected : SelectedModels) (part : List (Pipe.Prompt × Value))
      (hall : ¬ selected.values.any (· ∉ catalog.available) = true)
      (hfreeze : Runs (Pipe.freezeLimits host catalog selected interactive) part (.ok (.selected models capabilities))) :
      (∀ id ∈ models.values, id ∈ catalog.available) ∧
        Runs (Pipe.freezeLimits host catalog models interactive) part (.ok (.selected models capabilities)) := by
    obtain rfl := freezeLimits_same hfreeze
    exact ⟨by simpa using hall, hfreeze⟩
  obtain ⟨_, _, catalog, rfl, hcatalog, hrest⟩ := runs_bind_ok h
  obtain ⟨rfl, hread⟩ := runs_done.mp hcatalog
  refine ⟨catalog, ?_⟩
  rw [List.nil_append]
  split at hrest
  · obtain ⟨-, hsame⟩ := runs_pure.mp hrest
    cases hsame
  · split at hrest
    · simp only at hrest
      split at hrest
      · obtain ⟨-, hsame⟩ := runs_pure.mp hrest
        cases hsame
      · next hall =>
        obtain ⟨havailable, hfreeze⟩ := hchosen catalog _ _ hall hrest
        exact ⟨_, hread.symm, havailable, List.Subset.refl _, hfreeze⟩
    · simp only [question_bind] at hrest
      obtain ⟨answer, rest, rfl, hanswered⟩ := runs_ask.mp hrest
      split at hanswered
      · obtain ⟨-, hsame⟩ := runs_pure.mp hanswered
        cases hsame
      · obtain ⟨_, _, selected, rfl, hlabels, hend⟩ := runs_bind_ok hanswered
        obtain ⟨rfl, -⟩ := runs_done.mp hlabels
        split at hend
        · obtain ⟨-, hsame⟩ := runs_pure.mp hend
          cases hsame
        · next hall =>
          obtain ⟨havailable, hfreeze⟩ := hchosen catalog selected _ hall hend
          exact ⟨_, hread.symm, havailable, List.subset_cons_self .., hfreeze⟩

end

/-! ### The parts of a turn -/

/-- What a part asks that does not ask for a job. -/
abbrev Quiet {α : Type} (d : Asks Call α) : Prop := d.Only fun call => call.isCreation = false

section
variable {α : Type} (inv : Invocation)

theorem quiet_orRaise (value : Option α) : Quiet (orRaise value) := by
  cases value <;> trivial

theorem quiet_request {call : Call} (h : call.isCreation = false) : Quiet (request call) := by
  refine ⟨h, fun answer => ?_⟩
  show Only _ (.done (checked answer.reply))
  trivial

theorem quiet_eventCall {call : Call} (h : call.isCreation = false) : Quiet (eventCall call) :=
  ⟨h, fun answer => quiet_orRaise answer.value⟩

theorem quiet_getChat (chatId : Text) : Quiet (getChat chatId) := by
  unfold getChat
  split
  · exact (quiet_request rfl).bind fun response => (quiet_orRaise response.json).bind fun _ => only_pure
  · exact quiet_orRaise none

theorem quiet_readLinked (ids : List Text) : Quiet (readLinked inv ids) := by
  induction ids with
  | nil => exact only_pure
  | cons chatId rest ih =>
    exact (quiet_getChat chatId).bind fun linked => (quiet_orRaise _).bind fun _ => ih.bind fun _ => only_pure

theorem quiet_collectContext (chatId : Text) : Quiet (collectContext inv chatId) :=
  (quiet_orRaise _).bind fun _ => (quiet_getChat chatId).bind fun _ => (quiet_orRaise _).bind fun _ =>
    (quiet_readLinked inv _).bind fun _ => quiet_orRaise _

theorem quiet_availableModels : Quiet availableModels :=
  (quiet_request rfl).bind fun response => (quiet_orRaise response.json).bind fun _ => quiet_orRaise _

theorem quiet_selectModels (available : List Fields) : Quiet (selectModels inv available) :=
  Only.via fun _ => quiet_eventCall rfl

theorem quiet_approval (plan : Text) : Quiet (approval inv plan) := by
  unfold approval
  split
  · exact only_pure
  · split
    · exact only_pure
    · exact (quiet_eventCall rfl).bind fun _ => only_pure

theorem quiet_announced : Quiet (announced inv) := by
  unfold announced
  split
  · exact (quiet_eventCall rfl).bind fun _ => only_pure
  · exact only_pure

variable {inv} {exchanges : List (Call × Answer)}

/-- The service was asked for its models. -/
def Listed (said : List (Call × Answer)) (available : List Fields) : Prop :=
  ∃ answer response payload, (.listModels, answer) ∈ said ∧ checked answer.reply = .ok response ∧
    response.json = some payload ∧ selectable payload = some available

theorem availableModels_runs {available : List Fields} (h : Runs availableModels exchanges (.ok available)) :
    Listed exchanges available := by
  obtain ⟨_, _, response, rfl, hrequest, hrest⟩ := runs_bind_ok h
  obtain ⟨answer, rfl, hchecked⟩ := runs_request.mp hrequest
  obtain ⟨_, _, payload, rfl, hread, hend⟩ := runs_bind_ok hrest
  obtain ⟨rfl, hjson⟩ := runs_orRaise.mp hread
  obtain ⟨rfl, hselectable⟩ := runs_orRaise.mp hend
  exact ⟨answer, response, payload, by simp, hchecked, hjson, hselectable⟩

/-- The user has given an answer to a prompt. -/
def Prompted (said : List (Call × Answer)) (e : Pipe.Prompt × Value) : Prop :=
  ∃ answer, (.select e.1, answer) ∈ said ∧ answer.value = some e.2

/-- Models and limits that the user has selected of those that the service has listed. -/
structure Selected (inv : Invocation) (said : List (Call × Answer)) (models : SelectedModels)
    (capabilities : List CapabilityEntry) : Prop where
  accessible : ∃ available, Listed said available ∧
    (∀ id ∈ models.values, ∃ model ∈ available, Pipe.modelId? ⟨inv.repr, inv.digit?⟩ model = some id) ∧
    ((available.map (Pipe.modelId? ⟨inv.repr, inv.digit?⟩)).Nodup → ∃ asked, (∀ e ∈ asked, Prompted said e) ∧
      Frozen ⟨inv.repr, inv.digit?⟩ available asked models capabilities)

theorem selected_of_runs {available : List Fields} {listed : List (Call × Answer)} {models : SelectedModels}
    {capabilities : List CapabilityEntry} (hlisted : Listed listed available)
    (h : Runs (selectModels inv available) exchanges (.ok (.selected models capabilities))) :
    Selected inv (listed ++ exchanges) models capabilities := by
  obtain ⟨asked, hasked, hparts⟩ := runs_via h
  obtain ⟨catalog, part, hread, havailable, hpart, hfreeze⟩ := selectModels_runs hasked
  have hreads : Reads ⟨inv.repr, inv.digit?⟩ available catalog := Reads.empty.readAll hread
  obtain ⟨answer, response, payload, hmem, hrest⟩ := hlisted
  refine ⟨available, ⟨answer, response, payload, List.mem_append_left _ hmem, hrest⟩,
    fun id hid => hreads.accessible id (havailable id hid), fun hdistinct => ⟨part, fun e he => ?_, ?_⟩⟩
  · obtain ⟨said, hsaid, hruns⟩ := hparts e (hpart he)
    obtain ⟨answer, rfl, hvalue⟩ := runs_eventCall.mp hruns
    exact ⟨answer, List.mem_append_right _ (hsaid (List.mem_singleton.mpr rfl)), hvalue⟩
  · exact (freezeLimits_runs hreads hdistinct havailable hfreeze).2 models capabilities rfl

/-- The user has approved of the plan, where that is required. -/
def Approved (inv : Invocation) (said : List (Call × Answer)) (plan : Text) : Prop :=
  inv.valves.requirePlanApproval = true →
    ∃ answer value, (.approve plan, answer) ∈ said ∧ answer.value = some value ∧ value.truthy = true

theorem approval_runs {plan : Text} (h : Runs (approval inv plan) exchanges (.ok none)) : Approved inv exchanges plan := by
  intro hrequired
  rw [approval, if_neg (by simp [hrequired])] at h
  split at h
  · obtain ⟨-, hsame⟩ := runs_pure.mp h
    cases hsame
  · obtain ⟨_, _, value, rfl, hcall, hend⟩ := runs_bind_ok h
    obtain ⟨answer, rfl, hvalue⟩ := runs_eventCall.mp hcall
    obtain ⟨-, hsame⟩ := runs_pure.mp hend
    refine ⟨answer, value, by simp, hvalue, ?_⟩
    by_contra hfalse
    rw [if_neg hfalse] at hsame
    cases hsame

end

/-! ### The job -/

/-- Why a job is asked for. -/
structure Justified (inv : Invocation) (said : List (Call × Answer)) (key : Text) (body : JobBody) : Prop where
  key : idempotencyKey inv body.chatId body.messageId = some key
  origin : inv.chatId = some body.chatId ∧ inv.messageId = some body.messageId
  query : lastUserMessage inv.body = some body.query ∧ body.query ≠ []
  requested : requested inv = .ok (body.research, body.budget)
  /-- The context is what the chats gave that were read first, and the plan that names it is the one
  approved of. -/
  context : ∃ asked authorization linked, asked <+: said ∧ inv.authorization = some authorization ∧
    Pipe.collectContext (contextHost inv (chatAnswered asked)) inv.fuel inv.valves.context
      ⟨inv.body, body.chatId, inv.files, some authorization⟩ = some (body.contextDocuments, body.sources, linked) ∧
    Approved inv said (plan inv body linked)
  /-- Without public search there is something to search. -/
  private_ : inv.valves.publicSearchEnabled = false → body.sources ≠ [] ∨ body.contextDocuments ≠ []
  selected : Selected inv said body.models body.modelCapabilities

/-- No question follows the one for a job. -/
def Reason (inv : Invocation) (said : List (Call × Answer)) (call : Call) : Prop :=
  NoJob said ∧ ∀ key body, call = .createJob key body → Justified inv said key body

/-- The job was asked for last, with this answer. -/
def AskedLast (said : List (Call × Answer)) (body : JobBody) (answer : Answer) : Prop :=
  ∃ before key, said = before ++ [(.createJob key body, answer)] ∧ NoJob before

/-- What the service made of the request. -/
def jobOf (inv : Invocation) (answer : Answer) : Option (Text × Text) :=
  ((checked answer.reply).toOption.bind HttpResponse.json).bind (createdJob inv)

def Attempted (inv : Invocation) (said : List (Call × Answer)) : Except CallError Result → Prop
  | .ok (.stream jobId started wait) => ∃ body answer, AskedLast said body answer ∧
      jobOf inv answer = some (jobId, started) ∧ wait = body.budget.maxWallTimeSeconds + inv.valves.completionGraceSeconds
  | .ok (.message _) => NoJob said
  | .error e => NoJob said ∨ ∃ body answer, AskedLast said body answer ∧ jobOf inv answer = none ∧
      (e ≠ .raised → checked answer.reply = .error e)

section
variable {α : Type} {inv : Invocation} {said : List (Call × Answer)}

theorem NoJob.append {exchanges : List (Call × Answer)} (h : NoJob said) (hmore : NoJob exchanges) : NoJob (said ++ exchanges) :=
  fun e he => (List.mem_append.mp he).elim (h e) (hmore e)

/-- A part that asks for no job, and what follows it. -/
theorem quiet_then {d : Asks Call α} {f : α → Asks Call Result} (hquiet : Quiet d) (hno : NoJob said)
    (hf : ∀ exchanges a, NoJob (said ++ exchanges) → Runs d exchanges (.ok a) →
      Keeps (Reason inv) (Attempted inv) (said ++ exchanges) (f a)) :
    Keeps (Reason inv) (Attempted inv) said (d >>= f) := by
  refine (hquiet.keeps fun exchanges call hexchanges hcall => ?_).bind ?_ ?_
  · refine ⟨hno.append hexchanges, fun key body heq => ?_⟩
    rw [heq] at hcall
    cases hcall
  · rintro said' a - ⟨exchanges, rfl, hexchanges, hruns⟩
    exact hf exchanges a (hno.append hexchanges) hruns
  · rintro said' e - ⟨exchanges, rfl, hexchanges, -⟩
    exact .inl (hno.append hexchanges)

theorem keeps_createJob {body : JobBody} (hno : NoJob said)
    (hjustified : ∀ key, idempotencyKey inv body.chatId body.messageId = some key → Justified inv said key body) :
    Keeps (Reason inv) (Attempted inv) said (createJob inv body) := by
  rw [createJob]
  refine quiet_then (quiet_orRaise _) hno fun none key _ hruns => ?_
  obtain ⟨rfl, hkey⟩ := runs_orRaise.mp hruns
  rw [List.append_nil]
  refine keeps_ask.mpr ⟨⟨hno, fun key' body' hcall => ?_⟩, fun answer => ?_⟩
  · obtain ⟨rfl, rfl⟩ := Call.createJob.inj hcall
    exact hjustified key hkey
  have hasked : AskedLast (said ++ [(.createJob key body, answer)]) body answer := ⟨said, key, rfl, hno⟩
  show Keeps _ _ _ (Dialog.done (checked answer.reply) >>= _)
  cases hreply : checked answer.reply with
  | error e => exact .inr ⟨body, answer, hasked, by simp [jobOf, hreply, Except.toOption], fun _ => hreply⟩
  | ok response =>
    show Keeps _ _ _ (orRaise response.json >>= _)
    cases hjson : response.json with
    | none => exact .inr ⟨body, answer, hasked, by simp [jobOf, hreply, hjson, Except.toOption], fun h => absurd rfl h⟩
    | some payload =>
      show Keeps _ _ _ (orRaise (createdJob inv payload) >>= _)
      cases hjob : createdJob inv payload with
      | none => exact .inr ⟨body, answer, hasked, by simp [jobOf, hreply, hjson, hjob, Except.toOption], fun h => absurd rfl h⟩
      | some job => exact ⟨body, answer, hasked, by simp [jobOf, hreply, hjson, hjob, Except.toOption], rfl⟩

theorem Approved.mono {said' : List (Call × Answer)} {text : Text} (h : Approved inv said text) (hsub : said ⊆ said') :
    Approved inv said' text := fun hrequired =>
  let ⟨answer, value, hmem, hvalue⟩ := h hrequired
  ⟨answer, value, hsub hmem, hvalue⟩

theorem Selected.mono {said' : List (Call × Answer)} {models : SelectedModels} {capabilities : List CapabilityEntry}
    (h : Selected inv said models capabilities) (hsub : said ⊆ said') : Selected inv said' models capabilities := by
  obtain ⟨available, ⟨answer, response, payload, hmem, hrest⟩, haccessible, hfrozen⟩ := h
  refine ⟨available, ⟨answer, response, payload, hsub hmem, hrest⟩, haccessible, fun hdistinct => ?_⟩
  obtain ⟨asked, hasked, hfrozen⟩ := hfrozen hdistinct
  refine ⟨asked, fun e he => ?_, hfrozen⟩
  obtain ⟨answer, hmem, hvalue⟩ := hasked e he
  exact ⟨answer, hsub hmem, hvalue⟩

theorem keeps_attempt {query chatId messageId authorization : Text} {research : ShapeFields} {budget : BudgetFields}
    (hchat : inv.chatId = some chatId) (hmessage : inv.messageId = some messageId)
    (hauthorization : inv.authorization = some authorization) (hquery : lastUserMessage inv.body = some query)
    (hne : query ≠ []) (hrequested : requested inv = .ok (research, budget)) :
    Keeps (Reason inv) (Attempted inv) [] (attempt inv query chatId messageId research budget) := by
  rw [attempt]
  refine quiet_then (quiet_collectContext inv chatId) (fun _ he => absurd he List.not_mem_nil) fun asked context hno hcontext => ?_
  have hcollected := collectContext_runs authorization hcontext
  refine quiet_then quiet_availableModels hno fun listed available hno hlisted => ?_
  have hlisted := availableModels_runs hlisted
  refine quiet_then (quiet_selectModels inv available) hno fun prompted selection hno hselection => ?_
  cases selection with
  | message text => exact hno
  | selected models capabilities =>
    have hselected := selected_of_runs hlisted hselection
    obtain ⟨contextDocuments, sources, linked⟩ := context
    simp only [proceed]
    split
    · exact hno
    · next hsearch =>
      rw [approveAndCreate]
      refine quiet_then (quiet_approval inv _) hno fun approving refused hno hrefused => ?_
      cases refused with
      | some text => exact hno
      | none =>
        have happroved := approval_runs hrefused
        refine quiet_then (quiet_announced inv) hno fun announcing _ hno _ => keeps_createJob hno fun key hkey => ?_
        simp only [List.nil_append]
        refine ⟨hkey, ⟨hchat, hmessage⟩, ⟨hquery, hne⟩, hrequested,
          ⟨asked, authorization, linked, ?_, hauthorization, hcollected, happroved.mono ?_⟩, fun hprivate => ?_,
          hselected.mono ?_⟩
        · simp only [List.append_assoc]
          exact List.prefix_append ..
        · intro e he
          simp [he]
        · by_contra hnone
          rw [not_or, not_not, not_not] at hnone
          have hsources : sources = [] := hnone.1
          have hdocuments : contextDocuments = [] := hnone.2
          exact hsearch (by simp [hprivate, hsources, hdocuments])
        · intro e he
          rcases List.mem_append.mp he with hl | hp
          · simp [hl]
          · simp [hp]

/-- How a turn ends: with the stream of the job that was made, or with no job, or without one that
it knows of. -/
def Ended (inv : Invocation) (said : List (Call × Answer)) : Except CallError Result → Prop
  | .ok (.stream jobId started wait) => ∃ body answer, AskedLast said body answer ∧
      jobOf inv answer = some (jobId, started) ∧ wait = body.budget.maxWallTimeSeconds + inv.valves.completionGraceSeconds
  | .ok (.message _) => NoJob said ∨ ∃ body answer e, AskedLast said body answer ∧ checked answer.reply = .error e
  | .error _ => NoJob said ∨ ∃ body answer, AskedLast said body answer ∧ jobOf inv answer = none

theorem keeps_ask_turn {query chatId messageId : Text} (hchat : inv.chatId = some chatId)
    (hmessage : inv.messageId = some messageId) (hquery : lastUserMessage inv.body = some query) (hne : query ≠ []) :
    Keeps (Reason inv) (Ended inv) [] (ask inv query chatId messageId) := by
  have hnone : NoJob [] := fun _ he => absurd he List.not_mem_nil
  unfold ask
  split
  · exact .inl hnone
  · next research budget hrequested =>
    cases hauthorization : inv.authorization with
    | none => exact .inl hnone
    | some authorization =>
      refine (keeps_attempt hchat hmessage hauthorization hquery hne hrequested).handle fun said' result _ hended => ?_
      cases result with
      | ok result =>
        cases result with
        | message text => exact .inl hended
        | stream jobId started wait => exact hended
      | error e =>
        rcases hended with hno | ⟨body, answer, hasked, hjob, hreply⟩
        · cases e with
          | status text => cases text <;> exact .inl hno
          | http | raised | unfinished => exact .inl hno
        · cases e with
          | status text =>
            cases text with
            | some text => exact .inr ⟨body, answer, _, hasked, hreply nofun⟩
            | none => exact .inr ⟨body, answer, hasked, hjob⟩
          | http message => exact .inr ⟨body, answer, _, hasked, hreply nofun⟩
          | raised => exact .inr ⟨body, answer, hasked, hjob⟩
          | unfinished => exact .inr ⟨body, answer, hasked, hjob⟩

theorem some_of_not_missing {text : Option Text} (h : ¬ missing text = true) : text = some (text.getD []) := by
  cases text with
  | none => exact absurd rfl h
  | some text => rfl

theorem keeps_pipe (inv : Invocation) : Keeps (Reason inv) (Ended inv) [] (pipe inv) := by
  have hnone : NoJob [] := fun _ he => absurd he List.not_mem_nil
  unfold pipe
  split
  · exact .inl hnone
  · split
    · exact .inl hnone
    · next hsession =>
      simp only [Bool.or_eq_true, not_or] at hsession
      obtain ⟨⟨-, hchat⟩, hmessage⟩ := hsession
      cases hquery : lastUserMessage inv.body with
      | none => exact .inl hnone
      | some query =>
        show Keeps _ _ _ (if query.isEmpty = true then _ else _)
        split
        · exact .inl hnone
        · next hne =>
          exact keeps_ask_turn (some_of_not_missing hchat) (some_of_not_missing hmessage) hquery (by simpa using hne)

end

/-- Whatever is answered, a turn asks for a job once at most and then asks nothing more; it does so for
a question of the user, with the shape and the limits that the user may have, models that the
service has listed and the context of the chats; and where it has to be, the plan has been approved
of. It streams the result of the job that was made, and any other end knows of no job. -/
theorem turn_creates (inv : Invocation) (exchanges : List (Call × Answer)) (result : Except CallError Result)
    (h : Runs (pipe inv) exchanges result) :
    (∀ before key body answer rest, exchanges = before ++ (.createJob key body, answer) :: rest →
      rest = [] ∧ NoJob before ∧ Justified inv before key body) ∧ Ended inv exchanges result := by
  obtain ⟨hreasons, hended⟩ := (keeps_pipe inv).runs h
  simp only [List.nil_append] at hreasons hended
  refine ⟨fun before key body answer rest heq => ?_, hended⟩
  obtain ⟨hno, hjustified⟩ := hreasons before _ answer rest heq
  refine ⟨?_, hno, hjustified key body rfl⟩
  cases rest with
  | nil => rfl
  | cons next rest =>
    obtain ⟨hlater, -⟩ := hreasons (before ++ [(.createJob key body, answer)]) next.1 next.2 rest (by simp [heq])
    exact absurd (hlater (.createJob key body, answer) (by simp)) (by simp [Call.isCreation])

namespace Sample

def askedTurn : Invocation where
  valves := ⟨.ofString "token", true, true, {}, {}, [], 60⟩
  user := ((Value.object [("id", .text "user")]).fields?).getD []
  userValues := none
  chatId := some (.ofString "chat")
  messageId := some (.ofString "message")
  body := ((Value.object [("messages", .list [.object [("role", .text "user"), ("content", .text "Why?")]])]).fields?).getD []
  files := []
  authorization := some []
  hasEventCall := true
  hasEmitter := false
  repr _ := []
  dumps _ := []
  digest text := text
  digit? := ResearchGateway.Sample.selectionHost.digit?
  intOfText _ := none
  fuel := 2

def replied (payload : Value) : Answer := {reply := .answered {status := 200, json := some payload}}

/-- A model is listed and selected for each role, the plan approved of and the job made. -/
def turnAnswers : List Answer :=
  let role : Value := .object [("label", .text "mini")]
  [replied (.object []),
    replied (.object [("data", .list [.object [("id", .text "mini"), ("context_length", .int 128000),
      ("max_output_tokens", .int 32000)]])]),
    {value := some (.object [("status", .text "answered"), ("answers", .object [("fast", role), ("smart", role), ("strategic", role)])])},
    {value := some (.bool true)},
    replied (.object [("id", .text "job")])]

end Sample

theorem turn_creates_asked : ∃ exchanges before key body answer,
    exchanges = before ++ [(.createJob key body, answer)] ∧ Justified Sample.askedTurn before key body := by
  obtain ⟨exchanges, started, hrun⟩ : ∃ exchanges started, (pipe Sample.askedTurn).run Sample.turnAnswers =
      some (exchanges, .ok (.stream (.ofString "job") started 3660)) := ⟨_, _, rfl⟩
  obtain ⟨hcreates, body, answer, ⟨before, key, heq, -⟩, -⟩ := turn_creates _ _ _ (runs_of_run hrun)
  exact ⟨exchanges, before, key, body, answer, heq, (hcreates _ _ _ _ _ heq).2.2⟩

end Turn
end ResearchGateway
