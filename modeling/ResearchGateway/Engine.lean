import ResearchGateway.Progress
import ResearchGateway.Retrievers

/-! A run of the research engine.

The engine asks GPT Researcher for the research and then for the report. While it waits, callbacks
report progress in any order; the updates of the deep research are sent by tasks, and the engine asks
for the report only when those are done (`report_awaits_progress`). What it returns has each source
once (`completion_sound`). -/
namespace ResearchGateway
open Library

namespace Engine

/-- What a run reads of `RunnerJobSpec`. -/
structure RunnerJobSpec extends RetrieverSpec where
  query : Text
  iteration : Int := 1

/-- What a run computes outside of it. -/
structure Host where
  /-- `str.isalnum` of a symbol. -/
  isAlnum : CodePoint → Bool
  /-- `str` of a float, a list or a dictionary. -/
  repr : Value → Text
  /-- `json.dumps`, with its keys in order. -/
  dumps : Fields → Text
  /-- `json.dumps` with an indentation of 2. -/
  indented : Value → Text
  /-- `hashlib.sha256(text.encode()).hexdigest()`. -/
  digest : Text → Text
  lower : Text → Text

/-! ### Sources -/

section
variable (host : Host)

/-- By what `deduplicate_sources` tells sources apart; `none` is an exception. -/
def sourceIdentity (source : Fields) : Option Text :=
  let metadata := (source.get "metadata").fields?.getD []
  let identity := ((source.get "url").orElse ((metadata.get "file_id").orElse (.str []))).toText host.repr
  if identity ≠ [] then some identity
  else if (host.dumps source).isEncodable then some (host.digest (host.dumps source))
  else none

def deduplicateFrom (seen : List Text) : List Fields → Option (List Fields)
  | [] => some []
  | source :: rest =>
    match sourceIdentity host source with
    | none => none
    | some identity =>
      if identity ∈ seen then deduplicateFrom seen rest
      else (deduplicateFrom (seen ++ [identity]) rest).map fun result => source :: result

/-- `deduplicate_sources`. -/
def deduplicateSources (sources : List Fields) : Option (List Fields) := deduplicateFrom host [] sources

/-- `isinstance(raw_sources, list)`, and the dictionaries among them, before the private ones. -/
def allSources (rawSources : Value) (privateContext : List Fields) : List Fields :=
  (match rawSources with
    | .list items => items.filterMap Value.fields?
    | _ => []) ++ privateContext

variable {host} {seen : List Text} {sources result : List Fields}

/-- The loop keeps the first source of each identity. -/
theorem deduplicateFrom_eq (h : deduplicateFrom host seen sources = some result) :
    result = firsts (sourceIdentity host) (seen.map some) sources ∧ ∀ source ∈ sources, (sourceIdentity host source).isSome := by
  induction sources generalizing seen result with
  | nil => exact ⟨(Option.some.inj h).symm, fun _ hs => absurd hs List.not_mem_nil⟩
  | cons source rest ih =>
    unfold deduplicateFrom at h
    cases hidentity : sourceIdentity host source with
    | none =>
      rw [hidentity] at h
      cases h
    | some identity =>
      simp only [hidentity] at h
      have hmem : sourceIdentity host source ∈ seen.map some ↔ identity ∈ seen := by simp [hidentity]
      by_cases hseen : identity ∈ seen
      · rw [if_pos hseen] at h
        obtain ⟨hresult, hall⟩ := ih h
        rw [firsts_cons_of_mem (hmem.mpr hseen)]
        exact ⟨hresult, List.forall_mem_cons.mpr ⟨by simp [hidentity], hall⟩⟩
      · rw [if_neg hseen] at h
        obtain ⟨result', hrest, rfl⟩ := Option.map_eq_some_iff.mp h
        obtain ⟨hresult, hall⟩ := ih hrest
        rw [firsts_cons_of_not_mem (fun hknown => hseen (hmem.mp hknown)), hresult, hidentity, List.map_append]
        exact ⟨rfl, List.forall_mem_cons.mpr ⟨by simp [hidentity], hall⟩⟩

/-- No source before the place has the identity of the one at it. -/
def IsFirst (host : Host) (sources : List Fields) (place : Nat) : Prop :=
  ∀ earlier ∈ sources.take place, ∀ source ∈ sources[place]?, sourceIdentity host earlier ≠ sourceIdentity host source

/-- Each source once, the first of those with its identity, in the order in which they came. -/
structure Deduplicated (host : Host) (sources result : List Fields) : Prop where
  distinct : (result.map (sourceIdentity host)).Nodup
  /-- The sources that are kept are those at the places which are the first of their identities. -/
  kept : ∃ places : List Nat, places.Pairwise (· < ·) ∧ (∀ place, place ∈ places ↔ place < sources.length ∧
    IsFirst host sources place) ∧ result = places.filterMap fun place => sources[place]?
  complete : ∀ source ∈ sources, sourceIdentity host source ∈ result.map (sourceIdentity host)
  identified : ∀ source ∈ sources, (sourceIdentity host source).isSome

theorem deduplicated (h : deduplicateSources host sources = some result) : Deduplicated host sources result := by
  obtain ⟨rfl, hall⟩ := deduplicateFrom_eq h
  refine ⟨firsts_nodup .., ?_, fun source hsource => ?_, hall⟩
  · obtain ⟨places, hincreasing, hplaces, hkept⟩ := firsts_places (sourceIdentity host) sources
    exact ⟨places, hincreasing, hplaces, hkept⟩
  have hkey : sourceIdentity host source ∈ ([] : List Text).map some ∨ _ := key_mem_firsts hsource
  exact hkey.resolve_left List.not_mem_nil

end

/-! ### The report -/

section
variable (host : Host)

/-- `text.split()`. -/
def split (t : Text) : List Text := (t.splitOnP CodePoint.isSpace).filter fun word => !word.isEmpty

/-- `part in text`. -/
def contains (text : Text) (part : String) : Bool := text.tails.any fun rest => (Text.ofString part).isPrefixOf rest

/-- What `ensure_iteration_summary` puts before the report. -/
def iterationSummary (query : Text) : Text :=
  .ofString "## Changes since previous iteration\n\n- **Requested refinement:** " ++ Text.join " " (split query) ++
    .ofString ("\n- **Context carried forward:** The preceding conversation, prior report, attached " ++
      "files, and Knowledge selections were supplied to this iteration.\n" ++
      "- **Result handling:** The revised report below supersedes the prior version; its " ++
      "source list is deduplicated by canonical URL or Open WebUI file identity.\n\n")

/-- `ensure_iteration_summary`. -/
def ensureIterationSummary (report : Text) (spec : RunnerJobSpec) : Text :=
  if spec.iteration ≤ 1 || contains (host.lower report) "changes since previous iteration" then report
  else iterationSummary spec.query ++ report

/-- The passages that were found in the user's own sources. -/
def privateText (privateContext : List Fields) : Text :=
  Text.join "\n\n" (privateContext.map fun item =>
    .ofString "[Private Open WebUI source]\n" ++ (item.getOr "text" (.str [])).toText host.repr)

/-- The context that the report is written from. -/
def mergedContext (publicContext : Value) (privateContext : List Fields) : Value :=
  let text := privateText host privateContext
  if text.isEmpty then publicContext
  else match publicContext with
    | .list items => .list (items ++ [.str text])
    | _ => .str (publicContext.toText host.repr ++ .ofString "\n\n" ++ text)

/-- A report that is not empty. -/
def acceptedReport (report : Value) : Option Text :=
  let text := (report.toText host.repr).strip
  if text.isEmpty || host.lower text = .ofString "none" then none else some text

def notes (publicContext : Value) : Text :=
  .ofString "# Research notes\n\n" ++ match publicContext with
    | .str text => text
    | _ => host.indented publicContext

end

/-- What `run` returns. -/
structure Completion where
  reportMarkdown : Text
  researchNotesMarkdown : Text
  sources : List Fields
  upstreamCosts : Value

/-! ### The run -/

/-- A run, and what it is given. -/
structure Task where
  host : Host
  engine : GPTResearcherEngine
  spec : RunnerJobSpec
  privateContext : List Fields
  /-- The globals of `upstream.py`, and what the package's own factory returns. -/
  upstream : UpstreamModule
  packageRetrievers : List Retriever

inductive Phase where
  | starting
  /-- It waits until the plan has been told of. -/
  | planning
  | researching
  /-- It waits for the callbacks that were not done when the research came back. -/
  | gathering (pending : List Nat) (publicContext : Value)
  | writing (publicContext : Value)
  | reporting (publicContext : Value)
  | finalizing (publicContext : Value) (report : Text)
  | completed (completion : Completion)
  | raised

def Phase.isOver : Phase → Bool
  | .completed _ | .raised => true
  | _ => false

structure State where
  progress : Progress.State := {}
  /-- The tasks of `on_progress`. -/
  callbacks : List Nat := []
  phase : Phase := .starting

inductive Input where
  /-- A step of a callback, of a task or of the emitter. -/
  | callback (i : Progress.Input)
  /-- The engine goes on, if what it waits for is done. -/
  | goOn
  /-- `conduct_research` returns. -/
  | researched (publicContext : Value)
  /-- `write_report` returns. -/
  | reported (report : Value)
  /-- What the researcher has of sources and costs at the end. -/
  | collected (rawSources costs : Value)
  /-- A call that the engine makes or waits for raises, or it is cancelled. Where it is cancelled in a call
  of the emitter, that is the `leave` of the engine. -/
  | raise

inductive Output where
  | sent (e : Progress.Emission)
  | conduct (retrievers : List Retriever)
  | writeReport (context : Value)

/-- The caller of the emitter that is the engine itself. -/
def engineCaller : Nat := 0

def planningData : Fields :=
  [Progress.stageField .planning, (.ofString "message", .text "Planning research and identifying sources")]

def writingData : Fields := [Progress.stageField .writing]

def finalizingData : Fields :=
  [Progress.stageField .finalizing, (.ofString "message", .text "Finalizing report and source artifacts")]

/-- Who has called the emitter, or will, and is not done. -/
def inFlight (s : Progress.State) : List Nat := (s.tasks ++ s.emitter.waiting ++ s.emitter.busy.toList).map Prod.fst

section
variable (task : Task)

/-- The retrievers of the researcher, or the `ValueError` that there is nothing to search. -/
def retrievers? : Option (List Retriever) :=
  task.engine.rootRetrievers (fun _ : Unit => task.packageRetrievers) task.spec.toRetrieverSpec task.upstream ()

def completion? (publicContext : Value) (report : Text) (rawSources costs : Value) : Option Completion :=
  (deduplicateSources task.host (allSources rawSources task.privateContext)).map fun sources =>
    ⟨report, notes task.host publicContext, sources, costs⟩

/-- Whether what the engine waits for in its phase is done. -/
def isDone (s : State) : Bool :=
  match s.phase with
  | .starting => true
  | .planning | .writing _ | .finalizing .. => engineCaller ∉ inFlight s.progress
  | .gathering pending _ => pending.all (· ∉ inFlight s.progress)
  | _ => false

def phaseAfter (i : Input) (s : State) : Phase :=
  match i, s.phase with
  | _, .completed completion => .completed completion
  | _, .raised => .raised
  | .raise, _ => .raised
  | .callback (.leave caller), phase => if caller = engineCaller then .raised else phase
  | .goOn, .starting => .planning
  | .goOn, .planning => if isDone s then if (retrievers? task).isSome then .researching else .raised else s.phase
  | .researched publicContext, .researching =>
    .gathering (s.callbacks.filter (· ∈ inFlight s.progress)) publicContext
  | .goOn, .gathering _ publicContext => if isDone s then .writing publicContext else s.phase
  | .goOn, .writing publicContext => if isDone s then .reporting publicContext else s.phase
  | .reported report, .reporting publicContext =>
    match acceptedReport task.host report with
    | none => .raised
    | some text => .finalizing publicContext (ensureIterationSummary task.host text task.spec)
  | .collected rawSources costs, .finalizing publicContext report =>
    if isDone s then
      match completion? task publicContext report rawSources costs with
      | none => .raised
      | some completion => .completed completion
    else s.phase
  | _, phase => phase

/-- What the engine itself emits in a step. -/
def announcement (i : Input) (s : State) : Option Fields :=
  match i, s.phase with
  | .goOn, .starting => some planningData
  | .goOn, .gathering .. => if isDone s then some writingData else none
  | .reported report, .reporting _ => (acceptedReport task.host report).map fun _ => finalizingData
  | _, _ => none

/-- A step of the progress in a step of the engine. -/
def feed (i : Input) (s : State) : List Progress.Input :=
  match i with
  | .callback i => [i]
  | _ => (announcement task i s).toList.map (.emit engineCaller)

/-- What the engine asks the researcher for in a step. -/
def asked (i : Input) (s : State) : List Output :=
  match i, s.phase with
  | .goOn, .planning => if isDone s then (retrievers? task).toList.map .conduct else []
  | .goOn, .writing publicContext =>
    if isDone s then [.writeReport (mergedContext task.host publicContext task.privateContext)] else []
  | _, _ => []

def callbacksAfter (i : Input) (s : State) : List Nat :=
  match i with
  | .callback (.update caller _) => s.callbacks ++ [caller]
  | _ => s.callbacks

def progressMachine : Machine Progress.State Progress.Input Progress.Emission :=
  Progress.machine task.host.isAlnum task.host.repr task.host.dumps

def machine : Machine State Input Output where
  next i s := ⟨(progressMachine task).run s.progress (feed task i s), callbacksAfter i s, phaseAfter task i s⟩
  out i s := asked task i s ++ ((progressMachine task).trace s.progress (feed task i s)).map .sent

end

/-! ### What was sent -/

def Output.sent? : Output → Option Progress.Emission
  | sent e => some e
  | _ => none

def Output.isReport : Output → Bool
  | writeReport _ => true
  | _ => false

/-- The updates of a run, as they were sent. -/
def sentOf (outs : List Output) : List Progress.Emission := outs.filterMap Output.sent?

/-- The report has not been asked for. -/
def NoReport (outs : List Output) : Prop := ∀ o ∈ outs, o.isReport = false

section
variable (task : Task)

/-- The steps of the progress along a run. -/
def progressInputs (inputs : List Input) : List Progress.Input := ((machine task).observing (feed task)).trace {} inputs

/-- All that there was to emit, with its callers. -/
def emissions (inputs : List Input) : List (Nat × Progress.Emission) :=
  Progress.emissions task.host.isAlnum task.host.repr task.host.dumps (progressInputs task inputs)

/-- The updates that `on_progress` was given. -/
def reported (inputs : List Input) : List (Nat × Progress.Emission) :=
  (emissions task inputs).filter fun call => call.2.batch?.isSome

/-- An update with this signature has been sent. -/
def Told (outs : List Output) (e : Progress.Emission) : Prop :=
  Progress.signature task.host.dumps e ∈ (sentOf outs).map (Progress.signature task.host.dumps)

/-- A callback was cancelled. -/
def GivenUp (inputs : List Input) (caller : Nat) : Prop := .callback (.leave caller) ∈ inputs

/-- The state of a run, and what was sent. -/
structure Reached (s : State) (inputs : List Input) (outs : List Output) : Prop where
  reached : s = (machine task).run {} inputs
  accounted : Progress.Accounted task.host.isAlnum task.host.repr task.host.dumps s.progress (progressInputs task inputs)
    (sentOf outs)
  callbacks : ∀ call ∈ reported task inputs, call.1 ∈ s.callbacks

variable {task} {s : State} {inputs : List Input} {outs : List Output}

theorem sentOf_append (outs outs' : List Output) : sentOf (outs ++ outs') = sentOf outs ++ sentOf outs' :=
  List.filterMap_append ..

theorem sentOf_out (i : Input) (s : State) :
    sentOf ((machine task).out i s) = (progressMachine task).trace s.progress (feed task i s) := by
  have hasked : sentOf (asked task i s) = [] := by
    unfold asked
    split
    · split
      · cases retrievers? task <;> rfl
      · rfl
    · split <;> rfl
    · rfl
  have hsent (es : List Progress.Emission) : sentOf (es.map .sent) = es := by
    rw [sentOf, List.filterMap_map]
    exact List.filterMap_some
  show sentOf (asked task i s ++ _) = _
  rw [sentOf_append, hasked, hsent, List.nil_append]

theorem progressInputs_snoc (inputs : List Input) (i : Input) :
    progressInputs task (inputs ++ [i]) = progressInputs task inputs ++ feed task i ((machine task).run {} inputs) :=
  Machine.trace_observing_snoc ..

theorem mem_progressInputs {i : Progress.Input} (h : i ∈ progressInputs task inputs) :
    .callback i ∈ inputs ∨ ∃ data, i = .emit engineCaller data := by
  obtain ⟨before, step, hpre, hmem⟩ := (Machine.mem_trace_observing _).mp h
  cases step with
  | callback i' =>
    obtain rfl := List.mem_singleton.mp hmem
    exact .inl (hpre.subset (by simp))
  | _ =>
    obtain ⟨data, -, heq⟩ := List.mem_map.mp hmem
    exact .inr ⟨data, heq.symm⟩

theorem GivenUp.of_progress {caller : Nat} (h : .leave caller ∈ progressInputs task inputs) : GivenUp inputs caller := by
  rcases mem_progressInputs h with hcallback | ⟨data, heq⟩
  · exact hcallback
  · cases heq

theorem emissions_snoc (inputs : List Input) (i : Input) :
    emissions task (inputs ++ [i]) = emissions task inputs ++
      ((Progress.machine task.host.isAlnum task.host.repr task.host.dumps).observing fun i s =>
        (Progress.produced task.host.isAlnum task.host.repr i s).toList).trace
          ((progressMachine task).run {} (progressInputs task inputs)) (feed task i ((machine task).run {} inputs)) := by
  rw [emissions, Progress.emissions, progressInputs_snoc, Machine.trace_append, Machine.run_observing]
  rfl

/-- An update of `on_progress` is emitted in its step. -/
theorem batch_produced {i : Progress.Input} {s : Progress.State} {call : Nat × Progress.Emission}
    (h : Progress.produced task.host.isAlnum task.host.repr i s = some call) (hbatch : call.2.batch?.isSome) :
    ∃ update, i = .update call.1 update := by
  cases i with
  | log caller payload =>
    obtain ⟨e, he, rfl⟩ := Option.map_eq_some_iff.mp h
    have hnone := ((Progress.sendJson_cases payload s.pageReads).2 e he).1
    rw [hnone] at hbatch
    cases hbatch
  | step caller step details =>
    obtain ⟨e, he, rfl⟩ := Option.map_eq_some_iff.mp h
    rw [(Progress.onResearchStep_plain he).1] at hbatch
    cases hbatch
  | update caller update =>
    obtain rfl := Option.some.inj h
    exact ⟨update, rfl⟩
  | emit caller data =>
    obtain rfl := Option.some.inj h
    cases hbatch
  | _ => cases h

theorem Reached.step (h : Reached task s inputs outs) (i : Input) :
    Reached task ((machine task).next i s) (inputs ++ [i]) (outs ++ (machine task).out i s) := by
  obtain ⟨hreached, haccounted, hcallbacks⟩ := h
  refine ⟨by rw [Machine.run_snoc, ← hreached], ?_, fun call hcall => ?_⟩
  · rw [progressInputs_snoc, sentOf_append, sentOf_out, ← hreached]
    exact haccounted.run _
  · obtain ⟨hmem, hbatch⟩ := List.mem_filter.mp hcall
    rw [emissions_snoc] at hmem
    show call.1 ∈ callbacksAfter i s
    rcases List.mem_append.mp hmem with hold | hnew
    · have hknown := hcallbacks call (List.mem_filter.mpr ⟨hold, hbatch⟩)
      unfold callbacksAfter
      split
      · exact List.mem_append_left _ hknown
      · exact hknown
    · obtain ⟨before, step, hpre, hproduced⟩ := (Machine.mem_trace_observing _).mp hnew
      obtain ⟨update, rfl⟩ := batch_produced (Option.mem_toList.mp hproduced) hbatch
      have hfed : .update call.1 update ∈ feed task i ((machine task).run {} inputs) := hpre.subset (by simp)
      cases i with
      | callback i' =>
        obtain rfl := List.mem_singleton.mp hfed
        exact List.mem_append_right _ (List.mem_singleton_self _)
      | _ =>
        obtain ⟨data, -, heq⟩ := List.mem_map.mp hfed
        cases heq

/-- What was emitted and is not in flight has been sent, or it was given up. -/
theorem Reached.told (h : Reached task s inputs outs) {call : Nat × Progress.Emission} (hcall : call ∈ emissions task inputs)
    (hdone : call.1 ∉ inFlight s.progress) : Told task outs call.2 ∨ GivenUp inputs call.1 := by
  have hwhere (calls : List (Nat × Progress.Emission)) (hsub : calls ⊆ s.progress.tasks ++ s.progress.emitter.waiting) :
      call ∉ calls := fun hmem =>
    hdone (List.mem_map.mpr ⟨call, List.mem_append_left _ (hsub hmem), rfl⟩)
  rcases h.accounted.delivered hcall with htask | hwaits | hleft | hsent
  · exact absurd htask (hwhere _ (List.subset_append_left ..))
  · exact absurd hwaits (hwhere _ (List.subset_append_right ..))
  · exact .inr (GivenUp.of_progress hleft)
  · exact .inl hsent

/-! ### The phases -/

section
variable (task)

/-- The updates that were reported before the research came back have been sent, or given up, or the
engine waits for them. -/
def Awaited (inputs : List Input) (outs : List Output) (publicContext : Value) (pending : List Nat) : Prop :=
  ∃ early, early ++ [.researched publicContext] <+: inputs ∧ ((machine task).run {} early).phase = .researching ∧
    ∀ call ∈ reported task early, Told task outs call.2 ∨ GivenUp inputs call.1 ∨ call.1 ∈ pending

/-- The report was asked for once, when the updates of the research were done. -/
structure Asked (inputs : List Input) (before after : List Output) (publicContext : Value) : Prop where
  first : NoReport before
  last : NoReport after
  planned : Told task before (.plain planningData)
  writing : Told task before (.plain writingData)
  awaited : Awaited task inputs before publicContext []

def ReportAsked (inputs : List Input) (outs : List Output) (publicContext : Value) : Prop :=
  ∃ before after, outs = before ++ .writeReport (mergedContext task.host publicContext task.privateContext) :: after ∧
    Asked task inputs before after publicContext

/-- The report came back. -/
def ReportGiven (inputs : List Input) (report : Text) : Prop :=
  ∃ value text, .reported value ∈ inputs ∧ acceptedReport task.host value = some text ∧
    report = ensureIterationSummary task.host text task.spec

def PhaseSound (inputs : List Input) (outs : List Output) : Phase → Prop
  | .starting => NoReport outs
  | .planning => NoReport outs ∧ (engineCaller, .plain planningData) ∈ emissions task inputs
  | .researching => NoReport outs ∧ Told task outs (.plain planningData)
  | .gathering pending publicContext =>
    NoReport outs ∧ Told task outs (.plain planningData) ∧ Awaited task inputs outs publicContext pending
  | .writing publicContext =>
    NoReport outs ∧ Told task outs (.plain planningData) ∧ Awaited task inputs outs publicContext [] ∧
      (engineCaller, .plain writingData) ∈ emissions task inputs
  | .reporting publicContext => ReportAsked task inputs outs publicContext
  | .finalizing publicContext report =>
    ReportAsked task inputs outs publicContext ∧ ReportGiven task inputs report ∧
      (engineCaller, .plain finalizingData) ∈ emissions task inputs
  | .completed completion =>
    ∃ publicContext report rawSources costs, ReportAsked task inputs outs publicContext ∧ ReportGiven task inputs report ∧
      Told task outs (.plain finalizingData) ∧ .collected rawSources costs ∈ inputs ∧
      completion? task publicContext report rawSources costs = some completion
  | .raised => NoReport outs ∨ ∃ publicContext, ReportAsked task inputs outs publicContext

end

section
variable {outs' : List Output} {i : Input} {publicContext : Value} {pending : List Nat} {e : Progress.Emission}

theorem NoReport.append (h : NoReport outs) (hmore : NoReport outs') : NoReport (outs ++ outs') :=
  fun o ho => (List.mem_append.mp ho).elim (h o) (hmore o)

theorem Told.append (h : Told task outs e) (outs' : List Output) : Told task (outs ++ outs') e := by
  rw [Told, sentOf_append, List.map_append]
  exact List.mem_append_left _ h

theorem GivenUp.snoc {caller : Nat} (h : GivenUp inputs caller) (i : Input) : GivenUp (inputs ++ [i]) caller :=
  List.mem_append_left _ h

theorem emissions_subset {inputs inputs' : List Input} (h : inputs <+: inputs') :
    emissions task inputs ⊆ emissions task inputs' := by
  obtain ⟨later, rfl⟩ := h
  rw [emissions, emissions, progressInputs, progressInputs, Machine.trace_append, Progress.emissions, Progress.emissions,
    Machine.trace_append]
  exact List.subset_append_left ..

theorem Awaited.more (h : Awaited task inputs outs publicContext pending) (i : Input) (outs' : List Output) :
    Awaited task (inputs ++ [i]) (outs ++ outs') publicContext pending := by
  obtain ⟨early, hpre, hphase, hall⟩ := h
  refine ⟨early, hpre.trans (List.prefix_append ..), hphase, fun call hcall => ?_⟩
  rcases hall call hcall with htold | hleft | hpending
  · exact .inl (htold.append outs')
  · exact .inr (.inl (hleft.snoc i))
  · exact .inr (.inr hpending)

theorem Asked.more {before after : List Output} (h : Asked task inputs before after publicContext) (i : Input)
    (hno : NoReport outs') : Asked task (inputs ++ [i]) before (after ++ outs') publicContext := by
  obtain ⟨hfirst, hlast, hplanned, hwriting, hawaited⟩ := h
  refine ⟨hfirst, hlast.append hno, hplanned, hwriting, ?_⟩
  have hmore := hawaited.more i []
  rwa [List.append_nil] at hmore

theorem ReportAsked.more (h : ReportAsked task inputs outs publicContext) (i : Input) (hno : NoReport outs') :
    ReportAsked task (inputs ++ [i]) (outs ++ outs') publicContext := by
  obtain ⟨before, after, rfl, hasked⟩ := h
  exact ⟨before, after ++ outs', by simp, hasked.more i hno⟩

theorem ReportGiven.more {report : Text} (h : ReportGiven task inputs report) (i : Input) :
    ReportGiven task (inputs ++ [i]) report := by
  obtain ⟨value, text, hvalue, hgiven⟩ := h
  exact ⟨value, text, List.mem_append_left _ hvalue, hgiven⟩

/-- What is known of a phase stays known while it lasts. -/
theorem PhaseSound.more {phase : Phase} (h : PhaseSound task inputs outs phase) (i : Input) (hno : NoReport outs') :
    PhaseSound task (inputs ++ [i]) (outs ++ outs') phase := by
  cases phase with
  | starting => exact NoReport.append h hno
  | planning => exact ⟨h.1.append hno, emissions_subset (List.prefix_append ..) h.2⟩
  | researching => exact ⟨h.1.append hno, h.2.append _⟩
  | gathering pending publicContext => exact ⟨h.1.append hno, h.2.1.append _, h.2.2.more i _⟩
  | writing publicContext =>
    exact ⟨h.1.append hno, h.2.1.append _, h.2.2.1.more i _, emissions_subset (List.prefix_append ..) h.2.2.2⟩
  | reporting publicContext => exact ReportAsked.more h i hno
  | finalizing publicContext report => exact ⟨h.1.more i hno, h.2.1.more i, emissions_subset (List.prefix_append ..) h.2.2⟩
  | completed completion =>
    obtain ⟨publicContext, report, rawSources, costs, hasked, hgiven, htold, hcollected, hcompletion⟩ := h
    exact ⟨publicContext, report, rawSources, costs, hasked.more i hno, hgiven.more i, htold.append _,
      List.mem_append_left _ hcollected, hcompletion⟩
  | raised =>
    rcases h with hnone | ⟨publicContext, hasked⟩
    · exact .inl (hnone.append hno)
    · exact .inr ⟨publicContext, hasked.more i hno⟩

/-- Whatever the phase, the run may end there. -/
theorem PhaseSound.raised {phase : Phase} (h : PhaseSound task inputs outs phase) : PhaseSound task inputs outs .raised := by
  cases phase with
  | starting => exact .inl h
  | planning | researching | gathering _ _ | writing _ => exact .inl h.1
  | reporting publicContext => exact .inr ⟨publicContext, h⟩
  | finalizing publicContext _ => exact .inr ⟨publicContext, h.1⟩
  | completed _ =>
    obtain ⟨publicContext, report, rawSources, costs, hasked, -⟩ := h
    exact .inr ⟨publicContext, hasked⟩
  | raised => exact h

/-- What the engine does in a step: where it goes, and what it asks for. -/
inductive Moves (task : Task) (i : Input) (s : State) : Phase → List Output → Prop
  | stays : Moves task i s s.phase []
  | raises : Moves task i s .raised []
  | starts (hphase : s.phase = .starting) (hi : i = .goOn) : Moves task i s .planning []
  | researches {retrievers : List Retriever} (hphase : s.phase = .planning) (hdone : isDone s = true)
    (hretrievers : retrievers? task = some retrievers) : Moves task i s .researching [.conduct retrievers]
  | gathers {publicContext : Value} (hphase : s.phase = .researching) (hi : i = .researched publicContext) :
    Moves task i s (.gathering (s.callbacks.filter (· ∈ inFlight s.progress)) publicContext) []
  | writes {pending : List Nat} {publicContext : Value} (hphase : s.phase = .gathering pending publicContext) (hi : i = .goOn)
    (hdone : isDone s = true) : Moves task i s (.writing publicContext) []
  | reports {publicContext : Value} (hphase : s.phase = .writing publicContext) (hi : i = .goOn) (hdone : isDone s = true) :
    Moves task i s (.reporting publicContext) [.writeReport (mergedContext task.host publicContext task.privateContext)]
  | finalizes {publicContext value : Value} {text : Text} (hphase : s.phase = .reporting publicContext)
    (hi : i = .reported value) (haccepted : acceptedReport task.host value = some text) :
    Moves task i s (.finalizing publicContext (ensureIterationSummary task.host text task.spec)) []
  | completes {publicContext rawSources costs : Value} {report : Text} {completion : Completion}
    (hphase : s.phase = .finalizing publicContext report) (hi : i = .collected rawSources costs) (hdone : isDone s = true)
    (hcompletion : completion? task publicContext report rawSources costs = some completion) :
    Moves task i s (.completed completion) []

/-- A callback moves the engine only where it is the engine's own, which is cancelled. -/
theorem moves_callback (task : Task) (i : Progress.Input) (s : State) :
    Moves task (.callback i) s (phaseAfter task (.callback i) s) (asked task (.callback i) s) := by
  have hcases : phaseAfter task (.callback i) s = s.phase ∨ phaseAfter task (.callback i) s = .raised := by
    cases i with
    | leave caller =>
      by_cases hown : caller = engineCaller
      · cases hphase : s.phase <;> simp [phaseAfter, hphase, hown]
      · cases hphase : s.phase <;> simp [phaseAfter, hphase, hown]
    | _ => cases hphase : s.phase <;> simp [phaseAfter, hphase]
  have hasked : asked task (.callback i) s = [] := by simp [asked]
  rw [hasked]
  rcases hcases with hphase | hphase
  · rw [hphase]
    exact .stays
  · rw [hphase]
    exact .raises

theorem moves (task : Task) (i : Input) (s : State) : Moves task i s (phaseAfter task i s) (asked task i s) := by
  have hstays (hphase : phaseAfter task i s = s.phase) (hasked : asked task i s = []) :
      Moves task i s (phaseAfter task i s) (asked task i s) := by
    rw [hphase, hasked]
    exact .stays
  have hraises (hphase : phaseAfter task i s = .raised) (hasked : asked task i s = []) :
      Moves task i s (phaseAfter task i s) (asked task i s) := by
    rw [hphase, hasked]
    exact .raises
  cases hphase : s.phase with
  | starting =>
    cases i with
    | goOn => simpa [phaseAfter, asked, hphase] using (Moves.starts hphase rfl : Moves task _ s _ _)
    | callback i => exact moves_callback task i s
    | raise => exact hraises (by simp [phaseAfter, hphase]) (by simp [asked])
    | _ => exact hstays (by simp [phaseAfter, hphase]) (by simp [asked])
  | planning =>
    cases i with
    | goOn =>
      by_cases hdone : isDone s = true
      · cases hretrievers : retrievers? task with
        | none => exact hraises (by simp [phaseAfter, hphase, hdone, hretrievers]) (by simp [asked, hphase, hretrievers])
        | some retrievers =>
          simpa [phaseAfter, asked, hphase, hdone, hretrievers] using Moves.researches hphase hdone hretrievers
      · exact hstays (by simp [phaseAfter, hphase, hdone]) (by simp [asked, hphase, hdone])
    | callback i => exact moves_callback task i s
    | raise => exact hraises (by simp [phaseAfter, hphase]) (by simp [asked])
    | _ => exact hstays (by simp [phaseAfter, hphase]) (by simp [asked])
  | researching =>
    cases i with
    | researched publicContext => simpa [phaseAfter, asked, hphase] using (Moves.gathers hphase rfl : Moves task _ s _ _)
    | callback i => exact moves_callback task i s
    | raise => exact hraises (by simp [phaseAfter, hphase]) (by simp [asked])
    | _ => exact hstays (by simp [phaseAfter, hphase]) (by simp [asked, hphase])
  | gathering pending publicContext =>
    cases i with
    | goOn =>
      by_cases hdone : isDone s = true
      · simpa [phaseAfter, asked, hphase, hdone] using (Moves.writes hphase rfl hdone : Moves task _ s _ _)
      · exact hstays (by simp [phaseAfter, hphase, hdone]) (by simp [asked, hphase])
    | callback i => exact moves_callback task i s
    | raise => exact hraises (by simp [phaseAfter, hphase]) (by simp [asked])
    | _ => exact hstays (by simp [phaseAfter, hphase]) (by simp [asked])
  | writing publicContext =>
    cases i with
    | goOn =>
      by_cases hdone : isDone s = true
      · simpa [phaseAfter, asked, hphase, hdone] using (Moves.reports hphase rfl hdone : Moves task _ s _ _)
      · exact hstays (by simp [phaseAfter, hphase, hdone]) (by simp [asked, hphase, hdone])
    | callback i => exact moves_callback task i s
    | raise => exact hraises (by simp [phaseAfter, hphase]) (by simp [asked])
    | _ => exact hstays (by simp [phaseAfter, hphase]) (by simp [asked])
  | reporting publicContext =>
    cases i with
    | reported value =>
      cases haccepted : acceptedReport task.host value with
      | none => exact hraises (by simp [phaseAfter, hphase, haccepted]) (by simp [asked])
      | some text => simpa [phaseAfter, asked, hphase, haccepted] using Moves.finalizes hphase rfl haccepted
    | callback i => exact moves_callback task i s
    | raise => exact hraises (by simp [phaseAfter, hphase]) (by simp [asked])
    | _ => exact hstays (by simp [phaseAfter, hphase]) (by simp [asked, hphase])
  | finalizing publicContext report =>
    cases i with
    | collected rawSources costs =>
      by_cases hdone : isDone s = true
      · cases hcompletion : completion? task publicContext report rawSources costs with
        | none => exact hraises (by simp [phaseAfter, hphase, hdone, hcompletion]) (by simp [asked])
        | some completion =>
          simpa [phaseAfter, asked, hphase, hdone, hcompletion] using Moves.completes hphase rfl hdone hcompletion
      · exact hstays (by simp [phaseAfter, hphase, hdone]) (by simp [asked])
    | callback i => exact moves_callback task i s
    | raise => exact hraises (by simp [phaseAfter, hphase]) (by simp [asked])
    | _ => exact hstays (by simp [phaseAfter, hphase]) (by simp [asked, hphase])
  | completed completion => exact hstays (by simp [phaseAfter, hphase]) (by cases i <;> simp [asked, hphase])
  | raised => exact hstays (by simp [phaseAfter, hphase]) (by cases i <;> simp [asked, hphase])

/-- What the engine itself emits is emitted. -/
theorem told_emitted {inputs : List Input} {i : Input} {data : Fields} (hfeed : feed task i ((machine task).run {} inputs) =
    [.emit engineCaller data]) : (engineCaller, .plain data) ∈ emissions task (inputs ++ [i]) := by
  rw [emissions_snoc, hfeed]
  exact List.mem_append_right _ (by simp [Machine.trace, Machine.observing, Progress.produced])

theorem noReport_out {i : Input} (h : NoReport (asked task i s)) : NoReport ((machine task).out i s) := by
  refine NoReport.append h fun o ho => ?_
  obtain ⟨e, -, rfl⟩ := List.mem_map.mp ho
  rfl

/-- The engine has ended where its own call was cancelled. -/
def EndedIfCancelled (inputs : List Input) (phase : Phase) : Prop := GivenUp inputs engineCaller → phase.isOver = true

theorem EndedIfCancelled.step {phase : Phase} (h : EndedIfCancelled inputs s.phase) (i : Input)
    (hphase : phase = phaseAfter task i s) : EndedIfCancelled (inputs ++ [i]) phase := by
  have hover (hphase : s.phase.isOver = true) : (phaseAfter task i s).isOver = true := by
    cases hs : s.phase with
    | completed | raised => simp [phaseAfter, hs, Phase.isOver]
    | _ => simp [hs, Phase.isOver] at hphase
  intro hleft
  rw [hphase]
  rcases List.mem_append.mp hleft with hold | hnew
  · exact hover (h hold)
  · obtain rfl := List.mem_singleton.mp hnew
    cases hs : s.phase <;> simp [phaseAfter, hs, Phase.isOver]

/-- A step keeps what is known of the phases. -/
theorem Reached.phase_step (h : Reached task s inputs outs) (hown : EndedIfCancelled inputs s.phase)
    (hs : PhaseSound task inputs outs s.phase) (i : Input) :
    PhaseSound task (inputs ++ [i]) (outs ++ (machine task).out i s) (phaseAfter task i s) := by
  have hdone (e : Progress.Emission) (hgoing : s.phase.isOver = false) (hemitted : (engineCaller, e) ∈ emissions task inputs)
      (hidle : engineCaller ∉ inFlight s.progress) : Told task outs e := by
    refine (h.told hemitted hidle).resolve_right fun hleft => ?_
    rw [hown hleft] at hgoing
    cases hgoing
  have hfeed (data : Fields) (hannounced : announcement task i s = some data) (hcallback : ∀ step, i ≠ .callback step) :
      (engineCaller, .plain data) ∈ emissions task (inputs ++ [i]) := by
    refine told_emitted ?_
    rw [← h.reached]
    cases i with
    | callback step => exact absurd rfl (hcallback step)
    | _ => simp [feed, hannounced]
  have hmoves := moves task i s
  generalize hnext : phaseAfter task i s = next at hmoves
  generalize hasks : asked task i s = asks at hmoves
  have hquiet (hno : NoReport asks) : NoReport ((machine task).out i s) := noReport_out (hasks ▸ hno)
  have hnone : NoReport [] := fun _ ho => absurd ho List.not_mem_nil
  cases hmoves with
  | stays => exact hs.more i (hquiet hnone)
  | raises => exact hs.raised.more i (hquiet hnone)
  | starts hphase hi =>
    rw [hphase] at hs
    subst hi
    exact ⟨NoReport.append hs (hquiet hnone), hfeed _ (by simp [announcement, hphase]) nofun⟩
  | researches hphase hidle hretrievers =>
    rw [hphase] at hs
    have htold := hdone _ (by rw [hphase]; rfl) hs.2 (by simpa [isDone, hphase] using hidle)
    exact ⟨hs.1.append (hquiet (by simp [NoReport, Output.isReport])), htold.append _⟩
  | gathers hphase hi =>
    rw [hphase] at hs
    subst hi
    refine ⟨hs.1.append (hquiet hnone), hs.2.append _, inputs, List.prefix_refl _, h.reached ▸ hphase, fun call hcall => ?_⟩
    by_cases hflight : call.1 ∈ inFlight s.progress
    · exact .inr (.inr (List.mem_filter.mpr ⟨h.callbacks call hcall, decide_eq_true hflight⟩))
    · exact (h.told (List.mem_filter.mp hcall).1 hflight).imp (fun htold => htold.append _) fun hleft => .inl (hleft.snoc _)
  | @writes pending publicContext hphase hi hidle =>
    rw [hphase] at hs
    subst hi
    obtain ⟨hno, hplanned, early, hpre, hearly, hall⟩ := hs
    have hawaited : Awaited task inputs outs publicContext [] := by
      refine ⟨early, hpre, hearly, fun call hcall => ?_⟩
      rcases hall call hcall with htold | hleft | hpending
      · exact .inl htold
      · exact .inr (.inl hleft)
      · have hgone : call.1 ∉ inFlight s.progress := by
          simp only [isDone, hphase, List.all_eq_true, decide_eq_true_eq] at hidle
          exact hidle call.1 hpending
        have hsub : emissions task early ⊆ emissions task inputs := emissions_subset ((List.prefix_append ..).trans hpre)
        exact (h.told (hsub (List.mem_filter.mp hcall).1) hgone).imp_right .inl
    refine ⟨hno.append (hquiet hnone), hplanned.append _, hawaited.more _ _, hfeed _ ?_ nofun⟩
    simp [announcement, hphase, hidle]
  | reports hphase hi hidle =>
    rw [hphase] at hs
    obtain ⟨hno, hplanned, hawaited, hemitted⟩ := hs
    have htold := hdone _ (by rw [hphase]; rfl) hemitted (by simpa [isDone, hphase] using hidle)
    have hmore := hawaited.more i []
    rw [List.append_nil] at hmore
    refine ⟨outs, ((progressMachine task).trace s.progress (feed task i s)).map .sent, ?_, hno, ?_, hplanned, htold, hmore⟩
    · show outs ++ (asked task i s ++ _) = _
      rw [hasks]
      rfl
    · intro o ho
      obtain ⟨e, -, rfl⟩ := List.mem_map.mp ho
      rfl
  | finalizes hphase hi haccepted =>
    rw [hphase] at hs
    subst hi
    refine ⟨ReportAsked.more hs _ (hquiet hnone), ⟨_, _, by simp, haccepted, rfl⟩, hfeed _ ?_ nofun⟩
    simp [announcement, hphase, haccepted]
  | completes hphase hi hidle hcompletion =>
    rw [hphase] at hs
    subst hi
    obtain ⟨hasked, hgiven, hemitted⟩ := hs
    have htold := hdone _ (by rw [hphase]; rfl) hemitted (by simpa [isDone, hphase] using hidle)
    exact ⟨_, _, _, _, hasked.more _ (hquiet hnone), hgiven.more _, htold.append _, by simp, hcompletion⟩

/-! ### Every run -/

theorem run_sound (task : Task) (inputs : List Input) :
    Reached task ((machine task).run {} inputs) inputs ((machine task).trace {} inputs) ∧
      PhaseSound task inputs ((machine task).trace {} inputs) ((machine task).run {} inputs).phase := by
  have hstart : Reached task {} [] [] := ⟨rfl, Progress.accounted _ _ _ [], fun _ hcall => absurd hcall List.not_mem_nil⟩
  have hhistory := Machine.history (M := machine task) (A := fun _ => True)
    (P := fun s inputs outs => Reached task s inputs outs ∧ EndedIfCancelled inputs s.phase ∧ PhaseSound task inputs outs s.phase)
    ?_ ⟨hstart, fun hleft => absurd hleft List.not_mem_nil, fun _ ho => absurd ho List.not_mem_nil⟩ inputs fun _ _ => trivial
  · exact ⟨hhistory.1, hhistory.2.2⟩
  · intro i s is outs _ ⟨hreached, hown, hsound⟩
    exact ⟨hreached.step i, hown.step i rfl, hreached.phase_step hown hsound i⟩

theorem ReportAsked.of_sound {phase : Phase} (h : PhaseSound task inputs outs phase) (hno : ¬ NoReport outs) :
    ∃ publicContext, ReportAsked task inputs outs publicContext := by
  have hraised : NoReport outs ∨ ∃ publicContext, ReportAsked task inputs outs publicContext := h.raised
  exact hraised.resolve_left hno

/-- There is one place at which the report is asked for. -/
theorem writeReport_unique {before before' after after' : List Output} {context context' : Value}
    (hfirst : NoReport before) (hlast : NoReport after)
    (h : before ++ .writeReport context :: after = before' ++ .writeReport context' :: after') :
    before = before' ∧ context = context' ∧ after = after' := by
  induction before generalizing before' with
  | nil =>
    cases before' with
    | nil =>
      obtain ⟨hcontext, rfl⟩ := List.cons.inj h
      exact ⟨rfl, Output.writeReport.inj hcontext, rfl⟩
    | cons o before' =>
      obtain ⟨-, rfl⟩ := List.cons.inj h
      have hfalse := hlast (.writeReport context') (by simp)
      cases hfalse
  | cons o before ih =>
    cases before' with
    | nil =>
      obtain ⟨rfl, -⟩ := List.cons.inj h
      have hfalse := hfirst (.writeReport context') (List.mem_cons_self ..)
      cases hfalse
    | cons o' before' =>
      obtain ⟨rfl, hrest⟩ := List.cons.inj h
      obtain ⟨rfl, hsame⟩ := ih (fun o ho => hfirst o (List.mem_cons_of_mem _ ho)) hrest
      exact ⟨rfl, hsame⟩

end

/-- In every order of the steps: when the engine asks for the report, every update that the research
reported has been sent or given up, the plan has been told of first, and the report is asked for
this once, with what the research has found and the passages of the user. -/
theorem report_awaits_progress (task : Task) (inputs : List Input) (before after : List Output) (context : Value)
    (h : (machine task).trace {} inputs = before ++ .writeReport context :: after) :
    ∃ publicContext, context = mergedContext task.host publicContext task.privateContext ∧
      Asked task inputs before after publicContext := by
  obtain ⟨-, hsound⟩ := run_sound task inputs
  have hsome : ¬ NoReport ((machine task).trace {} inputs) := fun hno => by
    have hfalse := hno (.writeReport context) (by simp [h])
    cases hfalse
  obtain ⟨publicContext, before', after', hplace, hasked⟩ := ReportAsked.of_sound hsound hsome
  obtain ⟨rfl, rfl, rfl⟩ := writeReport_unique hasked.first hasked.last (hplace.symm.trans h)
  exact ⟨publicContext, rfl, hasked⟩

namespace Sample

def host : Host where
  isAlnum _ := false
  repr _ := []
  dumps fields := fields.flatMap fun field => field.1 ++ field.2.toText fun _ => []
  indented _ := []
  digest text := text
  lower text := text

def batchTask : Task := ⟨host, {}, {query := .ofString "Why?"}, [], {}, []⟩

def source : Value := .object [("url", .text "https://source")]

/-- A batch is reported, and sent only after the research came back. -/
def batchInputs : List Input :=
  [.goOn, .callback .settle, .goOn, .callback (.update 1 (.object 7 [])), .researched (.text "Found."), .goOn,
    .callback .start, .goOn, .callback .settle, .goOn, .callback .settle, .goOn, .reported (.text " Report "),
    .callback .settle, .collected (.list [source, source]) .none]

end Sample

theorem report_awaits_progress_batch : ∃ before after,
    Asked Sample.batchTask Sample.batchInputs before after (.text "Found.") ∧ before.length = 4 := by
  have htrace : (machine Sample.batchTask).trace {} Sample.batchInputs =
      ((machine Sample.batchTask).trace {} Sample.batchInputs).take 4 ++ .writeReport (.text "Found.") ::
        ((machine Sample.batchTask).trace {} Sample.batchInputs).drop 5 := rfl
  obtain ⟨publicContext, hcontext, hasked⟩ := report_awaits_progress Sample.batchTask Sample.batchInputs _ _ _ htrace
  obtain rfl : .text "Found." = publicContext := hcontext
  exact ⟨_, _, hasked, rfl⟩

theorem ReportGiven.nonempty {report : Text} (h : ReportGiven task inputs report) : report ≠ [] := by
  obtain ⟨value, text, -, haccepted, rfl⟩ := h
  have hne : text ≠ [] := by
    simp only [acceptedReport] at haccepted
    split at haccepted
    · cases haccepted
    · next hkept =>
      obtain rfl := Option.some.inj haccepted
      simp only [Bool.or_eq_true, List.isEmpty_iff, not_or] at hkept
      exact hkept.1
  unfold ensureIterationSummary
  split
  · exact hne
  · simp [hne]

/-- A run that returns has told of its three stages, and it returns the report that was written, which
is not empty, with each source of the research and of the user once. -/
theorem completion_sound (task : Task) (inputs : List Input) (completion : Completion)
    (h : ((machine task).run {} inputs).phase = .completed completion) :
    ∃ publicContext rawSources, .collected rawSources completion.upstreamCosts ∈ inputs ∧
      ReportAsked task inputs ((machine task).trace {} inputs) publicContext ∧
      Told task ((machine task).trace {} inputs) (.plain finalizingData) ∧
      ReportGiven task inputs completion.reportMarkdown ∧ completion.reportMarkdown ≠ [] ∧
      completion.researchNotesMarkdown = notes task.host publicContext ∧
      Deduplicated task.host (allSources rawSources task.privateContext) completion.sources := by
  obtain ⟨-, hsound⟩ := run_sound task inputs
  rw [h] at hsound
  obtain ⟨publicContext, report, rawSources, costs, hasked, hgiven, htold, hcollected, hcompletion⟩ := hsound
  obtain ⟨sources, hsources, rfl⟩ := Option.map_eq_some_iff.mp hcompletion
  exact ⟨publicContext, rawSources, hcollected, hasked, htold, hgiven, hgiven.nonempty, rfl, deduplicated hsources⟩

theorem completion_sound_batch : ∃ completion,
    ((machine Sample.batchTask).run {} Sample.batchInputs).phase = .completed completion ∧
      Deduplicated Sample.host (allSources (.list [Sample.source, Sample.source]) []) completion.sources ∧
      completion.sources.length = 1 := by
  have hcompleted : ((machine Sample.batchTask).run {} Sample.batchInputs).phase = .completed
      ⟨.ofString "Report", .ofString "# Research notes\n\nFound.", [[(.ofString "url", .text "https://source")]], .none⟩ := rfl
  obtain ⟨publicContext, rawSources, hcollected, -, -, -, -, -, hsources⟩ :=
    completion_sound Sample.batchTask Sample.batchInputs _ hcompleted
  obtain rfl : rawSources = .list [Sample.source, Sample.source] := by simpa [Sample.batchInputs] using hcollected
  exact ⟨_, hcompleted, hsources, rfl⟩

end

end Engine
end ResearchGateway
