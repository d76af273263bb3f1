import ResearchGateway.Api.MessageEvents
import ResearchGateway.Library.OnceEach
import ResearchGateway.Library.TextPattern
import ResearchGateway.Library.Value

/-! The progress that a research run reports.

What GPT Researcher tells its engine comes from callbacks that run next to each other: logs and
research steps, which wait until their update is sent, and the updates of the deep research,
which are sent by tasks of their own. All of them go through one `ProgressEmitter`. In every
order of these steps each update is sent once, the pages that were read are counted upwards
(`progress_sent`), and a batch keeps its number (`batches_numbered`). -/
namespace ResearchGateway
open Library

namespace Progress

/-- What `on_progress` is given: a dictionary, or an object with its attributes at that moment. -/
inductive Update where
  | dict (fields : Fields)
  | object (id : Nat) (attributes : Fields)

def Update.id? : Update → Option Nat
  | dict _ => none
  | object id _ => some id

def stageField (stage : ResearchStage) : Text × Value := (.ofString "stage", .text stage.value)

def activityField (activity : String) : Text × Value := (.ofString "activity", .text activity)

/-- The names of `normalize_progress_update`. -/
def progressNames : List String :=
  ["current_depth", "total_depth", "current_breadth", "total_breadth", "total_queries", "completed_queries",
    "current_query"]

/-- `isinstance(value, (str, int, float, bool))`. -/
def isScalar : Value → Bool
  | .str _ | .int _ | .float _ | .bool _ => true
  | _ => false

/-- `normalize_progress_update`. -/
def normalizeProgressUpdate : Update → Fields
  | .dict fields => fields
  | .object _ attributes =>
    assignAll [stageField .researching] (progressNames.filterMap fun name =>
      ((attributes.get? (.ofString name)).filter isScalar).map fun value => (.ofString name, value))

/-! ### Batches -/

/-- The number of an object in `normalize` of the tracker, and the objects known then. -/
def batchNumber (id : Nat) (batches : List Nat) : Nat × List Nat :=
  if id ∈ batches then (batches.idxOf id + 1, batches) else (batches.length + 1, batches ++ [id])

def batchKind (number : Nat) : String := if number = 1 then "initial" else "follow_up"

def labelled (data : Fields) (number : Nat) : Fields :=
  assign (assign data (.ofString "batch_number") (.int number)) (.ofString "batch_kind") (.text (batchKind number))

/-- `ResearchBatchTracker.normalize`. -/
def normalize (update : Update) (batches : List Nat) : Fields × List Nat :=
  match update with
  | .dict _ => (normalizeProgressUpdate update, batches)
  | .object id _ => (labelled (normalizeProgressUpdate update) (batchNumber id batches).1, (batchNumber id batches).2)

/-! ### Telemetry -/

/-- An update for the emitter, with what it tells of. -/
inductive Emission where
  /-- So many pages have been read. -/
  | pages (count : Nat)
  /-- From `on_progress`. -/
  | batch (data : Fields)
  | plain (data : Fields)

def Emission.data : Emission → Fields
  | pages count =>
    [stageField .researching, activityField "pages_read", (.ofString "page_reads", .int count)]
  | batch data => data
  | plain data => data

def Emission.pages? : Emission → Option Nat
  | pages count => some count
  | _ => none

def Emission.batch? : Emission → Option Fields
  | batch data => some data
  | _ => none

/-- `\b`; `isAlnum` is `str.isalnum` on what is not a decimal digit. -/
def wordBoundary (isAlnum : CodePoint → Bool) : Pattern CodePoint :=
  let isWord (c : CodePoint) := c.isDigit || isAlnum c || c.val == 95
  .alt (.behind (fun c => !c.any isWord) ++ .ahead (fun c => c.any isWord))
    (.behind (fun c => c.any isWord) ++ .ahead (fun c => !c.any isWord))

/-- `\b(\d+)\b`. -/
def integerPattern (isAlnum : CodePoint → Bool) : Pattern CodePoint :=
  wordBoundary isAlnum ++ .plus CodePoint.isDigit ++ wordBoundary isAlnum

/-- `re.search`: the first match. -/
def searchFrom (pattern : Pattern CodePoint) (prev : Option CodePoint) : Text → Option Text
  | [] => (pattern.first prev []).map Prod.fst
  | c :: t => ((pattern.first prev (c :: t)).map Prod.fst).orElse fun _ => searchFrom pattern (some c) t

def digitValue (c : CodePoint) : Nat :=
  ((digitZeros.find? fun start => start ≤ c.val && c.val ≤ start + 9).map fun start => c.val - start).getD 0

/-- `int` of decimal digits: it raises (`none`) where there are more than 4300. -/
def intOfDigits (digits : Text) : Option Nat :=
  if digits.length ≤ 4300 then some (digits.foldl (fun value c => value * 10 + digitValue c) 0) else none

/-- `_first_integer`; the outer `none` is an exception. -/
def firstInteger (isAlnum : CodePoint → Bool) (content : Text) : Option (Option Nat) :=
  match searchFrom (integerPattern isAlnum) none content with
  | none => some none
  | some digits => (intOfDigits digits).map some

/-- `_integer`. -/
def integer : Value → Value
  | .int n => .int n
  | _ => .none

section
variable (isAlnum : CodePoint → Bool) (repr : Value → Text)

/-- `str(payload.get(key) or "")`. -/
def textOf (payload : Fields) (key : String) : Text := ((payload.get key).orElse (.str [])).toText repr

/-- `send_json`: what it emits, and the pages read so far. An exception leaves it before that. -/
def sendJson (payload : Fields) (pageReads : Nat) : Option Emission × Nat :=
  if !(payload.get "type").isText "logs" then (none, pageReads)
  else
    let step := textOf repr payload "step"
    let content := textOf repr payload "content"
    if step = .ofString "scraping_content" then
      match firstInteger isAlnum content with
      | some (some count) => (some (.pages (pageReads + count)), pageReads + count)
      | _ => (none, pageReads)
    else if step = .ofString "fetching_query_content" then
      (some (.plain [stageField .researching, activityField "extracting_evidence"]), pageReads)
    else if step = .ofString "writing_report" then (some (.plain [stageField .writing]), pageReads)
    else if step = .ofString "mcp_results" then
      match firstInteger isAlnum content with
      | some (some count) =>
        (some (.plain [stageField .researching, activityField "mcp_results", (.ofString "result_count", .int count)]),
          pageReads)
      | _ => (none, pageReads)
    else (none, pageReads)

end

/-- `on_research_step`. -/
def onResearchStep (step : Text) (details : Fields) : Option Emission :=
  if step = .ofString "deep_research_initialize" then
    some (.plain [stageField .planning, activityField "research_plan_ready",
      (.ofString "breadth", integer (details.get "breadth")), (.ofString "depth", integer (details.get "depth"))])
  else if step = .ofString "deep_research_complete" then
    some (.plain [stageField .researching, activityField "evidence_gathering_complete",
      (.ofString "visited_urls", integer (details.get "visited_urls"))])
  else if step = .ofString "writing_report" then some (.plain [stageField .writing])
  else none

/-! ### A run of the engine -/

structure State where
  pageReads : Nat := 0
  batches : List Nat := []
  /-- The tasks of `on_progress` that have not started, in the order in which they will. -/
  tasks : List (Nat × Emission) := []
  emitter : Sender Text Emission := {}

/-- Every call of the emitter has a caller of its own. -/
inductive Input where
  | log (caller : Nat) (payload : Fields)
  | step (caller : Nat) (step : Text) (details : Fields)
  | update (task : Nat) (update : Update)
  /-- The engine itself, at the beginning and at the end of its phases. -/
  | emit (caller : Nat) (data : Fields)
  /-- The oldest task starts. -/
  | start
  /-- The caller whose turn it is has the lock. -/
  | resume
  /-- The callback has returned or raised, or its caller has been cancelled. -/
  | settle
  /-- A caller that waits, or a task that has not started, is cancelled. -/
  | leave (caller : Nat)

section
variable (isAlnum : CodePoint → Bool) (repr : Value → Text) (dumps : Fields → Text)

/-- What an input gives the engine to emit. -/
def produced : Input → State → Option (Nat × Emission)
  | .log caller payload, s => (sendJson isAlnum repr payload s.pageReads).1.map fun e => (caller, e)
  | .step caller step details, _ => (onResearchStep step details).map fun e => (caller, e)
  | .update task update, s => some (task, .batch (normalize update s.batches).1)
  | .emit caller data, _ => some (caller, .plain data)
  | _, _ => none

/-- The steps of the emitter's lock and callback in a step of the engine. -/
def arrivals (i : Input) (s : State) : List (Sender.Input Emission) :=
  match i with
  | .log .. | .step .. | .emit .. => (produced isAlnum repr i s).toList.map fun call => .arrive call.1 call.2
  | .update .. => []
  | .start => (s.tasks.take 1).map fun call => .arrive call.1 call.2
  | .resume => [.resume]
  | .settle => [.settle]
  | .leave caller => [.leave caller]

/-- The signature of an update: `json.dumps`, with its keys in order. -/
def signature (e : Emission) : Text := dumps e.data

def pageReadsAfter (i : Input) (s : State) : Nat :=
  match i with
  | .log _ payload => (sendJson isAlnum repr payload s.pageReads).2
  | _ => s.pageReads

def batchesAfter (i : Input) (s : State) : List Nat :=
  match i with
  | .update _ update => (normalize update s.batches).2
  | _ => s.batches

def tasksAfter (i : Input) (s : State) : List (Nat × Emission) :=
  match i with
  | .update .. => s.tasks ++ (produced isAlnum repr i s).toList
  | .start => s.tasks.drop 1
  | .leave caller => s.tasks.filter fun task => task.1 ≠ caller
  | _ => s.tasks

def machine : Machine State Input Emission where
  next i s :=
    ⟨pageReadsAfter isAlnum repr i s, batchesAfter i s, tasksAfter isAlnum repr i s,
      (Sender.machine (signature dumps)).run s.emitter (arrivals isAlnum repr i s)⟩
  out i s := (Sender.machine (signature dumps)).trace s.emitter (arrivals isAlnum repr i s)

/-- All that a run gave the engine to emit, with its callers. -/
def emissions (inputs : List Input) : List (Nat × Emission) :=
  ((machine isAlnum repr dumps).observing fun i s => (produced isAlnum repr i s).toList).trace {} inputs

end

/-! ### Pages, tasks and calls -/

def batchesOf (calls : List (Nat × Emission)) : List Fields := calls.filterMap fun call => call.2.batch?

def pagesOf (calls : List (Nat × Emission)) : List Nat := calls.filterMap fun call => call.2.pages?

/-- What the emitter was called with, of all that the engine had to emit. -/
structure Called (pageReads : Nat) (tasks calls emitted : List (Nat × Emission)) (left : Nat → Prop) : Prop where
  bounded : ∀ n ∈ pagesOf calls, n ≤ pageReads
  pages : (pagesOf calls).Pairwise (· ≤ ·)
  waiting : ∀ task ∈ tasks, task.2.pages? = none
  batches : (batchesOf calls ++ batchesOf tasks).Sublist (batchesOf emitted)
  sound : ∀ call ∈ calls ++ tasks, call ∈ emitted
  all : ∀ call ∈ emitted, call ∈ calls ++ tasks ∨ left call.1

section
variable {pageReads pageReads' : Nat} {tasks calls emitted : List (Nat × Emission)} {left : Nat → Prop}
  {call : Nat × Emission}

theorem pagesOf_snoc (calls : List (Nat × Emission)) (call : Nat × Emission) :
    pagesOf (calls ++ [call]) = pagesOf calls ++ call.2.pages?.toList := by
  rw [pagesOf, List.filterMap_append]
  cases h : call.2.pages? <;> simp [pagesOf, h]

theorem batchesOf_snoc (calls : List (Nat × Emission)) (call : Nat × Emission) :
    batchesOf (calls ++ [call]) = batchesOf calls ++ call.2.batch?.toList := by
  rw [batchesOf, List.filterMap_append]
  cases h : call.2.batch? <;> simp [batchesOf, h]

/-- An update that is emitted at once. -/
theorem Called.emit (h : Called pageReads tasks calls emitted left) (call : Nat × Emission) (hle : pageReads ≤ pageReads')
    (hpages : ∀ n ∈ call.2.pages?, pageReads ≤ n ∧ n ≤ pageReads') (hbatch : call.2.batch? = none) :
    Called pageReads' tasks (calls ++ [call]) (emitted ++ [call]) left := by
  refine ⟨fun n hn => ?_, ?_, h.waiting, ?_, fun c hc => ?_, fun c hc => ?_⟩
  · rw [pagesOf_snoc] at hn
    rcases List.mem_append.mp hn with hold | hnew
    · exact (h.bounded n hold).trans hle
    · exact (hpages n (Option.mem_toList.mp hnew)).2
  · rw [pagesOf_snoc, List.pairwise_append]
    refine ⟨h.pages, ?_, fun m hm n hn => (h.bounded m hm).trans (hpages n (Option.mem_toList.mp hn)).1⟩
    cases call.2.pages? <;> simp
  · rw [batchesOf_snoc, batchesOf_snoc, hbatch]
    simpa using h.batches
  · simp only [List.append_assoc, List.mem_append, List.mem_singleton] at hc ⊢
    rcases hc with hold | rfl | htask
    · exact .inl (h.sound c (List.mem_append_left _ hold))
    · exact .inr rfl
    · exact .inl (h.sound c (List.mem_append_right _ htask))
  · rcases List.mem_append.mp hc with hold | hnew
    · rcases h.all c hold with hhere | hleft
      · left
        rcases List.mem_append.mp hhere with hcalls | htasks
        · exact List.mem_append_left _ (List.mem_append_left _ hcalls)
        · exact List.mem_append_right _ htasks
      · exact .inr hleft
    · exact .inl (List.mem_append_left _ (List.mem_append_right _ hnew))

theorem Called.more (h : Called pageReads tasks calls emitted left) (hle : pageReads ≤ pageReads') :
    Called pageReads' tasks calls emitted left :=
  ⟨fun n hn => (h.bounded n hn).trans hle, h.pages, h.waiting, h.batches, h.sound, h.all⟩

/-- An update that is left to a task. -/
theorem Called.task (h : Called pageReads tasks calls emitted left) (call : Nat × Emission) (hpages : call.2.pages? = none) :
    Called pageReads (tasks ++ [call]) calls (emitted ++ [call]) left := by
  refine ⟨h.bounded, h.pages, fun task htask => ?_, ?_, fun c hc => ?_, fun c hc => ?_⟩
  · rcases List.mem_append.mp htask with hold | hnew
    · exact h.waiting task hold
    · rwa [List.mem_singleton.mp hnew]
  · rw [batchesOf_snoc, batchesOf_snoc, ← List.append_assoc]
    exact h.batches.append (.refl _)
  · rw [← List.append_assoc] at hc
    rcases List.mem_append.mp hc with hold | hnew
    · exact List.mem_append_left _ (h.sound c hold)
    · exact List.mem_append_right _ hnew
  · rw [← List.append_assoc]
    rcases List.mem_append.mp hc with hold | hnew
    · exact (h.all c hold).imp_left (List.mem_append_left _)
    · exact .inl (List.mem_append_right _ hnew)

/-- A task calls the emitter. -/
theorem Called.start (h : Called pageReads (call :: tasks) calls emitted left) :
    Called pageReads tasks (calls ++ [call]) emitted left := by
  have hpages : call.2.pages? = none := h.waiting call (List.mem_cons_self ..)
  have hmoved : (calls ++ [call]) ++ tasks = calls ++ call :: tasks := by simp
  have hbatches : batchesOf (calls ++ [call]) ++ batchesOf tasks = batchesOf calls ++ batchesOf (call :: tasks) := by
    rw [batchesOf, batchesOf, batchesOf, batchesOf, ← List.filterMap_append, ← List.filterMap_append, hmoved]
  refine ⟨?_, ?_, fun task htask => h.waiting task (List.mem_cons_of_mem _ htask), ?_, ?_, ?_⟩
  · rw [pagesOf_snoc, hpages]
    simpa using h.bounded
  · rw [pagesOf_snoc, hpages]
    simpa using h.pages
  · rw [hbatches]
    exact h.batches
  · rw [hmoved]
    exact h.sound
  · rw [hmoved]
    exact h.all

theorem Called.leave (h : Called pageReads tasks calls emitted left) (caller : Nat) (left' : Nat → Prop)
    (hleft : ∀ c, left c ∨ c = caller → left' c) :
    Called pageReads (tasks.filter fun task => task.1 ≠ caller) calls emitted left' := by
  have hfilter : (tasks.filter fun task => task.1 ≠ caller).Sublist tasks := List.filter_sublist
  refine ⟨h.bounded, h.pages, fun task htask => h.waiting task (hfilter.subset htask),
    ((List.Sublist.refl _).append (hfilter.filterMap _)).trans h.batches,
    fun c hc => h.sound c (((List.Sublist.refl calls).append hfilter).subset hc), fun c hc => ?_⟩
  rcases h.all c hc with hhere | hgone
  · by_cases hsame : c.1 = caller
    · exact .inr (hleft _ (.inr hsame))
    · left
      rcases List.mem_append.mp hhere with hcalls | htasks
      · exact List.mem_append_left _ hcalls
      · exact List.mem_append_right _ (List.mem_filter.mpr ⟨htasks, by simpa using hsame⟩)
  · exact .inr (hleft _ (.inl hgone))

end

/-! ### Runs -/

section
variable (isAlnum : CodePoint → Bool) (repr : Value → Text) (dumps : Fields → Text)

/-- The steps of the emitter along a run. -/
def emitterSteps (inputs : List Input) : List (Sender.Input Emission) :=
  ((machine isAlnum repr dumps).observing (arrivals isAlnum repr)).trace {} inputs

def Left (inputs : List Input) (caller : Nat) : Prop := .leave caller ∈ inputs

/-- The state of a run, and what was sent. -/
structure Accounted (s : State) (inputs : List Input) (sent : List Emission) : Prop where
  reached : s = (machine isAlnum repr dumps).run {} inputs
  sent : Sender.Sent (signature dumps) (emitterSteps isAlnum repr dumps inputs) s.emitter sent
  called : Called s.pageReads s.tasks (Sender.calls (emitterSteps isAlnum repr dumps inputs))
    (emissions isAlnum repr dumps inputs) (Left inputs)
  left : ∀ caller, .leave caller ∈ emitterSteps isAlnum repr dumps inputs → Left inputs caller

variable {isAlnum repr dumps} {s : State} {inputs : List Input} {sent : List Emission}

/-- The count of pages grows by what is emitted. -/
theorem sendJson_cases (payload : Fields) (pageReads : Nat) :
    pageReads ≤ (sendJson isAlnum repr payload pageReads).2 ∧
      ∀ e ∈ (sendJson isAlnum repr payload pageReads).1, e.batch? = none ∧
        ∀ n ∈ e.pages?, pageReads ≤ n ∧ n ≤ (sendJson isAlnum repr payload pageReads).2 := by
  unfold sendJson
  simp only
  split_ifs
  · simp
  · split <;> simp [Emission.batch?, Emission.pages?]
  · simp [Emission.batch?, Emission.pages?]
  · simp [Emission.batch?, Emission.pages?]
  · split <;> simp [Emission.batch?, Emission.pages?]
  · simp

theorem onResearchStep_plain {step : Text} {details : Fields} {e : Emission} (h : onResearchStep step details = some e) :
    e.batch? = none ∧ e.pages? = none := by
  unfold onResearchStep at h
  split_ifs at h <;> (cases h; exact ⟨rfl, rfl⟩)

theorem emissions_snoc (inputs : List Input) (i : Input) :
    emissions isAlnum repr dumps (inputs ++ [i]) =
      emissions isAlnum repr dumps inputs ++ (produced isAlnum repr i ((machine isAlnum repr dumps).run {} inputs)).toList :=
  Machine.trace_observing_snoc ..

theorem emitterSteps_snoc (inputs : List Input) (i : Input) :
    emitterSteps isAlnum repr dumps (inputs ++ [i]) =
      emitterSteps isAlnum repr dumps inputs ++ arrivals isAlnum repr i ((machine isAlnum repr dumps).run {} inputs) :=
  Machine.trace_observing_snoc ..

theorem calls_append (a b : List (Sender.Input Emission)) : Sender.calls (a ++ b) = Sender.calls a ++ Sender.calls b :=
  List.filterMap_append ..

theorem Left.snoc {caller : Nat} (h : Left inputs caller) (i : Input) : Left (inputs ++ [i]) caller :=
  List.mem_append_left _ h

theorem Called.left_snoc {pageReads : Nat} {tasks calls emitted : List (Nat × Emission)}
    (h : Called pageReads tasks calls emitted (Left inputs)) (i : Input) :
    Called pageReads tasks calls emitted (Left (inputs ++ [i])) :=
  ⟨h.bounded, h.pages, h.waiting, h.batches, h.sound, fun call hcall => (h.all call hcall).imp_right fun hleft => hleft.snoc i⟩

/-- What one step does to the calls. -/
theorem Called.step {calls emitted : List (Nat × Emission)} (h : Called s.pageReads s.tasks calls emitted (Left inputs))
    (i : Input) :
    Called (pageReadsAfter isAlnum repr i s) (tasksAfter isAlnum repr i s)
      (calls ++ Sender.calls (arrivals isAlnum repr i s)) (emitted ++ (produced isAlnum repr i s).toList)
      (Left (inputs ++ [i])) := by
  have hsame := h.left_snoc i
  cases i with
  | log caller payload =>
    obtain ⟨hle, hcases⟩ : s.pageReads ≤ (sendJson isAlnum repr payload s.pageReads).2 ∧ _ := sendJson_cases payload s.pageReads
    cases he : (sendJson isAlnum repr payload s.pageReads).1 with
    | none => simpa [arrivals, produced, he, Sender.calls, pageReadsAfter, tasksAfter] using hsame.more hle
    | some e =>
      obtain ⟨hbatch, hpages⟩ := hcases e he
      simpa [arrivals, produced, he, Sender.calls, Sender.Input.call?, pageReadsAfter, tasksAfter] using
        hsame.emit (caller, e) hle hpages hbatch
  | step caller step details =>
    cases he : onResearchStep step details with
    | none => simpa [arrivals, produced, he, Sender.calls, pageReadsAfter, tasksAfter] using hsame
    | some e =>
      obtain ⟨hbatch, hpages⟩ := onResearchStep_plain he
      simpa [arrivals, produced, he, Sender.calls, Sender.Input.call?, pageReadsAfter, tasksAfter] using
        hsame.emit (caller, e) le_rfl (by simp [hpages]) hbatch
  | update task update =>
    simpa [arrivals, produced, Sender.calls, pageReadsAfter, tasksAfter] using
      hsame.task (task, .batch (normalize update s.batches).1) rfl
  | emit caller data =>
    simpa [arrivals, produced, Sender.calls, Sender.Input.call?, pageReadsAfter, tasksAfter] using
      hsame.emit (caller, .plain data) le_rfl (by simp [Emission.pages?]) rfl
  | start =>
    cases htasks : s.tasks with
    | nil => simpa [arrivals, produced, htasks, Sender.calls, pageReadsAfter, tasksAfter] using hsame
    | cons task rest =>
      rw [htasks] at hsame
      simpa [arrivals, produced, htasks, Sender.calls, Sender.Input.call?, pageReadsAfter, tasksAfter] using hsame.start
  | resume =>
    have hnone : Sender.calls [(.resume : Sender.Input Emission)] = [] := rfl
    simpa [arrivals, produced, hnone, pageReadsAfter, tasksAfter] using hsame
  | settle =>
    have hnone : Sender.calls [(.settle : Sender.Input Emission)] = [] := rfl
    simpa [arrivals, produced, hnone, pageReadsAfter, tasksAfter] using hsame
  | leave caller =>
    have hnone : Sender.calls [(.leave caller : Sender.Input Emission)] = [] := rfl
    simpa [arrivals, produced, hnone, pageReadsAfter, tasksAfter] using
      h.leave caller (Left (inputs ++ [.leave caller])) fun c hc => by
        rcases hc with hleft | rfl
        · exact hleft.snoc _
        · exact List.mem_append_right _ (List.mem_singleton.mpr rfl)

theorem leave_mem_arrivals {i : Input} {caller : Nat} (h : .leave caller ∈ arrivals isAlnum repr i s) : i = .leave caller := by
  cases i with
  | leave caller' =>
    obtain rfl := Sender.Input.leave.inj (List.mem_singleton.mp h)
    rfl
  | start =>
    obtain ⟨call, -, hcall⟩ := List.mem_map.mp h
    cases hcall
  | _ => simp [arrivals] at h

theorem Accounted.step (h : Accounted isAlnum repr dumps s inputs sent) (i : Input) :
    Accounted isAlnum repr dumps ((machine isAlnum repr dumps).next i s) (inputs ++ [i])
      (sent ++ (machine isAlnum repr dumps).out i s) := by
  obtain ⟨hreached, hsent, hcalled, hleft⟩ := h
  have hsteps : emitterSteps isAlnum repr dumps (inputs ++ [i]) = _ := emitterSteps_snoc inputs i
  have hemissions : emissions isAlnum repr dumps (inputs ++ [i]) = _ := emissions_snoc inputs i
  rw [← hreached] at hsteps hemissions
  refine ⟨by rw [Machine.run_snoc, ← hreached], ?_, ?_, fun caller hcaller => ?_⟩
  · rw [hsteps]
    exact hsent.run _
  · rw [hsteps, hemissions, calls_append]
    exact hcalled.step i
  · rw [hsteps] at hcaller
    rcases List.mem_append.mp hcaller with hold | hnew
    · exact (hleft caller hold).snoc i
    · exact List.mem_append_right _ (List.mem_singleton.mpr (leave_mem_arrivals hnew).symm)

theorem accounted (isAlnum : CodePoint → Bool) (repr : Value → Text) (dumps : Fields → Text) (inputs : List Input) :
    Accounted isAlnum repr dumps ((machine isAlnum repr dumps).run {} inputs) inputs
      ((machine isAlnum repr dumps).trace {} inputs) := by
  refine Machine.history (A := fun _ => True) (fun i s is os _ h => h.step i) ?_ inputs fun _ _ => trivial
  exact ⟨rfl, Sender.sent_empty, ⟨by simp [pagesOf, Sender.calls, emitterSteps], by simp [pagesOf, Sender.calls, emitterSteps],
    by simp, by simp [batchesOf, Sender.calls, emitterSteps], by simp [Sender.calls, emitterSteps], by simp [emissions]⟩,
    by simp [emitterSteps]⟩

theorem pages_eq (n : Nat) (e : Emission) (h : e.pages? = some n) : e = .pages n := by
  cases e <;> cases h
  rfl

/-- Counts that do not fall and are told once rise. -/
theorem Accounted.pages (h : Accounted isAlnum repr dumps s inputs sent) :
    (sent.filterMap Emission.pages?).Pairwise (· < ·) := by
  have hsub : (sent.filterMap Emission.pages?).Sublist (pagesOf (Sender.calls (emitterSteps isAlnum repr dumps inputs))) := by
    have hsent := h.sent.sublist.filterMap Emission.pages?
    rwa [List.filterMap_map] at hsent
  have hmono := h.called.pages.sublist hsub
  have hnodup : (sent.filterMap Emission.pages?).Nodup := by
    refine (h.sent.nodup.of_map (f := signature dumps)).filterMap fun e e' n hn hn' => ?_
    rw [pages_eq n e hn, pages_eq n e' hn']
  exact (hmono.and hnodup).imp fun hpair => lt_of_le_of_ne hpair.1 hpair.2

theorem Accounted.run (h : Accounted isAlnum repr dumps s inputs sent) (more : List Input) :
    Accounted isAlnum repr dumps ((machine isAlnum repr dumps).run s more) (inputs ++ more)
      (sent ++ (machine isAlnum repr dumps).trace s more) := by
  induction more generalizing s inputs sent with
  | nil => simpa using h
  | cons i more ih => simpa [Machine.run, Machine.trace] using ih (h.step i)

/-- What was not given up and does not wait has been sent. -/
theorem Accounted.delivered (h : Accounted isAlnum repr dumps s inputs sent) {call : Nat × Emission}
    (hcall : call ∈ emissions isAlnum repr dumps inputs) :
    call ∈ s.tasks ∨ call ∈ s.emitter.waiting ∨ .leave call.1 ∈ inputs ∨
      signature dumps call.2 ∈ sent.map (signature dumps) := by
  by_cases hwaits : call ∈ s.emitter.waiting
  · exact .inr (.inl hwaits)
  by_cases hleft : .leave call.1 ∈ inputs
  · exact .inr (.inr (.inl hleft))
  rcases h.called.all call hcall with hhere | hgone
  · rcases List.mem_append.mp hhere with hcalls | htasks
    · exact .inr (.inr (.inr (h.sent.complete hcalls hwaits fun hleave => hleft (h.left call.1 hleave))))
    · exact .inl htasks
  · exact absurd hgone hleft

/-- In every order of its steps the engine sends an update once, tells of more and more pages,
sends the updates of the deep research in their order, and sends nothing else; what was not given
up and does not wait has been sent. -/
theorem progress_sent (isAlnum : CodePoint → Bool) (repr : Value → Text) (dumps : Fields → Text) (inputs : List Input) :
    let s := (machine isAlnum repr dumps).run {} inputs
    let sent := (machine isAlnum repr dumps).trace {} inputs
    let emitted := emissions isAlnum repr dumps inputs
    (sent.map (signature dumps)).Nodup ∧ (sent.filterMap Emission.pages?).Pairwise (· < ·) ∧
      (sent.filterMap Emission.batch?).Sublist (batchesOf emitted) ∧ (∀ e ∈ sent, e ∈ emitted.map Prod.snd) ∧
      ∀ call ∈ emitted, call ∈ s.tasks ∨ call ∈ s.emitter.waiting ∨ .leave call.1 ∈ inputs ∨
        signature dumps call.2 ∈ sent.map (signature dumps) := by
  intro s sent emitted
  have h := accounted isAlnum repr dumps inputs
  refine ⟨h.sent.nodup, h.pages, ?_, fun e he => ?_, fun call hcall => h.delivered hcall⟩
  · have hsent := h.sent.sublist.filterMap Emission.batch?
    rw [List.filterMap_map] at hsent
    exact hsent.trans ((List.sublist_append_left ..).trans h.called.batches)
  · obtain ⟨call, hcall, rfl⟩ := List.mem_map.mp (h.sent.sublist.subset he)
    exact List.mem_map.mpr ⟨call, h.called.sound call (List.mem_append_left _ hcall), rfl⟩

/-! ### Batch numbers -/

def objectId? : Input → Option Nat
  | .update _ update => update.id?
  | _ => none

/-- The objects of a run, in the order in which they were met. -/
def objects (inputs : List Input) : List Nat := firsts id [] (inputs.filterMap objectId?)

theorem objects_append (before after : List Input) :
    objects (before ++ after) = objects before ++ firsts id (objects before) (after.filterMap objectId?) := by
  rw [objects, List.filterMap_append, firsts_append]
  simp [objects]

theorem objects_snoc (inputs : List Input) (i : Input) :
    objects (inputs ++ [i]) = match objectId? i with
      | some id => (batchNumber id (objects inputs)).2
      | none => objects inputs := by
  rw [objects_append]
  cases h : objectId? i with
  | none => simp [h, firsts]
  | some object =>
    by_cases hmem : object ∈ objects inputs
    · simp [h, firsts, batchNumber, hmem]
    · simp [h, firsts, batchNumber, hmem]

theorem batches_eq (inputs : List Input) : ((machine isAlnum repr dumps).run {} inputs).batches = objects inputs := by
  induction inputs using List.reverseRecOn with
  | nil => rfl
  | append_singleton inputs i ih =>
    rw [Machine.run_snoc, objects_snoc, ← ih]
    cases i with
    | update task update => cases update <;> rfl
    | _ => rfl

/-- The number that an object is given is its place among all objects of the run. -/
theorem batchNumber_eq {object : Nat} {all : List Nat} (hnodup : all.Nodup) {known : List Nat}
    (h : (batchNumber object known).2 <+: all) :
    object ∈ all ∧ (batchNumber object known).1 = all.idxOf object + 1 := by
  obtain ⟨later, rfl⟩ := h
  by_cases hmem : object ∈ known
  · simp only [batchNumber, hmem, if_true]
    exact ⟨List.mem_append_left _ hmem, by rw [List.idxOf_append_of_mem hmem]⟩
  · simp only [batchNumber, hmem, if_false] at hnodup ⊢
    refine ⟨by simp, ?_⟩
    rw [List.append_assoc, List.idxOf_append_of_notMem hmem]
    simp

/-- Whatever else is reported in between, the updates of an object carry one number, which no
other object has, and the first object is the initial batch. -/
theorem batches_numbered (isAlnum : CodePoint → Bool) (repr : Value → Text) (dumps : Fields → Text) (inputs : List Input)
    (before : List Input) (task object : Nat) (attributes : Fields)
    (h : before ++ [.update task (.object object attributes)] <+: inputs) :
    (objects inputs).Nodup ∧ object ∈ objects inputs ∧
      ∃ data, produced isAlnum repr (.update task (.object object attributes)) ((machine isAlnum repr dumps).run {} before) =
          some (task, .batch data) ∧
        (task, .batch data) ∈ emissions isAlnum repr dumps inputs ∧
        data.get "batch_number" = .int ((objects inputs).idxOf object + 1) ∧
        data.get "batch_kind" = .text (if (objects inputs).head? = some object then "initial" else "follow_up") := by
  have hnodup : (objects inputs).Nodup := by
    have hfirsts : ((firsts id [] (inputs.filterMap objectId?)).map id).Nodup := firsts_nodup ..
    rwa [List.map_id] at hfirsts
  obtain ⟨after, rfl⟩ := h
  have hknown : (batchNumber object (objects before)).2 <+:
      objects (before ++ [.update task (.object object attributes)] ++ after) := by
    rw [objects_append, objects_snoc]
    exact List.prefix_append ..
  obtain ⟨hmem, hnumber⟩ := batchNumber_eq hnodup hknown
  refine ⟨hnodup, hmem, _, rfl, ?_, ?_, ?_⟩
  · rw [emissions, Machine.mem_trace_observing]
    exact ⟨before, _, List.prefix_append .., by simp [produced]⟩
  · rw [Fields.get, Fields.get?, normalize, labelled, lookup_assign, lookup_assign, batches_eq, hnumber]
    rw [if_neg (by decide), if_pos rfl]
    rfl
  · rw [Fields.get, Fields.get?, normalize, labelled, lookup_assign, if_pos rfl, batches_eq, hnumber]
    obtain ⟨first, rest, hall⟩ := List.exists_cons_of_ne_nil (List.ne_nil_of_mem hmem)
    rw [hall]
    by_cases hfirst : first = object
    · simp [batchKind, hfirst]
    · simp [batchKind, hfirst, List.idxOf_cons_ne]

theorem batches_numbered_again :
    ∃ data, produced (fun _ => false) (fun _ => []) (.update 3 (.object 9 []))
        ((machine (fun _ => false) (fun _ => []) fun _ => []).run {} [.update 1 (.object 7 []), .update 2 (.object 9 [])]) =
          some (3, .batch data) ∧
      data.get "batch_number" = .int 2 ∧ data.get "batch_kind" = .text "follow_up" := by
  obtain ⟨-, -, data, hproduced, -, hnumber, hkind⟩ := batches_numbered (fun _ => false) (fun _ => []) (fun _ => [])
    [.update 1 (.object 7 []), .update 2 (.object 9 []), .update 3 (.object 9 [])]
    [.update 1 (.object 7 []), .update 2 (.object 9 [])] 3 9 [] (List.prefix_refl _)
  exact ⟨data, hproduced, hnumber, hkind⟩

end

end Progress
end ResearchGateway
