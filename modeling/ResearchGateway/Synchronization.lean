import ResearchGateway.FunctionSyncSteps

/-! What a synchronization does to the store.

A run is seven steps: the record, the Valves and the activation of each Function, then the
model. No write unsettles an earlier step, so a run is idempotent and one that was cut off is
completed by the next. A run completes from every store that is `Ready`. -/
namespace ResearchGateway
open Library

namespace FunctionSync

def functionPart (id : String) : Ensure.Part Store (Option FunctionRecord) where
  get store := store.functions id
  set record store := store.setFunction id record
  get_set record store := store.functions_setFunction id record

def modelPart : Ensure.Part Store (Option ModelRecord) where
  get store := store.models "deep_research"
  set record store := store.setModel "deep_research" record
  get_set record store := store.models_setModel "deep_research" record

/-! ### Requests -/

section
variable {α : Type} {s : Store} {post' : α → List String → Store → Prop} {request : SyncRequest}
  (response : SyncResponse) {f : SyncResponse → Sync α}

theorem performs_getJson {steps : List (Ensure Store SyncError)} (hread : request.isWrite = false)
    (hserve : s.serve request = (response, s)) (hstatus : ∀ status, response ≠ .failed status)
    (h : Performs Store.serve SyncRequest.isWrite steps (f response) s post') :
    Performs Store.serve SyncRequest.isWrite steps (getJson request >>= f) s post' := by
  apply Performs.read hread hserve
  cases response with
  | failed status => exact absurd rfl (hstatus status)
  | _ => exact h

theorem performs_post {e : Ensure Store SyncError} {a : α} (he : e.check s = .ok true)
    (hserve : s.serve request = (response, e.write s)) (hdict : response.isDict = true)
    (hf : f response = pure a) (h : post' a [e.label s] (e.write s)) :
    Performs Store.serve SyncRequest.isWrite [e] (post request >>= f) s post' := by
  apply Performs.write he hserve _ h
  rw [← hf]
  cases response with
  | failed status => cases hdict
  | functions records => cases hdict
  | function record => rfl
  | model record => rfl
  | valves value =>
    cases value with
    | dict fields => rfl
    | _ => cases hdict

end

/-! ### The parts of a run -/

section
variable {settings : Settings} {host : Host} {source : FunctionSource} {existing : String → Option FunctionRecord}
  {changed : List String} {s : Store}

theorem performs_writeFunction (hexisting : existing source.id = s.functions source.id) :
    Performs Store.serve SyncRequest.isWrite [(recordStep host source).focus (functionPart source.id)]
      (writeFunction host existing source changed) s fun result labels t => result.2 = changed ++ labels ∧
        ∃ record, t.functions source.id = some record ∧ result.1 = .function record := by
  unfold writeFunction
  rw [hexisting]
  cases hform : functionForm host source with
  | error e =>
    apply Performs.error
    simp only [Ensure.focus, recordStep, hform]
  | ok form =>
    obtain ⟨hid, -⟩ := functionForm_ok hform
    rw [Dialog.ok_bind]
    cases hfound : s.functions source.id with
    | none =>
      apply performs_post (.function (form.stored none))
      · simp only [Ensure.focus, functionPart, recordStep, hform, hfound]
      · simp only [Ensure.focus, functionPart, recordStep, hform, hfound, Store.serve, hid, Store.putFunction]
      · rfl
      · rfl
      · simp [Ensure.focus, functionPart, recordStep, hform, hfound]
    | some current =>
      dsimp only
      cases hdiffers : functionDiffers current source form.content with
      | error e =>
        apply Performs.error
        simp only [Ensure.focus, functionPart, recordStep, hform, hfound, hdiffers]
      | ok differs =>
        rw [Dialog.ok_bind]
        cases differs with
        | true =>
          apply performs_post (.function (form.stored (some current)))
          · simp only [Ensure.focus, functionPart, recordStep, hform, hfound, hdiffers]
          · simp only [Ensure.focus, functionPart, recordStep, hform, hfound, Store.serve, Store.putFunction]
          · rfl
          · rfl
          · simp [Ensure.focus, functionPart, recordStep, hform, hfound]
        | false =>
          apply Performs.settled
          · simp only [Ensure.Settled, Ensure.focus, functionPart, recordStep, hform, hfound, hdiffers]
          · exact ⟨(List.append_nil changed).symm, current, hfound, rfl⟩

theorem performs_writeValves {record : FunctionRecord} (hfound : s.functions source.id = some record) :
    Performs Store.serve SyncRequest.isWrite [(valvesStep settings source).focus (functionPart source.id)]
      (writeValves settings source changed) s fun changed' labels t => changed' = changed ++ labels ∧
        ∃ record', t.functions source.id = some record' ∧ record'.isActive = record.isActive := by
  unfold writeValves
  cases hvalves : managedValves settings source with
  | error e =>
    apply Performs.error
    simp only [Ensure.focus, valvesStep, hvalves]
  | ok valves =>
    rw [Dialog.ok_bind]
    apply performs_getJson (.valves record.valves) rfl
    · simp only [Store.serve, hfound]
    · intro status h
      cases h
    dsimp only
    cases hfields : record.valves.entries? with
    | none =>
      apply Performs.error
      simp only [Ensure.focus, functionPart, valvesStep, hvalves, hfound, hfields]
    | some fields =>
      dsimp only
      cases hdiffers : valvesDiffer fields valves with
      | true =>
        apply performs_post (.valves (.dict (desiredValves fields valves)))
        · simp only [Ensure.focus, functionPart, valvesStep, hvalves, hfound, hfields, hdiffers]
        · simp only [Ensure.focus, functionPart, valvesStep, hvalves, hfound, hfields, Option.elim_some, Store.serve]
        · rfl
        · rfl
        · simp [Ensure.focus, functionPart, valvesStep, hvalves, hfound, hfields]
      | false =>
        apply Performs.settled
        · simp only [Ensure.Settled, Ensure.focus, functionPart, valvesStep, hvalves, hfound, hfields, hdiffers]
        · exact ⟨(List.append_nil changed).symm, record, hfound, rfl⟩

theorem performs_activate {record : FunctionRecord} {result : SyncResponse}
    (hfound : s.functions source.id = some record) (hresult : result.isActive = record.isActive) :
    Performs Store.serve SyncRequest.isWrite [(activeStep source).focus (functionPart source.id)]
      (activate source result changed) s fun changed' labels _ => changed' = changed ++ labels := by
  unfold activate
  rw [hresult]
  cases hactive : record.isActive with
  | false =>
    apply performs_post (.function {record with isActive := !record.isActive})
    · simp only [Ensure.focus, functionPart, activeStep, hfound, hactive, Bool.not_false]
    · simp only [Ensure.focus, functionPart, activeStep, hfound, Option.map_some, Store.serve, Store.putFunction]
    · rfl
    · rfl
    · rfl
  | true =>
    apply Performs.settled
    · simp only [Ensure.Settled, Ensure.focus, functionPart, activeStep, hfound, hactive, Bool.not_true]
    · exact (List.append_nil changed).symm

theorem performs_writeModel {current : Option ModelRecord} (hfound : s.models "deep_research" = current) :
    Performs Store.serve SyncRequest.isWrite [modelStep.focus modelPart] (writeModel current changed) s
      fun changed' labels _ => changed' = changed ++ labels := by
  unfold writeModel
  cases hmetadata : modelMetadata current with
  | error e =>
    apply Performs.error
    simp only [Ensure.focus, modelPart, modelStep, hfound, modelPlan, hmetadata, Except.map]
  | ok metadata =>
    rw [Dialog.ok_bind]
    cases hids : syncedActionIds metadata with
    | error e =>
      apply Performs.error
      simp only [Ensure.focus, modelPart, modelStep, hfound, modelPlan, hmetadata, hids, Except.map]
    | ok actionIds =>
      rw [Dialog.ok_bind]
      have hplan : modelPlan current = .ok (metadata, actionIds) := modelPlan_ok.mpr ⟨hmetadata, hids⟩
      have hwrite : (modelStep.focus modelPart).write s =
          s.setModel "deep_research" (some (modelForm current metadata actionIds).stored) := by
        simp only [Ensure.focus, modelPart, modelStep, hfound, hplan]
      have hcheck : (modelStep.focus modelPart).check s = .ok (current.isNone || modelDiffers metadata) := by
        simp only [Ensure.focus, modelPart, modelStep, hfound, hplan, Except.map]
      cases current with
      | none =>
        apply performs_post (.model (modelForm none metadata actionIds).stored) hcheck
        · rw [hwrite]
          simp only [Store.serve, modelForm, hfound, Store.putModel]
        · rfl
        · rfl
        · simp [Ensure.focus, modelPart, modelStep, hfound]
      | some record =>
        cases hdiffers : modelDiffers metadata with
        | true =>
          apply performs_post (.model (modelForm (some record) metadata actionIds).stored)
          · rw [hcheck, hdiffers, Bool.or_true]
          · rw [hwrite]
            simp only [Store.serve, modelForm, hfound, Store.putModel]
          · rfl
          · rfl
          · simp [Ensure.focus, modelPart, modelStep, hfound]
        | false =>
          apply Performs.settled
          · rw [Ensure.Settled, hcheck, hdiffers]
            rfl
          · exact (List.append_nil changed).symm

theorem performs_syncModel : Performs Store.serve SyncRequest.isWrite [modelStep.focus modelPart]
    (syncModel changed) s fun changed' labels _ => changed' = changed ++ labels := by
  unfold syncModel currentModel
  cases hfound : s.models "deep_research" with
  | none =>
    have hserve : s.serve (.model "deep_research") = (.failed 404, s) := by simp only [Store.serve, hfound]
    exact .read rfl hserve (performs_writeModel hfound)
  | some record =>
    have hserve : s.serve (.model "deep_research") = (.model record, s) := by simp only [Store.serve, hfound]
    exact .read rfl hserve (performs_writeModel hfound)

end

/-! ### A run -/

section
variable (settings : Settings) (host : Host)

def functionSteps (source : FunctionSource) : List (Ensure Store SyncError) :=
  [(recordStep host source).focus (functionPart source.id), (valvesStep settings source).focus (functionPart source.id),
    (activeStep source).focus (functionPart source.id)]

def syncSteps : List (Ensure Store SyncError) :=
  functionSources.flatMap (functionSteps settings host) ++ [modelStep.focus modelPart]

variable {settings host} {existing : String → Option FunctionRecord} {changed : List String} {s : Store}

/-- The steps of a Function leave the other records alone. -/
theorem functions_functionSteps {source : FunctionSource} {t : Store}
    (h : Ensure.run (functionSteps settings host source) s = .ok t) {id : String} (hid : id ≠ source.id) :
    t.functions id = s.functions id := by
  apply Ensure.run_preserves (R := fun s t : Store => t.functions id = s.functions id) (fun _ => rfl)
    (fun s t u hst htu => htu.trans hst) _ h
  intro e he s _
  simp only [functionSteps, List.mem_cons, List.not_mem_nil, or_false] at he
  rcases he with rfl | rfl | rfl <;> exact Store.functions_setFunction_of_ne _ _ _ hid

theorem performs_syncFunction {source : FunctionSource} (hexisting : existing source.id = s.functions source.id) :
    Performs Store.serve SyncRequest.isWrite (functionSteps settings host source)
      (syncFunction settings host existing changed source) s fun changed' labels _ => changed' = changed ++ labels := by
  apply (performs_writeFunction hexisting).bind
  intro result t _ hwritten
  obtain ⟨result, changed'⟩ := result
  obtain ⟨hchanged, record, hfound, hresult⟩ := hwritten
  dsimp only at hchanged hresult ⊢
  simp only [← List.append_assoc, ← hchanged]
  apply (performs_writeValves hfound).bind
  intro changed'' u _ hvalves
  obtain ⟨hchanged', record', hfound', hactive⟩ := hvalves
  simp only [← List.append_assoc, ← hchanged']
  apply performs_activate hfound'
  rw [hresult, hactive]
  rfl

theorem performs_syncFunctions {sources : List FunctionSource} (hids : (sources.map (·.id)).Nodup)
    (hexisting : ∀ source ∈ sources, existing source.id = s.functions source.id) :
    Performs Store.serve SyncRequest.isWrite (sources.flatMap (functionSteps settings host))
      (sources.foldlM (syncFunction settings host existing) changed) s
      fun changed' labels _ => changed' = changed ++ labels := by
  induction sources generalizing changed s with
  | nil => exact .pure (List.append_nil changed).symm
  | cons source rest ih =>
    rw [List.map_cons, List.nodup_cons] at hids
    rw [List.forall_mem_cons] at hexisting
    rw [List.flatMap_cons, List.foldlM_cons]
    apply (performs_syncFunction hexisting.1).bind
    intro changed' t hrun hchanged
    simp only [← List.append_assoc, ← hchanged]
    apply ih hids.2
    intro source' hsource'
    have hne : source'.id ≠ source.id := fun hsame => hids.1 (hsame ▸ List.mem_map_of_mem hsource')
    rw [hexisting.2 source' hsource', functions_functionSteps hrun hne]

theorem performs_run (s : Store) : Performs Store.serve SyncRequest.isWrite (syncSteps settings host)
    (run settings host) s fun changed labels _ => changed = labels := by
  unfold run
  apply performs_getJson (.functions s.functions) rfl rfl
  · intro status h
    cases h
  apply (performs_syncFunctions (by decide) (fun _ _ => rfl)).bind
  intro changed t _ hchanged
  rw [List.nil_append] at hchanged
  rw [← hchanged]
  exact performs_syncModel

/-! ### No write unsettles an earlier step -/

theorem mem_functionSteps {source : FunctionSource} {e : Ensure Store SyncError}
    (h : e ∈ functionSteps settings host source) : ∃ step, e = Ensure.focus (functionPart source.id) step := by
  simp only [functionSteps, List.mem_cons, List.not_mem_nil, or_false] at h
  rcases h with rfl | rfl | rfl
  · exact ⟨recordStep host source, rfl⟩
  · exact ⟨valvesStep settings source, rfl⟩
  · exact ⟨activeStep source, rfl⟩

theorem functionSteps_stable (source : FunctionSource) :
    (functionSteps settings host source).Pairwise Ensure.Stable := by
  simp only [functionSteps, List.pairwise_cons, List.mem_cons, List.not_mem_nil, or_false, forall_eq_or_imp,
    forall_eq, false_implies, implies_true, List.Pairwise.nil, and_true]
  exact ⟨⟨Ensure.stable_focus recordStep_stable_valvesStep, Ensure.stable_focus recordStep_stable_activeStep⟩,
    Ensure.stable_focus valvesStep_stable_activeStep⟩

theorem syncSteps_stable : (syncSteps settings host).Pairwise Ensure.Stable := by
  apply List.pairwise_append.mpr
  refine ⟨List.pairwise_flatMap.mpr ⟨fun source _ => functionSteps_stable source, ?_⟩,
    List.pairwise_singleton _ _, ?_⟩
  · have hids : functionSources.Pairwise fun source source' => source.id ≠ source'.id := by decide
    apply hids.imp
    intro source source' hne e he g hg
    obtain ⟨step, rfl⟩ := mem_functionSteps he
    obtain ⟨step', rfl⟩ := mem_functionSteps hg
    exact Ensure.stable_apart fun record store => store.functions_setFunction_of_ne _ record hne
  · intro e he g hg
    obtain ⟨source, -, he⟩ := List.mem_flatMap.mp he
    obtain ⟨step, rfl⟩ := mem_functionSteps he
    obtain rfl := List.mem_singleton.mp hg
    exact Ensure.stable_apart fun _ _ => rfl

end

/-! ### When a run completes -/

def Dictionaries (current : Option FunctionRecord) : Prop :=
  ∀ record, current = some record → record.metadata.entries?.isSome = true ∧ record.valves.entries?.isSome = true

/-- The sources and the models are configured, and what is stored as a dictionary is one. -/
structure Ready (settings : Settings) (host : Host) (s : Store) : Prop where
  forms : ∀ source ∈ functionSources, ∃ form, functionForm host source = .ok form
  valves : ∀ source ∈ functionSources, ∃ valves, managedValves settings source = .ok valves
  dictionaries : ∀ source ∈ functionSources, Dictionaries (s.functions source.id)
  model : ∃ plan, modelPlan (s.models "deep_research") = .ok plan

section
variable {settings : Settings} {host : Host} {source : FunctionSource} {current : Option FunctionRecord} {s : Store}

theorem recordStep_ready {form : FunctionForm} (hform : functionForm host source = .ok form) (h : Dictionaries current) :
    (∃ needed, (recordStep host source).check current = .ok needed) ∧
      Dictionaries ((recordStep host source).write current) := by
  constructor
  · cases current with
    | none => exact ⟨true, by simp only [recordStep, hform]⟩
    | some record =>
      obtain ⟨fields, hfields⟩ := Option.isSome_iff_exists.mp (h record rfl).1
      simp only [recordStep, hform, functionDiffers, hfields]
      split
      · exact ⟨_, rfl⟩
      · exact ⟨_, rfl⟩
  · intro record hrecord
    simp only [recordStep, hform] at hrecord
    obtain rfl := Option.some.inj hrecord
    refine ⟨by simp only [FunctionForm.stored, Value.entries?_dict, Option.isSome_some], ?_⟩
    cases current with
    | none => rfl
    | some old => exact (h old rfl).2

theorem valvesStep_ready {valves : List (String × Setting)} (hvalves : managedValves settings source = .ok valves)
    (h : Dictionaries current) (hsome : current.isSome = true) :
    (∃ needed, (valvesStep settings source).check current = .ok needed) ∧
      Dictionaries ((valvesStep settings source).write current) ∧
        ((valvesStep settings source).write current).isSome = true := by
  obtain ⟨record, rfl⟩ := Option.isSome_iff_exists.mp hsome
  obtain ⟨fields, hfields⟩ := Option.isSome_iff_exists.mp (h record rfl).2
  simp only [valvesStep, hvalves, hfields, Option.elim_some]
  refine ⟨⟨_, rfl⟩, ?_, rfl⟩
  intro record' hrecord'
  obtain rfl := Option.some.inj hrecord'
  exact ⟨(h record rfl).1, by simp only [Value.entries?_dict, Option.isSome_some]⟩

theorem activeStep_ready (source : FunctionSource) (h : Dictionaries current) (hsome : current.isSome = true) :
    (∃ needed, (activeStep source).check current = .ok needed) ∧
      Dictionaries ((activeStep source).write current) ∧ ((activeStep source).write current).isSome = true := by
  obtain ⟨record, rfl⟩ := Option.isSome_iff_exists.mp hsome
  refine ⟨⟨_, rfl⟩, ?_, rfl⟩
  intro record' hrecord'
  obtain rfl := Option.some.inj hrecord'
  exact h record rfl

theorem Ready.setFunction (h : Ready settings host s) {record : Option FunctionRecord} (hrecord : Dictionaries record) :
    Ready settings host (s.setFunction source.id record) where
  forms := h.forms
  valves := h.valves
  dictionaries source' hsource' := by
    by_cases hid : source'.id = source.id
    · rw [hid, Store.functions_setFunction]
      exact hrecord
    · rw [s.functions_setFunction_of_ne _ record hid]
      exact h.dictionaries source' hsource'
  model := h.model

/-- The record exists once its step is done: a missing one is created. -/
theorem recordStep_complete (hsource : source ∈ functionSources) (h : Ready settings host s) :
    ∃ t, Ensure.run [(recordStep host source).focus (functionPart source.id)] s = .ok t ∧
      Ready settings host t ∧ (t.functions source.id).isSome = true := by
  obtain ⟨form, hform⟩ := h.forms source hsource
  obtain ⟨⟨needed, hneeded⟩, hwritten⟩ := recordStep_ready hform (h.dictionaries source hsource)
  rw [Ensure.run_singleton]
  cases needed with
  | true =>
    refine ⟨_, Ensure.step_write hneeded, h.setFunction hwritten, ?_⟩
    simp [Ensure.focus, functionPart, recordStep, hform]
  | false =>
    refine ⟨s, Ensure.step_settled hneeded, h, ?_⟩
    cases hfound : s.functions source.id with
    | some record => rfl
    | none =>
      simp only [hfound, recordStep, hform] at hneeded
      cases hneeded

theorem functionSteps_complete (hsource : source ∈ functionSources) (h : Ready settings host s) :
    ∃ t, Ensure.run (functionSteps settings host source) s = .ok t ∧ Ready settings host t := by
  obtain ⟨valves, hvalves⟩ := h.valves source hsource
  obtain ⟨u, hrun, hu⟩ := recordStep_complete hsource h
  have hrest : ∃ t, Ensure.run [(valvesStep settings source).focus (functionPart source.id),
      (activeStep source).focus (functionPart source.id)] u = .ok t ∧
        Ready settings host t ∧ (t.functions source.id).isSome = true := by
    apply Ensure.run_completes (I := fun s => Ready settings host s ∧ (s.functions source.id).isSome = true) _ _ hu
    · intro e he s hs
      have hdictionaries := hs.1.dictionaries source hsource
      simp only [List.mem_cons, List.not_mem_nil, or_false] at he
      rcases he with rfl | rfl
      · exact (valvesStep_ready hvalves hdictionaries hs.2).1
      · exact (activeStep_ready source hdictionaries hs.2).1
    · intro e he s hs _
      have hdictionaries := hs.1.dictionaries source hsource
      simp only [List.mem_cons, List.not_mem_nil, or_false] at he
      rcases he with rfl | rfl
      · obtain ⟨-, hkept, hsome⟩ := valvesStep_ready hvalves hdictionaries hs.2
        exact ⟨hs.1.setFunction hkept, by simpa [Ensure.focus, functionPart] using hsome⟩
      · obtain ⟨-, hkept, hsome⟩ := activeStep_ready source hdictionaries hs.2
        exact ⟨hs.1.setFunction hkept, by simpa [Ensure.focus, functionPart] using hsome⟩
  obtain ⟨t, ht, hready, -⟩ := hrest
  exact ⟨t, (Ensure.run_append_ok hrun).trans ht, hready⟩

/-- From a store that is ready, a run completes. -/
theorem run_completes (h : Ready settings host s) : ∃ t, Completes Store.serve (run settings host) s t := by
  have hfunctions : ∀ sources ⊆ functionSources, ∀ s, Ready settings host s →
      ∃ t, Ensure.run (sources.flatMap (functionSteps settings host)) s = .ok t ∧ Ready settings host t := by
    intro sources
    induction sources with
    | nil => exact fun _ s hs => ⟨s, rfl, hs⟩
    | cons source rest ih =>
      intro hsub s hs
      obtain ⟨hsource, hrest⟩ := List.cons_subset.mp hsub
      obtain ⟨u, hu, hready⟩ := functionSteps_complete hsource hs
      obtain ⟨t, ht, hready'⟩ := ih hrest u hready
      exact ⟨t, (Ensure.run_append_ok hu).trans ht, hready'⟩
  obtain ⟨u, hu, hready⟩ := hfunctions functionSources (List.Subset.refl _) s h
  obtain ⟨plan, hplan⟩ := hready.model
  have hmodel : ∃ t, (modelStep.focus modelPart).step u = .ok t := by
    have hcheck : (modelStep.focus modelPart).check u =
        .ok ((u.models "deep_research").isNone || modelDiffers plan.1) := by
      simp only [Ensure.focus, modelPart, modelStep, hplan, Except.map]
    cases hneeded : (u.models "deep_research").isNone || modelDiffers plan.1 with
    | true => exact ⟨_, Ensure.step_write (hcheck.trans (congrArg _ hneeded))⟩
    | false => exact ⟨_, Ensure.step_settled (hcheck.trans (congrArg _ hneeded))⟩
  obtain ⟨t, ht⟩ := hmodel
  refine ⟨t, (performs_run s).completes.mpr ?_⟩
  rw [syncSteps, Ensure.run_append_ok hu, Ensure.run_singleton, ht]

end

/-! ### What a run preserves -/

/-- A stored record is kept up to `R`. -/
def Kept {τ : Type} (R : τ → τ → Prop) (before after : Option τ) : Prop :=
  ∀ record, before = some record → ∃ record', after = some record' ∧ R record record'

section
variable {τ : Type} {R : τ → τ → Prop}

theorem Kept.refl (h : ∀ record, R record record) (before : Option τ) : Kept R before before :=
  fun record hrecord => ⟨record, hrecord, h record⟩

theorem Kept.trans (h : ∀ a b c, R a b → R b c → R a c) {before middle after : Option τ}
    (hbefore : Kept R before middle) (hafter : Kept R middle after) : Kept R before after := by
  intro record hrecord
  obtain ⟨record', hrecord', hfirst⟩ := hbefore record hrecord
  obtain ⟨record'', hrecord'', hsecond⟩ := hafter record' hrecord'
  exact ⟨record'', hrecord'', h _ _ _ hfirst hsecond⟩

end

/-- A dictionary, of which null is an empty one. -/
def entries (value : Value) : Fields := value.entries?.getD []

theorem entries_dict (fields : Fields) : entries (.dict fields) = fields := by
  rw [entries, Value.entries?_dict, Option.getD_some]

/-- The Valves that are not managed have their values. -/
def ValvesKept (id : String) (before after : FunctionRecord) : Prop :=
  ∀ key ∉ (managedKeys id).map Text.ofString, (entries after.valves).lookup key = (entries before.valves).lookup key

/-- The Actions of the model that are not managed, in their order. -/
def otherActionIds (record : ModelRecord) : Option (List Value) :=
  (((entries record.metadata).get "actionIds").orElse (.list [])).items?.map fun ids =>
    ids.filter (!isManagedAction ·)

structure ModelKept (before after : ModelRecord) : Prop where
  accessGrants : after.accessGrants = before.accessGrants
  params : after.params.getD [] = before.params.getD []
  name : after.name = before.name
  baseModelId : after.baseModelId = before.baseModelId
  metadata : ∀ key ∉ [Text.ofString "description", .ofString "actionIds"],
    (entries after.metadata).lookup key = (entries before.metadata).lookup key
  actionIds : otherActionIds after = otherActionIds before

structure Preserved (s t : Store) : Prop where
  unrelated : ∀ id, (∀ source ∈ functionSources, source.id ≠ id) → t.functions id = s.functions id
  functions : ∀ id, Kept (ValvesKept id) (s.functions id) (t.functions id)
  models : ∀ id, id ≠ "deep_research" → t.models id = s.models id
  model : Kept ModelKept (s.models "deep_research") (t.models "deep_research")

section
variable {id : String}

theorem ValvesKept.refl (record : FunctionRecord) : ValvesKept id record record := fun _ _ => rfl

theorem ValvesKept.trans (a b c : FunctionRecord) (hab : ValvesKept id a b) (hbc : ValvesKept id b c) :
    ValvesKept id a c := fun key hkey => (hbc key hkey).trans (hab key hkey)

theorem ModelKept.refl (record : ModelRecord) : ModelKept record record := by
  constructor <;> intros <;> rfl

theorem ModelKept.trans (a b c : ModelRecord) (hab : ModelKept a b) (hbc : ModelKept b c) : ModelKept a c where
  accessGrants := hbc.accessGrants.trans hab.accessGrants
  params := hbc.params.trans hab.params
  name := hbc.name.trans hab.name
  baseModelId := hbc.baseModelId.trans hab.baseModelId
  metadata key hkey := (hbc.metadata key hkey).trans (hab.metadata key hkey)
  actionIds := hbc.actionIds.trans hab.actionIds

theorem Preserved.refl (s : Store) : Preserved s s where
  unrelated _ _ := rfl
  functions _ := Kept.refl ValvesKept.refl _
  models _ _ := rfl
  model := Kept.refl ModelKept.refl _

theorem Preserved.trans {s t u : Store} (hst : Preserved s t) (htu : Preserved t u) : Preserved s u where
  unrelated id hid := (htu.unrelated id hid).trans (hst.unrelated id hid)
  functions id := Kept.trans ValvesKept.trans (hst.functions id) (htu.functions id)
  models id hid := (htu.models id hid).trans (hst.models id hid)
  model := Kept.trans ModelKept.trans hst.model htu.model

end

section
variable {settings : Settings} {host : Host} {source : FunctionSource}

theorem recordStep_keeps (current : Option FunctionRecord) :
    Kept (ValvesKept source.id) current ((recordStep host source).write current) := by
  cases hform : functionForm host source with
  | error e =>
    simp only [recordStep, hform]
    exact Kept.refl ValvesKept.refl _
  | ok form =>
    intro record hrecord
    refine ⟨form.stored current, by simp only [recordStep, hform], ?_⟩
    rw [hrecord]
    exact ValvesKept.refl record

theorem valvesStep_keeps (current : Option FunctionRecord) :
    Kept (ValvesKept source.id) current ((valvesStep settings source).write current) := by
  intro record hrecord
  subst hrecord
  cases hvalves : managedValves settings source with
  | error e => exact ⟨record, by simp only [valvesStep, hvalves], ValvesKept.refl record⟩
  | ok valves =>
    cases hfields : record.valves.entries? with
    | none => exact ⟨record, by simp only [valvesStep, hvalves, hfields, Option.elim_none], ValvesKept.refl record⟩
    | some fields =>
      refine ⟨{record with valves := .dict (desiredValves fields valves)},
        by simp only [valvesStep, hvalves, hfields, Option.elim_some], fun key hkey => ?_⟩
      rw [entries_dict, entries, hfields, Option.getD_some, lookup_desired_of_not_managed hvalves hkey]

theorem activeStep_keeps (current : Option FunctionRecord) :
    Kept (ValvesKept source.id) current ((activeStep source).write current) := by
  intro record hrecord
  subst hrecord
  exact ⟨_, rfl, ValvesKept.refl record⟩

theorem functionSteps_keep {e : Ensure Store SyncError} (he : e ∈ functionSteps settings host source) (s : Store) :
    ∃ record, e.write s = s.setFunction source.id record ∧
      Kept (ValvesKept source.id) (s.functions source.id) record := by
  simp only [functionSteps, List.mem_cons, List.not_mem_nil, or_false] at he
  rcases he with rfl | rfl | rfl
  · exact ⟨_, rfl, recordStep_keeps _⟩
  · exact ⟨_, rfl, valvesStep_keeps _⟩
  · exact ⟨_, rfl, activeStep_keeps _⟩

theorem preserved_setFunction (hsource : source ∈ functionSources) {s : Store} {record : Option FunctionRecord}
    (h : Kept (ValvesKept source.id) (s.functions source.id) record) :
    Preserved s (s.setFunction source.id record) where
  unrelated id hid := s.functions_setFunction_of_ne _ record (hid source hsource).symm
  functions id := by
    by_cases hid : id = source.id
    · rw [hid, Store.functions_setFunction]
      exact h
    · rw [s.functions_setFunction_of_ne _ record hid]
      exact Kept.refl ValvesKept.refl _
  models _ _ := rfl
  model := Kept.refl ModelKept.refl _

end

/-- The model, if there is one, has a name and its access grants. -/
def ModelComplete (current : Option ModelRecord) : Prop :=
  ∀ record, current = some record → record.name.truthy = true ∧ record.accessGrants.isSome = true

theorem orElse_of_truthy {value : Value} (h : value.truthy = true) (other : Value) : value.orElse other = value :=
  if_pos h

theorem orElse_truthy {value other : Value} (h : other.truthy = true) : (value.orElse other).truthy = true := by
  unfold Value.orElse
  split
  · assumption
  · exact h

section
variable {current : Option ModelRecord} {metadata : Fields} {actionIds : List Value}

theorem modelForm_keeps (hcomplete : ModelComplete current) (hplan : modelPlan current = .ok (metadata, actionIds)) :
    Kept ModelKept current (some (modelForm current metadata actionIds).stored) := by
  intro record hrecord
  subst hrecord
  obtain ⟨hname, hgrants⟩ := hcomplete record rfl
  obtain ⟨grants, hgrants⟩ := Option.isSome_iff_exists.mp hgrants
  obtain ⟨hmetadata, hids⟩ := modelPlan_ok.mp hplan
  obtain ⟨-, items, hitems, hothers⟩ := syncedActionIds_ok hids
  have hentries : entries record.metadata = metadata := by
    unfold modelMetadata at hmetadata
    split at hmetadata
    · cases hmetadata
    · next fields hfields =>
      obtain rfl := Except.ok.inj hmetadata
      rw [entries, ← Option.getD_some (a := fields) (b := []), ← hfields]
      rfl
  refine ⟨_, rfl, ?_⟩
  constructor
  · simp [ModelForm.stored, modelForm, hgrants]
  · simp [ModelForm.stored, modelForm]
  · exact orElse_of_truthy hname _
  · rfl
  · intro key hkey
    rw [hentries]
    exact (congrArg (List.lookup key) (entries_dict _)).trans (lookup_assignAll_of_not_mem hkey)
  · have hbefore : otherActionIds record = some (items.filter (!isManagedAction ·)) := by
      simp only [otherActionIds, hentries, hitems, Option.map_some]
    rw [hbefore, ← hothers]
    simp only [otherActionIds, ModelForm.stored, modelForm, entries_dict, updatedMetadata_actionIds, orElse_list,
      Value.items?, Option.map_some]

theorem modelForm_complete : ModelComplete (some (modelForm current metadata actionIds).stored) := by
  intro record hrecord
  obtain rfl := Option.some.inj hrecord
  exact ⟨orElse_truthy rfl, rfl⟩

end

section
variable {settings : Settings} {host : Host}

/-- Every write of a run preserves what it is not for. -/
theorem syncSteps_preserve {e : Ensure Store SyncError} (he : e ∈ syncSteps settings host) {s : Store}
    (hneeded : e.check s = .ok true) (hcomplete : ModelComplete (s.models "deep_research")) :
    ModelComplete ((e.write s).models "deep_research") ∧ Preserved s (e.write s) := by
  rcases List.mem_append.mp he with he | he
  · obtain ⟨source, hsource, he⟩ := List.mem_flatMap.mp he
    obtain ⟨record, hwrite, hkept⟩ := functionSteps_keep he s
    rw [hwrite]
    exact ⟨hcomplete, preserved_setFunction hsource hkept⟩
  · obtain rfl := List.mem_singleton.mp he
    have hwrite : (modelStep.focus modelPart).write s =
        s.setModel "deep_research" (modelStep.write (s.models "deep_research")) := rfl
    have hcheck : modelStep.check (s.models "deep_research") = .ok true := hneeded
    rw [hwrite]
    cases hplan : modelPlan (s.models "deep_research") with
    | error err =>
      simp only [modelStep, hplan] at hcheck
      cases hcheck
    | ok plan =>
      have hstored : modelStep.write (s.models "deep_research") =
          some (modelForm (s.models "deep_research") plan.1 plan.2).stored := by
        simp only [modelStep, hplan]
      rw [hstored]
      refine ⟨?_, ?_⟩
      · rw [Store.models_setModel]
        exact modelForm_complete
      · constructor
        · intro id _
          rfl
        · exact fun _ => Kept.refl ValvesKept.refl _
        · intro id hid
          exact s.models_setModel_of_ne _ _ hid
        · rw [Store.models_setModel]
          exact modelForm_keeps hcomplete hplan

end

/-- A second complete run writes and changes nothing. A complete run after runs that were cut
off ends as one without them. Neither touches what it is not for. -/
theorem synchronization_idempotent_convergent_targeted (settings : Settings) (host : Host) (s : Store)
    (hmodel : ModelComplete (s.models "deep_research")) :
    (∀ t, Completes Store.serve (run settings host) s t →
      (∃ requests, (run settings host).exec Store.serve t = (requests, .ok [], t) ∧
        ∀ request ∈ requests, request.isWrite = false) ∧ Preserved s t) ∧
    ∀ lengths : List Nat, Preserved s ((run settings host).cuts Store.serve s lengths) ∧
      ∀ t, Completes Store.serve (run settings host) ((run settings host).cuts Store.serve s lengths) t ↔
        Completes Store.serve (run settings host) s t := by
  let R (s t : Store) : Prop := ModelComplete (s.models "deep_research") →
    ModelComplete (t.models "deep_research") ∧ Preserved s t
  have hrefl (s : Store) : R s s := fun h => ⟨h, Preserved.refl s⟩
  have htrans (s t u : Store) (hst : R s t) (htu : R t u) : R s u := by
    intro h
    obtain ⟨ht, hst⟩ := hst h
    obtain ⟨hu, htu⟩ := htu ht
    exact ⟨hu, hst.trans htu⟩
  have hwrite : ∀ e ∈ syncSteps settings host, ∀ s, e.check s = .ok true → R s (e.write s) :=
    fun e he s hneeded h => syncSteps_preserve he hneeded h
  constructor
  · intro t hcompletes
    have hpreserved := Performs.completes_preserves performs_run hrefl htrans hwrite s t hcompletes
    obtain ⟨requests, changed, hexec, rfl, hquiet⟩ :=
      Performs.idempotent performs_run syncSteps_stable hcompletes
    exact ⟨⟨requests, hexec, hquiet⟩, (hpreserved hmodel).2⟩
  · intro lengths
    have hpreserved := Performs.cuts_preserves performs_run hrefl htrans hwrite s lengths
    exact ⟨(hpreserved hmodel).2, fun t => Performs.completes_cuts performs_run syncSteps_stable lengths⟩

namespace Sample

/-- An older Function and a model of the administrator's own. -/
def olderStore : Store where
  functions id := if id = "deep_research" then some {
      name := .text "Old name"
      content := .text "old content"
      metadata := .none
      isActive := true
      valves := .object [("default_max_queries", .int 17), ("note", .text "kept")] }
    else none
  models id := if id = "deep_research" then some {
      baseModelId := .none
      name := .text "Research"
      metadata := .object [("actionIds", .list [.text "other"])]
      params := none
      accessGrants := some (.list [])
      isActive := false }
    else none

def pipeHost : Host where
  version := "1.0.0"
  readText filename := some ("version: 0\nfrom " ++ filename)

end Sample

open FunctionSync.Sample in
theorem synchronization_of_olderStore :
    ∃ t, Completes Store.serve (run {} pipeHost) olderStore t ∧
      (∃ requests, (run {} pipeHost).exec Store.serve t = (requests, .ok [], t) ∧
        ∀ request ∈ requests, request.isWrite = false) ∧
      Preserved olderStore t ∧
      Completes Store.serve (run {} pipeHost) ((run {} pipeHost).cuts Store.serve olderStore [4, 7]) t := by
  have hchanged : ((run {} pipeHost).exec Store.serve olderStore).2.1 =
      .ok ["updated:deep_research", "valves:deep_research", "created:save_deep_research_to_knowledge",
        "valves:save_deep_research_to_knowledge", "activated:save_deep_research_to_knowledge",
        "updated:model:deep_research"] := by decide +kernel
  have hcompletes : Completes Store.serve (run {} pipeHost) olderStore
      ((run {} pipeHost).exec Store.serve olderStore).2.2 := ⟨_, _, Prod.ext rfl (Prod.ext hchanged rfl)⟩
  have hmodel : ModelComplete (olderStore.models "deep_research") := by
    intro record hrecord
    obtain rfl := Option.some.inj hrecord
    exact ⟨rfl, rfl⟩
  obtain ⟨hcomplete, hcut⟩ := synchronization_idempotent_convergent_targeted {} pipeHost olderStore hmodel
  obtain ⟨hagain, hpreserved⟩ := hcomplete _ hcompletes
  exact ⟨_, hcompletes, hagain, hpreserved, ((hcut [4, 7]).2 _).mpr hcompletes⟩

end FunctionSync

end ResearchGateway
