import ResearchGateway.FunctionSync
import ResearchGateway.Library.Ensure

/-! The steps of a synchronization.

Each is on one record: whether the Function, its Valves, its activation or the model is to be
written, and what is then stored. Once written, nothing of it is to be written again. -/
namespace ResearchGateway
open Library

namespace FunctionSync

/-! ### What a write settles -/

section
variable {settings : Settings} {host : Host} {source : FunctionSource}

theorem functionForm_ok {form : FunctionForm} (h : functionForm host source = .ok form) :
    form.id = source.id ∧ form.name = source.name ∧
      form.metadata = [(.ofString "description", .text source.description)] := by
  unfold functionForm at h
  split at h
  · cases h
  · obtain rfl := Except.ok.inj h
    exact ⟨rfl, rfl, rfl⟩

theorem functionDiffers_stored {form : FunctionForm} (h : functionForm host source = .ok form)
    (old : Option FunctionRecord) : functionDiffers (form.stored old) source form.content = .ok false := by
  obtain ⟨-, hname, hmetadata⟩ := functionForm_ok h
  have hdescription : Fields.get [(.ofString "description", .text source.description)] "description" =
      .text source.description := by
    simp only [Fields.get, Fields.get?, List.lookup_cons_self, Option.getD_some]
  simp only [functionDiffers, FunctionForm.stored, hname, hmetadata, Value.isText_text, Value.entries?_dict,
    hdescription, Bool.not_true, Bool.or_self, Bool.false_eq_true, if_false]

/-- The Valves of a Function that a run manages. -/
def managedKeys (id : String) : List String :=
  if id = "deep_research" then
    ["service_url", "service_token", "public_search_enabled", "openwebui_url", "default_models",
      "default_research_strategy", "default_max_queries", "max_queries_cap"]
  else ["service_url", "service_token", "openwebui_url"]

theorem managedKeys_nodup : ((managedKeys source.id).map Text.ofString).Nodup := by
  unfold managedKeys
  split <;> decide

theorem managedValves_ok {valves : List (String × Setting)} (h : managedValves settings source = .ok valves) :
    valves.map (·.1) = managedKeys source.id := by
  unfold managedValves at h
  unfold managedKeys
  split at h
  · next hsource =>
    rw [if_pos hsource]
    split at h
    · cases h
    · obtain rfl := Except.ok.inj h
      rfl
  · next hsource =>
    rw [if_neg hsource]
    obtain rfl := Except.ok.inj h
    rfl

theorem equals_value (setting : Setting) : setting.equals setting.value = true := by
  cases setting with
  | text t => exact Value.isText_text t
  | flag b => cases b <;> rfl
  | count n => exact beq_self_eq_true n
  | models roles =>
    let fields : Fields := [(.ofString "fast", .text roles.fast), (.ofString "smart", .text roles.smart),
      (.ofString "strategic", .text roles.strategic)]
    have hfast : fields.get "fast" = .text roles.fast := rfl
    have hsmart : fields.get "smart" = .text roles.smart := rfl
    have hstrategic : fields.get "strategic" = .text roles.strategic := rfl
    have hvalue : (Setting.models roles).value = .dict fields := rfl
    simp only [hvalue, Setting.equals, hfast, hsmart, hstrategic, Value.isText_text, Bool.and_true]
    rfl

theorem settingFields_keys {valves : List (String × Setting)} (h : managedValves settings source = .ok valves) :
    (settingFields valves).map (·.1) = (managedKeys source.id).map Text.ofString := by
  rw [← managedValves_ok h, settingFields, List.map_map, List.map_map]
  rfl

theorem valvesDiffer_desired {valves : List (String × Setting)} (h : managedValves settings source = .ok valves)
    (current : Fields) : valvesDiffer (desiredValves current valves) valves = false := by
  apply List.any_eq_false.mpr
  intro valve hvalve
  have hlookup : (desiredValves current valves).lookup (.ofString valve.1) = some valve.2.value := by
    apply lookup_assignAll
    · rw [settingFields_keys h]
      exact managedKeys_nodup
    · exact List.mem_map_of_mem hvalve
  simp only [Fields.get?, hlookup, Option.any_some, equals_value, Bool.not_true, Bool.false_eq_true, not_false_iff]

theorem lookup_desired_of_not_managed {valves : List (String × Setting)}
    (h : managedValves settings source = .ok valves) {current : Fields} {key : Text}
    (hkey : key ∉ (managedKeys source.id).map Text.ofString) :
    (desiredValves current valves).lookup key = current.lookup key := by
  apply lookup_assignAll_of_not_mem
  rw [settingFields_keys h]
  exact hkey

theorem syncedActionIds_ok {metadata : Fields} {ids : List Value} (h : syncedActionIds metadata = .ok ids) :
    ids.any isManagedAction = true ∧ ∃ items, ((metadata.get "actionIds").orElse (.list [])).items? = some items ∧
      ids.filter (!isManagedAction ·) = items.filter (!isManagedAction ·) := by
  have hmanaged : isManagedAction (.text "save_deep_research_to_knowledge") = true := Value.isText_text _
  unfold syncedActionIds at h
  split at h
  · cases h
  · next items hitems =>
    by_cases hnamed : items.any isManagedAction = true
    · rw [if_pos hnamed] at h
      obtain rfl := Except.ok.inj h
      exact ⟨hnamed, items, hitems, rfl⟩
    · rw [if_neg hnamed] at h
      obtain rfl := Except.ok.inj h
      refine ⟨?_, items, hitems, ?_⟩
      · rw [List.any_append, List.any_cons, hmanaged, Bool.true_or, Bool.or_true]
      · rw [List.filter_append, List.filter_cons_of_neg (by rw [hmanaged]; decide), List.filter_nil, List.append_nil]

section
variable (metadata : Fields) (actionIds : List Value)

theorem managedMetadata_nodup : [Text.ofString "description", .ofString "actionIds"].Nodup := by decide

@[simp] theorem updatedMetadata_description :
    (updatedMetadata metadata actionIds).get "description" = .text modelDescription := by
  have hlookup : (updatedMetadata metadata actionIds).lookup (.ofString "description") = some (.text modelDescription) :=
    lookup_assignAll managedMetadata_nodup (List.mem_cons_self ..)
  rw [Fields.get, Fields.get?, hlookup, Option.getD_some]

@[simp] theorem updatedMetadata_actionIds :
    (updatedMetadata metadata actionIds).get "actionIds" = .list actionIds := by
  have hlookup : (updatedMetadata metadata actionIds).lookup (.ofString "actionIds") = some (.list actionIds) :=
    lookup_assignAll managedMetadata_nodup (List.mem_cons_of_mem _ (List.mem_cons_self ..))
  rw [Fields.get, Fields.get?, hlookup, Option.getD_some]

end

theorem orElse_list (ids : List Value) : (Value.list ids).orElse (.list []) = .list ids := by
  cases ids <;> rfl

theorem modelDiffers_updated {metadata : Fields} {ids : List Value} (h : syncedActionIds metadata = .ok ids) :
    syncedActionIds (updatedMetadata metadata ids) = .ok ids ∧
      modelDiffers (updatedMetadata metadata ids) = false := by
  have hnamed := (syncedActionIds_ok h).1
  constructor
  · simp only [syncedActionIds, updatedMetadata_actionIds, orElse_list, Value.items?, hnamed, if_true]
  · simp only [modelDiffers, updatedMetadata_actionIds, updatedMetadata_description, actionIdsDiffer, hnamed,
      Value.isText_text, Bool.not_true, Bool.or_self]

end

/-! ### The steps on a record -/

section
variable (settings : Settings) (host : Host) (source : FunctionSource)

def recordStep : Ensure (Option FunctionRecord) SyncError where
  label current := if current.isNone then s!"created:{source.id}" else s!"updated:{source.id}"
  check current :=
    match functionForm host source, current with
    | .error e, _ => .error e
    | .ok _, none => .ok true
    | .ok form, some current => functionDiffers current source form.content
  write current :=
    match functionForm host source with
    | .error _ => current
    | .ok form => some (form.stored current)
  settles current h := by
    cases hform : functionForm host source with
    | error e =>
      rw [hform] at h
      cases h
    | ok form => exact functionDiffers_stored hform current

def valvesStep : Ensure (Option FunctionRecord) SyncError where
  label _ := s!"valves:{source.id}"
  check current :=
    match managedValves settings source, current with
    | .error e, _ => .error e
    | .ok _, none => .error (.httpStatus 404)
    | .ok valves, some record =>
      match record.valves.entries? with
      | none => .error (invalidValves source)
      | some fields => .ok (valvesDiffer fields valves)
  write current :=
    match managedValves settings source, current with
    | .ok valves, some record => record.valves.entries?.elim current fun fields =>
        some {record with valves := .dict (desiredValves fields valves)}
    | _, _ => current
  settles current h := by
    cases hvalves : managedValves settings source with
    | error e =>
      rw [hvalves] at h
      cases h
    | ok valves =>
      cases current with
      | none =>
        rw [hvalves] at h
        cases h
      | some record =>
        simp only [hvalves] at h ⊢
        cases hfields : record.valves.entries? with
        | none =>
          rw [hfields] at h
          cases h
        | some fields =>
          simp only [Option.elim_some, Value.entries?_dict, valvesDiffer_desired hvalves]

def activeStep : Ensure (Option FunctionRecord) SyncError where
  label _ := s!"activated:{source.id}"
  check current :=
    match current with
    | none => .error (.httpStatus 404)
    | some record => .ok !record.isActive
  write current := current.map fun record => {record with isActive := !record.isActive}
  settles current h := by
    cases current with
    | none => cases h
    | some record =>
      have hinactive : (!record.isActive) = true := Except.ok.inj h
      simp only [Option.map_some, hinactive, Bool.not_true]

end

section
variable {settings : Settings} {host : Host} {source : FunctionSource}

/-- The record of a Function is settled whatever its Valves and its activation are. -/
theorem recordStep_check (record : FunctionRecord) (isActive : Bool) (valves : Value) :
    (recordStep host source).check (some {record with isActive := isActive, valves := valves}) =
      (recordStep host source).check (some record) := by
  cases hform : functionForm host source <;> simp only [recordStep, hform, functionDiffers]

theorem valvesStep_check (record : FunctionRecord) (isActive : Bool) :
    (valvesStep settings source).check (some {record with isActive := isActive}) =
      (valvesStep settings source).check (some record) := by
  cases hvalves : managedValves settings source <;> simp only [valvesStep, hvalves]

theorem recordStep_stable_valvesStep : (recordStep host source).Stable (valvesStep settings source) := by
  intro current hsettled
  cases hvalves : managedValves settings source with
  | error e => simpa only [valvesStep, hvalves] using hsettled
  | ok valves =>
    cases current with
    | none => simpa only [valvesStep, hvalves] using hsettled
    | some record =>
      cases hfields : record.valves.entries? with
      | none => simpa only [valvesStep, hvalves, hfields, Option.elim_none] using hsettled
      | some fields =>
        simp only [valvesStep, hvalves, hfields, Option.elim_some]
        exact (recordStep_check record record.isActive _).trans hsettled

theorem recordStep_stable_activeStep : (recordStep host source).Stable (activeStep source) := by
  intro current hsettled
  cases current with
  | none => exact hsettled
  | some record => exact (recordStep_check record _ record.valves).trans hsettled

theorem valvesStep_stable_activeStep : (valvesStep settings source).Stable (activeStep source) := by
  intro current hsettled
  cases current with
  | none => exact hsettled
  | some record => exact (valvesStep_check record _).trans hsettled

end

/-- The metadata that the form of the model starts from, with its Actions. -/
def modelPlan (current : Option ModelRecord) : Except SyncError (Fields × List Value) :=
  match modelMetadata current with
  | .error e => .error e
  | .ok metadata =>
    match syncedActionIds metadata with
    | .error e => .error e
    | .ok actionIds => .ok (metadata, actionIds)

theorem modelPlan_ok {current : Option ModelRecord} {metadata : Fields} {actionIds : List Value} :
    modelPlan current = .ok (metadata, actionIds) ↔
      modelMetadata current = .ok metadata ∧ syncedActionIds metadata = .ok actionIds := by
  constructor
  · intro h
    unfold modelPlan at h
    split at h
    · cases h
    · next hmetadata =>
      split at h
      · cases h
      · next hids =>
        obtain ⟨rfl, rfl⟩ := Prod.mk.inj (Except.ok.inj h)
        exact ⟨hmetadata, hids⟩
  · intro h
    simp only [modelPlan, h.1, h.2]

def modelStep : Ensure (Option ModelRecord) SyncError where
  label current := if current.isNone then "created:model:deep_research" else "updated:model:deep_research"
  check current := (modelPlan current).map fun plan => current.isNone || modelDiffers plan.1
  write current :=
    match modelPlan current with
    | .error _ => current
    | .ok (metadata, actionIds) => some (modelForm current metadata actionIds).stored
  settles current h := by
    cases hplan : modelPlan current with
    | error e =>
      rw [hplan] at h
      cases h
    | ok plan =>
      obtain ⟨metadata, actionIds⟩ := plan
      obtain ⟨hids, hsame⟩ := modelDiffers_updated (modelPlan_ok.mp hplan).2
      have hstored : modelPlan (some (modelForm current metadata actionIds).stored) =
          .ok (updatedMetadata metadata actionIds, actionIds) := by
        apply modelPlan_ok.mpr
        simp only [modelMetadata, Option.elim_some, ModelForm.stored, modelForm, Value.entries?_dict, hids,
          and_self]
      simp only [hstored, Except.map, Option.isNone_some, Bool.false_or, hsame]

end FunctionSync

end ResearchGateway
