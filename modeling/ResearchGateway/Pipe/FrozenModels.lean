import ResearchGateway.Pipe.ModelSelection

/-! What a successful model selection freezes.

The look-up at its end is safe because every accessible id is either in the catalog of
published limits or among the incomplete ones, and the loop over those adds what the
user entered for each of them. -/
namespace ResearchGateway
open Library Pipe

variable {host : SelectionHost}

/-! ### The catalog -/

theorem published?_eq_some {id : Text} {model : Fields} {entry : CapabilityEntry}
    (h : published? id model = some entry) :
    entry.id = id ∧ 4096 ≤ entry.contextLength ∧ 1 ≤ entry.maxOutputTokens := by
  unfold published? at h
  split at h
  · split at h
    · cases h
    · next hbounds =>
      obtain rfl := Option.some.inj h
      exact ⟨rfl, Int.not_lt.mp (not_or.mp hbounds).1, Int.not_lt.mp (not_or.mp hbounds).2⟩
  · cases h

/-- What the three collections say about the models that were read. -/
structure Reads (host : SelectionHost) (models : List Fields) (catalog : Catalog) : Prop where
  accessible : ∀ id ∈ catalog.available, ∃ model ∈ models, modelId? host model = some id
  covered : ∀ id ∈ catalog.available,
    id ∈ catalog.incomplete ∨ ∃ entry, catalog.published.lookup id = some entry
  published : ∀ id entry, catalog.published.lookup id = some entry →
    ∃ model ∈ models, modelId? host model = some id ∧ published? id model = some entry
  incomplete : ∀ id ∈ catalog.incomplete,
    ∃ model ∈ models, modelId? host model = some id ∧ published? id model = none

theorem Reads.empty : Reads host [] {} := by
  constructor <;> simp

theorem Reads.addModel {models : List Fields} {catalog catalog' : Catalog} {model : Fields}
    (h : Reads host models catalog) (hadd : Pipe.addModel host catalog model = .ok catalog') :
    Reads host (models ++ [model]) catalog' := by
  have hkeep {P : Fields → Prop} : (∃ m ∈ models, P m) → ∃ m ∈ models ++ [model], P m :=
    fun ⟨m, hm, hP⟩ => ⟨m, List.mem_append_left _ hm, hP⟩
  have hmem : model ∈ models ++ [model] := List.mem_append_right _ (List.mem_singleton_self _)
  unfold Pipe.addModel at hadd
  split at hadd
  · cases hadd
  · next id hid =>
    have haccessible : ∀ id' ∈ id :: catalog.available, ∃ m ∈ models ++ [model], modelId? host m = some id' := by
      intro id' hid'
      rcases List.mem_cons.mp hid' with rfl | hid'
      · exact ⟨model, hmem, hid⟩
      · exact hkeep (h.accessible id' hid')
    split at hadd
    · next hnone =>
      obtain rfl := Except.ok.inj hadd
      refine ⟨haccessible, ?_, fun id' entry hfound => hkeep (h.published id' entry hfound), ?_⟩
      · intro id' hid'
        rcases List.mem_cons.mp hid' with rfl | hid'
        · exact .inl (List.mem_cons_self ..)
        · exact (h.covered id' hid').imp_left (List.mem_cons_of_mem _)
      · intro id' hid'
        rcases List.mem_cons.mp hid' with rfl | hid'
        · exact ⟨model, hmem, hid, hnone⟩
        · exact hkeep (h.incomplete id' hid')
    · next entry hsome =>
      obtain rfl := Except.ok.inj hadd
      refine ⟨haccessible, ?_, ?_, fun id' hid' => hkeep (h.incomplete id' hid')⟩
      · intro id' hid'
        simp only [lookup_assigned]
        rcases List.mem_cons.mp hid' with rfl | hid'
        · exact .inr ⟨entry, if_pos rfl⟩
        · refine (h.covered id' hid').imp_right fun ⟨entry', hfound⟩ => ?_
          by_cases hsame : id' = id
          · exact ⟨entry, if_pos hsame⟩
          · exact ⟨entry', by rw [if_neg hsame, hfound]⟩
      · intro id' entry' hfound
        simp only [lookup_assigned] at hfound
        by_cases hsame : id' = id
        · rw [if_pos hsame] at hfound
          obtain rfl := Option.some.inj hfound
          subst hsame
          exact ⟨model, hmem, hid, hsome⟩
        · rw [if_neg hsame] at hfound
          exact hkeep (h.published id' entry' hfound)

theorem readAll_ok {models : List Fields} (catalog : Catalog)
    (h : ∀ model ∈ models, (modelId? host model).isSome = true) :
    ∃ catalog', models.foldlM (Pipe.addModel host) catalog = .ok catalog' := by
  induction models generalizing catalog with
  | nil => exact ⟨catalog, rfl⟩
  | cons model rest ih =>
    rw [List.forall_mem_cons] at h
    obtain ⟨id, hid⟩ := Option.isSome_iff_exists.mp h.1
    obtain ⟨next, hnext⟩ : ∃ next, Pipe.addModel host catalog model = .ok next := by
      simp only [Pipe.addModel, hid]
      cases published? id model with
      | none => exact ⟨_, rfl⟩
      | some entry => exact ⟨_, rfl⟩
    rw [List.foldlM_cons, hnext]
    exact ih next h.2

theorem Reads.readAll {models rest : List Fields} {catalog catalog' : Catalog} (h : Reads host models catalog)
    (hread : rest.foldlM (Pipe.addModel host) catalog = .ok catalog') :
    Reads host (models ++ rest) catalog' := by
  induction rest generalizing models catalog with
  | nil =>
    obtain rfl := Except.ok.inj hread
    rwa [List.append_nil]
  | cons model rest ih =>
    rw [List.foldlM_cons] at hread
    cases hadd : Pipe.addModel host catalog model with
    | error e =>
      rw [hadd] at hread
      cases hread
    | ok next =>
      rw [hadd] at hread
      have hrest := ih (h.addModel hadd) hread
      rwa [List.append_assoc, List.singleton_append] at hrest

/-! ### The limits that are entered -/

theorem parseTokenLimit_error {answer : Value} {e : Raised} (h : parseTokenLimit host answer = .error e) :
    e = .valueError := by
  unfold parseTokenLimit at h
  split at h
  · split at h
    · simp only at h
      split at h
      · cases h
      · split at h
        · exact (Except.error.inj h).symm
        · cases h
    · cases h
  · cases h

/-- The limits of an entry as an answer to a question about its model gives them. -/
def Entered (host : SelectionHost) (exchanges : List (Prompt × Value)) (entry : CapabilityEntry) : Prop :=
  ∃ validationError answer fields answers, (Prompt.limits entry.id validationError, answer) ∈ exchanges ∧
    answered? answer = some fields ∧ (fields.get "answers").fields? = some answers ∧
    ∃ context output : Nat,
      parseTokenLimit host (Fields.get answers "context_length") = .ok (some context) ∧
      parseTokenLimit host (Fields.get answers "max_output_tokens") = .ok (some output) ∧
      entry.contextLength = context ∧ entry.maxOutputTokens = output

theorem Entered.mono {exchanges exchanges' : List (Prompt × Value)} {entry : CapabilityEntry}
    (h : Entered host exchanges entry) (hsub : exchanges ⊆ exchanges') : Entered host exchanges' entry := by
  obtain ⟨validationError, answer, fields, answers, hmem, hrest⟩ := h
  exact ⟨validationError, answer, fields, answers, hsub hmem, hrest⟩

/-- What is kept of an answer to a question about limits. -/
structure Configured (host : SelectionHost) (exchanges : List (Prompt × Value)) (id : Text)
    (entry : CapabilityEntry) : Prop where
  same : entry.id = id
  context : 4096 ≤ entry.contextLength
  output : 1 ≤ entry.maxOutputTokens
  capacity : entry.maxOutputTokens ≤ entry.contextLength
  entered : Entered host exchanges entry

theorem Configured.mono {exchanges exchanges' : List (Prompt × Value)} {id : Text} {entry : CapabilityEntry}
    (h : Configured host exchanges id entry) (hsub : exchanges ⊆ exchanges') :
    Configured host exchanges' id entry :=
  {h with entered := h.entered.mono hsub}

theorem checkLimits_error {id : Text} {fields : Fields} {e : Raised}
    (h : checkLimits host id fields = .error e) : e = .valueError := by
  unfold checkLimits at h
  split at h
  · next answers _ =>
    cases hcontext : parseTokenLimit host (answers.get "context_length") with
    | error e' =>
      rw [hcontext] at h
      obtain rfl := Except.error.inj h
      exact parseTokenLimit_error hcontext
    | ok contextLength =>
      cases houtput : parseTokenLimit host (answers.get "max_output_tokens") with
      | error e' =>
        rw [hcontext, houtput] at h
        obtain rfl := Except.error.inj h
        exact parseTokenLimit_error houtput
      | ok maxOutputTokens =>
        rw [hcontext, houtput] at h
        simp only [bind, Except.bind, pure, Except.pure] at h
        split at h
        · cases h
        · cases h
        · split at h
          · cases h
          · cases h
  · cases h

theorem checkLimits_ok {id : Text} {fields : Fields} {entry : CapabilityEntry}
    {exchanges : List (Prompt × Value)} {validationError : String} {answer : Value}
    (h : checkLimits host id fields = .ok (.ok entry)) (hanswered : answered? answer = some fields)
    (hmem : (Prompt.limits id validationError, answer) ∈ exchanges) : Configured host exchanges id entry := by
  unfold checkLimits at h
  split at h
  · next answers hanswers =>
    cases hcontext : parseTokenLimit host (answers.get "context_length") with
    | error e' =>
      rw [hcontext] at h
      cases h
    | ok contextLength =>
      cases houtput : parseTokenLimit host (answers.get "max_output_tokens") with
      | error e' =>
        rw [hcontext, houtput] at h
        cases h
      | ok maxOutputTokens =>
        rw [hcontext, houtput] at h
        simp only [bind, Except.bind, pure, Except.pure] at h
        split at h
        · cases h
        · cases h
        · next context output hsome hsome' =>
          obtain ⟨rfl, hlow⟩ := Option.filter_eq_some_iff.mp hsome
          obtain ⟨rfl, hlow'⟩ := Option.filter_eq_some_iff.mp hsome'
          split at h
          · cases h
          · next hcapacity =>
            obtain rfl := Except.ok.inj (Except.ok.inj h)
            refine ⟨rfl, ?_, ?_, ?_, validationError, answer, fields, answers, hmem, hanswered, hanswers,
              context, output, hcontext, houtput, rfl, rfl⟩
            · exact Int.ofNat_le.mpr (of_decide_eq_true hlow)
            · exact Int.ofNat_le.mpr (of_decide_eq_true hlow')
            · exact Int.ofNat_le.mpr (Nat.not_lt.mp hcapacity)
  · cases h

/-- The attempts end with a message, or with limits that were entered for the model. -/
theorem attemptLimits_runs {id : Text} {attempts : Nat} {validationError : String}
    {exchanges : List (Prompt × Value)} {result : Except Raised (Except Text CapabilityEntry)}
    (h : (attemptLimits host id attempts validationError).Runs exchanges result) :
    result = .error .valueError ∨
      ∃ outcome, result = .ok outcome ∧ ∀ entry, outcome = .ok entry → Configured host exchanges id entry := by
  induction attempts generalizing validationError exchanges with
  | zero =>
    obtain ⟨-, rfl⟩ := Dialog.runs_pure.mp h
    exact .inr ⟨_, rfl, nofun⟩
  | succ attempts ih =>
    simp only [attemptLimits, Dialog.question_bind] at h
    obtain ⟨answer, rest, rfl, hrest⟩ := Dialog.runs_ask.mp h
    split at hrest
    · obtain ⟨-, rfl⟩ := Dialog.runs_pure.mp hrest
      exact .inr ⟨_, rfl, nofun⟩
    · next fields hanswered =>
      cases hcheck : checkLimits host id fields with
      | error e =>
        rw [hcheck, Dialog.error_bind] at hrest
        obtain ⟨-, rfl⟩ := Dialog.runs_done.mp hrest
        exact .inl (by rw [checkLimits_error hcheck])
      | ok outcome =>
        rw [hcheck, Dialog.ok_bind] at hrest
        cases outcome with
        | ok entry =>
          obtain ⟨-, rfl⟩ := Dialog.runs_pure.mp hrest
          refine .inr ⟨_, rfl, ?_⟩
          rintro _ ⟨⟩
          exact checkLimits_ok hcheck hanswered (List.mem_cons_self ..)
        | error validationError' =>
          rcases ih hrest with hraised | ⟨outcome, hdone, hall⟩
          · exact .inl hraised
          · exact .inr ⟨outcome, hdone, fun entry hentry =>
              (hall entry hentry).mono (List.subset_cons_self ..)⟩

/-- The loop adds limits that were entered for every model it is given, and no others. -/
theorem configureAll_runs {ids : List Text} {catalog : List (Text × CapabilityEntry)}
    {exchanges : List (Prompt × Value)} {result : Except Raised (Except Text (List (Text × CapabilityEntry)))}
    (h : (configureAll host ids catalog).Runs exchanges result) :
    result = .error .valueError ∨ ∃ outcome, result = .ok outcome ∧ ∀ limits, outcome = .ok limits →
      ∀ id, (id ∈ ids → ∃ entry, limits.lookup id = some entry ∧ Configured host exchanges id entry) ∧
        (id ∉ ids → limits.lookup id = catalog.lookup id) := by
  induction ids generalizing catalog exchanges with
  | nil =>
    obtain ⟨-, rfl⟩ := Dialog.runs_pure.mp h
    refine .inr ⟨_, rfl, ?_⟩
    rintro _ ⟨⟩ id
    exact ⟨nofun, fun _ => rfl⟩
  | cons id rest ih =>
    simp only [configureAll] at h
    rcases Dialog.runs_bind h with ⟨e, hraised, rfl⟩ | ⟨before, after, outcome, rfl, hmodel, hafter⟩
    · rcases attemptLimits_runs hraised with hvalue | ⟨_, hok, -⟩
      · exact .inl (by rw [Except.error.inj hvalue])
      · cases hok
    · obtain ⟨_, hsame, hmodel⟩ := (attemptLimits_runs hmodel).resolve_left nofun
      obtain rfl := Except.ok.inj hsame
      cases outcome with
      | error message =>
        obtain ⟨-, rfl⟩ := Dialog.runs_pure.mp hafter
        exact .inr ⟨_, rfl, nofun⟩
      | ok entry =>
        have hentry := hmodel entry rfl
        rcases ih hafter with hraised | ⟨outcome, hdone, hall⟩
        · exact .inl hraised
        · refine .inr ⟨outcome, hdone, fun limits hlimits id' => ?_⟩
          obtain ⟨hin, hout⟩ := hall limits hlimits id'
          constructor
          · intro hmem
            by_cases hrest : id' ∈ rest
            · obtain ⟨entry', hfound, hconfigured⟩ := hin hrest
              exact ⟨entry', hfound, hconfigured.mono (List.subset_append_right ..)⟩
            · obtain rfl : id' = id := (List.mem_cons.mp hmem).resolve_right hrest
              refine ⟨entry, ?_, hentry.mono (List.subset_append_left ..)⟩
              rw [hout hrest, lookup_assigned, if_pos rfl]
          · intro hnot
            obtain ⟨hne, hrest⟩ := not_or.mp (mt List.mem_cons.mpr hnot)
            rw [hout hrest, lookup_assigned, if_neg hne]

/-! ### The selection -/

theorem roleLabel_error {answers : Value} {role : String} {e : Raised}
    (h : roleLabel host answers role = .error e) : e = .attributeError := by
  unfold roleLabel at h
  cases hanswers : answers.fields? with
  | none =>
    rw [hanswers] at h
    exact (Except.error.inj h).symm
  | some fields =>
    rw [hanswers] at h
    simp only [Option.elim, bind, Except.bind] at h
    split at h
    · next hraised =>
      split at hraised
      · cases hraised
      · rw [← Except.error.inj h, ← Except.error.inj hraised]
    · cases h

theorem selectedLabels_error {answers : Value} {e : Raised} (h : selectedLabels host answers = .error e) :
    e = .attributeError := by
  unfold selectedLabels at h
  cases hfast : roleLabel host answers "fast" with
  | error e' =>
    rw [hfast] at h
    rw [← Except.error.inj h]
    exact roleLabel_error hfast
  | ok fast =>
    cases hsmart : roleLabel host answers "smart" with
    | error e' =>
      rw [hfast, hsmart] at h
      rw [← Except.error.inj h]
      exact roleLabel_error hsmart
    | ok smart =>
      cases hstrategic : roleLabel host answers "strategic" with
      | error e' =>
        rw [hfast, hsmart, hstrategic] at h
        rw [← Except.error.inj h]
        exact roleLabel_error hstrategic
      | ok strategic =>
        rw [hfast, hsmart, hstrategic] at h
        cases h

/-- Look-ups of ids that are all there give their entries in order. -/
theorem mapM_lookUp {limits : List (Text × CapabilityEntry)} {ids : List Text}
    {P : Text → CapabilityEntry → Prop} (h : ∀ id ∈ ids, ∃ entry, limits.lookup id = some entry ∧ P id entry) :
    ∃ entries, ids.mapM (lookUp limits) = .ok entries ∧ List.Forall₂ P ids entries := by
  induction ids with
  | nil => exact ⟨[], rfl, .nil⟩
  | cons id rest ih =>
    rw [List.forall_mem_cons] at h
    obtain ⟨entry, hentry, hP⟩ := h.1
    obtain ⟨entries, hrest, hall⟩ := ih h.2
    refine ⟨entry :: entries, ?_, .cons hP hall⟩
    rw [List.mapM_cons, lookUp, hentry, hrest]
    rfl

/-- An entry for a model of the catalog: its published limits, or what the user entered. -/
structure Limited (host : SelectionHost) (available : List Fields) (exchanges : List (Prompt × Value))
    (id : Text) (entry : CapabilityEntry) : Prop where
  same : entry.id = id
  context : 4096 ≤ entry.contextLength
  output : 1 ≤ entry.maxOutputTokens
  limits : ∀ model ∈ available, modelId? host model = some id →
    match published? id model with
    | some published => entry = published
    | none => Entered host exchanges entry ∧ entry.maxOutputTokens ≤ entry.contextLength

section
variable {available : List Fields} {catalog : Catalog} {exchanges : List (Prompt × Value)} {id : Text}
  {entry : CapabilityEntry}

theorem Reads.limited_of_published (h : Reads host available catalog)
    (hdistinct : (available.map (modelId? host)).Nodup) (hfound : catalog.published.lookup id = some entry) :
    Limited host available exchanges id entry := by
  obtain ⟨model, hmodel, hid, hpublished⟩ := h.published id entry hfound
  obtain ⟨hsame, hcontext, houtput⟩ := published?_eq_some hpublished
  refine ⟨hsame, hcontext, houtput, fun model' hmodel' hid' => ?_⟩
  obtain rfl := List.inj_on_of_nodup_map hdistinct hmodel hmodel' (hid.trans hid'.symm)
  rw [hpublished]

theorem Reads.limited_of_configured (h : Reads host available catalog)
    (hdistinct : (available.map (modelId? host)).Nodup) (hincomplete : id ∈ catalog.incomplete)
    (hconfigured : Configured host exchanges id entry) : Limited host available exchanges id entry := by
  obtain ⟨model, hmodel, hid, hnone⟩ := h.incomplete id hincomplete
  refine ⟨hconfigured.same, hconfigured.context, hconfigured.output, fun model' hmodel' hid' => ?_⟩
  obtain rfl := List.inj_on_of_nodup_map hdistinct hmodel hmodel' (hid.trans hid'.symm)
  rw [hnone]
  exact ⟨hconfigured.entered, hconfigured.capacity⟩

end

theorem SelectedModels.mem_distinct {selected : SelectedModels} {id : Text} :
    id ∈ selected.distinct ↔ id ∈ selected.values := by
  simp [distinct]

theorem SelectedModels.length_distinct (selected : SelectedModels) :
    1 ≤ selected.distinct.length ∧ selected.distinct.length ≤ 3 := by
  constructor
  · exact List.length_pos_of_mem (mem_distinct.mpr (List.mem_cons_self (a := selected.fast)))
  · unfold distinct
    rw [List.length_reverse]
    exact Nat.le_trans (List.dedup_sublist _).length_le (by simp [values])

/-- The models and limits that a selection among the catalog freezes. -/
structure Frozen (host : SelectionHost) (available : List Fields) (exchanges : List (Prompt × Value))
    (selected : SelectedModels) (capabilities : List CapabilityEntry) : Prop where
  accessible : ∀ id ∈ selected.values, ∃ model ∈ available, modelId? host model = some id
  each : capabilities.map CapabilityEntry.id = selected.distinct
  checked : RequestChecks.capabilityError selected capabilities = none
  within : RequestChecks.capabilitiesWithin capabilities = true
  ids : (∀ model ∈ available, ∀ id, modelId? host model = some id → lengthWithin 1 512 id = true) →
    RequestChecks.idsWithin selected capabilities = true
  limits : ∀ entry ∈ capabilities, ∀ model ∈ available, modelId? host model = some entry.id →
    match published? entry.id model with
    | some published => entry = published
    | none => Entered host exchanges entry ∧ entry.maxOutputTokens ≤ entry.contextLength

theorem Frozen.mono {available : List Fields} {exchanges exchanges' : List (Prompt × Value)}
    {selected : SelectedModels} {capabilities : List CapabilityEntry}
    (h : Frozen host available exchanges selected capabilities) (hsub : exchanges ⊆ exchanges') :
    Frozen host available exchanges' selected capabilities := by
  refine {h with limits := fun entry hentry model hmodel hid => ?_}
  have hlimits := h.limits entry hentry model hmodel hid
  revert hlimits
  cases published? entry.id model with
  | none => exact fun hentered => ⟨hentered.1.mono hsub, hentered.2⟩
  | some published => exact id

theorem frozen_of_limited {available : List Fields} {exchanges : List (Prompt × Value)}
    {selected : SelectedModels} {capabilities : List CapabilityEntry}
    (haccessible : ∀ id ∈ selected.values, ∃ model ∈ available, modelId? host model = some id)
    (h : List.Forall₂ (Limited host available exchanges) selected.distinct capabilities) :
    Frozen host available exchanges selected capabilities := by
  have hentries : ∀ entry ∈ capabilities, Limited host available exchanges entry.id entry := by
    generalize selected.distinct = ids at h
    induction h with
    | nil => exact List.forall_mem_nil _
    | cons hentry _ ih =>
      rw [List.forall_mem_cons]
      refine ⟨?_, ih⟩
      rw [hentry.same]
      exact hentry
  have heach : capabilities.map CapabilityEntry.id = selected.distinct := by
    clear hentries
    generalize selected.distinct = ids at h
    induction h with
    | nil => rfl
    | cons hentry _ ih => rw [List.map_cons, hentry.same, ih]
  have hmem (id : Text) : id ∈ capabilities.map CapabilityEntry.id ↔ id ∈ selected.values := by
    rw [heach]
    exact SelectedModels.mem_distinct
  refine ⟨haccessible, heach, ?_, ?_, fun hids => ?_, fun entry hentry => (hentries entry hentry).limits⟩
  · have hnodup : (capabilities.map CapabilityEntry.id).Nodup := by
      rw [heach, SelectedModels.distinct, List.nodup_reverse]
      exact List.nodup_dedup _
    unfold RequestChecks.capabilityError
    rw [if_neg (not_not.mpr hnodup), if_neg (not_not.mpr
      ⟨fun id hid => (hmem id).mpr hid, fun id hid => (hmem id).mp hid⟩)]
  · have hlength := selected.length_distinct
    rw [h.length_eq] at hlength
    simp only [RequestChecks.capabilitiesWithin, Bool.and_eq_true, decide_eq_true_eq, List.all_eq_true]
    exact ⟨hlength, fun entry hentry => ⟨(hentries entry hentry).context, (hentries entry hentry).output⟩⟩
  · have hvalues (id : Text) (hid : id ∈ selected.values) : lengthWithin 1 512 id = true := by
      obtain ⟨model, hmodel, hsome⟩ := haccessible id hid
      exact hids model hmodel id hsome
    simp only [RequestChecks.idsWithin, Bool.and_eq_true, List.all_eq_true]
    exact ⟨hvalues, fun entry hentry => hvalues _ ((hmem _).mp (List.mem_map_of_mem hentry))⟩

theorem freezeLimits_runs {available : List Fields} {catalog : Catalog} {selected : SelectedModels}
    {interactive : Bool} {exchanges : List (Prompt × Value)} {result : Except Raised Selection}
    (hreads : Reads host available catalog) (hdistinct : (available.map (modelId? host)).Nodup)
    (hselected : ∀ id ∈ selected.values, id ∈ catalog.available)
    (h : (freezeLimits host catalog selected interactive).Runs exchanges result) :
    result ≠ .error .keyError ∧ ∀ models capabilities, result = .ok (.selected models capabilities) →
      Frozen host available exchanges models capabilities := by
  simp only [freezeLimits] at h
  split at h
  · obtain ⟨-, rfl⟩ := Dialog.runs_pure.mp h
    exact ⟨nofun, nofun⟩
  · rcases Dialog.runs_bind h with ⟨e, hraised, rfl⟩ | ⟨before, after, outcome, rfl, hconfigure, hafter⟩
    · rcases configureAll_runs hraised with hvalue | ⟨_, hok, -⟩
      · rw [Except.error.inj hvalue]
        exact ⟨nofun, nofun⟩
      · cases hok
    · obtain ⟨_, hsame, hconfigured⟩ := (configureAll_runs hconfigure).resolve_left nofun
      obtain rfl := Except.ok.inj hsame
      cases outcome with
      | error message =>
        obtain ⟨-, rfl⟩ := Dialog.runs_pure.mp hafter
        exact ⟨nofun, nofun⟩
      | ok limits =>
        have hfound (id : Text) (hid : id ∈ selected.distinct) : ∃ entry, limits.lookup id = some entry ∧
            Limited host available before id entry := by
          have hvalue := SelectedModels.mem_distinct.mp hid
          obtain ⟨hin, hout⟩ := hconfigured limits rfl id
          by_cases hincomplete : id ∈ catalog.incomplete
          · have hasked : id ∈ Text.sorted (selected.values.filter (· ∈ catalog.incomplete)) :=
              Text.mem_sorted.mpr (List.mem_filter.mpr ⟨hvalue, decide_eq_true hincomplete⟩)
            obtain ⟨entry, hentry, hentered⟩ := hin hasked
            exact ⟨entry, hentry, hreads.limited_of_configured hdistinct hincomplete hentered⟩
          · obtain ⟨entry, hentry⟩ := (hreads.covered id (hselected id hvalue)).resolve_left hincomplete
            have hunasked := hout fun hasked => hincomplete
              (of_decide_eq_true (List.mem_filter.mp (Text.mem_sorted.mp hasked)).2)
            exact ⟨entry, hunasked.trans hentry, hreads.limited_of_published hdistinct hentry⟩
        obtain ⟨entries, hentries, hall⟩ := mapM_lookUp hfound
        simp only [hentries, Dialog.ok_bind] at hafter
        obtain ⟨rfl, rfl⟩ := Dialog.runs_pure.mp hafter
        refine ⟨nofun, ?_⟩
        rintro _ _ ⟨⟩
        rw [List.append_nil]
        exact frozen_of_limited (fun id hid => hreads.accessible id (hselected id hid)) hall

/-- Every run of the selection: it does not fail in a look-up, and what it freezes are
models of the catalog with their limits. -/
theorem selection_frozen (host : SelectionHost) (configured : List (Text × Text)) (interactive : Bool)
    (available : List Fields) (hids : ∀ model ∈ available, (modelId? host model).isSome = true)
    (hdistinct : (available.map (modelId? host)).Nodup) (exchanges : List (Prompt × Value))
    (result : Except Raised Selection)
    (h : (selectModels host configured interactive available).Runs exchanges result) :
    result ≠ .error .keyError ∧ ∀ selected capabilities, result = .ok (.selected selected capabilities) →
      Frozen host available exchanges selected capabilities := by
  obtain ⟨catalog, hread⟩ := readAll_ok {} hids
  have hreads : Reads host available catalog := Reads.empty.readAll hread
  have hchosen (selected : SelectedModels) (hall : ¬ selected.values.any (· ∉ catalog.available) = true) :
      ∀ id ∈ selected.values, id ∈ catalog.available := by
    simpa using hall
  simp only [selectModels, hread, Dialog.ok_bind] at h
  split at h
  · obtain ⟨-, rfl⟩ := Dialog.runs_pure.mp h
    exact ⟨nofun, nofun⟩
  · split at h
    · split at h
      · obtain ⟨-, rfl⟩ := Dialog.runs_pure.mp h
        exact ⟨nofun, nofun⟩
      · next hall => exact freezeLimits_runs hreads hdistinct (hchosen _ hall) h
    · rw [Dialog.question_bind] at h
      obtain ⟨answer, rest, rfl, hrest⟩ := Dialog.runs_ask.mp h
      split at hrest
      · obtain ⟨-, rfl⟩ := Dialog.runs_pure.mp hrest
        exact ⟨nofun, nofun⟩
      · next fields _ =>
        cases hlabels : selectedLabels host ((fields.get "answers").orElse (.dict [])) with
        | error e =>
          rw [hlabels, Dialog.error_bind] at hrest
          obtain ⟨-, rfl⟩ := Dialog.runs_done.mp hrest
          rw [selectedLabels_error hlabels]
          exact ⟨nofun, nofun⟩
        | ok selected =>
          rw [hlabels, Dialog.ok_bind] at hrest
          split at hrest
          · obtain ⟨-, rfl⟩ := Dialog.runs_pure.mp hrest
            exact ⟨nofun, nofun⟩
          · next hall =>
            obtain ⟨hsafe, hfrozen⟩ := freezeLimits_runs hreads hdistinct (hchosen _ hall) hrest
            exact ⟨hsafe, fun models capabilities hresult =>
              (hfrozen models capabilities hresult).mono (List.subset_cons_self ..)⟩

namespace Sample

/-- Digits are the ASCII ones. -/
def selectionHost : SelectionHost where
  repr _ := []
  digit? c := if 48 ≤ c.val ∧ c.val ≤ 57 then some (c.val - 48) else none

/-- A model with published limits and one without. -/
def models : List Fields :=
  [.object [("id", .text "mini"), ("context_length", .int 128000), ("max_output_tokens", .int 32000)],
    .object [("id", .text "new")]].filterMap Value.fields?

def limitsAnswer : Value :=
  .object [("context_length", .object [("type", .text "other"), ("text", .text "45,000")]),
    ("max_output_tokens", .object [("label", .text "8192")])]

def answers : List Value :=
  [.object [("fast", .object [("label", .text "mini")]), ("smart", .object [("label", .text "new")]),
    ("strategic", .object [("label", .text "new")])], limitsAnswer].map fun answer =>
      .object [("status", .text "answered"), ("answers", answer)]

def selected : SelectedModels := ⟨.ofString "mini", .ofString "new", .ofString "new"⟩

end Sample

theorem selection_frozen_entered : ∃ exchanges, Frozen Sample.selectionHost Sample.models exchanges Sample.selected
    [⟨.ofString "mini", 128000, 32000⟩, ⟨.ofString "new", 45000, 8192⟩] := by
  obtain ⟨exchanges, hrun⟩ : ∃ exchanges, (selectModels Sample.selectionHost [] true Sample.models).run
      Sample.answers = some (exchanges, .ok (.selected Sample.selected
        [⟨.ofString "mini", 128000, 32000⟩, ⟨.ofString "new", 45000, 8192⟩])) := ⟨_, rfl⟩
  exact ⟨exchanges, (selection_frozen Sample.selectionHost [] true Sample.models (by decide) (by decide) exchanges _
    (Dialog.runs_of_run hrun)).2 _ _ rfl⟩

end ResearchGateway
