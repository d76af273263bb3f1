import ResearchGateway.Settings

/-! The admission check of the Pipe beside the gateway's.

The Pipe picks a research shape and limits from the values of the user and its valves
and refuses what it expects the gateway to refuse. The sync copies the default strategy,
the default query limit and the query cap from the settings into the valves. -/
namespace ResearchGateway

/-- The valves that the admission check reads. -/
structure AdmissionValves where
  defaultResearchStrategy : ResearchStrategy := .balanced
  defaultMaxQueries : Nat := 100
  maxQueriesCap : Nat := 100
  defaultWallTimeSeconds : Nat := 3600

/-- What `FunctionSync.run` sets of them. -/
def Settings.admissionValves (settings : Settings) : AdmissionValves where
  defaultResearchStrategy := settings.defaultResearchStrategy
  defaultMaxQueries := settings.defaultBudget.maxQueries
  maxQueriesCap := settings.hardMaxQueries

inductive UserField where
  | researchStrategy
  | breadth
  | depth
  | queriesPerBranch
  | maxQueries
  | maxWallTimeSeconds
  deriving DecidableEq

/-- Values of `UserValves`, absent or `None` where there is none. -/
structure UserEntries where
  researchStrategy : Option ResearchStrategy := none
  breadth : Option Int := none
  depth : Option Int := none
  queriesPerBranch : Option Int := none
  maxQueries : Option Int := none
  maxWallTimeSeconds : Option Int := none
  deriving DecidableEq

/-- What the fields of `UserValves` allow. -/
structure UserEntries.Allowed (entries : UserEntries) : Prop where
  breadth : ∀ n ∈ entries.breadth, 1 ≤ n ∧ n ≤ 8
  depth : ∀ n ∈ entries.depth, 1 ≤ n ∧ n ≤ 4
  queriesPerBranch : ∀ n ∈ entries.queriesPerBranch, 1 ≤ n ∧ n ≤ 5
  maxQueries : ∀ n ∈ entries.maxQueries, 1 ≤ n
  maxWallTimeSeconds : ∀ n ∈ entries.maxWallTimeSeconds, 60 ≤ n

/-- The values of the user, as a dictionary or as an object that knows which were set. -/
inductive UserValues where
  | dict (entries : UserEntries)
  | object (entries : UserEntries) (fieldsSet : List UserField)

def UserValues.entries : UserValues → UserEntries
  | .dict entries | .object entries _ => entries

/-- A research shape as the Pipe sends it. -/
structure ShapeFields where
  strategy : ResearchStrategy
  breadth : Int
  depth : Int
  queriesPerBranch : Int

structure BudgetFields where
  maxQueries : Int
  maxWallTimeSeconds : Int

namespace Pipe

/-- `RESEARCH_PRESETS` of the Pipe. -/
def presets : ResearchStrategy → Option (Int × Int × Int)
  | .focused => some (1, 1, 2)
  | .balanced => some (2, 2, 2)
  | .broad => some (4, 2, 2)
  | .deep => some (2, 3, 3)
  | .custom => none

/-- `user_valves or self.UserValves()`. -/
def userValues : Option UserValues → UserValues
  | some (.object entries fieldsSet) => .object entries fieldsSet
  | some (.dict entries) => if entries = {} then unset else .dict entries
  | none => unset
where
  unset : UserValues := .object
    {researchStrategy := some .balanced, breadth := some 2, depth := some 2, queriesPerBranch := some 2} []

/-- `pick` in `_research_shape`: an object's field counts only where it was set. -/
def pickSet {α : Type} (values : UserValues) (field : UserField) (value : UserEntries → Option α)
    (default : α) : α :=
  match values with
  | .dict entries => (value entries).getD default
  | .object entries fieldsSet => if field ∈ fieldsSet then (value entries).getD default else default

/-- `pick` in `_budget`. -/
def pick (values : UserValues) (value : UserEntries → Option Int) (default : Int) : Int :=
  (value values.entries).getD default

/-- The shape that is asked for. -/
def selectedShape (valves : AdmissionValves) (user : Option UserValues) : ShapeFields :=
  let values := userValues user
  let strategy := pickSet values .researchStrategy (·.researchStrategy) valves.defaultResearchStrategy
  match presets strategy with
  | some (breadth, depth, queriesPerBranch) => ⟨strategy, breadth, depth, queriesPerBranch⟩
  | none =>
    { strategy
      breadth := pickSet values .breadth (·.breadth) 2
      depth := pickSet values .depth (·.depth) 2
      queriesPerBranch := pickSet values .queriesPerBranch (·.queriesPerBranch) 2 }

/-- `Pipe._research_shape`. -/
def researchShape (valves : AdmissionValves) (user : Option UserValues) : Except String ShapeFields :=
  let shape := selectedShape valves user
  if shape.strategy ≠ .custom then .ok shape
  else if ¬ (1 ≤ shape.breadth ∧ shape.breadth ≤ 8) then .error "breadth must be between 1 and 8"
  else if ¬ (1 ≤ shape.depth ∧ shape.depth ≤ 4) then .error "depth must be between 1 and 4"
  else if ¬ (1 ≤ shape.queriesPerBranch ∧ shape.queriesPerBranch ≤ 5) then
    .error "queries_per_branch must be between 1 and 5"
  else .ok shape

/-- A turn of the loop over the levels of the tree. -/
def countLevel : Int × Int × Int → Nat → Int × Int × Int
  | (currentBreadth, workersAtLevel, totalWorkers), level =>
    if level ≠ 0 then
      let breadth := max 2 (currentBreadth / 2)
      (breadth, workersAtLevel * breadth, totalWorkers + workersAtLevel * breadth)
    else (currentBreadth, workersAtLevel, totalWorkers + workersAtLevel)

/-- `Pipe._estimated_max_queries`. -/
def estimatedMaxQueries (research : ShapeFields) : Int :=
  let (_, _, totalWorkers) := (List.range research.depth.toNat).foldl countLevel
    (research.breadth, research.breadth, 0)
  1 + totalWorkers * (research.queriesPerBranch + 2)

/-- The limits that are asked for. -/
def selectedBudget (valves : AdmissionValves) (user : Option UserValues) : BudgetFields where
  maxQueries := pick (userValues user) (·.maxQueries) valves.defaultMaxQueries
  maxWallTimeSeconds := pick (userValues user) (·.maxWallTimeSeconds) valves.defaultWallTimeSeconds

/-- `Pipe._budget`. -/
def budget (valves : AdmissionValves) (user : Option UserValues) (research : ShapeFields) :
    Except String BudgetFields :=
  let selected := selectedBudget valves user
  if valves.maxQueriesCap < selected.maxQueries then
    .error s!"max_queries {selected.maxQueries} exceeds the administrator cap {valves.maxQueriesCap}"
  else if selected.maxQueries < estimatedMaxQueries research then
    .error (s!"{research.strategy.value} research may require up to {estimatedMaxQueries research} queries, " ++
      s!"but max_queries is {selected.maxQueries}")
  else .ok selected

end Pipe

/-! ### The gateway -/

/-- Why a request body is refused: a field out of its bounds, or what a validator raises. -/
inductive RequestError where
  | field (name : String)
  | value (message : String)

/-- `RESEARCH_PRESETS` of the gateway. -/
def ResearchStrategy.preset? : ResearchStrategy → Option (Int × Int × Int)
  | .focused => some (1, 1, 2)
  | .balanced => some (2, 2, 2)
  | .broad => some (4, 2, 2)
  | .deep => some (2, 3, 3)
  | .custom => none

def ShapeFields.research (fields : ShapeFields) : ResearchShape :=
  ⟨fields.strategy, fields.breadth.toNat, fields.depth.toNat, fields.queriesPerBranch.toNat⟩

/-- `ResearchShape(...)`. -/
def ShapeFields.validate (fields : ShapeFields) : Except RequestError ResearchShape :=
  if ¬ (1 ≤ fields.breadth ∧ fields.breadth ≤ 8) then .error (.field "breadth")
  else if ¬ (1 ≤ fields.depth ∧ fields.depth ≤ 4) then .error (.field "depth")
  else if ¬ (1 ≤ fields.queriesPerBranch ∧ fields.queriesPerBranch ≤ 5) then
    .error (.field "queries_per_branch")
  else match fields.strategy.preset? with
    | some (breadth, depth, queriesPerBranch) =>
      if (fields.breadth, fields.depth, fields.queriesPerBranch) ≠ (breadth, depth, queriesPerBranch) then
        .error (.value (s!"{fields.strategy.value} research must use breadth={breadth}, " ++
          s!"depth={depth}, and queries_per_branch={queriesPerBranch}"))
      else .ok fields.research
    | none => .ok fields.research

/-- `ResearchBudget(...)`. -/
def BudgetFields.validate (fields : BudgetFields) : Except RequestError ResearchBudget :=
  if hqueries : 1 ≤ fields.maxQueries then
    if htime : 60 ≤ fields.maxWallTimeSeconds then
      .ok ⟨fields.maxQueries.toNat, fields.maxWallTimeSeconds.toNat, by omega, by omega⟩
    else .error (.field "max_wall_time_seconds")
  else .error (.field "max_queries")

/-- What the gateway checks of a shape and limits, in the body and then in `create_job`. -/
def AdminLimits.accept (limits : AdminLimits) (shape : ShapeFields) (budget : BudgetFields) :
    Except RequestError (ResearchShape × ResearchBudget) := do
  let research ← shape.validate
  let limited ← budget.validate
  (limits.validateBudget limited).mapError .value
  (AdminLimits.validateResearchShape research limited).mapError .value
  return (research, limited)

/-! ### The estimate -/

/-- The counts of the gateway as the Pipe has them. -/
def counts : Nat × Nat × Nat → Int × Int × Int
  | (breadth, atLevel, workers) => (breadth, atLevel, workers)

/-- Both count the workers level by level. -/
theorem countLevel_counts (level : Nat) (c : Nat × Nat × Nat) :
    Pipe.countLevel (counts c) level = counts (ResearchShape.nextLevel level c) := by
  obtain ⟨breadth, atLevel, workers⟩ := c
  by_cases hlevel : level = 0
  · simp [Pipe.countLevel, ResearchShape.nextLevel, counts, hlevel]
  · simp [Pipe.countLevel, ResearchShape.nextLevel, counts, hlevel]

theorem foldl_countLevel (levels : List Nat) (c : Nat × Nat × Nat) :
    levels.foldl Pipe.countLevel (counts c) =
      counts (levels.foldl (fun acc level => ResearchShape.nextLevel level acc) c) :=
  List.foldl_hom counts fun c level => countLevel_counts level c

theorem estimatedMaxQueries_eq {fields : ShapeFields} (hbreadth : 0 ≤ fields.breadth)
    (hqueries : 0 ≤ fields.queriesPerBranch) :
    Pipe.estimatedMaxQueries fields = fields.research.estimatedMaxQueries := by
  have hfold := foldl_countLevel (List.range fields.depth.toNat)
    (fields.breadth.toNat, fields.breadth.toNat, 0)
  simp only [counts, Int.toNat_of_nonneg hbreadth, Int.natCast_zero] at hfold
  unfold Pipe.estimatedMaxQueries ResearchShape.estimatedMaxQueries ResearchShape.totalWorkers
  rw [hfold]
  simp only [ShapeFields.research]
  push_cast
  rw [Int.toNat_of_nonneg hqueries]

/-! ### What is asked for -/

section
variable {valves : AdmissionValves} {user : Option UserValues}

theorem presets_eq (strategy : ResearchStrategy) : Pipe.presets strategy = strategy.preset? := by
  cases strategy <;> rfl

/-- Without values of the user everything is the default of the fields. -/
theorem userValues_allowed (h : ∀ values ∈ user, values.entries.Allowed) :
    (Pipe.userValues user).entries.Allowed := by
  have hunset : Pipe.userValues.unset.entries.Allowed := by
    constructor <;> simp [Pipe.userValues.unset, UserValues.entries]
  cases user with
  | none => exact hunset
  | some values =>
    cases values with
    | object entries fieldsSet => exact h _ rfl
    | dict entries =>
      simp only [Pipe.userValues]
      split
      · exact hunset
      · exact h _ rfl

/-- What is picked is the default or one of the entries. -/
theorem pickSet_of {α : Type} {P : α → Prop} {values : UserValues} {field : UserField}
    {value : UserEntries → Option α} {default : α} (hdefault : P default)
    (hvalue : ∀ a ∈ value values.entries, P a) : P (Pipe.pickSet values field value default) := by
  have hget : P ((value values.entries).getD default) := by
    cases hentry : value values.entries with
    | none => exact hdefault
    | some a => exact hvalue a hentry
  cases values with
  | dict entries => exact hget
  | object entries fieldsSet =>
    simp only [Pipe.pickSet]
    split
    · exact hget
    · exact hdefault

theorem pick_of {P : Int → Prop} {values : UserValues} {value : UserEntries → Option Int} {default : Int}
    (hdefault : P default) (hvalue : ∀ a ∈ value values.entries, P a) : P (Pipe.pick values value default) := by
  unfold Pipe.pick
  cases hentry : value values.entries with
  | none => exact hdefault
  | some a => exact hvalue a hentry

/-- The shape asked for keeps the bounds of the gateway and its presets. -/
structure ShapeFields.Valid (fields : ShapeFields) : Prop where
  breadth : 1 ≤ fields.breadth ∧ fields.breadth ≤ 8
  depth : 1 ≤ fields.depth ∧ fields.depth ≤ 4
  queriesPerBranch : 1 ≤ fields.queriesPerBranch ∧ fields.queriesPerBranch ≤ 5
  preset : ∀ preset ∈ fields.strategy.preset?,
    (fields.breadth, fields.depth, fields.queriesPerBranch) = preset

theorem selectedShape_valid (h : ∀ values ∈ user, values.entries.Allowed) :
    (Pipe.selectedShape valves user).Valid := by
  have hallowed := userValues_allowed h
  simp only [Pipe.selectedShape, presets_eq]
  split
  · next breadth depth queriesPerBranch hpreset =>
    constructor
    case preset =>
      intro preset hmem
      exact Option.some.inj (hpreset.symm.trans hmem)
    all_goals
      generalize Pipe.pickSet (Pipe.userValues user) .researchStrategy (·.researchStrategy)
        valves.defaultResearchStrategy = strategy at hpreset
      cases strategy <;> cases hpreset <;> decide
  · next hpreset =>
    refine ⟨pickSet_of (by decide) hallowed.breadth, pickSet_of (by decide) hallowed.depth,
      pickSet_of (by decide) hallowed.queriesPerBranch, fun preset hmem => ?_⟩
    rw [hpreset] at hmem
    cases hmem

end

theorem ShapeFields.Valid.validate {fields : ShapeFields} (h : fields.Valid) :
    fields.validate = .ok fields.research := by
  unfold ShapeFields.validate
  rw [if_neg (not_not.mpr h.breadth), if_neg (not_not.mpr h.depth), if_neg (not_not.mpr h.queriesPerBranch)]
  split
  · next hpreset => rw [if_neg (not_not.mpr (h.preset _ hpreset))]
  · rfl

theorem BudgetFields.validate_ok {fields : BudgetFields} {limited : ResearchBudget}
    (h : fields.validate = .ok limited) :
    (limited.maxQueries : Int) = fields.maxQueries ∧
      (limited.maxWallTimeSeconds : Int) = fields.maxWallTimeSeconds := by
  unfold BudgetFields.validate at h
  split at h
  · split at h
    · cases h
      exact ⟨Int.toNat_of_nonneg (by omega), Int.toNat_of_nonneg (by omega)⟩
    · cases h
  · cases h

theorem BudgetFields.validate_ok_iff {fields : BudgetFields} :
    (∃ limited, fields.validate = .ok limited) ↔ 1 ≤ fields.maxQueries ∧ 60 ≤ fields.maxWallTimeSeconds := by
  unfold BudgetFields.validate
  by_cases hqueries : 1 ≤ fields.maxQueries
  · by_cases htime : 60 ≤ fields.maxWallTimeSeconds
    · simp [hqueries, htime]
    · simp [hqueries, htime]
  · simp [hqueries]

namespace AdminLimits
variable {limits : AdminLimits} {research : ResearchShape} {limited : ResearchBudget}

theorem validateBudget_ok_iff : limits.validateBudget limited = .ok () ↔
    limited.maxQueries ≤ limits.hardMaxQueries ∧
      (limited.maxWallTimeSeconds : Int) ≤ limits.hardMaxWallTimeSeconds := by
  unfold validateBudget
  by_cases hqueries : limits.hardMaxQueries < limited.maxQueries
  · simp [hqueries]
  · by_cases htime : limits.hardMaxWallTimeSeconds < limited.maxWallTimeSeconds
    · simp [hqueries, htime]
    · simp [hqueries, htime, Nat.not_lt.mp hqueries, Int.not_lt.mp htime]

theorem validateResearchShape_ok_iff : validateResearchShape research limited = .ok () ↔
    research.estimatedMaxQueries ≤ limited.maxQueries := by
  unfold validateResearchShape
  by_cases hmany : limited.maxQueries < research.estimatedMaxQueries
  · simp [hmany]
  · simp [hmany, Nat.not_lt.mp hmany]

/-- The gateway admits a valid shape with valid limits exactly within its own. -/
theorem accept_iff (limits : AdminLimits) {shape : ShapeFields} (hshape : shape.Valid) (budget : BudgetFields) :
    (∃ admitted, limits.accept shape budget = .ok admitted) ↔
      (1 ≤ budget.maxQueries ∧ 60 ≤ budget.maxWallTimeSeconds) ∧ budget.maxQueries ≤ limits.hardMaxQueries ∧
        budget.maxWallTimeSeconds ≤ limits.hardMaxWallTimeSeconds ∧
        Pipe.estimatedMaxQueries shape ≤ budget.maxQueries := by
  have hestimate := estimatedMaxQueries_eq (Int.le_trans (by decide) hshape.breadth.1)
    (Int.le_trans (by decide) hshape.queriesPerBranch.1)
  have haccept : (∃ admitted, limits.accept shape budget = .ok admitted) ↔ ∃ limited,
      budget.validate = .ok limited ∧ limits.validateBudget limited = .ok () ∧
        validateResearchShape shape.research limited = .ok () := by
    simp only [accept, hshape.validate, bind, Except.bind]
    cases budget.validate with
    | error error => simp
    | ok limited =>
      cases hbudget : limits.validateBudget limited with
      | error message => simp [hbudget, Except.mapError]
      | ok _ =>
        cases hresearch : validateResearchShape shape.research limited with
        | error message => simp [hbudget, hresearch, Except.mapError]
        | ok _ => simp [hbudget, hresearch, Except.mapError, pure, Except.pure]
  rw [haccept, ← BudgetFields.validate_ok_iff]
  constructor
  · rintro ⟨limited, hlimited, hbudget, hresearch⟩
    obtain ⟨hqueries, htime⟩ := BudgetFields.validate_ok hlimited
    obtain ⟨hcap, hlong⟩ := validateBudget_ok_iff.mp hbudget
    have hmany := validateResearchShape_ok_iff.mp hresearch
    refine ⟨⟨limited, hlimited⟩, ?_⟩
    omega
  · rintro ⟨⟨limited, hlimited⟩, hcap, hlong, hmany⟩
    obtain ⟨hqueries, htime⟩ := BudgetFields.validate_ok hlimited
    exact ⟨limited, hlimited, validateBudget_ok_iff.mpr (by omega),
      validateResearchShape_ok_iff.mpr (by omega)⟩

end AdminLimits

/-- The Pipe's answers are the gateway's: what it lets through is admitted, and what it
refuses would not be, whatever the time limit. -/
structure AdmissionAgrees (settings : Settings) (user : Option UserValues) : Prop where
  accepted : ∀ shape budget, Pipe.researchShape settings.admissionValves user = .ok shape →
    Pipe.budget settings.admissionValves user shape = .ok budget →
      ∃ admitted, settings.accept shape budget = .ok admitted
  shape_refused : ∀ message, Pipe.researchShape settings.admissionValves user = .error message →
    ∃ error, (Pipe.selectedShape settings.admissionValves user).validate = .error error
  limit_refused : ∀ shape message, Pipe.researchShape settings.admissionValves user = .ok shape →
    Pipe.budget settings.admissionValves user shape = .error message →
      ∀ seconds, ∃ error, settings.accept shape
        ⟨(Pipe.selectedBudget settings.admissionValves user).maxQueries, seconds⟩ = .error error

theorem refused_iff {ε α : Type} {result : Except ε α} :
    (∃ error, result = .error error) ↔ ¬ ∃ value, result = .ok value := by
  cases result <;> simp

section
variable {settings : Settings} {user : Option UserValues}

theorem researchShape_of_valid {valves : AdmissionValves} (h : (Pipe.selectedShape valves user).Valid) :
    Pipe.researchShape valves user = .ok (Pipe.selectedShape valves user) := by
  simp only [Pipe.researchShape]
  rw [if_neg (not_not.mpr h.breadth), if_neg (not_not.mpr h.depth), if_neg (not_not.mpr h.queriesPerBranch)]
  exact ite_self _

theorem selectedBudget_valid (h : ∀ values ∈ user, values.entries.Allowed) :
    1 ≤ (Pipe.selectedBudget settings.admissionValves user).maxQueries ∧
      60 ≤ (Pipe.selectedBudget settings.admissionValves user).maxWallTimeSeconds := by
  have hallowed := userValues_allowed h
  have hdefault : (1 : Int) ≤ settings.defaultBudget.maxQueries :=
    Int.ofNat_le.mpr settings.defaultBudget.queries_ge
  have htime : (60 : Int) ≤ (3600 : Nat) := by decide
  exact ⟨pick_of (P := fun n => 1 ≤ n) hdefault hallowed.maxQueries,
    pick_of (P := fun n => 60 ≤ n) htime hallowed.maxWallTimeSeconds⟩

/-- The limits go through as they are asked for, or the query limit is refused. -/
theorem budget_iff {valves : AdmissionValves} {shape : ShapeFields} :
    (∃ budget, Pipe.budget valves user shape = .ok budget) ↔
      (Pipe.selectedBudget valves user).maxQueries ≤ valves.maxQueriesCap ∧
        Pipe.estimatedMaxQueries shape ≤ (Pipe.selectedBudget valves user).maxQueries := by
  simp only [Pipe.budget]
  by_cases hcap : (valves.maxQueriesCap : Int) < (Pipe.selectedBudget valves user).maxQueries
  · simp [hcap]
  · by_cases hmany : (Pipe.selectedBudget valves user).maxQueries < Pipe.estimatedMaxQueries shape
    · simp [hcap, hmany]
    · simp [hcap, hmany, Int.not_lt.mp hcap, Int.not_lt.mp hmany]

theorem budget_ok {valves : AdmissionValves} {shape : ShapeFields} {budget : BudgetFields}
    (h : Pipe.budget valves user shape = .ok budget) : budget = Pipe.selectedBudget valves user := by
  simp only [Pipe.budget] at h
  split at h
  · cases h
  · split at h
    · cases h
    · exact (Except.ok.inj h).symm

end

/-- The two checks agree exactly where the time limit that is asked for is within the
gateway's, or the Pipe refuses the query limit anyway. -/
theorem admission_agrees_iff (settings : Settings) (user : Option UserValues)
    (hallowed : ∀ values ∈ user, values.entries.Allowed) :
    let shape := Pipe.selectedShape settings.admissionValves user
    let asked := Pipe.selectedBudget settings.admissionValves user
    AdmissionAgrees settings user ↔ asked.maxWallTimeSeconds ≤ settings.hardMaxWallTimeSeconds ∨
        settings.hardMaxQueries < asked.maxQueries ∨ asked.maxQueries < Pipe.estimatedMaxQueries shape := by
  intro shape asked
  have hvalid : shape.Valid := selectedShape_valid hallowed
  have hshape : Pipe.researchShape settings.admissionValves user = .ok shape := researchShape_of_valid hvalid
  have hbounds : 1 ≤ asked.maxQueries ∧ 60 ≤ asked.maxWallTimeSeconds := selectedBudget_valid hallowed
  have hasked : (∃ budget, Pipe.budget settings.admissionValves user shape = .ok budget) ↔
      asked.maxQueries ≤ settings.hardMaxQueries ∧ Pipe.estimatedMaxQueries shape ≤ asked.maxQueries :=
    budget_iff
  constructor
  · intro h
    by_cases hpasses : ∃ budget, Pipe.budget settings.admissionValves user shape = .ok budget
    · obtain ⟨budget, hbudget⟩ := hpasses
      have hadmitted := h.accepted shape budget hshape hbudget
      rw [budget_ok hbudget, AdminLimits.accept_iff _ hvalid] at hadmitted
      exact .inl hadmitted.2.2.1
    · rw [hasked] at hpasses
      omega
  · intro h
    refine ⟨?_, fun message hrefused => ?_, ?_⟩
    · intro shape' budget hshape' hbudget
      obtain rfl := Except.ok.inj (hshape.symm.trans hshape')
      have hpasses := hasked.mp ⟨budget, hbudget⟩
      rw [budget_ok hbudget, AdminLimits.accept_iff _ hvalid]
      refine ⟨hbounds, hpasses.1, ?_, hpasses.2⟩
      exact h.resolve_right (by omega)
    · rw [hshape] at hrefused
      cases hrefused
    · intro shape' message hshape' hbudget seconds
      obtain rfl := Except.ok.inj (hshape.symm.trans hshape')
      have hrefused := refused_iff.mp ⟨message, hbudget⟩
      rw [hasked] at hrefused
      rw [refused_iff, AdminLimits.accept_iff _ hvalid]
      exact fun hadmitted => hrefused ⟨hadmitted.2.1, hadmitted.2.2.2⟩

namespace Sample

/-- A user who allows a job three hours. -/
def patientUser : UserValues := .object {maxWallTimeSeconds := some 10800} [.maxWallTimeSeconds]

theorem patientUser_allowed : ∀ values ∈ some patientUser, values.entries.Allowed := by
  rintro values ⟨⟩
  constructor <;> simp [patientUser, UserValues.entries]

end Sample

theorem admission_agrees_raised : AdmissionAgrees {hardMaxWallTimeSeconds := 10800} (some Sample.patientUser) :=
  (admission_agrees_iff _ _ Sample.patientUser_allowed).mpr (.inl (by decide))

/-- The Pipe lets three hours through, and the gateway's limit is two. -/
theorem admission_disagrees :
    ¬ ∀ (settings : Settings) (user : Option UserValues), (∀ values ∈ user, values.entries.Allowed) →
      AdmissionAgrees settings user := by
  intro hall
  obtain ⟨admitted, hadmitted⟩ := (hall {} (some Sample.patientUser) Sample.patientUser_allowed).accepted
    ⟨.balanced, 2, 2, 2⟩ ⟨100, 10800⟩ rfl rfl
  cases hadmitted

end ResearchGateway
