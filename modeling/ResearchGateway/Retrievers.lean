import ResearchGateway.Domain

/-! The retrievers of a research run.

The list is made in two places. `configure_upstream` puts a factory of its own in front of
`agent.get_retrievers`, from which every researcher takes its first list, nested ones too;
`run` changes the list of the root researcher once more. They agree, unless the public
retriever is one of the package's own and the job has a context (`retrievers_agree_iff`):
then the factory leaves the public one out, and the root has the private one twice. -/
namespace ResearchGateway

/-- A retriever class; the package has its own, by their names. -/
inductive Retriever where
  | gatewaySearx
  | openWebUI
  | package (name : String)
  deriving DecidableEq

def Retriever.isPublic : Retriever → Bool
  | .openWebUI => false
  | _ => true

/-- What the retrievers depend on of a `RunnerJobSpec`. -/
structure RetrieverSpec where
  sources : List SourceRef := []
  contextDocuments : List ContextDocument := []

/-- `spec.sources or spec.context_documents`. -/
def RetrieverSpec.hasContext (spec : RetrieverSpec) : Bool :=
  !spec.sources.isEmpty || !spec.contextDocuments.isEmpty

structure GPTResearcherEngine where
  publicSearchEnabled : Bool := true
  retriever : String := "searx"

/-- The globals of `upstream.py`. -/
structure UpstreamModule where
  jobRetrievers : List Retriever := []
  /-- `_original_get_retrievers` is set, to the package's factory, and
  `agent.get_retrievers` is `get_job_retrievers`. -/
  patched : Bool := false

section
variable {γ : Type} (factory : γ → List Retriever)

/-- `configure_upstream`, after the package was found. -/
def UpstreamModule.configure (engine : GPTResearcherEngine) (spec : RetrieverSpec) (_ : UpstreamModule) :
    UpstreamModule where
  jobRetrievers :=
    (if engine.publicSearchEnabled && engine.retriever = "searx" then [.gatewaySearx] else []) ++
      if spec.hasContext then [.openWebUI] else []
  patched := true

def UpstreamModule.getJobRetrievers (upstream : UpstreamModule) (cfg : γ) : List Retriever :=
  if upstream.jobRetrievers.isEmpty then factory cfg else upstream.jobRetrievers

/-- `agent.get_retrievers`. -/
def UpstreamModule.getRetrievers (upstream : UpstreamModule) (cfg : γ) : List Retriever :=
  if upstream.patched then upstream.getJobRetrievers factory cfg else factory cfg

/-- The retrievers of the root researcher when `run` comes to `conduct_research`; without
public search and without a context it raises a `ValueError` instead. -/
def GPTResearcherEngine.rootRetrievers (engine : GPTResearcherEngine) (spec : RetrieverSpec)
    (upstream : UpstreamModule) (cfg : γ) : Option (List Retriever) :=
  let retrievers := (upstream.configure engine spec).getRetrievers factory cfg
  if !engine.publicSearchEnabled then
    if !spec.hasContext then none else some [.openWebUI]
  else
    let retrievers := if engine.retriever = "searx" then [.gatewaySearx] else retrievers
    some (if spec.hasContext then retrievers ++ [.openWebUI] else retrievers)

/-- The retrievers of a researcher that is started within the run. -/
def GPTResearcherEngine.nestedRetrievers (engine : GPTResearcherEngine) (spec : RetrieverSpec)
    (upstream : UpstreamModule) (cfg : γ) : List Retriever :=
  (upstream.configure engine spec).getRetrievers factory cfg

/-- The retrievers that a job may use: a public one if public search is enabled, and the
private one, once, if there is something private to search. -/
structure Permitted (engine : GPTResearcherEngine) (spec : RetrieverSpec) (retrievers : List Retriever) :
    Prop where
  isPublic : (∃ r ∈ retrievers, r.isPublic = true) ↔ engine.publicSearchEnabled = true
  isPrivate : retrievers.count .openWebUI = if spec.hasContext then 1 else 0

section
variable {engine : GPTResearcherEngine} {spec : RetrieverSpec} {upstream : UpstreamModule}
  {named : List Retriever}

theorem count_public (h : ∀ r ∈ named, r.isPublic = true) : named.count .openWebUI = 0 := by
  apply List.count_eq_zero.mpr
  intro hmem
  cases h _ hmem

/-- Public retrievers, and the private one if there is a context. -/
theorem permitted_append (hpublic : ∀ r ∈ named, r.isPublic = true)
    (hnamed : named ≠ [] ↔ engine.publicSearchEnabled = true) :
    Permitted engine spec (named ++ if spec.hasContext then [.openWebUI] else []) where
  isPublic := by
    rw [← hnamed]
    constructor
    · rintro ⟨r, hr, hrpublic⟩ rfl
      cases hcontext : spec.hasContext with
      | false =>
        rw [hcontext] at hr
        cases hr
      | true =>
        rw [hcontext] at hr
        obtain rfl := List.mem_singleton.mp hr
        cases hrpublic
    · intro hne
      obtain ⟨r, hr⟩ := List.exists_mem_of_ne_nil named hne
      exact ⟨r, List.mem_append_left _ hr, hpublic r hr⟩
  isPrivate := by
    rw [List.count_append, count_public hpublic]
    cases spec.hasContext <;> rfl

/-- The lists of the run where the two places agree. -/
theorem retrievers_eq {cfg : γ} (cfg' : γ) {root : List Retriever} (hfactory : ∀ cfg, factory cfg = named)
    (hroot : engine.rootRetrievers factory spec upstream cfg = some root)
    (hcase : ¬ (engine.publicSearchEnabled = true ∧ engine.retriever ≠ "searx" ∧ spec.hasContext = true)) :
    ∃ front, root = (front ++ if spec.hasContext then [.openWebUI] else []) ∧
      engine.nestedRetrievers factory spec upstream cfg' = root ∧
      front = (if engine.publicSearchEnabled then
        if engine.retriever = "searx" then [.gatewaySearx] else named else []) := by
  unfold GPTResearcherEngine.rootRetrievers at hroot
  unfold GPTResearcherEngine.nestedRetrievers
  simp only [UpstreamModule.configure, UpstreamModule.getRetrievers, UpstreamModule.getJobRetrievers, if_true,
    hfactory] at hroot ⊢
  cases henabled : engine.publicSearchEnabled with
  | false =>
    cases hcontext : spec.hasContext with
    | false => simp [henabled, hcontext] at hroot
    | true =>
      simp only [henabled, hcontext, Bool.not_false, Bool.not_true, if_true, Bool.false_eq_true,
        if_false, Option.some.injEq] at hroot
      exact ⟨[], hroot.symm, by simp [← hroot], rfl⟩
  | true =>
    by_cases hsearx : engine.retriever = "searx"
    · cases hcontext : spec.hasContext with
      | false =>
        simp only [henabled, hsearx, hcontext, Bool.not_true, Bool.false_eq_true, if_false, if_true,
          Option.some.injEq] at hroot
        exact ⟨[.gatewaySearx], hroot.symm, by simp [hsearx, ← hroot], by simp [hsearx]⟩
      | true =>
        simp only [henabled, hsearx, hcontext, Bool.not_true, Bool.false_eq_true, if_false, if_true,
          Option.some.injEq] at hroot
        exact ⟨[.gatewaySearx], hroot.symm, by simp [hsearx, ← hroot], by simp [hsearx]⟩
    · cases hcontext : spec.hasContext with
      | false =>
        simp only [henabled, hsearx, hcontext, Bool.not_true, Bool.false_eq_true, if_false,
          decide_false, Bool.and_false, List.append_nil, List.isEmpty_nil, if_true,
          Option.some.injEq] at hroot
        exact ⟨named, by simp [hroot], by simp [hsearx, hroot], by simp [hsearx]⟩
      | true => exact absurd ⟨henabled, hsearx, hcontext⟩ hcase

/-- The list of the root researcher where they do not. -/
theorem rootRetrievers_twice {cfg : γ} (henabled : engine.publicSearchEnabled = true)
    (hother : engine.retriever ≠ "searx") (hcontext : spec.hasContext = true) :
    engine.rootRetrievers factory spec upstream cfg = some [.openWebUI, .openWebUI] := by
  simp [GPTResearcherEngine.rootRetrievers, UpstreamModule.configure, UpstreamModule.getRetrievers,
    UpstreamModule.getJobRetrievers, henabled, hother, hcontext]

end

/-- If the package's factory gives the public retrievers that the configuration names, the
root researcher and every nested one have the same, permitted retrievers, exactly if not
public search is enabled with a retriever of the package for a job with a context. -/
theorem retrievers_agree_iff (named : List Retriever) (hnamed : named ≠ [])
    (hpublic : ∀ r ∈ named, r.isPublic = true) (hfactory : ∀ cfg, factory cfg = named)
    (engine : GPTResearcherEngine) (spec : RetrieverSpec) (upstream : UpstreamModule) (cfg : γ)
    (root : List Retriever) (hroot : engine.rootRetrievers factory spec upstream cfg = some root) :
    (Permitted engine spec root ∧ ∀ cfg',
        Permitted engine spec (engine.nestedRetrievers factory spec upstream cfg') ∧
        ∀ r, r ∈ root ↔ r ∈ engine.nestedRetrievers factory spec upstream cfg') ↔
      ¬ (engine.publicSearchEnabled = true ∧ engine.retriever ≠ "searx" ∧ spec.hasContext = true) := by
  constructor
  · rintro ⟨⟨-, hprivate⟩, -⟩ ⟨henabled, hother, hcontext⟩
    rw [rootRetrievers_twice factory henabled hother hcontext] at hroot
    obtain rfl := Option.some.inj hroot
    rw [hcontext] at hprivate
    exact absurd hprivate (by decide)
  · intro hcase
    obtain ⟨front, hfront, -, hdef⟩ := retrievers_eq factory cfg hfactory hroot hcase
    have hpermitted : Permitted engine spec root := by
      rw [hfront]
      apply permitted_append
      · rw [hdef]
        split
        · split
          · simp [Retriever.isPublic]
          · exact hpublic
        · simp
      · rw [hdef]
        split
        · next henabled =>
          rw [henabled]
          split <;> simp [hnamed]
        · next hdisabled => simp [hdisabled]
    refine ⟨hpermitted, fun cfg' => ?_⟩
    obtain ⟨-, -, hnested, -⟩ := retrievers_eq factory cfg' hfactory hroot hcase
    rw [hnested]
    exact ⟨hpermitted, fun _ => Iff.rfl⟩

end

/-! ### One collection -/
namespace Sample

def withSource : RetrieverSpec := {sources := [⟨.collection, "knowledge", none⟩]}

def withDuckduckgo : GPTResearcherEngine := {retriever := "duckduckgo"}

/-- The factory of the package where `duckduckgo` is configured. -/
def duckduckgo : Unit → List Retriever := fun _ => [.package "duckduckgo"]

end Sample

/-- The default engine searches in public and in the collection, at every depth. -/
theorem retrievers_agree_searx :
    Permitted {} Sample.withSource [.gatewaySearx, .openWebUI] ∧ ∀ cfg,
      Permitted {} Sample.withSource
          (GPTResearcherEngine.nestedRetrievers Sample.duckduckgo {} Sample.withSource {} cfg) ∧
        ∀ r, r ∈ [Retriever.gatewaySearx, .openWebUI] ↔
          r ∈ GPTResearcherEngine.nestedRetrievers Sample.duckduckgo {} Sample.withSource {} cfg :=
  (retrievers_agree_iff Sample.duckduckgo [.package "duckduckgo"] (by decide) (by decide) (fun _ => rfl)
    {} Sample.withSource {} () [.gatewaySearx, .openWebUI] rfl).mpr (by decide)

/-- With another engine the collection is listed twice, and nothing public is searched. -/
theorem retrievers_disagree_duckduckgo :
    Sample.withDuckduckgo.rootRetrievers Sample.duckduckgo Sample.withSource {} () =
        some [.openWebUI, .openWebUI] ∧
      Sample.withDuckduckgo.nestedRetrievers Sample.duckduckgo Sample.withSource {} () = [.openWebUI] ∧
      ¬ Permitted Sample.withDuckduckgo Sample.withSource [.openWebUI, .openWebUI] :=
  ⟨rfl, rfl, fun h => absurd h.isPrivate (by decide)⟩

end ResearchGateway
