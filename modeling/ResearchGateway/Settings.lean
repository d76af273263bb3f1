import ResearchGateway.Api.UserEndpoints

/-! The settings that decide what Open WebUI is configured with. -/
namespace ResearchGateway

/-- An entry of `default_model_profiles`: one model for every role, or one for each. -/
inductive ModelProfile where
  | every (model : String)
  | roles (roles : ModelRoles)

/-- Settings as their validation leaves them. -/
structure Settings extends AdminLimits where
  internalBaseUrl : String := "http://api:8090"
  serviceToken : String := "change-me-service-token"
  openwebuiUrl : String := "http://open-webui:8080"
  publicSearchEnabled : Bool := true
  defaultModelProfiles : List (String × ModelProfile) := [("default", .every "gpt-4.1-mini")]
  defaultResearchStrategy : ResearchStrategy := .balanced
  defaultBudget : ResearchBudget := {}
  hard_max_queries_ge : 1 ≤ hardMaxQueries := by decide
  strategy_preset : defaultResearchStrategy ≠ .custom := by decide

/-- `resolve_default_models()`; a single model must pass the checks of `ModelRoles`. -/
def Settings.resolveDefaultModels (settings : Settings) : Except String ModelRoles :=
  match settings.defaultModelProfiles.lookup "default" with
  | none => .error "unknown default model profile: default"
  | some (.roles roles) => .ok roles
  | some (.every model) =>
    if 1 ≤ model.length ∧ model.length ≤ 512 then .ok ⟨model, model, model⟩
    else .error "ModelRoles"

end ResearchGateway
