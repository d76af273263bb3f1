import Mathlib.Data.List.Basic

/-! The job lifecycle and the frozen request a job is created from. -/
namespace ResearchGateway

/-- A UUID. -/
abbrev JobId := Nat

/-- A timestamp with time zone, in microseconds. -/
abbrev Time := Int

def seconds (n : Nat) : Time := n * 1000000

/-- Durable research-job lifecycle. -/
inductive JobState where
  | pending
  | dispatched
  | running
  | cancelRequested
  | succeeded
  | failed
  | cancelled
  deriving DecidableEq, Repr

namespace JobState

def value : JobState → String
  | pending => "pending"
  | dispatched => "dispatched"
  | running => "running"
  | cancelRequested => "cancel_requested"
  | succeeded => "succeeded"
  | failed => "failed"
  | cancelled => "cancelled"

/-- `TERMINAL_STATES`. -/
def isTerminal : JobState → Bool
  | succeeded | failed | cancelled => true
  | _ => false

/-- The states that hold a concurrency slot. -/
def isActive : JobState → Bool
  | dispatched | running | cancelRequested => true
  | _ => false

theorem not_active_of_terminal {s : JobState} (h : s.isTerminal = true) : s.isActive = false := by
  cases s <;> simp [isTerminal, isActive] at h ⊢

end JobState

inductive SourceKind where
  | file
  | collection
  deriving DecidableEq

/-- An immutable Open WebUI source selected for a job. -/
structure SourceRef where
  kind : SourceKind
  id : String
  name : Option String := none

inductive ContextKind where
  | conversation
  | linkedChat
  deriving DecidableEq

/-- User-authorized Open WebUI conversation context frozen for one run. -/
structure ContextDocument where
  kind : ContextKind
  id : String
  title : Option String := none
  text : String
  chatId : String

structure ModelRoles where
  fast : String
  smart : String
  strategic : String

/-- Frozen limits published by Open WebUI for an accessible model. -/
structure ModelCapability where
  id : String
  contextLength : Nat
  maxOutputTokens : Nat
  context_ge : 4096 ≤ contextLength
  output_ge : 1 ≤ maxOutputTokens

inductive ResearchStrategy where
  | focused
  | balanced
  | broad
  | deep
  | custom
  deriving DecidableEq

structure ResearchShape where
  strategy : ResearchStrategy := .balanced
  breadth : Nat := 2
  depth : Nat := 2
  queriesPerBranch : Nat := 2

/-- User-visible operational limits. -/
structure ResearchBudget where
  maxQueries : Nat := 100
  maxWallTimeSeconds : Nat := 3600
  queries_ge : 1 ≤ maxQueries := by decide
  wall_time_ge : 60 ≤ maxWallTimeSeconds := by decide

structure CreateJobRequest where
  query : String
  chatId : String
  messageId : String
  sources : List SourceRef := []
  contextDocuments : List ContextDocument := []
  research : ResearchShape := {}
  budget : ResearchBudget := {}
  models : ModelRoles
  modelCapabilities : List ModelCapability
  reportType : String := "deep"
  reportFormats : List String := ["markdown", "json"]

end ResearchGateway
