import Mathlib.Data.List.Sort
import ResearchGateway.Repository.Runner

/-! What the retention cleaner deletes. Foreign keys cascade from a job to its
events and artifacts and clear the parent of its continuations. -/
namespace ResearchGateway
open Library

def deleteArtifactRecord (artifactId : Nat) : Transaction Bool := do
  let db ← get
  set {db with artifacts := db.artifacts.keep fun a => a.id ≠ artifactId}
  return db.artifacts.rows.any fun a => a.id = artifactId

def ofTerminalJob (db : Database) (event : ResearchEvent) : Bool :=
  (db.job? event.jobId).any fun job => job.state.isTerminal

/-- The oldest event rows of terminal jobs from before the cutoff. -/
def expiredEvents (db : Database) (cutoff : Time) (limit : Nat) : List ResearchEvent :=
  (db.events.rows.filter fun e => e.createdAt < cutoff && ofTerminalJob db e).take limit

def withoutEvents (db : Database) (expired : List (JobId × Nat)) : Database :=
  {db with events := db.events.keep fun e => (e.jobId, e.sequence) ∉ expired}

def deleteExpiredEvents (cutoff : Time) (limit : Nat) : Transaction Nat := do
  let db ← get
  let expired := (expiredEvents db cutoff limit).map fun e => (e.jobId, e.sequence)
  set (withoutEvents db expired)
  return expired.length

def finishedBefore (cutoff : Time) (job : ResearchJob) : Bool :=
  job.state.isTerminal && job.finishedAt.any fun finished => finished < cutoff

/-- The job of the artifact finished before the cutoff. -/
def artifactExpired (db : Database) (cutoff : Time) (artifact : ResearchArtifact) : Bool :=
  (db.job? artifact.jobId).any (finishedBefore cutoff)

def listExpiredArtifacts (db : Database) (cutoff : Time) (limit : Nat) : List ResearchArtifact :=
  (db.artifacts.rows.filter (artifactExpired db cutoff)).take limit

def listArtifactKeys (db : Database) : List String := db.artifacts.rows.map ResearchArtifact.objectKey

def expiredJobs (db : Database) (cutoff : Time) (limit : Nat) : List ResearchJob :=
  ((db.jobs.rows.filter fun job =>
      finishedBefore cutoff job && (db.artifactsOf job.id).isEmpty).insertionSort
    fun a b => a.finishedAt.getD 0 ≤ b.finishedAt.getD 0).take limit

def orphaned (gone : List JobId) (job : ResearchJob) : ResearchJob :=
  match job.parentJobId with
  | none => job
  | some parent => if parent ∈ gone then {job with parentJobId := none} else job

theorem orphaned_id (gone : List JobId) (job : ResearchJob) : (orphaned gone job).id = job.id := by
  unfold orphaned
  split
  · rfl
  · split <;> rfl

def withoutJobs (db : Database) (gone : List JobId) : Database :=
  {db with
    jobs := (db.jobs.keep fun job => job.id ∉ gone).mapRows (orphaned gone) (orphaned_id gone)
    events := db.events.keep fun e => e.jobId ∉ gone
    artifacts := db.artifacts.keep fun a => a.jobId ∉ gone}

def deleteExpiredJobs (cutoff : Time) (limit : Nat) : Transaction Nat := do
  let db ← get
  let gone := (expiredJobs db cutoff limit).map ResearchJob.id
  set (withoutJobs db gone)
  return gone.length

/-! ### What is left of one job -/

theorem eventsOf_withoutEvents (db : Database) (expired : List (JobId × Nat)) (j : JobId) :
    (withoutEvents db expired).eventsOf j =
      (db.eventsOf j).filter fun e => (e.jobId, e.sequence) ∉ expired := by
  show List.filter _ (List.filter _ _) = List.filter _ (List.filter _ _)
  rw [List.filter_filter, List.filter_filter]
  exact List.filter_congr fun e _ => Bool.and_comm ..

/-- Event rows are only deleted of terminal jobs. -/
theorem eventsOf_expired (db : Database) (cutoff : Time) (limit : Nat) {j : JobId}
    (hs : ∀ job, db.job? j = some job → job.state.isTerminal = false) :
    (withoutEvents db ((expiredEvents db cutoff limit).map fun e => (e.jobId, e.sequence))).eventsOf j =
      db.eventsOf j := by
  rw [eventsOf_withoutEvents]
  refine List.filter_eq_self.mpr fun e he => ?_
  have hej : e.jobId = j := by simpa using (List.mem_filter.mp he).2
  simp only [decide_eq_true_eq]
  intro hmem
  obtain ⟨x, hx, hkey⟩ := List.mem_map.mp hmem
  have hxj : x.jobId = j := (congrArg Prod.fst hkey).trans hej
  have hold := (List.mem_filter.mp (List.mem_of_mem_take hx)).2
  simp only [Bool.and_eq_true, ofTerminalJob, hxj, Option.any_eq_true] at hold
  obtain ⟨-, job, hjob, ht⟩ := hold
  rw [hs job hjob] at ht
  cases ht

theorem job?_withoutJobs (db : Database) (gone : List JobId) (j : JobId) :
    (withoutJobs db gone).job? j = if j ∈ gone then none else (db.job? j).map (orphaned gone) := by
  show Table.find? (Table.mapRows _ (orphaned gone) (orphaned_id gone)) j = _
  rw [Table.find?_mapRows, Table.find?_keep]
  cases hj : db.job? j with
  | none =>
    have : db.jobs.find? j = none := hj
    simp [this]
  | some job =>
    have hid := Database.id_of_job? hj
    have : db.jobs.find? j = some job := hj
    by_cases hgone : j ∈ gone <;> simp [this, hid, hgone]

/-- The rows of one job after every row of the jobs in `gone` was dropped. -/
theorem filter_gone {ρ : Type} (owner : ρ → JobId) (rows : List ρ) (gone : List JobId) (j : JobId) :
    (rows.filter fun r => owner r ∉ gone).filter (fun r => owner r = j) =
      if j ∈ gone then [] else rows.filter fun r => owner r = j := by
  rw [List.filter_filter]
  by_cases hgone : j ∈ gone
  · rw [if_pos hgone]
    refine List.filter_eq_nil_iff.mpr fun r _ => ?_
    simp only [Bool.and_eq_true, decide_eq_true_eq, not_and]
    intro heq
    subst heq
    exact not_not_intro hgone
  · rw [if_neg hgone]
    refine List.filter_congr fun r _ => ?_
    by_cases hr : owner r = j
    · simp [hr, hgone]
    · simp [hr]

theorem eventsOf_withoutJobs (db : Database) (gone : List JobId) (j : JobId) :
    (withoutJobs db gone).eventsOf j = if j ∈ gone then [] else db.eventsOf j :=
  filter_gone ResearchEvent.jobId ..

theorem artifactsOf_withoutJobs (db : Database) (gone : List JobId) (j : JobId) :
    (withoutJobs db gone).artifactsOf j = if j ∈ gone then [] else db.artifactsOf j :=
  filter_gone ResearchArtifact.jobId ..

theorem expired_terminal {db : Database} {cutoff : Time} {limit : Nat} {j : JobId}
    (h : j ∈ (expiredJobs db cutoff limit).map ResearchJob.id) :
    ∃ job, db.job? j = some job ∧ job.state.isTerminal := by
  obtain ⟨job, hjob, rfl⟩ := List.mem_map.mp h
  have hmem := (List.mem_insertionSort _).mp (List.mem_of_mem_take hjob)
  obtain ⟨hrow, hold⟩ := List.mem_filter.mp hmem
  simp only [Bool.and_eq_true, finishedBefore] at hold
  exact ⟨job, Database.job?_iff.mpr ⟨hrow, rfl⟩, hold.1.1⟩

theorem orphaned_cases (gone : List JobId) (job : ResearchJob) :
    orphaned gone job = job ∨ orphaned gone job = {job with parentJobId := none} := by
  unfold orphaned
  split
  · exact .inl rfl
  · split
    · exact .inr rfl
    · exact .inl rfl

end ResearchGateway
