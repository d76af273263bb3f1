import ResearchGateway.RunnerReports

/-! A runner whose job has failed.

The waiter of a runner returns when it reads that the job has failed, but it reads
through the token that every failure revokes. What it is answered instead is a 404,
an error to wait out, so it polls on. -/
namespace ResearchGateway
open Library

section
variable (H : Hashing) {j : JobId} (token : String) {db : Database}

/-- A poll on a job that is over is answered with a 404. -/
theorem runnerJobState_over (h : Over db j) (hs : Sound db) :
    runnerJobState H j token db = .status 404 := by
  have hread : getForRunner H j token db = .error .jobNotFound :=
    getForRunner_refused (h.refused hs token)
  have hreply : respond notFound (getForRunner H j token >>= fun job => pure job.state) db =
      (.status 404, db) := respond_error (bind_error hread)
  exact congrArg Prod.fst hreply

/-- The inputs of a runner that goes on waiting: polls, and what others do. An
identifier is not drawn twice. -/
def RunnerInput.Waits (j : JobId) : RunnerInput → Prop
  | .poll => True
  | .other op => op.createdId ≠ some j
  | _ => False

/-- No poll of a runner makes it stop once its job is over. -/
theorem run_waiting (statusText : Nat → Text) (hover : Over db j) (hs : Sound db)
    (waiting : List RunnerInput) (hwaiting : ∀ i ∈ waiting, i.Waits j) :
    ∃ db', (runnerSystem H j token statusText).run ⟨db, .researching⟩ waiting =
      ⟨db', .researching⟩ ∧ Over db' j ∧ Sound db' := by
  refine Machine.run_invariant (M := runnerSystem H j token statusText) (A := RunnerInput.Waits j)
    (P := fun r => ∃ db', r = ⟨db', .researching⟩ ∧ Over db' j ∧ Sound db') ?_
    ⟨db, rfl, hover, hs⟩ waiting hwaiting
  rintro i _ hi ⟨db', rfl, hover', hs'⟩
  cases i with
  | other op => exact ⟨_, rfl, hover'.step hs' hi, step_sound H op hs'⟩
  | poll =>
    refine ⟨db', ?_, hover', hs'⟩
    show RunnerSystem.poll H j token ⟨db', .researching⟩ = _
    simp only [RunnerSystem.poll, runnerJobState_over H token hover' hs', stopState?]
  | _ => exact hi.elim

end

/-- A runner is never told that its job has failed: whatever it presents and however
long it waits, its next poll is a 404, nothing for the waiter to return. -/
theorem failed_job_never_stops (H : Hashing) (ops : List Op) (j : JobId) (job : ResearchJob)
    (hj : (after H ops).job? j = some job) (hst : job.state = .failed) (token : String)
    (statusText : Nat → Text) (waiting : List RunnerInput)
    (hwaiting : ∀ i ∈ waiting, i.Waits j) :
    let r := (runnerSystem H j token statusText).run ⟨after H ops, .researching⟩ waiting
    runnerJobState H j token r.db = .status 404 ∧
      stopState? (runnerJobState H j token r.db) = none ∧ r.phase = .researching := by
  intro r
  have hended : Ended (after H ops) j := ⟨job, hj, by rw [hst]; rfl⟩
  obtain ⟨db', hrun, hover, hs⟩ := run_waiting H token statusText hended.over
    (after_sound H ops) waiting hwaiting
  have hr : r = ⟨db', .researching⟩ := hrun
  have hreply := runnerJobState_over H token hover hs
  rw [hr, hreply]
  exact ⟨rfl, rfl, rfl⟩

/-- The search that is left, and one more. -/
def Sample.searches : List Op :=
  [.runnerPublicSearch 4 1 "token" true, .runnerPublicSearch 5 1 "token" true]

theorem failed_job_never_stops_searched :
    let ops := Sample.oneSearch ++ [.markStarted 3 1 "token"] ++ Sample.searches
    ((runnerSystem Sample.hashing 1 "token" Sample.statusText).run
      ⟨after Sample.hashing ops, .researching⟩ [.poll, .poll]).phase = .researching := by
  intro ops
  have hrow := (Option.some_get (show ((after Sample.hashing ops).job? 1).isSome by decide)).symm
  have hwaiting : ∀ i ∈ [RunnerInput.poll, .poll], i.Waits 1 := by
    intro i hi
    simp only [List.mem_cons, List.not_mem_nil, or_false, or_self] at hi
    subst hi
    trivial
  exact (failed_job_never_stops Sample.hashing ops 1 _ hrow (by decide) "token" Sample.statusText
    [.poll, .poll] hwaiting).2.2

/-- From the first call on: the limit fails the job, and the poll does not see it. -/
theorem search_limit_unseen :
    let start : RunnerSystem := ⟨after Sample.hashing Sample.oneSearch, .fetching⟩
    let inputs := [.call 2 [], .call 3 []] ++ Sample.searches.map RunnerInput.other
    let world := (runnerSystem Sample.hashing 1 "token" Sample.statusText).run start inputs
    world.phase = .researching ∧ (world.db.job? 1).map ResearchJob.state = some .failed ∧
      stopState? (runnerJobState Sample.hashing 1 "token" world.db) = none :=
  ⟨rfl, by decide, rfl⟩

end ResearchGateway
