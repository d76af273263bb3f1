import ResearchGateway.Library.Text
import ResearchGateway.RunnerReports

/-! What becomes of an exception that the research raises.

The runner sends the exception's text, cut to 20,000 code points, as a JSON body in
UTF-8. The endpoint takes a text of 1 to 20,000 characters, and PostgreSQL stores none
that holds a NUL. A report that fails anywhere on this way leaves the job RUNNING: the
runner suppresses the error, or dies of one that is no `httpx.HTTPError`. -/
namespace ResearchGateway
open Library

/-- What `engine.run` raises. -/
inductive ResearchError where
  /-- An `Exception` and its `str`. -/
  | exception (message : Text)
  /-- An `asyncio.CancelledError`; the runner takes it for its own cancellation. -/
  | cancelled

section
variable (H : Hashing) (now : Time) (j : JobId) (token : String)

/-- The handlers of `Runner.run` around the research. -/
def ResearchError.report (raised : ResearchError) (db : Database) : Database :=
  match raised with
  | .exception message => (reportFailed H now j token message db).2
  | .cancelled => (runnerCancelled H now j token db).2

end

/-- A failure of the research of a running job is recorded exactly when it is an
`Exception` whose text has a first part of 20,000 code points that is not empty and
holds no surrogate and no NUL. -/
theorem failure_recorded_iff (H : Hashing) (ops : List Op) (now : Time) (j : JobId) (token : String)
    (job : ResearchJob) (raised : ResearchError) :
    let db := after H ops
    db.job? j = some job → accepts H job token = true → job.state = .running →
      ((∃ r, (raised.report H now j token db).job? j = some r ∧ r.state = .failed) ↔
        ∃ message, raised = .exception message ∧ Reportable message) := by
  intro db hj hacc hr
  cases raised with
  | exception message =>
    rcases reportFailed_running now message hj hacc hr with ⟨hgood, hrecorded⟩ | ⟨hbad, hsame⟩
    · exact ⟨fun _ => ⟨message, rfl, hgood⟩, fun _ => hrecorded⟩
    · refine ⟨fun ⟨r, hrow, hfailed⟩ => ?_, fun ⟨message', heq, hgood⟩ => ?_⟩
      · have hrow' : (reportFailed H now j token message db).2.job? j = some r := hrow
        rw [hsame] at hrow'
        obtain rfl : job = r := Option.some.inj (hj.symm.trans hrow')
        rw [hr] at hfailed
        cases hfailed
      · cases heq
        exact (hbad hgood).elim
  | cancelled =>
    refine ⟨fun ⟨r, hrow, hfailed⟩ => ?_, fun ⟨message, heq, _⟩ => by cases heq⟩
    have hread : getForRunnerLocked H j token db = .ok (job, db) := getForRunner_accepted hj hacc
    have hwrite : markCancelled H now j token db = .ok (cancelledJob now job,
        db.write ⟨now, cancelledJob now job, [("job.cancelled", ∅)]⟩) := by
      rw [markCancelled, bind_ok hread, if_neg (by rw [hr]; decide), if_pos (.inr hr)]
      rfl
    have hrow' : (runnerCancelled H now j token db).2.job? j = some r := hrow
    rw [runnerCancelled, published_snd, respond_ok hwrite] at hrow'
    obtain rfl := Option.some.inj ((Database.job?_write hj rfl).symm.trans hrow')
    cases hfailed

theorem failure_recorded_iff_text :
    let db := after Sample.hashing Sample.started
    (∃ r, ((ResearchError.exception [0x6F, 0x6F, 0x6D]).report Sample.hashing 3 1 "token" db).job? 1 =
      some r ∧ r.state = .failed) ↔
      ∃ message, ResearchError.exception [0x6F, 0x6F, 0x6D] = .exception message ∧ Reportable message := by
  intro db
  have hrow := (Option.some_get (show (db.job? 1).isSome by decide)).symm
  exact failure_recorded_iff Sample.hashing Sample.started 3 1 "token" _ _ hrow (by decide) (by decide)

/-- The empty message is not taken, and the job stays RUNNING. -/
theorem failure_lost :
    ¬ ∀ (H : Hashing) (ops : List Op) (now : Time) (j : JobId) (token : String) (job : ResearchJob)
      (raised : ResearchError),
      let db := after H ops
      db.job? j = some job → accepts H job token = true → job.state = .running →
        ∃ r, (raised.report H now j token db).job? j = some r ∧ r.state = .failed := by
  intro hall
  have hrow := (Option.some_get (show ((after Sample.hashing Sample.started).job? 1).isSome by decide)).symm
  have h := hall Sample.hashing Sample.started 3 1 "token" _ (.exception []) hrow (by decide) (by decide)
  obtain ⟨r, hr, hfailed⟩ := h
  have hstate : ((ResearchError.exception []).report Sample.hashing 3 1 "token"
      (after Sample.hashing Sample.started)).job? 1 |>.map ResearchJob.state |> (· = some .running) := by
    decide
  simp only [hr, Option.map_some, hfailed] at hstate
  cases hstate

end ResearchGateway
