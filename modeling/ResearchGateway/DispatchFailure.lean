import ResearchGateway.ConcurrencyCap
import ResearchGateway.RunnerReports

/-! A dispatch whose `submit` raised.

The replica marks the claimed job failed in a transaction of its own. Until then the
user and the runner, which may have been started all the same, can do anything to the
job. `mark_failed` accepts it as long as the claim's token does, nobody asked for a
cancel and the text of the exception can be stored; otherwise its exception ends the loop
of the replica and gives up the lock. -/
namespace ResearchGateway
open Library

section
variable {H : Hashing} {settings : ControllerSettings} {w : ControllerSystem} {replica : Nat}
  {claim : ClaimedJob} {error : Text} {text : String}

/-- Who stays in its loop keeps the lock. -/
theorem enter_leader {phase : ControllerPhase} (h : phase ≠ .follower) :
    (w.enter replica phase).leader = w.leader := by
  simp [ControllerSystem.enter, h]

/-- The failure was recorded and the replica goes on. -/
theorem turn_reporting_ok (hphase : w.phases replica = .reporting claim error)
    (hencode : Text.encode? ((dispatchFailure error).take 20000) = some text) {r : ResearchJob}
    {db' : Database} (h : markFailed H w.clock claim.id claim.runnerToken text w.db = .ok (r, db'))
    (s : Surroundings) :
    w.turn H settings replica s = ({w with db := db'} : ControllerSystem).enter replica .checkingLease := by
  simp only [ControllerSystem.turn, hphase, ControllerPhase.next, hencode, commit_ok h]

/-- The exception ends the loop. -/
theorem turn_reporting_error (hphase : w.phases replica = .reporting claim error)
    (h : ∀ text, Text.encode? ((dispatchFailure error).take 20000) = some text →
      ∃ e, markFailed H w.clock claim.id claim.runnerToken text w.db = .error e)
    (s : Surroundings) : w.turn H settings replica s = w.enter replica .follower := by
  simp only [ControllerSystem.turn, hphase, ControllerPhase.next]
  cases hencode : Text.encode? ((dispatchFailure error).take 20000) with
  | none => rfl
  | some text =>
    obtain ⟨e, hrefused⟩ := h text hencode
    simp only [commit_error hrefused]

/-- The text of a failed dispatch is never empty. -/
theorem dispatchFailure_ne (error : Text) : (dispatchFailure error).take 20000 ≠ [] := nofun

end

/-- After any run, a replica that handles a failed dispatch goes on as before and leaves
the job terminal exactly when the row then still accepts the token of the claim, no
cancel is pending, and what is kept of the text can be stored. -/
theorem failed_dispatch_absorbed_iff (H : Hashing) (settings : ControllerSettings)
    (inputs : List ControllerInput) (replica : Nat) (s : Surroundings) (claim : ClaimedJob)
    (error : Text) :
    let w := controlled H settings inputs
    let w' := controlled H settings (inputs ++ [.turn replica s])
    w.phases replica = .reporting claim error →
      ((w'.phases replica = .checkingLease ∧ w'.leader = w.leader ∧ Ended w'.db claim.id) ↔
        (∃ job, w.db.job? claim.id = some job ∧ accepts H job claim.runnerToken = true ∧
          job.state ≠ .cancelRequested) ∧ Reportable (dispatchFailure error)) := by
  intro w w' hphase
  have hturn : w' = w.turn H settings replica s := controlled_snoc inputs (.turn replica s)
  have hs : Sound w.db := controlled_sound inputs
  have hlost (h : ∀ text, Text.encode? ((dispatchFailure error).take 20000) = some text →
        ∃ e, markFailed H w.clock claim.id claim.runnerToken text w.db = .error e) :
      ¬ (w'.phases replica = .checkingLease ∧ w'.leader = w.leader ∧ Ended w'.db claim.id) := by
    have hfollower : w'.phases replica = .follower := by
      rw [hturn, turn_reporting_error hphase h]
      exact Function.update_self ..
    rw [hfollower]
    rintro ⟨hchecking, -⟩
    cases hchecking
  cases hencode : Text.encode? ((dispatchFailure error).take 20000) with
  | none =>
    refine ⟨fun hgood => (hlost (fun text htext => ?_) hgood).elim, fun hgood => ?_⟩
    · rw [hencode] at htext
      cases htext
    · exact (not_reportable hencode hgood.2).elim
  | some text =>
    have hlost' {e : Failure} (h : markFailed H w.clock claim.id claim.runnerToken text w.db = .error e) :=
      hlost fun text' htext => by
        rw [hencode] at htext
        cases htext
        exact ⟨e, h⟩
    rw [reportable_encode hencode]
    rcases markFailed_cases H claim.id claim.runnerToken hs w.clock text with ⟨hrow, h⟩ |
      ⟨job, m, hj, hacc, hst, h⟩ | ⟨hnul, h⟩ | ⟨job, r, db', hj, hacc, hst, hstorable, h, hended⟩
    · exact ⟨fun hgood => (hlost' h hgood).elim, fun ⟨⟨job, hj, hacc, _⟩, _⟩ => (hrow ⟨job, hj, hacc⟩).elim⟩
    · refine ⟨fun hgood => (hlost' h hgood).elim, fun ⟨⟨job', hj', _, hst'⟩, _⟩ => ?_⟩
      obtain rfl : job = job' := Option.some.inj (hj.symm.trans hj')
      exact (hst' hst).elim
    · refine ⟨fun hgood => (hlost' h hgood).elim, fun ⟨_, _, hstorable⟩ => ?_⟩
      rw [hnul] at hstorable
      cases hstorable
    · refine ⟨fun _ => ⟨⟨job, hj, hacc, hst⟩, dispatchFailure_ne error, hstorable⟩, fun _ => ?_⟩
      rw [hturn, turn_reporting_ok hphase hencode h]
      exact ⟨Function.update_self .., enter_leader (by decide), hended⟩

namespace Sample

/-- A replica has claimed a job and `submit` raised. -/
def submitFailed : List ControllerInput :=
  [.request (.createJob 0 1 "user" "failing" request) rfl, .acquire 0] ++ uptoCount 0 ++
    [.turn 0 {runnerToken := "token"}, .turn 0 {submission := some (Text.ofString "quota exceeded")}]

end Sample

theorem failed_dispatch_absorbed_iff_undisturbed :
    let w := controlled Sample.hashing Sample.controllerSettings Sample.submitFailed
    let w' := controlled Sample.hashing Sample.controllerSettings (Sample.submitFailed ++ [.turn 0 {}])
    ((w'.phases 0 = .checkingLease ∧ w'.leader = w.leader ∧ Ended w'.db 1) ↔
      (∃ job, w.db.job? 1 = some job ∧ accepts Sample.hashing job "token" = true ∧
        job.state ≠ .cancelRequested) ∧ Reportable (dispatchFailure (Text.ofString "quota exceeded"))) :=
  failed_dispatch_absorbed_iff Sample.hashing Sample.controllerSettings Sample.submitFailed 0 {}
    ⟨1, "token", 1⟩ (Text.ofString "quota exceeded") (by decide +kernel)

/-- The user cancels before the failure is handled: the replica drops out of its loop and
the job is not terminal. -/
theorem failed_dispatch_escapes :
    ¬ ∀ (H : Hashing) (settings : ControllerSettings) (inputs : List ControllerInput) (replica : Nat)
      (s : Surroundings) (claim : ClaimedJob) (error : Text),
      let w := controlled H settings inputs
      let w' := controlled H settings (inputs ++ [.turn replica s])
      w.phases replica = .reporting claim error →
        w'.phases replica = .checkingLease ∧ w'.leader = w.leader ∧ Ended w'.db claim.id := by
  intro hall
  have h := hall Sample.hashing Sample.controllerSettings
    (Sample.submitFailed ++ [.request (.requestCancel 0 1 "user") rfl]) 0 {} ⟨1, "token", 1⟩
    (Text.ofString "quota exceeded") (by decide +kernel)
  have hphase := h.1
  revert hphase
  decide +kernel

end ResearchGateway
