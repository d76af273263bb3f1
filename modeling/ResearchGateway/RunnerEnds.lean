import ResearchGateway.RunnerReports

/-! How a runner leaves its job.

Whatever is interleaved with it, the process ends with the job in a terminal state,
but for three paths. A failure report that finds a cancel pending is refused, and
nothing follows it; the research failing or running out of time after the cancel
leads there, and so does a completion, which the cancel refuses first. A report whose
text cannot be sent or stored is lost. And a start whose message has no URL is
committed and answered with an error, which ends the process. -/
namespace ResearchGateway
open Library

/-- The next report is a failure, and it will find a cancel pending or cannot be recorded
for the running job. -/
def Stranded (j : JobId) (r : RunnerSystem) : Prop :=
  ∃ error job, r.phase = .failing error ∧ r.db.job? j = some job ∧
    (job.state = .cancelRequested ∨ job.state = .running ∧ ¬ Reportable error)

/-- The next report is the start of a job whose message events have no URL. -/
def Unaddressable (j : JobId) (r : RunnerSystem) : Prop :=
  ∃ job, r.phase = .starting ∧ r.db.job? j = some job ∧ job.isAddressable = false

/-- What the process may rely on in each phase. -/
def RunnerPhase.Holds (H : Hashing) (db : Database) (j : JobId) (token : String) : RunnerPhase → Prop
  | .fetching | .starting | .ended _ => True
  | _ => InHand H db j token

structure RunnerSound (H : Hashing) (j : JobId) (token : String) (r : RunnerSystem) : Prop where
  sound : Sound r.db
  phase : r.phase.Holds H r.db j token

/-- A step that ends the process ends the job, unless the job is left behind. -/
def EndsWell (j : JobId) (r r' : RunnerSystem) : Prop :=
  r.phase.isEnded = false → r'.phase = .ended true →
    (Ended r'.db j ↔ ¬ (Stranded j r ∨ Unaddressable j r))

section
variable {H : Hashing} {j : JobId} {token : String} {statusText : Nat → Text} {db : Database}
  {r r' : RunnerSystem}

theorem endsWell_of_going (h : r'.phase ≠ .ended true) : EndsWell j r r' :=
  fun _ hend => absurd hend h

theorem endsWell_of_ended (h : Ended r'.db j) (hphase : ∀ error, r.phase ≠ .failing error)
    (hstart : r.phase ≠ .starting) : EndsWell j r r' := by
  refine fun _ _ => ⟨fun _ hleft => ?_, fun _ => h⟩
  rcases hleft with ⟨error, _, hfailing, _⟩ | ⟨_, hstarting, _⟩
  · exact hphase error hfailing
  · exact hstart hstarting

/-- An error status leads to a failure report. -/
theorem refused_sound (hs : Sound db) (h : InHand H db j token) (error : Text) :
    RunnerSound H j token ⟨db, .failing error⟩ := ⟨hs, h⟩

theorem runnerFailed_sound (hs : Sound db) (now : Time) (error : String) :
    Sound (runnerFailed H now j token error db).2 := by
  unfold runnerFailed
  split
  · exact hs
  · rw [published_snd]
    exact respond_sound (.markFailed now j token error) rfl hs

theorem reportFailed_sound (hs : Sound db) (now : Time) (error : Text) :
    Sound (reportFailed H now j token error db).2 := by
  unfold reportFailed
  split
  · exact hs
  · exact runnerFailed_sound hs now _

theorem published_sound {caught : Failure → Option Nat} {t : Transaction ResearchJob}
    (op : Op) (hop : transact H op = t >>= fun _ => pure .done) (hs : Sound db) :
    Sound (published (respond caught t db)).2 := by
  rw [published_snd]
  exact respond_sound op hop hs

/-- A completion is refused, or it ends the job whatever becomes of its messages. -/
theorem runnerCompleteCommit_cases (now : Time) (completion : RunnerCompletion)
    (stored : List StoredObject) (db : Database) :
    (∃ code, runnerCompleteCommit H now j token completion stored db = (.status code, db)) ∨
      Ended (runnerCompleteCommit H now j token completion stored db).2 j := by
  unfold runnerCompleteCommit
  cases ht : completionCommit H now j token completion stored db with
  | error e => exact .inl ⟨_, by rw [respond_error ht]; rfl⟩
  | ok p =>
    rw [published_snd, respond_ok ht]
    exact .inr (completionCommit_ended ht)

/-- One step of the process. -/
theorem RunnerSound.call (h : RunnerSound H j token r) (now : Time) (stored : List StoredObject) :
    RunnerSound H j token (r.call H j token statusText now stored) ∧
      EndsWell j r (r.call H j token statusText now stored) := by
  obtain ⟨db, phase⟩ := r
  obtain ⟨hs, hphase⟩ := h
  simp only at hs hphase
  cases phase with
  | fetching =>
    simp only [RunnerSystem.call]
    split <;> exact ⟨⟨hs, trivial⟩, endsWell_of_going nofun⟩
  | starting =>
    have hs' : Sound (runnerStarted H now j token db).2 :=
      published_sound (.markStarted now j token) rfl hs
    simp only [RunnerSystem.call]
    rcases runnerStarted_cases H j token now db with hrefused |
      ⟨job, db', hj, hway, ⟨-, r, htaken⟩ | ⟨hurl, hfailed⟩⟩
    · rw [hrefused]
      exact ⟨⟨hs, trivial⟩, endsWell_of_going nofun⟩
    · rw [htaken] at hs' ⊢
      exact ⟨⟨hs', .inl hway⟩, endsWell_of_going nofun⟩
    · rw [hfailed] at hs' ⊢
      refine ⟨⟨hs', trivial⟩, fun _ _ => ⟨fun hended => (hway.open hended).elim, fun hno => ?_⟩⟩
      exact (hno (.inr ⟨job, rfl, hj, hurl⟩)).elim
  | researching => exact ⟨⟨hs, hphase⟩, endsWell_of_going nofun⟩
  | acknowledging =>
    have hended := runnerCancelled_ended hphase hs now
    have hs' : Sound (runnerCancelled H now j token db).2 :=
      published_sound (.markCancelled now j token) rfl hs
    simp only [RunnerSystem.call]
    split
    · next hreply =>
      rw [hreply] at hended hs'
      exact ⟨⟨hs', trivial⟩, endsWell_of_ended hended nofun nofun⟩
    · next hreply =>
      rw [hreply] at hended hs'
      exact ⟨refused_sound hs' (.inr hended) _, endsWell_of_going nofun⟩
  | expired => exact ⟨⟨hs, hphase⟩, endsWell_of_going nofun⟩
  | completing completion =>
    simp only [RunnerSystem.call]
    split
    · next hreply =>
      obtain rfl := completionCheck_unchanged (ok_respond hreply)
      exact ⟨⟨hs, hphase⟩, endsWell_of_going nofun⟩
    · next hreply =>
      obtain rfl := respond_refused hreply
      exact ⟨refused_sound hs hphase _, endsWell_of_going nofun⟩
  | uploading completion =>
    have hs' : Sound (runnerCompleteCommit H now j token completion stored db).2 :=
      published_sound (.completionCommit now j token completion stored) rfl hs
    simp only [RunnerSystem.call]
    rcases @runnerCompleteCommit_cases H j token now completion stored db with
      ⟨code, hrefused⟩ | hended
    · rw [hrefused]
      exact ⟨refused_sound hs hphase _, endsWell_of_going nofun⟩
    · split
      · next hreply =>
        rw [hreply] at hs' hended
        exact ⟨⟨hs', trivial⟩, endsWell_of_ended hended nofun nofun⟩
      · next hreply =>
        rw [hreply] at hs' hended
        exact ⟨refused_sound hs' (.inr hended) _, endsWell_of_going nofun⟩
  | failing error =>
    have hiff := reportFailed_ended_iff hphase hs error now
    simp only [RunnerSystem.call]
    refine ⟨⟨reportFailed_sound hs now _, trivial⟩, fun _ _ => ?_⟩
    apply hiff.trans
    apply not_congr
    constructor
    · rintro ⟨job, hj, hstuck⟩
      exact .inl ⟨error, job, rfl, hj, hstuck⟩
    · rintro (⟨_, job, heq, hj, hstuck⟩ | ⟨_, hstarting, -⟩)
      · cases heq
        exact ⟨job, hj, hstuck⟩
      · cases hstarting
  | interrupted =>
    have hended := runnerCancelled_ended hphase hs now
    have hs' : Sound (runnerCancelled H now j token db).2 :=
      published_sound (.markCancelled now j token) rfl hs
    exact ⟨⟨hs', trivial⟩, endsWell_of_ended hended nofun nofun⟩
  | ended started => exact ⟨⟨hs, trivial⟩, nofun⟩

theorem RunnerSound.poll (h : RunnerSound H j token r) :
    RunnerSound H j token (r.poll H j token) ∧ EndsWell j r (r.poll H j token) := by
  obtain ⟨db, phase⟩ := r
  cases phase with
  | researching =>
    simp only [RunnerSystem.poll]
    split
    · exact ⟨⟨h.sound, h.phase⟩, endsWell_of_going nofun⟩
    · next state hne hstop =>
      obtain ⟨hstate, job, hj, hst⟩ := stopState?_some hstop
      have hfailed : job.state = .failed := by
        rw [hst]
        exact hstate.resolve_left hne
      exact ⟨⟨h.sound, trivial⟩, endsWell_of_ended ⟨job, hj, by rw [hfailed]; rfl⟩ nofun nofun⟩
    · exact ⟨h, endsWell_of_going nofun⟩
  | ended started => exact ⟨h, nofun⟩
  | _ => exact ⟨h, endsWell_of_going nofun⟩

theorem RunnerSound.turn (h : RunnerSound H j token r) {phase : RunnerPhase}
    (hphase : InHand H r.db j token → phase.Holds H r.db j token) (hgoing : phase.isEnded = false) :
    RunnerSound H j token (r.turn phase) ∧ EndsWell j r (r.turn phase) := by
  obtain ⟨db, current⟩ := r
  cases current with
  | researching =>
    refine ⟨⟨h.sound, hphase h.phase⟩, endsWell_of_going ?_⟩
    intro heq
    subst heq
    cases hgoing
  | ended started => exact ⟨h, nofun⟩
  | _ => exact ⟨h, endsWell_of_going nofun⟩

theorem RunnerSound.interrupt (h : RunnerSound H j token r) :
    RunnerSound H j token r.interrupt ∧ EndsWell j r r.interrupt := by
  obtain ⟨db, current⟩ := r
  cases current with
  | researching | acknowledging | expired =>
    exact ⟨⟨h.sound, h.phase⟩, endsWell_of_going nofun⟩
  | ended started => exact ⟨h, nofun⟩
  | _ => exact ⟨h, endsWell_of_going nofun⟩

/-- What others do leaves the job in the runner's hands, or takes it away. -/
theorem RunnerSound.other (h : RunnerSound H j token r) (op : Op) :
    RunnerSound H j token ⟨step H op r.db, r.phase⟩ ∨ TakenBy j op (step H op r.db) := by
  have hs := step_sound H op h.sound
  have hstep (hhand : InHand H r.db j token) := hhand.step h.sound op
  have hphase := h.phase
  obtain ⟨db, phase⟩ := r
  cases phase with
  | fetching => exact .inl ⟨hs, trivial⟩
  | starting => exact .inl ⟨hs, trivial⟩
  | ended started => exact .inl ⟨hs, trivial⟩
  | _ => exact (hstep hphase).imp_left fun hhand => ⟨hs, hhand⟩

end

/-! ### Every interleaving -/

/-- Some step of the inputs took the job away from its runner. -/
def Taken (H : Hashing) (j : JobId) (token : String) (statusText : Nat → Text)
    (start : RunnerSystem) (inputs : List RunnerInput) : Prop :=
  ∃ before op, before ++ [.other op] <+: inputs ∧
    TakenBy j op ((runnerSystem H j token statusText).run start (before ++ [.other op])).db

section
variable {H : Hashing} {j : JobId} {token : String} {statusText : Nat → Text} {r : RunnerSystem}

theorem RunnerSound.next (h : RunnerSound H j token r) (i : RunnerInput) (hother : ∀ op, i ≠ .other op) :
    RunnerSound H j token ((runnerSystem H j token statusText).next i r) ∧
      EndsWell j r ((runnerSystem H j token statusText).next i r) := by
  cases i with
  | other op => exact (hother op rfl).elim
  | call now stored => exact h.call now stored
  | poll => exact h.poll
  | finished completion => exact h.turn id rfl
  | raised error => exact h.turn id rfl
  | timedOut => exact h.turn id rfl
  | interrupt => exact h.interrupt

theorem runner_sound (h : RunnerSound H j token r) (inputs : List RunnerInput) :
    RunnerSound H j token ((runnerSystem H j token statusText).run r inputs) ∨
      Taken H j token statusText r inputs := by
  have hkeep := Machine.run_kept (M := runnerSystem H j token statusText) (A := fun _ => True)
    (P := RunnerSound H j token) (Q := fun i r => ∃ op, i = .other op ∧ TakenBy j op r.db) ?_
    h inputs fun _ _ => trivial
  · refine hkeep.imp_right ?_
    rintro ⟨before, _, hpre, op, rfl, htaken⟩
    exact ⟨before, op, hpre, htaken⟩
  · rintro i r - hr
    by_cases hother : ∃ op, i = .other op
    · obtain ⟨op, rfl⟩ := hother
      exact (hr.other op).imp_right fun htaken => ⟨op, rfl, htaken⟩
    · exact .inl (hr.next i fun op hop => hother ⟨op, hop⟩).1

/-- After its end the process does nothing, and a job that has ended stays. -/
theorem run_ended (hs : Sound r.db) (hended : Ended r.db j) {started : Bool}
    (hphase : r.phase = .ended started) (more : List RunnerInput) :
    Ended ((runnerSystem H j token statusText).run r more).db j ∨
      Taken H j token statusText r more := by
  have hkeep := Machine.run_kept (M := runnerSystem H j token statusText) (A := fun _ => True)
    (P := fun r => Sound r.db ∧ Ended r.db j ∧ r.phase = .ended started)
    (Q := fun i r => ∃ op, i = .other op ∧ TakenBy j op r.db) ?_ ⟨hs, hended, hphase⟩ more
    fun _ _ => trivial
  · refine hkeep.imp (fun h => h.2.1) ?_
    rintro ⟨before, _, hpre, op, rfl, htaken⟩
    exact ⟨before, op, hpre, htaken⟩
  · rintro i ⟨db, phase⟩ - ⟨hs, hended, hphase⟩
    obtain rfl : phase = .ended started := hphase
    cases i with
    | other op =>
      rcases hended.step hs op with hstill | hgone
      · exact .inl ⟨step_sound H op hs, hstill, rfl⟩
      · exact .inr ⟨op, rfl, .inr hgone⟩
    | _ => exact .inl ⟨hs, hended, rfl⟩

end

end ResearchGateway
