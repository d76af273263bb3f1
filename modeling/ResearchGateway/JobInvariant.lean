import ResearchGateway.JobStepProofs

/-! What the columns of a job say together, in every reachable state.

The token hash is held exactly by the active states and the finish time exactly by
the terminal ones. An active job has a dispatch lease as long as no runner started
and a start time afterwards. A job that is not succeeded has no result and no
artifact, and the events of a job that is not terminal are numbered without a gap.
`step_sound` keeps all of it, one effect at a time. -/
namespace ResearchGateway
open Library

structure RowSound (job : ResearchJob) : Prop where
  token : job.runnerTokenHash.isSome = job.state.isActive
  finished : job.finishedAt.isSome = job.state.isTerminal
  result : job.state ≠ .succeeded → job.result = none
  lease : job.dispatchLeaseExpiresAt.isSome = (job.state.isActive && job.startedAt.isNone)
  waiting : job.state = .pending ∨ job.state = .dispatched → job.startedAt = none
  running : job.state = .running → job.startedAt.isSome

structure Slice.Sound (s : Slice) : Prop where
  absent : s.job = none → s.events = [] ∧ s.artifacts = []
  row : ∀ job, s.job = some job → RowSound job
  artifacts : ∀ job, s.job = some job → job.state ≠ .succeeded → s.artifacts = []
  log : ∀ job, s.job = some job → job.state.isTerminal = false →
    Journal.Numbered ResearchEvent.sequence s.events
  increasing : Journal.Increasing ResearchEvent.sequence s.events

def Sound (db : Database) : Prop := ∀ j, (db.slice j).Sound

/-! ### Rows -/

theorem newJob_sound (id : JobId) (now : Time) (userId key digest : String)
    (request : CreateJobRequest) (parent : Option ResearchJob) :
    RowSound (newJob id now userId key digest request parent) where
  token := rfl
  finished := rfl
  result := fun _ => rfl
  lease := rfl
  waiting := fun _ => rfl
  running := nofun

section
variable {H : Hashing} {op : Op} {acct : Account} {job : ResearchJob} {w : Write}

/-- A terminal job has no token to revoke. -/
theorem RowSound.revokeToken_eq (h : RowSound job) (ht : job.state.isTerminal = true) (now : Time) :
    revokeToken now job = job := by
  have hnone : job.runnerTokenHash.isNone = true := by
    have := h.token
    rw [JobState.not_active_of_terminal ht] at this
    simpa using this
  rw [revokeToken, if_pos hnone]

/-- The states an effect starts from, a revoked token apart, are not terminal. -/
theorem Effect.frozen (h : Effect H op acct job w) (hs : RowSound job)
    (ht : job.state.isTerminal = true) : w.job = job ∧ w.notes = [] ∧ acct = {} := by
  have hidle := JobState.not_active_of_terminal ht
  have hbefore {s : JobState} (hst : job.state = s) (hn : s.isTerminal = false) : False := by
    rw [hst, hn] at ht
    cases ht
  cases h with
  | dispatched hst => exact (hbefore hst rfl).elim
  | renewed hst => exact (hst.elim (hbefore · rfl) (hbefore · rfl)).elim
  | dispatchRequeued hst => exact (hbefore hst rfl).elim
  | runnerRequeued hst => exact (hbefore hst rfl).elim
  | touched hst => exact (hst.elim (hbefore · rfl) (hbefore · rfl)).elim
  | progressed hst => exact (hbefore rfl hst).elim
  | started hst => exact (hbefore hst rfl).elim
  | cancelRequested hst => exact (hst.elim (hbefore · rfl) (hbefore · rfl)).elim
  | closed hst =>
    rcases hst with ⟨-, -, hst | hst | hst⟩ | ⟨-, -, hst | hst⟩ <;> exact (hbefore hst rfl).elim
  | succeeded hst => exact (hbefore hst rfl).elim
  | charged htoken =>
    rw [hs.token, hidle] at htoken
    cases htoken
  | revoked hst => exact ⟨hs.revokeToken_eq ht _, rfl, rfl⟩

/-- Every effect leaves the columns consistent. -/
theorem Effect.rowSound (h : Effect H op acct job w) (hs : RowSound job) : RowSound w.job := by
  obtain ⟨htoken, hfinished, hresult, hlease, hwaiting, hrunning⟩ := hs
  cases h with
  | dispatched hst =>
    have hstart := hwaiting (.inl hst)
    have hres := hresult (by rw [hst]; decide)
    rw [hst] at hfinished
    exact ⟨rfl, hfinished, fun _ => hres, by simp [dispatchedJob, JobState.isActive, hstart],
      fun _ => hstart, fun hr => by cases hr⟩
  | renewed hst hstart =>
    refine ⟨htoken, hfinished, hresult, ?_, hwaiting, hrunning⟩
    rcases hst with hst | hst <;> simp [hst, hstart, JobState.isActive]
  | dispatchRequeued hst hstart =>
    have hres := hresult (by rw [hst]; decide)
    rw [hst] at hfinished
    exact ⟨rfl, hfinished, fun _ => hres, rfl, fun _ => hstart, fun hr => by cases hr⟩
  | runnerRequeued hst =>
    have hres := hresult (by rw [hst]; decide)
    exact ⟨rfl, rfl, fun _ => hres, rfl, fun _ => rfl, fun hr => by cases hr⟩
  | touched hst => exact ⟨htoken, hfinished, hresult, hlease, hwaiting, hrunning⟩
  | progressed hst => exact ⟨htoken, hfinished, hresult, hlease, hwaiting, hrunning⟩
  | started hst =>
    have hres := hresult (by rw [hst]; decide)
    rw [hst] at htoken hfinished
    exact ⟨htoken, hfinished, fun _ => hres, rfl, fun hw => by simp at hw, fun _ => rfl⟩
  | cancelRequested hst =>
    have hres := hresult (by rcases hst with hst | hst <;> rw [hst] <;> decide)
    have hactive : job.state.isActive = true := by rcases hst with hst | hst <;> rw [hst] <;> rfl
    have hopen : job.state.isTerminal = false := by rcases hst with hst | hst <;> rw [hst] <;> rfl
    rw [hactive] at htoken hlease
    rw [hopen] at hfinished
    exact ⟨htoken, hfinished, fun _ => hres, hlease, fun hw => by simp at hw, fun hr => by cases hr⟩
  | @closed _ _ after _ _ _ lease hst hl =>
    have hres := hresult (by
      rcases hst with ⟨-, -, hst | hst | hst⟩ | ⟨-, -, hst | hst⟩ <;> rw [hst] <;> decide)
    have hclosed : after = .cancelled ∨ after = .failed := hst.imp And.left And.left
    have hnone : lease = none := by
      rcases hl with hl | ⟨hp, hl⟩
      · exact hl
      · rw [hp] at hlease
        rw [hl]
        simpa [JobState.isActive] using hlease
    subst hnone
    rcases hclosed with rfl | rfl <;>
      exact ⟨rfl, rfl, fun _ => hres, rfl, fun hw => by simp at hw, fun hr => by cases hr⟩
  | succeeded hst =>
    exact ⟨rfl, rfl, fun hne => absurd rfl hne, rfl, fun hw => by simp [succeededJob] at hw,
      fun hr => by cases hr⟩
  | charged => exact ⟨htoken, hfinished, hresult, hlease, hwaiting, hrunning⟩
  | revoked hst =>
    have hsame := RowSound.revokeToken_eq
      ⟨htoken, hfinished, hresult, hlease, hwaiting, hrunning⟩ hst
    show RowSound (revokeToken _ job)
    rw [hsame]
    exact ⟨htoken, hfinished, hresult, hlease, hwaiting, hrunning⟩

/-- Only a job that is open is written to. -/
theorem Effect.open_of_open (h : Effect H op acct job w) (hs : RowSound job)
    (hw : w.job.state.isTerminal = false) : job.state.isTerminal = false := by
  cases ht : job.state.isTerminal with
  | false => rfl
  | true =>
    rw [(h.frozen hs ht).1, ht] at hw
    cases hw

end

/-! ### Slices -/

theorem numbered_append {log : List ResearchEvent} (h : Journal.Numbered ResearchEvent.sequence log)
    (now : Time) (j : JobId) (notes : List (String × Dict)) :
    Journal.Numbered ResearchEvent.sequence (log ++ Database.numbered log now j notes) := by
  induction notes generalizing log with
  | nil => rwa [Database.numbered, List.append_nil]
  | cons n rest ih =>
    rw [Database.numbered, List.append_cons]
    exact ih (h.append rfl)

theorem absent_sound : Slice.Sound ⟨none, [], []⟩ := by
  refine ⟨fun _ => ⟨rfl, rfl⟩, ?_, ?_, ?_, List.Pairwise.nil⟩
  all_goals
    intro job hjob
    cases hjob

section
variable {H : Hashing} {op : Op} {acct : Account} {j : JobId} {s s' : Slice}

/-- A write keeps the slice of a job consistent, and rows of artifacts come with SUCCEEDED. -/
theorem Effect.slice_sound {job : ResearchJob} {w : Write} {events : List ResearchEvent}
    {artifacts added : List ResearchArtifact} (h : Effect H op acct job w)
    (hs : Slice.Sound ⟨some job, events, artifacts⟩)
    (hadded : added ≠ [] → job.state = .running ∧ w.job.state = .succeeded) :
    Slice.Sound ⟨some w.job, events ++ Database.numbered events w.now j w.notes, artifacts ++ added⟩ := by
  have hrow := hs.row _ rfl
  refine ⟨by simp, ?_, ?_, ?_, ?_⟩
  · intro job' hjob
    cases hjob
    exact h.rowSound hrow
  · intro job' hjob hst
    cases hjob
    have hnone : added = [] := by
      by_contra hne
      exact hst (hadded hne).2
    have hbefore : job.state ≠ .succeeded := by
      intro hsucc
      rw [(h.frozen hrow (by rw [hsucc]; rfl)).1] at hst
      exact hst hsucc
    rw [hnone, List.append_nil]
    exact hs.artifacts _ rfl hbefore
  · intro job' hjob hopen
    cases hjob
    exact numbered_append (hs.log _ rfl (h.open_of_open hrow hopen)) ..
  · cases ht : job.state.isTerminal with
    | false => exact (numbered_append (hs.log _ rfl ht) ..).increasing
    | true =>
      rw [(h.frozen hrow ht).2.1, Database.numbered, List.append_nil]
      exact hs.increasing

theorem JobStep.sound (h : JobStep H op j acct s s') (hs : s.Sound) : s'.Sound := by
  cases h with
  | kept => exact hs
  | created hop =>
    obtain ⟨hevents, hartifacts⟩ := hs.absent rfl
    simp only at hevents hartifacts
    subst hevents hartifacts
    have hlog (now : Time) := numbered_append Journal.numbered_nil now j
      [("job.created", record [("state", .str "pending")])]
    refine ⟨by simp, ?_, fun _ _ _ => rfl, fun _ _ _ => hlog _, (hlog _).increasing⟩
    intro job hjob
    cases hjob
    exact newJob_sound ..
  | written hid heffect hadded => exact heffect.slice_sound hs hadded
  | @pruned job _ _ _ _ ht hsub =>
    refine ⟨by simp, hs.row, hs.artifacts, ?_, hs.increasing.sublist hsub⟩
    intro job' hjob hopen
    cases hjob
    rw [ht] at hopen
    cases hopen
  | artifactDeleted _ hsub =>
    refine ⟨fun hnone => ?_, hs.row, fun job hjob hst => ?_, hs.log, hs.increasing⟩
    · obtain ⟨hevents, hartifacts⟩ := hs.absent hnone
      simp only at hevents hartifacts
      rw [hartifacts] at hsub
      exact ⟨hevents, List.sublist_nil.mp hsub⟩
    · have hartifacts := hs.artifacts job hjob hst
      simp only at hartifacts
      rw [hartifacts] at hsub
      exact List.sublist_nil.mp hsub
  | orphaned =>
    obtain ⟨htoken, hfinished, hresult, hlease, hwaiting, hrunning⟩ := hs.row _ rfl
    refine ⟨by simp, ?_, ?_, ?_, hs.increasing⟩
    · intro job' hjob
      cases hjob
      exact ⟨htoken, hfinished, hresult, hlease, hwaiting, hrunning⟩
    · intro job' hjob hst
      cases hjob
      exact hs.artifacts _ rfl hst
    · intro job' hjob hopen
      cases hjob
      exact hs.log _ rfl hopen
  | removed => exact absent_sound

end

/-! ### Reachable states -/

theorem slice_empty (j : JobId) : Database.empty.slice j = ⟨none, [], []⟩ := rfl

theorem empty_sound : Sound .empty := fun j => by
  rw [slice_empty]
  exact absent_sound

theorem step_sound (H : Hashing) (op : Op) {db : Database} (h : Sound db) : Sound (step H op db) :=
  fun j => (job_step H op db j).sound (h j)

theorem run_sound (H : Hashing) {db : Database} (h : Sound db) (ops : List Op) :
    Sound ((controlPlane H).run db ops) :=
  Machine.run_invariant (fun op _ (_ : True) => step_sound H op) h ops fun _ _ => trivial

theorem after_sound (H : Hashing) (ops : List Op) : Sound (after H ops) := run_sound H empty_sound ops

theorem Sound.row {db : Database} (h : Sound db) {j : JobId} {job : ResearchJob}
    (hj : db.job? j = some job) : RowSound job := (h j).row job hj

end ResearchGateway
