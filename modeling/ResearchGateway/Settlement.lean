import ResearchGateway.JobInvariant

/-! What is settled stays settled.

A terminal job is frozen: every column, event and artifact it has is there for
good, except for what retention deletes. A job on which a cancel was committed is
cancelled or on its way there, whatever its runners report and whatever the
reconcilers decided on older snapshots. -/
namespace ResearchGateway
open Library

/-- Retention took the row of job `j` away. -/
def RemovedBy (j : JobId) (op : Op) (db : Database) : Prop := op.isRetention = true ∧ db.job? j = none

/-- What retention leaves of a job: its row, but for the parent, and some of the rest. -/
structure Remains (s s' : Slice) : Prop where
  row : ∃ job job', s.job = some job ∧ s'.job = some job' ∧
    job' = {job with parentJobId := job'.parentJobId}
  events : s'.events.Sublist s.events
  artifacts : s'.artifacts.Sublist s.artifacts

theorem Remains.refl {s : Slice} {job : ResearchJob} (h : s.job = some job) : Remains s s :=
  ⟨⟨job, job, h, h, rfl⟩, List.Sublist.refl _, List.Sublist.refl _⟩

theorem Remains.trans {a b c : Slice} (hab : Remains a b) (hbc : Remains b c) : Remains a c := by
  obtain ⟨job, job₁, ha, hb, hrow⟩ := hab.row
  obtain ⟨job₁', job₂, hb', hc, hrow'⟩ := hbc.row
  obtain rfl : job₁ = job₁' := Option.some.inj (hb.symm.trans hb')
  refine ⟨⟨job, job₂, ha, hc, ?_⟩, hbc.events.trans hab.events, hbc.artifacts.trans hab.artifacts⟩
  rw [hrow', hrow]

theorem Remains.terminal {s s' : Slice} (h : Remains s s')
    (ht : ∀ job, s.job = some job → job.state.isTerminal = true) :
    ∀ job, s'.job = some job → job.state.isTerminal = true := by
  intro job hjob
  obtain ⟨job₀, job₁, hs, hs', hrow⟩ := h.row
  obtain rfl : job₁ = job := Option.some.inj (hs'.symm.trans hjob)
  rw [hrow]
  exact ht job₀ hs

section
variable {H : Hashing} {op : Op} {acct : Account} {j : JobId} {s s' : Slice} {job : ResearchJob}

/-- Only a creation makes a row. -/
theorem JobStep.created_of_absent (h : JobStep H op j acct s s') (hj : s.job = none)
    (hj' : s'.job = some job) : op.createdId = some j := by
  cases h with
  | created hop => rw [hop, Op.createdId]
  | kept | artifactDeleted =>
    rw [hj] at hj'
    cases hj'
  | removed => cases hj'
  | _ => cases hj

/-! ### Terminal jobs -/

/-- An operation on a terminal job changes nothing, unless it is retention. -/
theorem JobStep.frozen (h : JobStep H op j acct s s') (hs : s.Sound) (hj : s.job = some job)
    (ht : job.state.isTerminal = true) :
    s' = s ∨ (op.isRetention = true ∧ (Remains s s' ∨ s'.job = none)) := by
  cases h with
  | kept => exact .inl rfl
  | created => cases hj
  | @written _ job' w _ _ added _ heffect hadded =>
    obtain rfl : job' = job := Option.some.inj hj
    obtain ⟨hsame, hnotes, -⟩ := heffect.frozen (hs.row _ rfl) ht
    have hnone : added = [] := by
      by_contra hne
      rw [(hadded hne).1] at ht
      cases ht
    rw [hsame, hnotes, hnone, Database.numbered, List.append_nil, List.append_nil]
    exact .inl rfl
  | pruned hop _ hsub =>
    exact .inr ⟨hop, .inl ⟨⟨_, _, rfl, rfl, rfl⟩, hsub, List.Sublist.refl _⟩⟩
  | artifactDeleted hop hsub =>
    exact .inr ⟨hop, .inl ⟨⟨_, _, hj, hj, rfl⟩, List.Sublist.refl _, hsub⟩⟩
  | orphaned hop =>
    exact .inr ⟨hop, .inl ⟨⟨_, _, rfl, rfl, rfl⟩, List.Sublist.refl _, List.Sublist.refl _⟩⟩
  | removed hop => exact .inr ⟨hop, .inr rfl⟩

/-- A job that is open was open before. -/
theorem JobStep.open_of_open {job' : ResearchJob} (h : JobStep H op j acct s s') (hs : s.Sound)
    (hj : s.job = some job) (hj' : s'.job = some job') (hopen : job'.state.isTerminal = false) :
    job.state.isTerminal = false := by
  cases ht : job.state.isTerminal with
  | false => rfl
  | true =>
    have hended (hrem : Remains s s') : job'.state.isTerminal = true :=
      hrem.terminal (fun x hx => by
        obtain rfl := Option.some.inj (hj.symm.trans hx)
        exact ht) job' hj'
    rcases h.frozen hs hj ht with rfl | ⟨-, hrem | hnone⟩
    · rw [hended (Remains.refl hj)] at hopen
      cases hopen
    · rw [hended hrem] at hopen
      cases hopen
    · rw [hnone] at hj'
      cases hj'

end

/-- The job has reached a terminal state. -/
def Ended (db : Database) (j : JobId) : Prop :=
  ∃ job, db.job? j = some job ∧ job.state.isTerminal = true

/-- The job has ended or is not there. -/
def Over (db : Database) (j : JobId) : Prop :=
  ∀ job, db.job? j = some job → job.state.isTerminal = true

theorem Ended.over {db : Database} {j : JobId} (h : Ended db j) : Over db j := by
  obtain ⟨job, hj, ht⟩ := h
  intro job' hj'
  obtain rfl : job = job' := Option.some.inj (hj.symm.trans hj')
  exact ht

section
variable {H : Hashing} {op : Op} {db : Database} {j : JobId}

theorem Over.step (h : Over db j) (hs : Sound db) (hop : op.createdId ≠ some j) :
    Over (step H op db) j := by
  intro job' hj'
  cases hj : db.job? j with
  | none =>
    have hcreated := (job_step H op db j).created_of_absent hj hj'
    exact (hop hcreated).elim
  | some job =>
    cases hopen : job'.state.isTerminal with
    | true => rfl
    | false =>
      have hbefore := (job_step H op db j).open_of_open (hs j) hj hj' hopen
      rw [h job hj] at hbefore
      cases hbefore

theorem Over.refused (h : Over db j) (hs : Sound db) (token : String) (job : ResearchJob)
    (hj : db.job? j = some job) : accepts H job token = false := by
  have htoken := (hs.row hj).token
  rw [JobState.not_active_of_terminal (h job hj)] at htoken
  have hnone : job.runnerTokenHash = none := by simpa using htoken
  simp only [accepts, hnone]

theorem Ended.step_slice (h : Ended db j) (hs : Sound db) {op : Op} (hop : op.isRetention = false) :
    (step H op db).slice j = db.slice j := by
  obtain ⟨job, hj, ht⟩ := h
  rcases (job_step H op db j).frozen (hs j) hj ht with hsame | ⟨hret, -⟩
  · exact hsame
  · rw [hop] at hret
    cases hret

theorem Ended.step (h : Ended db j) (hs : Sound db) (op : Op) :
    Ended (step H op db) j ∨ RemovedBy j op (step H op db) := by
  obtain ⟨job, hj, ht⟩ := h
  have hended (hrem : Remains (db.slice j) ((ResearchGateway.step H op db).slice j)) :
      Ended (ResearchGateway.step H op db) j := by
    obtain ⟨-, job', -, hj', -⟩ := hrem.row
    refine ⟨job', hj', hrem.terminal (fun x hx => ?_) job' hj'⟩
    obtain rfl : job = x := Option.some.inj (hj.symm.trans hx)
    exact ht
  rcases (job_step H op db j).frozen (hs j) hj ht with hsame | ⟨hret, hrem | hgone⟩
  · exact .inl ⟨job, (congrArg Slice.job hsame).trans hj, ht⟩
  · exact .inl (hended hrem)
  · exact .inr ⟨hret, hgone⟩

end

section
variable (H : Hashing) {db : Database} {j : JobId} {job : ResearchJob}

theorem run_frozen (hs : Sound db) (hj : db.job? j = some job) (ht : job.state.isTerminal = true)
    (more : List Op) (hmore : ∀ op ∈ more, op.isRetention = false) :
    ((controlPlane H).run db more).slice j = db.slice j := by
  have hkeep := Machine.run_invariant (M := controlPlane H) (A := fun op => op.isRetention = false)
    (P := fun db' => Sound db' ∧ db'.slice j = db.slice j) ?_ ⟨hs, rfl⟩ more hmore
  · exact hkeep.2
  · rintro op db' hop ⟨hs', hsame⟩
    refine ⟨step_sound H op hs', ?_⟩
    have hj' : db'.job? j = some job := (congrArg Slice.job hsame).trans hj
    rcases (job_step H op db' j).frozen (hs' j) hj' ht with hstep | ⟨hret, -⟩
    · exact hstep.trans hsame
    · rw [hop] at hret
      cases hret

theorem run_remains (hs : Sound db) (hj : db.job? j = some job) (ht : job.state.isTerminal = true)
    (more : List Op) :
    Remains (db.slice j) (((controlPlane H).run db more).slice j) ∨
      ∃ before op, before ++ [op] <+: more ∧
        RemovedBy j op ((controlPlane H).run db (before ++ [op])) := by
  have hkeep := Machine.run_kept (M := controlPlane H) (Q := RemovedBy j)
    (A := fun _ => True) (P := fun db' => Sound db' ∧ Remains (db.slice j) (db'.slice j)) ?_
    ⟨hs, Remains.refl hj⟩ more fun _ _ => trivial
  · exact hkeep.imp_left And.right
  · rintro op db' - ⟨hs', hrem⟩
    obtain ⟨-, job', -, hj', -⟩ := hrem.row
    have ht' := hrem.terminal (fun x hx => by
      obtain rfl : job = x := Option.some.inj (hj.symm.trans hx)
      exact ht) job' hj'
    rcases (job_step H op db' j).frozen (hs' j) hj' ht' with hstep | ⟨hret, hrem' | hgone⟩
    · refine .inl ⟨step_sound H op hs', ?_⟩
      show Remains _ ((step H op db').slice j)
      rw [hstep]
      exact hrem
    · exact .inl ⟨step_sound H op hs', hrem.trans hrem'⟩
    · exact .inr ⟨hret, hgone⟩

end

/-- Terminal jobs are frozen, and the columns tell terminal and open jobs apart. -/
theorem terminal_jobs_frozen (H : Hashing) (ops : List Op) (j : JobId) (job : ResearchJob)
    (hj : (after H ops).job? j = some job) :
    (job.state.isTerminal = true →
      job.runnerTokenHash = none ∧ job.dispatchLeaseExpiresAt = none ∧ job.finishedAt.isSome = true ∧
      (∀ more : List Op, (∀ op ∈ more, op.isRetention = false) →
        ((controlPlane H).run (after H ops) more).slice j = (after H ops).slice j) ∧
      ∀ more : List Op,
        Remains ((after H ops).slice j) (((controlPlane H).run (after H ops) more).slice j) ∨
          ∃ before op, before ++ [op] <+: more ∧
            RemovedBy j op ((controlPlane H).run (after H ops) (before ++ [op]))) ∧
    (job.state.isTerminal = false → job.finishedAt = none ∧ job.result = none) := by
  have hs := after_sound H ops
  have hrow := hs.row hj
  refine ⟨fun ht => ?_, fun hopen => ?_⟩
  · have hidle := JobState.not_active_of_terminal ht
    have htoken := hrow.token
    have hlease := hrow.lease
    have hfinished := hrow.finished
    rw [hidle] at htoken hlease
    rw [ht] at hfinished
    exact ⟨by simpa using htoken, by simpa using hlease, hfinished, run_frozen H hs hj ht,
      run_remains H hs hj ht⟩
  · have hfinished := hrow.finished
    rw [hopen] at hfinished
    have hne : job.state ≠ .succeeded := by
      intro hsucc
      rw [hsucc] at hopen
      cases hopen
    exact ⟨by simpa using hfinished, hrow.result hne⟩

theorem terminal_jobs_frozen_failed :
    let ops := Sample.started ++ [.markFailed 3 1 "token" "boom"]
    ∃ job, (after Sample.hashing ops).job? 1 = some job ∧ job.runnerTokenHash = none ∧
      ∀ more : List Op, (∀ op ∈ more, op.isRetention = false) →
        ((controlPlane Sample.hashing).run (after Sample.hashing ops) more).slice 1 =
          (after Sample.hashing ops).slice 1 := by
  intro ops
  have hrow := (Option.some_get (show ((after Sample.hashing ops).job? 1).isSome by decide)).symm
  have hfrozen := (terminal_jobs_frozen Sample.hashing ops 1 _ hrow).1 (by decide)
  exact ⟨_, hrow, hfrozen.1, hfrozen.2.2.2.1⟩

/-! ### Cancelled jobs -/

/-- The states a cancel leads to. -/
def Cancelling (state : JobState) : Prop := state = .cancelRequested ∨ state = .cancelled

theorem Cancelling.not_succeeded {state : JobState} (h : Cancelling state) : state ≠ .succeeded := by
  intro heq
  subst heq
  exact h.elim nofun nofun

section
variable {H : Hashing} {op : Op} {acct : Account} {j : JobId} {s s' : Slice} {job : ResearchJob}
  {w : Write} {db db' : Database}

/-- Every effect on a job being cancelled leaves it being cancelled. -/
theorem Effect.cancelling (h : Effect H op acct job w) (hs : RowSound job)
    (hc : Cancelling job.state) : Cancelling w.job.state := by
  rcases hc with hc | hc
  · have hother {t : JobState} (ht : job.state = t) (hne : JobState.cancelRequested ≠ t) : False :=
      hne (hc.symm.trans ht)
    cases h with
    | dispatched hst => exact (hother hst nofun).elim
    | renewed => exact .inl hc
    | dispatchRequeued hst => exact (hother hst nofun).elim
    | runnerRequeued hst => exact (hother hst nofun).elim
    | touched => exact .inl hc
    | progressed => exact .inl hc
    | started hst => exact (hother hst nofun).elim
    | cancelRequested => exact .inl rfl
    | closed hst =>
      rcases hst with ⟨rfl, -⟩ | ⟨-, -, hst | hst⟩
      · exact .inr rfl
      · exact (hother hst nofun).elim
      · exact (hother hst nofun).elim
    | succeeded hst => exact (hother hst nofun).elim
    | charged => exact .inl hc
    | revoked hst =>
      rw [hc] at hst
      cases hst
  · rw [(h.frozen hs (by rw [hc]; rfl)).1]
    exact .inr hc

theorem JobStep.cancelling (h : JobStep H op j acct s s') (hs : s.Sound) (hj : s.job = some job)
    (hc : Cancelling job.state) :
    (∃ job', s'.job = some job' ∧ Cancelling job'.state) ∨ (op.isRetention = true ∧ s'.job = none) := by
  cases h with
  | kept => exact .inl ⟨job, hj, hc⟩
  | created => cases hj
  | written _ heffect =>
    obtain rfl := Option.some.inj hj
    exact .inl ⟨_, rfl, heffect.cancelling (hs.row _ rfl) hc⟩
  | pruned =>
    obtain rfl := Option.some.inj hj
    exact .inl ⟨_, rfl, hc⟩
  | artifactDeleted => exact .inl ⟨job, hj, hc⟩
  | orphaned =>
    obtain rfl := Option.some.inj hj
    exact .inl ⟨_, rfl, hc⟩
  | removed hop => exact .inr ⟨hop, rfl⟩

/-- A committed cancel of an open job. -/
theorem requestCancel_cancelling {now : Time} {userId : String} {r : ResearchJob}
    (h : requestCancel now j userId db = .ok (r, db')) (hj : db.job? j = some job)
    (hopen : job.state.isTerminal = false) :
    ∃ job', db'.job? j = some job' ∧ Cancelling job'.state := by
  have hid := Database.id_of_job? hj
  obtain ⟨found, _, hrow, hcancel⟩ := ok_bind h
  obtain ⟨rfl, hfound, -⟩ := ok_user hrow
  obtain rfl : found = job := Option.some.inj (hfound.symm.trans hj)
  rcases ok_ite hcancel with ⟨-, hcancel⟩ | ⟨hp, hcancel⟩
  · obtain ⟨-, rfl⟩ := ok_written hcancel
    exact ⟨_, Database.job?_write hj rfl, .inr rfl⟩
  · rcases ok_ite hcancel with ⟨-, hcancel⟩ | ⟨hdr, hcancel⟩
    · obtain ⟨-, rfl⟩ := ok_written hcancel
      exact ⟨_, Database.job?_write hj rfl, .inl rfl⟩
    · rcases ok_ite hcancel with ⟨ht, -⟩ | ⟨-, hsame⟩
      · rw [hopen] at ht
        cases ht
      · obtain ⟨-, rfl⟩ := ok_pure hsame
        refine ⟨found, hj, .inl ?_⟩
        cases hst : found.state <;> simp_all [JobState.isTerminal]

end

/-- Cancellation is final: once a cancel of an open job has committed, the job is
only ever being cancelled, without a result and without an artifact. -/
theorem cancel_final (H : Hashing) (ops : List Op) (j : JobId) (job : ResearchJob)
    (hj : (after H ops).job? j = some job) (hopen : job.state.isTerminal = false) (now : Time)
    (userId : String) (hcommit : (commit (requestCancel now j userId) (after H ops)).1.isOk = true)
    (more : List Op) :
    let db := after H (ops ++ [.requestCancel now j userId])
    (∃ job', ((controlPlane H).run db more).job? j = some job' ∧ Cancelling job'.state ∧
      job'.result = none ∧ ((controlPlane H).run db more).artifactsOf j = []) ∨
    ∃ before op, before ++ [op] <+: more ∧
      RemovedBy j op ((controlPlane H).run db (before ++ [op])) := by
  intro db
  obtain ⟨r, db', hok⟩ : ∃ r db', requestCancel now j userId (after H ops) = .ok (r, db') := by
    cases ht : requestCancel now j userId (after H ops) with
    | ok p => exact ⟨p.1, p.2, rfl⟩
    | error e =>
      rw [commit_error ht] at hcommit
      cases hcommit
  have hdb : db = db' := by
    show after H (ops ++ [_]) = db'
    rw [after_snoc]
    exact step_of_ok (done_ok hok)
  obtain ⟨job', hj', hc⟩ := requestCancel_cancelling hok hj hopen
  rw [← hdb] at hj'
  have hkeep := Machine.run_kept (M := controlPlane H) (Q := RemovedBy j)
    (A := fun _ => True)
    (P := fun db => Sound db ∧ ∃ job', db.job? j = some job' ∧ Cancelling job'.state) ?_
    ⟨after_sound H _, job', hj', hc⟩ more fun _ _ => trivial
  · refine hkeep.imp_left ?_
    rintro ⟨hs, job', hj', hc⟩
    have hne := hc.not_succeeded
    exact ⟨job', hj', hc, (hs.row hj').result hne, (hs j).artifacts job' hj' hne⟩
  · rintro op db - ⟨hs, job', hj', hc⟩
    rcases (job_step H op db j).cancelling (hs j) hj' hc with hkept | ⟨hret, hgone⟩
    · exact .inl ⟨step_sound H op hs, hkept⟩
    · exact .inr ⟨hret, hgone⟩

/-- A failure and a cancelled report that come in after the cancel. -/
theorem cancel_final_reported :
    let ops := Sample.started ++ [.requestCancel 3 1 "user"] ++
      [.markFailed 4 1 "token" "boom", .markCancelled 5 1 "token"]
    ∃ job, (after Sample.hashing ops).job? 1 = some job ∧ Cancelling job.state ∧ job.result = none := by
  intro ops
  have hrow := (Option.some_get
    (show ((after Sample.hashing Sample.started).job? 1).isSome by decide)).symm
  rcases cancel_final Sample.hashing Sample.started 1 _ hrow (by decide) 3 "user" (by decide)
      [.markFailed 4 1 "token" "boom", .markCancelled 5 1 "token"] with
    ⟨job, hj, hc, hresult, -⟩ | ⟨before, op, hpre, hret, -⟩
  · rw [after, Machine.run_append]
    exact ⟨job, hj, hc, hresult⟩
  · have hop := hpre.subset (List.mem_append_right before (List.mem_singleton_self op))
    simp only [List.mem_cons, List.not_mem_nil, or_false] at hop
    rcases hop with rfl | rfl <;> cases hret

end ResearchGateway
