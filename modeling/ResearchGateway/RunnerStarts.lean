import ResearchGateway.ConcurrencyCap
import ResearchGateway.Reconcilers

/-! How often a job is started.

The limit on attempts is compared with `job.attempt`, which every claim advances,
also one after a dispatch that never started. What bounds the starts is that a
job leaves RUNNING for the queue only by a retry, and a retry sees an attempt
below the limit: starts are fewer than attempts as long as the job waits, and
fewer than the limit (`runner_starts_bounded`). -/
namespace ResearchGateway
open Library

def Database.running (db : Database) (j : JobId) : Bool :=
  (db.job? j).any fun job => job.state = .running

/-- What the gateway appends as the job enters RUNNING. -/
def startedEvent : String := "job.started"

def startedEvents (events : List ResearchEvent) : Nat :=
  events.countP fun e => e.eventType = startedEvent

/-- No runner sends an event of that type. -/
def Op.sendsNoStart : Op → Bool
  | .appendRunnerEvent _ _ _ eventType _ => eventType ≠ startedEvent
  | _ => true

def ControllerInput.sendsNoStart : ControllerInput → Bool
  | .request op _ => op.sendsNoStart
  | _ => true

section
variable (H : Hashing) (settings : ControllerSettings)

/-- The replicas, recording each time the job enters RUNNING. -/
def starts (j : JobId) : Machine ControllerSystem ControllerInput Unit :=
  (controllers H settings).observing fun i w =>
    if w.db.running j = false ∧ ((controllers H settings).next i w).db.running j = true then [()]
    else []

/-- How often the job has entered RUNNING. -/
def startCount (inputs : List ControllerInput) (j : JobId) : Nat :=
  ((starts H settings j).trace .initial inputs).length

end

/-- The row of a job after `n` starts. -/
structure StartedTimes (limit : Nat) (job : ResearchJob) (n : Nat) : Prop where
  within : n ≤ limit
  counted : n ≤ job.attempt
  waiting : job.state = .pending ∨ job.state = .dispatched → n < limit
  dispatched : job.state = .dispatched → n < job.attempt

/-! ### One operation -/

section
variable {H : Hashing} {op : Op} {acct : Account} {j : JobId} {s s' : Slice} {job job' : ResearchJob}
  {w : Write} {limit n : Nat}

/-- One more start, if the job enters RUNNING. -/
def nextStarts (before after : JobState) (n : Nat) : Nat :=
  if before ≠ .running ∧ after = .running then n + 1 else n

theorem nextStarts_idle {before after : JobState} (h : after = .running → before = .running) :
    nextStarts before after n = n := by
  unfold nextStarts
  rw [if_neg]
  rintro ⟨hne, hr⟩
  exact hne (h hr)

theorem Effect.startedTimes (h : Effect H op acct job w) (hs : RowSound job)
    (hn : StartedTimes limit job n)
    (hretry : job.state = .running → w.job.state = .pending → job.attempt < limit) :
    StartedTimes limit w.job (nextStarts job.state w.job.state n) := by
  obtain ⟨hwithin, hcounted, hwaiting, hdispatched⟩ := hn
  cases h with
  | dispatched hst =>
    have hlt := hwaiting (.inl hst)
    rw [nextStarts_idle (by simp [dispatchedJob])]
    exact ⟨hwithin, Nat.le_succ_of_le hcounted, fun _ => hlt, fun _ => Nat.lt_succ_of_le hcounted⟩
  | renewed | touched | progressed | charged =>
    rw [nextStarts_idle id]
    exact ⟨hwithin, hcounted, hwaiting, hdispatched⟩
  | dispatchRequeued hst =>
    have hlt := hwaiting (.inr hst)
    rw [nextStarts_idle (by simp)]
    exact ⟨hwithin, hcounted, fun _ => hlt, by simp⟩
  | runnerRequeued hst =>
    have hlt := Nat.lt_of_le_of_lt hcounted (hretry hst rfl)
    rw [nextStarts_idle (by simp)]
    exact ⟨hwithin, hcounted, fun _ => hlt, by simp⟩
  | started hst =>
    have hlt := hwaiting (.inr hst)
    have hless := hdispatched hst
    rw [nextStarts, if_pos (by simp [hst])]
    exact ⟨hlt, hless, by simp, by simp⟩
  | cancelRequested =>
    rw [nextStarts_idle (by simp)]
    exact ⟨hwithin, hcounted, by simp, by simp⟩
  | closed hst =>
    rcases hst with ⟨rfl, -⟩ | ⟨rfl, -⟩
    all_goals
      rw [nextStarts_idle (by simp)]
      exact ⟨hwithin, hcounted, by simp, by simp⟩
  | succeeded =>
    rw [nextStarts_idle (by simp [succeededJob])]
    exact ⟨hwithin, hcounted, by simp [succeededJob], by simp [succeededJob]⟩
  | revoked hst =>
    simp only [hs.revokeToken_eq hst]
    rw [nextStarts_idle id]
    exact ⟨hwithin, hcounted, hwaiting, hdispatched⟩

/-- A start is what appends an event of that type. -/
theorem Effect.startNotes (h : Effect H op acct job w) (hs : RowSound job)
    (hop : op.sendsNoStart = true) :
    n + w.notes.countP (fun note => note.1 = startedEvent) = nextStarts job.state w.job.state n := by
  cases h with
  | dispatched => simp [nextStarts_idle, dispatchedJob, startedEvent]
  | renewed | touched | charged => simp [nextStarts_idle]
  | dispatchRequeued | runnerRequeued | cancelRequested => simp [nextStarts_idle, startedEvent]
  | @progressed _ _ _ eventType _ _ hprogress =>
    rw [hprogress] at hop
    have htype : eventType ≠ startedEvent := by simpa [Op.sendsNoStart] using hop
    simp [nextStarts_idle, htype]
  | started hst => simp [nextStarts, hst, startedEvent]
  | closed hst =>
    rcases hst with ⟨rfl, rfl, -⟩ | ⟨rfl, rfl, -⟩ <;> simp [nextStarts_idle, startedEvent]
  | succeeded => simp [nextStarts_idle, succeededJob, startedEvent]
  | revoked hst => simp [hs.revokeToken_eq hst, nextStarts_idle]

theorem startedEvents_numbered (log : List ResearchEvent) (now : Time) (j : JobId)
    (notes : List (String × Dict)) :
    startedEvents (Database.numbered log now j notes) =
      notes.countP fun note => note.1 = startedEvent := by
  induction notes generalizing log with
  | nil => rfl
  | cons note rest ih =>
    unfold startedEvents at ih ⊢
    rw [Database.numbered, List.countP_cons, List.countP_cons, ih]

theorem startedEvents_append (a b : List ResearchEvent) :
    startedEvents (a ++ b) = startedEvents a + startedEvents b := List.countP_append ..

/-- A job against its starts so far. -/
structure Started (limit : Nat) (s : Slice) (n : Nat) : Prop where
  absent : s.job = none → n = 0
  row : ∀ job, s.job = some job → StartedTimes limit job n

/-- The state a slice's job is in, PENDING where there is none. -/
def Slice.state (s : Slice) : JobState := s.job.elim .pending ResearchJob.state

theorem JobStep.started (h : JobStep H op j acct s s') (hop : op.isRetention = false)
    (hs : s.Sound) (hn : Started limit s n) (hlimit : 1 ≤ limit)
    (hretry : ∀ job job', s.job = some job → s'.job = some job' → job.state = .running →
      job'.state = .pending → job.attempt < limit) :
    Started limit s' (nextStarts s.state s'.state n) ∧
      (op.sendsNoStart = true → startedEvents s.events = n →
        startedEvents s'.events = nextStarts s.state s'.state n) := by
  cases h with
  | kept =>
    rw [nextStarts_idle id]
    exact ⟨hn, fun _ hlog => hlog⟩
  | created =>
    obtain rfl := hn.absent rfl
    rw [nextStarts_idle (by simp [Slice.state, newJob])]
    refine ⟨⟨by simp, fun job hjob => ?_⟩, fun _ hlog => ?_⟩
    · cases hjob
      exact ⟨Nat.zero_le _, Nat.zero_le _, fun _ => hlimit, by simp [newJob]⟩
    · rw [startedEvents_append, hlog, startedEvents_numbered]
      simp [startedEvent]
  | @written _ job w events _ _ hid heffect =>
    have hrow := hs.row job rfl
    refine ⟨⟨by simp, fun job' hjob => ?_⟩, fun hop hlog => ?_⟩
    · cases hjob
      exact heffect.startedTimes hrow (hn.row job rfl) (hretry job w.job rfl rfl)
    · rw [startedEvents_append, hlog, startedEvents_numbered]
      exact heffect.startNotes hrow hop
  | pruned hret | artifactDeleted hret | orphaned hret | removed hret =>
    rw [hop] at hret
    cases hret

end

/-! ### Retries -/

section
variable {H : Hashing} {settings : ControllerSettings} {db : Database} {op : Op} {acct : Account}
  {j : JobId} {s s' : Slice} {job job' : ResearchJob}

/-- Only the stale-runner reconciler sends a running job back to the queue. -/
theorem JobStep.requeued (h : JobStep H op j acct s s') (hsound : s.Sound) (hj : s.job = some job)
    (hj' : s'.job = some job') (hs : job.state = .running) (hp : job'.state = .pending) :
    op.staleRunner? = some j := by
  cases h with
  | kept | artifactDeleted | pruned =>
    rw [Option.some.inj (hj.symm.trans hj'), hp] at hs
    cases hs
  | created => cases hj
  | written hid heffect =>
    obtain rfl := Option.some.inj hj
    obtain rfl := Option.some.inj hj'
    have hbefore {before : JobState} (hst : _ = before) (hne : before ≠ .running) : False :=
      hne (hst.symm.trans hs)
    cases heffect with
    | runnerRequeued _ hop => rw [hop, hid]
    | dispatchRequeued hst => exact (hbefore hst (by simp)).elim
    | closed hst => rcases hst with ⟨rfl, -⟩ | ⟨rfl, -⟩ <;> cases hp
    | revoked hst =>
      rw [hs] at hst
      cases hst
    | renewed | touched | progressed | charged =>
      rw [hs] at hp
      cases hp
    | _ => cases hp
  | orphaned =>
    obtain rfl := Option.some.inj hj
    obtain rfl := Option.some.inj hj'
    rw [hs] at hp
    cases hp
  | removed => cases hj'

theorem stale_requeued {now : Time} {runner : StaleRunner} {action : StaleAction} {error : String}
    (hj : db.job? runner.id = some job)
    (hj' : (step H (.reconcileStaleRunner now runner action error) db).job? runner.id = some job')
    (hs : job.state = .running) (hp : job'.state = .pending) :
    action = .retry ∧ job.attempt = runner.attempt := by
  by_cases hm : staleMatches runner job
  · rw [step_stale_selected hj hm, Database.job?_write hj (staleWrite_id ..)] at hj'
    cases hj'
    exact ⟨staleWrite_pending (.inl hs) hp, hm.1⟩
  · rw [step_stale_skipped (fun x hx => by rwa [Option.some.inj (hx.symm.trans hj)])] at hj'
    rw [Option.some.inj (hj.symm.trans hj'), hp] at hs
    cases hs

theorem staleAction_retry {runner : StaleRunner} (h : staleAction settings runner = .retry) :
    runner.attempt < settings.runnerMaxAttempts := by
  unfold staleAction at h
  split at h
  · cases h
  · split at h
    · assumption
    · cases h

/-- The replicas decide on a stale runner by their own rule. -/
theorem ControllerInput.op?_stale {i : ControllerInput} {w : ControllerSystem} {now : Time}
    {runner : StaleRunner} {action : StaleAction} {error : String}
    (h : i.op? settings w = some (.reconcileStaleRunner now runner action error)) :
    action = staleAction settings runner := by
  cases i with
  | request op hop =>
    have hrequest := Op.stamped_isRequest hop w.clock
    rw [Option.some.inj h] at hrequest
    cases hrequest
  | turn replica s =>
    rcases ControllerPhase.op?_cases h with ⟨_, _, _, -, hop⟩ | ⟨_, _, _, -, hop⟩ | ⟨-, hop⟩ |
      ⟨_, _, _, -, hop⟩ <;> cases hop
    rfl
  | _ => cases h

/-- The controller sends a runner back to the queue only below the limit on attempts. -/
theorem requeued_below {i : ControllerInput} {w : ControllerSystem} (hop : i.op? settings w = some op)
    (hsound : Sound w.db) (hj : w.db.job? j = some job) (hj' : (step H op w.db).job? j = some job')
    (hs : job.state = .running) (hp : job'.state = .pending) :
    job.attempt < settings.runnerMaxAttempts := by
  have hstale := (job_step H op w.db j).requeued (hsound j) hj hj' hs hp
  cases op with
  | reconcileStaleRunner now runner action error =>
    obtain rfl : runner.id = j := Option.some.inj hstale
    obtain ⟨hretry, hattempt⟩ := stale_requeued hj hj' hs hp
    rw [hattempt]
    exact staleAction_retry ((ControllerInput.op?_stale hop).symm.trans hretry)
  | _ => cases hstale

end

/-! ### Runs -/

section
variable {H : Hashing} {settings : ControllerSettings}

theorem running_iff (db : Database) (j : JobId) :
    db.running j = true ↔ (db.slice j).state = .running := by
  unfold Database.running Slice.state Database.slice
  cases db.job? j <;> simp

theorem startCount_snoc (inputs : List ControllerInput) (i : ControllerInput) (j : JobId) :
    startCount H settings (inputs ++ [i]) j =
      nextStarts ((controlled H settings inputs).db.slice j).state
        ((controlled H settings (inputs ++ [i])).db.slice j).state (startCount H settings inputs j) := by
  unfold startCount
  rw [Machine.trace_snoc, List.length_append, controlled_snoc]
  simp only [starts, Machine.run_observing, nextStarts, ne_eq, ← running_iff, Bool.not_eq_true]
  by_cases hstart : (controlled H settings inputs).db.running j = false ∧
      ((controllers H settings).next i (controlled H settings inputs)).db.running j = true
  · rw [if_pos hstart]
    exact congrArg (_ + List.length ·) (if_pos hstart)
  · rw [if_neg hstart]
    exact congrArg (_ + List.length ·) (if_neg hstart)

/-- The controller sends no events for a runner. -/
theorem ControllerInput.op?_sendsNoStart {i : ControllerInput} {w : ControllerSystem} {op : Op}
    (h : i.op? settings w = some op) (hi : i.sendsNoStart = true) : op.sendsNoStart = true := by
  cases i with
  | request op' hop =>
    obtain rfl := Option.some.inj h
    cases op' <;> exact hi
  | turn replica s =>
    rcases ControllerPhase.op?_cases h with ⟨_, _, _, -, rfl⟩ | ⟨_, _, _, -, rfl⟩ | ⟨-, rfl⟩ |
      ⟨_, _, _, -, rfl⟩ <;> rfl
  | _ => cases h

/-- The log and the row of a job against the starts of a run. -/
theorem started_run (inputs : List ControllerInput) (j : JobId) :
    Started settings.runnerMaxAttempts ((controlled H settings inputs).db.slice j)
      (startCount H settings inputs j) ∧
    ((∀ i ∈ inputs, i.sendsNoStart = true) →
      startedEvents ((controlled H settings inputs).db.eventsOf j) = startCount H settings inputs j) := by
  induction inputs using List.reverseRecOn with
  | nil => exact ⟨⟨fun _ => rfl, fun job hj => by cases hj⟩, fun _ => rfl⟩
  | append_singleton inputs i ih =>
    obtain ⟨hstarted, hlog⟩ := ih
    have hs : Sound (controlled H settings inputs).db := controlled_sound inputs
    rw [startCount_snoc, controlled_db]
    cases hop : i.op? settings (controlled H settings inputs) with
    | none =>
      simp only [Database.apply, nextStarts_idle id]
      exact ⟨hstarted, fun hsend => hlog fun k hk => hsend k (List.mem_append_left _ hk)⟩
    | some op =>
      have hstep := (job_step H op (controlled H settings inputs).db j).started
        (ControllerInput.op?_kept hop) (hs j) hstarted settings.attempts_ge
        fun job job' hj hj' => requeued_below hop hs hj hj'
      refine ⟨hstep.1, fun hsend => hstep.2 ?_ (hlog fun k hk => hsend k (List.mem_append_left _ hk))⟩
      exact ControllerInput.op?_sendsNoStart hop
        (hsend i (List.mem_append_right _ (List.mem_singleton_self i)))

end

/-- However often a job is claimed, it enters RUNNING at most as often as the limit on
attempts says, and its log has no more `job.started` events than that, runners that
send such an event themselves apart. -/
theorem runner_starts_bounded (H : Hashing) (settings : ControllerSettings)
    (inputs : List ControllerInput) (j : JobId) :
    startCount H settings inputs j ≤ settings.runnerMaxAttempts ∧
    ((∀ i ∈ inputs, i.sendsNoStart = true) →
      startedEvents ((controlled H settings inputs).db.eventsOf j) ≤ settings.runnerMaxAttempts) := by
  obtain ⟨hstarted, hlog⟩ := @started_run H settings inputs j
  have hle : startCount H settings inputs j ≤ settings.runnerMaxAttempts := by
    cases hj : ((controlled H settings inputs).db.slice j).job with
    | none =>
      rw [hstarted.absent hj]
      exact Nat.zero_le _
    | some job => exact (hstarted.row job hj).within
  exact ⟨hle, fun hsend => by rw [hlog hsend]; exact hle⟩

end ResearchGateway
