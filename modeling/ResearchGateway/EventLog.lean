import ResearchGateway.JobInvariant

/-! The event log as the history of a job.

`lifecycle` is what an event says about the state of its job. Every change of state
appends one event that says so, and nothing else appends one (`Effect.lifecycle`).
So the events appended since a job was created are numbered from one without a
gap, replay to its state, and end with the one event that closes the job; the log
of an open job is all of them (`event_log_faithful`). -/
namespace ResearchGateway
open Library

/-- The state that an event type announces; progress announces none. -/
def lifecycle (eventType : String) : Option JobState :=
  match eventType with
  | "job.created" | "job.dispatch_requeued" | "job.runner_requeued" => some .pending
  | "job.dispatched" => some .dispatched
  | "job.started" => some .running
  | "job.cancel_requested" => some .cancelRequested
  | "job.succeeded" => some .succeeded
  | "job.failed" => some .failed
  | "job.cancelled" => some .cancelled
  | _ => none

def ResearchEvent.announces (e : ResearchEvent) : Option JobState := lifecycle e.eventType

/-- The event announces a terminal state. -/
def ResearchEvent.closes (e : ResearchEvent) : Bool := e.announces.any JobState.isTerminal

/-- The only event type that the runner and the engine send. -/
def Op.progressOnly : Op → Bool
  | appendRunnerEvent _ _ _ eventType _ => eventType = "research.progress"
  | _ => true

section
variable (H : Hashing)

/-- The events of a job that an operation appends. -/
def newEvents (op : Op) (db : Database) (j : JobId) : List ResearchEvent :=
  Journal.unseen ResearchEvent.sequence ((step H op db).eventsOf j) (db.eventsOf j)

/-- The control plane, recording each creation of a job and each event appended to it. -/
def eventHistory (j : JobId) : Machine Database Op (Option ResearchEvent) :=
  (controlPlane H).observing fun op db =>
    (if opens H op db j then [none] else []) ++ (newEvents H op db j).map some

/-- Every event appended to a job since it was created, deleted or not. -/
def appended (ops : List Op) (j : JobId) : List ResearchEvent :=
  Journal.since ((eventHistory H j).trace .empty ops)

end

/-! ### One operation -/

section
variable {H : Hashing} {op : Op} {acct : Account} {j : JobId} {s s' : Slice} {job job' : ResearchJob}
  {w : Write}

/-- A change of state appends exactly the event that announces the new state. -/
theorem Effect.lifecycle (h : Effect H op acct job w) (hs : RowSound job)
    (hop : op.progressOnly = true) :
    (w.job.state = job.state ∧ ∀ n ∈ w.notes, lifecycle n.1 = none) ∨
      (w.job.state ≠ job.state ∧ job.state.isTerminal = false ∧
        ∃ n, w.notes = [n] ∧ lifecycle n.1 = some w.job.state) := by
  have hchange {t : String} {data : Dict} {before state : JobState} (hst : job.state = before)
      (hne : state ≠ before) (hopen : before.isTerminal = false)
      (hl : ResearchGateway.lifecycle t = some state) :
      state ≠ job.state ∧ job.state.isTerminal = false ∧
        ∃ n, [(t, data)] = [n] ∧ ResearchGateway.lifecycle n.1 = some state := by
    rw [hst]
    exact ⟨hne, hopen, _, rfl, hl⟩
  cases h with
  | dispatched hst => exact .inr (hchange hst nofun rfl rfl)
  | renewed | touched | charged => exact .inl ⟨rfl, nofun⟩
  | dispatchRequeued hst => exact .inr (hchange hst nofun rfl rfl)
  | runnerRequeued hst => exact .inr (hchange hst nofun rfl rfl)
  | progressed _ hprogress =>
    rw [hprogress] at hop
    refine .inl ⟨rfl, fun n hn => ?_⟩
    rw [List.mem_singleton.mp hn]
    have htype : _ = "research.progress" := of_decide_eq_true hop
    rw [htype]
    rfl
  | started hst => exact .inr (hchange hst nofun rfl rfl)
  | cancelRequested hst =>
    rcases hst with hst | hst
    · exact .inr (hchange hst nofun rfl rfl)
    · exact .inr (hchange hst nofun rfl rfl)
  | closed hst =>
    rcases hst with ⟨rfl, rfl, hst | hst | hst⟩ | ⟨rfl, rfl, hst | hst⟩
    all_goals exact .inr (hchange hst nofun rfl rfl)
  | succeeded hst => exact .inr (hchange hst nofun rfl rfl)
  | revoked hst =>
    refine .inl ⟨?_, nofun⟩
    show (revokeToken _ job).state = _
    rw [hs.revokeToken_eq hst]

theorem mem_numbered {log : List ResearchEvent} {now : Time} {notes : List (String × Dict)}
    {e : ResearchEvent} (h : e ∈ Database.numbered log now j notes) :
    ∃ n ∈ notes, e.eventType = n.1 := by
  induction notes generalizing log with
  | nil => cases h
  | cons n rest ih =>
    rcases List.mem_cons.mp h with rfl | hrest
    · exact ⟨n, List.mem_cons_self .., rfl⟩
    · obtain ⟨m, hm, htype⟩ := ih hrest
      exact ⟨m, List.mem_cons_of_mem n hm, htype⟩

/-- The events that an effect appends announce the new state, if it is new. -/
theorem Effect.announced (h : Effect H op acct job w) (hs : RowSound job)
    (hop : op.progressOnly = true) (log : List ResearchEvent) :
    (w.job.state = job.state ∧ ∀ e ∈ Database.numbered log w.now j w.notes, e.announces = none) ∨
      (w.job.state ≠ job.state ∧ job.state.isTerminal = false ∧
        ∃ e, Database.numbered log w.now j w.notes = [e] ∧ e.announces = some w.job.state) := by
  rcases h.lifecycle hs hop with ⟨hsame, hnotes⟩ | ⟨hne, hopen, n, hnotes, hlife⟩
  · refine .inl ⟨hsame, fun e he => ?_⟩
    obtain ⟨n, hn, htype⟩ := mem_numbered he
    show ResearchGateway.lifecycle e.eventType = none
    rw [htype]
    exact hnotes n hn
  · let e : ResearchEvent :=
      ⟨j, Journal.lastNumber (log.map ResearchEvent.sequence) + 1, n.1, n.2, w.now⟩
    refine .inr ⟨hne, hopen, e, ?_, hlife⟩
    rw [hnotes]
    rfl

end

/-! ### The history of a job -/

/-- A job, its log, and all that was ever appended to the log. -/
structure Logged (job : ResearchJob) (log appended : List ResearchEvent) : Prop where
  numbered : Journal.Numbered ResearchEvent.sequence appended
  kept : log.Sublist appended
  complete : job.state.isTerminal = false → log = appended
  replayed : Journal.replay ResearchEvent.announces none appended = some job.state
  unclosed : job.state.isTerminal = false → ∀ e ∈ appended, e.closes = false
  closed : job.state.isTerminal = true →
    ∃ front last, appended = front ++ [last] ∧ last.closes = true ∧ ∀ e ∈ front, e.closes = false

section
variable {H : Hashing} {op : Op} {acct : Account} {j : JobId} {s s' : Slice} {job job' : ResearchJob}
  {w : Write} {log all : List ResearchEvent}

/-- What retention leaves of a log still ends with the closing event, if it is left. -/
theorem Logged.ends_with (hl : Logged job log all) (ht : job.state.isTerminal = true)
    {e : ResearchEvent} (he : e ∈ log) (hc : e.closes = true) : ∃ front, log = front ++ [e] := by
  obtain ⟨front, last, hall, -, hquiet⟩ := hl.closed ht
  have hkept := hl.kept
  rw [hall] at hkept
  obtain ⟨before, tail, rfl, hbefore, htail⟩ := List.sublist_append_iff.mp hkept
  have hnot : e ∉ before := fun hmem => by simp [hquiet e (hbefore.subset hmem)] at hc
  have hmem : e ∈ tail := (List.mem_append.mp he).resolve_left hnot
  rcases List.sublist_singleton.mp htail with rfl | rfl
  · cases hmem
  · rw [List.mem_singleton.mp hmem]
    exact ⟨before, rfl⟩

theorem closes_of_announces {e : ResearchEvent} {state : JobState} (h : e.announces = some state) :
    e.closes = state.isTerminal := by
  rw [ResearchEvent.closes, h]
  rfl

theorem Effect.logged (h : Effect H op acct job w) (hs : RowSound job) (hop : op.progressOnly = true)
    (hl : Logged job log all) :
    Logged w.job (log ++ Database.numbered log w.now j w.notes)
      (all ++ Database.numbered log w.now j w.notes) := by
  cases ht : job.state.isTerminal with
  | true =>
    obtain ⟨hsame, hnotes, -⟩ := h.frozen hs ht
    rw [hsame, hnotes, Database.numbered, List.append_nil, List.append_nil]
    exact hl
  | false =>
    obtain rfl := hl.complete ht
    have hnumbered := numbered_append hl.numbered w.now j w.notes
    have hquiet := hl.unclosed ht
    rcases h.announced (j := j) hs hop log with ⟨hsame, hnone⟩ | ⟨-, -, e, hone, hann⟩
    · refine ⟨hnumbered, List.Sublist.refl _, fun _ => rfl, ?_, fun _ e he => ?_, fun hterm => ?_⟩
      · rw [Journal.replay_append, Journal.replay_silent hnone, hl.replayed, hsame]
      · rcases List.mem_append.mp he with he | he
        · exact hquiet e he
        · rw [ResearchEvent.closes, hnone e he]
          rfl
      · rw [hsame, ht] at hterm
        cases hterm
    · rw [hone] at hnumbered ⊢
      refine ⟨hnumbered, List.Sublist.refl _, fun _ => rfl, ?_, fun hopen x hx => ?_, fun hterm => ?_⟩
      · rw [Journal.replay_append]
        show (e.announces.or _) = _
        rw [hann, Option.some_or]
      · rcases List.mem_append.mp hx with hx | hx
        · exact hquiet x hx
        · rw [List.mem_singleton.mp hx, closes_of_announces hann, hopen]
      · exact ⟨log, e, rfl, (closes_of_announces hann).trans hterm, hquiet⟩

/-- What is recorded of a step: a new start if the job was created, and the events
that the log did not hold. -/
def recorded (s s' : Slice) : List (Option ResearchEvent) :=
  (if s.job.isNone && s'.job.isSome then [none] else []) ++
    (Journal.unseen ResearchEvent.sequence s'.events s.events).map some

/-- The events recorded of a step on a job that exists. -/
theorem since_recorded {history : List (Option ResearchEvent)} (hj : s.job = some job) :
    Journal.since (history ++ recorded s s') =
      Journal.since history ++ Journal.unseen ResearchEvent.sequence s'.events s.events := by
  rw [recorded, hj, Option.isNone_some, Bool.false_and, if_neg Bool.false_ne_true, List.nil_append,
    Journal.since_append_some]

theorem since_created {history : List (Option ResearchEvent)} (hj : s.job = none)
    (hj' : s'.job = some job) :
    Journal.since (history ++ recorded s s') =
      Journal.unseen ResearchEvent.sequence s'.events s.events := by
  rw [recorded, hj, hj', Option.isNone_none, Option.isSome_some, Bool.true_and, if_pos rfl,
    ← List.append_assoc, Journal.since_append_some, Journal.since_append_none, List.nil_append]

/-- A step keeps the log and the history of every job in line. -/
theorem JobStep.logged (h : JobStep H op j acct s s') (hs : s.Sound) (hop : op.progressOnly = true)
    {history : List (Option ResearchEvent)}
    (hl : ∀ job, s.job = some job → Logged job s.events (Journal.since history)) :
    ∀ job, s'.job = some job → Logged job s'.events (Journal.since (history ++ recorded s s')) := by
  have hs' := h.sound hs
  intro job' hj'
  cases h with
  | kept =>
    rw [since_recorded hj', Journal.unseen_sublist (List.Sublist.refl _), List.append_nil]
    exact hl job' hj'
  | @created now =>
    cases hj'
    obtain ⟨hevents, -⟩ := hs.absent rfl
    subst hevents
    have hnumbered := numbered_append Journal.numbered_nil now j
      [("job.created", record [("state", .str "pending")])]
    rw [List.nil_append] at hnumbered
    rw [since_created rfl rfl, Journal.unseen_append hs'.increasing]
    exact ⟨hnumbered, List.Sublist.refl _, fun _ => rfl, rfl,
      fun _ e he => by rw [List.mem_singleton.mp he]; rfl, nofun⟩
  | @written _ job w events _ added hid heffect =>
    cases hj'
    rw [since_recorded rfl]
    have hnew := Journal.unseen_append hs'.increasing
    simp only at hnew ⊢
    rw [hnew]
    exact heffect.logged (hs.row _ rfl) hop (hl _ rfl)
  | pruned _ ht hsub =>
    cases hj'
    rw [since_recorded rfl, Journal.unseen_sublist hsub, List.append_nil]
    have hlog := hl _ rfl
    refine ⟨hlog.numbered, hsub.trans hlog.kept, fun hopen => ?_, hlog.replayed, hlog.unclosed,
      hlog.closed⟩
    rw [ht] at hopen
    cases hopen
  | @artifactDeleted job events artifacts =>
    rw [since_recorded (s := ⟨job, events, artifacts⟩) hj', Journal.unseen_sublist (List.Sublist.refl _), List.append_nil]
    exact hl job' hj'
  | orphaned =>
    cases hj'
    rw [since_recorded rfl, Journal.unseen_sublist (List.Sublist.refl _), List.append_nil]
    have hlog := hl _ rfl
    exact ⟨hlog.numbered, hlog.kept, hlog.complete, hlog.replayed, hlog.unclosed, hlog.closed⟩
  | removed => cases hj'

theorem JobStep.log_intact (h : JobStep H op j acct s s') (hs : s.Sound)
    (hop : op.isRetention = false) {history : List (Option ResearchEvent)}
    (hl : s.events = Journal.since history) :
    s'.events = Journal.since (history ++ recorded s s') := by
  have hs' := h.sound hs
  cases h with
  | kept =>
    have hnone : recorded s s = [] := by
      have hsame : (s.job.isNone && s.job.isSome) = false := by cases s.job <;> rfl
      rw [recorded, hsame, Journal.unseen_sublist (List.Sublist.refl _)]
      rfl
    rw [hnone, List.append_nil]
    exact hl
  | created =>
    obtain ⟨hevents, -⟩ := hs.absent rfl
    subst hevents
    rw [since_created rfl rfl, Journal.unseen_append hs'.increasing]
    rfl
  | written =>
    have hnew := Journal.unseen_append hs'.increasing
    rw [since_recorded rfl, ← hl, hnew]
  | pruned hret | artifactDeleted hret | orphaned hret | removed hret =>
    rw [hop] at hret
    cases hret

/-- One operation appends exactly one lifecycle event when the state changes and
none when it does not. -/
theorem JobStep.announced (h : JobStep H op j acct s s') (hs : s.Sound)
    (hop : op.progressOnly = true) (hj' : s'.job = some job') :
    (Journal.unseen ResearchEvent.sequence s'.events s.events).filterMap ResearchEvent.announces =
      if s.job.map ResearchJob.state = some job'.state then [] else [job'.state] := by
  have hs' := h.sound hs
  cases h with
  | kept =>
    rw [Journal.unseen_sublist (List.Sublist.refl _), hj', Option.map_some, if_pos rfl]
    rfl
  | created =>
    cases hj'
    have hnew := Journal.unseen_append hs'.increasing
    simp only at hnew ⊢
    rw [hnew]
    rfl
  | @written _ job w events _ added hid heffect =>
    cases hj'
    have hnew := Journal.unseen_append hs'.increasing
    simp only at hnew ⊢
    rw [hnew, Option.map_some]
    rcases heffect.announced (j := j) (hs.row _ rfl) hop events with
      ⟨hsame, hnone⟩ | ⟨hne, -, e, hone, hann⟩
    · rw [if_pos (congrArg some hsame.symm)]
      exact List.filterMap_eq_nil_iff.mpr hnone
    · rw [if_neg fun heq => hne (Option.some.inj heq).symm, hone,
        List.filterMap_cons_some hann, List.filterMap_nil]
  | pruned _ ht hsub =>
    cases hj'
    rw [Journal.unseen_sublist hsub, Option.map_some, if_pos rfl]
    rfl
  | artifactDeleted =>
    rw [Journal.unseen_sublist (List.Sublist.refl _), hj', Option.map_some, if_pos rfl]
    rfl
  | orphaned =>
    cases hj'
    rw [Journal.unseen_sublist (List.Sublist.refl _), Option.map_some, if_pos rfl]
    rfl
  | removed => cases hj'

end

/-! ### Runs -/

theorem logged_after (H : Hashing) (ops : List Op) (hops : ∀ op ∈ ops, op.progressOnly = true)
    (j : JobId) : ∀ job, (after H ops).job? j = some job →
      Logged job ((after H ops).eventsOf j) (appended H ops j) := by
  have hrun : (eventHistory H j).run .empty ops = after H ops := Machine.run_observing ..
  rw [← hrun]
  refine (Machine.history (M := eventHistory H j) (A := fun op => op.progressOnly = true)
    (s := Database.empty) (P := fun db _ history => Sound db ∧ ∀ job, db.job? j = some job →
      Logged job (db.eventsOf j) (Journal.since history)) ?_ ⟨empty_sound, ?_⟩ ops hops).2
  · rintro op db _ history hop ⟨hs, hl⟩
    exact ⟨step_sound H op hs, (job_step H op db j).logged (hs j) hop hl⟩
  · intro job hj
    cases hj

/-- As long as retention stays away, a log that holds all that was appended to it goes
on holding it. -/
theorem log_intact (H : Hashing) (ops more : List Op) (j : JobId)
    (hstart : (after H ops).eventsOf j = appended H ops j)
    (hmore : ∀ op ∈ more, op.isRetention = false) :
    (after H (ops ++ more)).eventsOf j = appended H (ops ++ more) j := by
  induction more using List.reverseRecOn with
  | nil =>
    rw [List.append_nil]
    exact hstart
  | append_singleton front op ih =>
    have hfront := ih fun x hx => hmore x (List.mem_append_left _ hx)
    have hstep := (job_step H op (after H (ops ++ front)) j).log_intact (after_sound H _ j)
      (hmore op (List.mem_append_right _ (List.mem_singleton_self op))) hfront
    have hrun : (eventHistory H j).run .empty (ops ++ front) = after H (ops ++ front) :=
      Machine.run_observing ..
    rw [← List.append_assoc, after_snoc, appended, Machine.trace_snoc, hrun]
    exact hstep

/-- The event log is a faithful history: the events ever appended to a job count up
from one, an open job still has all of them, they replay to its state, every change
of state appends one event, and a closing event is the last. -/
theorem event_log_faithful (H : Hashing) (ops : List Op)
    (hops : ∀ op ∈ ops, op.progressOnly = true) (j : JobId) :
    (∀ job, (after H ops).job? j = some job →
      (appended H ops j).map ResearchEvent.sequence = List.range' 1 (appended H ops j).length ∧
      ((after H ops).eventsOf j).Sublist (appended H ops j) ∧
      (job.state.isTerminal = false → (after H ops).eventsOf j = appended H ops j) ∧
      Journal.replay ResearchEvent.announces none
        ((appended H ops j).filter fun e => e.announces.isSome) = some job.state ∧
      ∀ front e back, appended H ops j = front ++ e :: back → e.closes = true →
        back = [] ∧ job.state.isTerminal = true) ∧
    ∀ (op : Op) job', op.progressOnly = true → (step H op (after H ops)).job? j = some job' →
      (newEvents H op (after H ops) j).filterMap ResearchEvent.announces =
        if ((after H ops).job? j).map ResearchJob.state = some job'.state then [] else [job'.state] := by
  refine ⟨fun job hj => ?_, fun op job' hop hj' =>
    (job_step H op (after H ops) j).announced (after_sound H ops j) hop hj'⟩
  have hl := logged_after H ops hops j job hj
  refine ⟨hl.numbered, hl.kept, hl.complete, ?_, fun front e back hsplit hcloses => ?_⟩
  · rw [Journal.replay_filter]
    exact hl.replayed
  · cases ht : job.state.isTerminal with
    | false =>
      have hquiet := hl.unclosed ht e (by rw [hsplit]; simp)
      rw [hquiet] at hcloses
      cases hcloses
    | true =>
      refine ⟨?_, rfl⟩
      obtain ⟨front', last, hsplit', -, hquiet⟩ := hl.closed ht
      rcases List.eq_nil_or_concat back with hnil | ⟨init, last', rfl⟩
      · exact hnil
      · have hfront : front' = front ++ e :: init := by
          rw [hsplit, List.concat_eq_append, ← List.cons_append, ← List.append_assoc] at hsplit'
          exact (List.append_inj' hsplit' rfl).1.symm
        have hno := hquiet e (by rw [hfront]; simp)
        rw [hno] at hcloses
        cases hcloses

/-- A job with progress, cancelled by its runner, whose first events retention deleted. -/
theorem event_log_faithful_pruned :
    let ops := Sample.started ++ [.appendRunnerEvent 3 1 "token" "research.progress" ∅,
      .requestCancel 4 1 "user", .markCancelled 5 1 "token", .deleteExpiredEvents 4 10]
    (appended Sample.hashing ops 1).map ResearchEvent.sequence = List.range' 1 6 ∧
      ((after Sample.hashing ops).eventsOf 1).map ResearchEvent.sequence = [5, 6] := by
  intro ops
  have hrow := (Option.some_get (show ((after Sample.hashing ops).job? 1).isSome by decide)).symm
  have hlog := (event_log_faithful Sample.hashing ops (by decide) 1).1 _ hrow
  exact ⟨hlog.1.trans (congrArg _ (by decide)), by decide⟩

end ResearchGateway
