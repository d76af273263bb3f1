import Mathlib.Tactic.Linarith
import ResearchGateway.ConcurrencyCap
import ResearchGateway.RunnerReports
import ResearchGateway.Snapshots

/-! A runner that is heard is not taken for dead.

The runner's heartbeat loop runs beside the replicas, the users, the other runners and the
retention cleaner: it sleeps, sends a heartbeat, waits for the answer and sleeps again. The
settings let a runner be silent for more than two of its periods before it counts as stale.
Where what they leave beyond the two covers three calls, one heartbeat may be lost between two
that are heard: no listing names the job, and no replica takes it away, whatever the replicas
listed before and however their clocks and steps fall. -/
namespace ResearchGateway
open Library

/-- Where `_heartbeat_forever` is. `missed` says that the last heartbeat was lost. -/
inductive HeartbeatLoop where
  /-- Not begun yet, or the runner has left it. -/
  | stopped
  /-- A request is out: the start, or a heartbeat. -/
  | calling (since : Time) (heard missed : Bool)
  | sleeping (since : Time) (missed : Bool)
  deriving DecidableEq

structure HeartbeatSystem where
  system : ControllerSystem
  loop : HeartbeatLoop

inductive HeartbeatInput where
  /-- The clock, the replicas, users, and what runners send beside this loop. -/
  | other (i : ControllerInput)
  | retention (op : Op) (h : op.isRetention = true)
  /-- The control plane takes the runner's start. -/
  | start
  | wake
  /-- The heartbeat that is out comes in. -/
  | deliver
  /-- The call is over: it was answered, or it raised and the loop logs that. -/
  | finish
  /-- The runner leaves its loop, or crashes. -/
  | leave

section
variable (H : Hashing) (settings : ControllerSettings) (j : JobId) (token : String)

/-- A start is waited for. -/
def AwaitsStart (db : Database) : Prop :=
  ∃ job, db.job? j = some job ∧ accepts H job token = true ∧ job.state = .dispatched

instance (db : Database) : Decidable (AwaitsStart H j token db) :=
  decidable_of_iff ((db.job? j).any fun job => accepts H job token && job.state = .dispatched)
    (by simp [AwaitsStart, Option.any_eq_true])

instance (db : Database) : Decidable (UnderWay H db j token) :=
  decidable_of_iff ((db.job? j).any fun job => accepts H job token && (job.state = .running ∨ job.state = .cancelRequested))
    (by simp [UnderWay, Option.any_eq_true])

/-- The heartbeat loop of one runner, over the replicas. -/
def heartbeats : Machine HeartbeatSystem HeartbeatInput Unit where
  next
    | .other i, b => {b with system := (controllers H settings).next i b.system}
    | .retention op _, b => {b with system := {b.system with db := step H op b.system.db}}
    | .start, b =>
      -- a start that is refused, or that finds a cancel requested, sets nothing running
      if b.loop = .stopped ∧ AwaitsStart H j token b.system.db then
        { system := (controllers H settings).next (.request (.markStarted 0 j token) rfl) b.system
          loop := .calling b.system.clock true false }
      else b
    | .wake, b =>
      match b.loop with
      | .sleeping _ missed => {b with loop := .calling b.system.clock false missed}
      | _ => b
    | .deliver, b =>
      match b.loop with
      | .calling since false missed =>
        { system := (controllers H settings).next (.request (.heartbeat 0 j token) rfl) b.system
          loop := .calling since (UnderWay H b.system.db j token) missed }
      | _ => b
    | .finish, b =>
      match b.loop with
      | .calling _ heard _ => {b with loop := .sleeping b.system.clock (!heard)}
      | _ => b
    | .leave, b => {b with loop := .stopped}
  out _ _ := []

/-- Everything at rest. -/
def HeartbeatSystem.initial : HeartbeatSystem := ⟨.initial, .stopped⟩

def beaten (inputs : List HeartbeatInput) : HeartbeatSystem := (heartbeats H settings j token).run .initial inputs

end

/-- The loop sleeps no longer than its period, and a call takes no longer than `delay`. -/
def HeartbeatLoop.KeepsPace (period delay : Nat) (clock : Time) : HeartbeatLoop → Prop
  | .stopped => True
  | .calling since _ _ => since ≤ clock ∧ clock ≤ since + delay
  | .sleeping since _ => since ≤ clock ∧ clock ≤ since + period

instance (period delay : Nat) (clock : Time) (loop : HeartbeatLoop) : Decidable (loop.KeepsPace period delay clock) := by
  cases loop <;> unfold HeartbeatLoop.KeepsPace <;> infer_instance

/-- The heartbeat that is out was not heard, and the one before was lost. -/
def HeartbeatLoop.losesTwo : HeartbeatLoop → Bool
  | .calling _ false true => true
  | _ => false

/-- The loop keeps its times, and of two heartbeats in a row that were sent for a job under way
one is heard. -/
def HeartbeatInput.Paced (H : Hashing) (j : JobId) (token : String) (period delay : Nat) :
    HeartbeatInput → HeartbeatSystem → Prop
  | .other (.tick microseconds), b => b.loop.KeepsPace period delay (b.system.clock + microseconds)
  | .finish, b => b.loop.losesTwo = true → ¬ UnderWay H b.system.db j token
  | _, _ => True

instance (H : Hashing) (j : JobId) (token : String) (period delay : Nat) (i : HeartbeatInput) (b : HeartbeatSystem) :
    Decidable (i.Paced H j token period delay b) := by
  unfold HeartbeatInput.Paced
  split <;> infer_instance

/-- The job has been written to since, or it is over. -/
def WrittenSince (j : JobId) (time : Time) (db : Database) : Prop :=
  ∀ job, db.job? j = some job → time ≤ job.updatedAt ∨ job.state.isTerminal = true

section
variable {H : Hashing} {settings : ControllerSettings} {j : JobId} {token : String} {db : Database} {time now : Time}

theorem heartbeat_written (h : UnderWay H db j token) : WrittenSince j now (step H (.heartbeat now j token) db) := by
  obtain ⟨job, hj, hacc, hst⟩ := h
  have hread : getForRunnerLocked H j token db = .ok (job, db) := getForRunner_accepted hj hacc
  have hwrite : heartbeat H now j token db =
      .ok ({job with updatedAt := now}, db.write ⟨now, {job with updatedAt := now}, []⟩) := by
    rw [heartbeat, bind_ok hread, if_pos hst]
    rfl
  intro job' hj'
  rw [step_of_commit (t := heartbeat H now j token) rfl, commit_ok hwrite, Database.job?_write hj rfl] at hj'
  obtain rfl := Option.some.inj hj'
  exact .inl (Int.le_refl _)

/-- A start sets the job running, now. -/
theorem markStarted_written (h : AwaitsStart H j token db) :
    UnderWay H (step H (.markStarted now j token) db) j token ∧
      WrittenSince j now (step H (.markStarted now j token) db) := by
  obtain ⟨job, hj, hacc, hst⟩ := h
  have hread : getForRunnerLocked H j token db = .ok (job, db) := getForRunner_accepted hj hacc
  have hwrite : markStarted H now j token db = .ok ({job with
      state := .running, dispatchLeaseExpiresAt := none, startedAt := some now, updatedAt := now}, db.write ⟨now, {job with
      state := .running, dispatchLeaseExpiresAt := none, startedAt := some now, updatedAt := now}, [("job.started", ∅)]⟩) := by
    rw [markStarted, bind_ok hread, if_neg (by simp [hst, JobState.isActive]), if_neg (by simp [hst]), if_pos (by simp [hst])]
    rfl
  rw [step_of_commit (t := markStarted H now j token) rfl, commit_ok hwrite]
  refine ⟨markStarted_underWay hwrite, fun job' hj' => ?_⟩
  rw [Database.job?_write hj rfl] at hj'
  obtain rfl := Option.some.inj hj'
  exact .inl (Int.le_refl _)

/-- What is written later is written since. -/
theorem WrittenSince.stamped {db' : Database} (h : WrittenSince j time db) (htime : time ≤ now)
    (hstamped : Stamped now db db') : WrittenSince j time db' := by
  intro job hj
  rcases hstamped j job hj with hsame | hnow | hover
  · exact h job hsame
  · exact .inl (hnow ▸ htime)
  · exact .inr hover

theorem WrittenSince.next {i : ControllerInput} {w : ControllerSystem} (h : WrittenSince j time w.db) (htime : time ≤ w.clock) :
    WrittenSince j time ((controllers H settings).next i w).db := by
  rw [controllers_db]
  cases hop : i.op? settings w with
  | none => exact h
  | some op => exact h.stamped htime (step_stamped H (ControllerInput.op?_stamped hop) (ControllerInput.op?_kept hop) w.db)

/-- Retention leaves a row its state and its time. -/
theorem retention_row {op : Op} (hop : op.isRetention = true) {job' : ResearchJob} (h : (step H op db).job? j = some job') :
    ∃ job, db.job? j = some job ∧ job'.updatedAt = job.updatedAt ∧ job'.state = job.state := by
  cases op with
  | deleteArtifactRecord artifactId => exact ⟨job', h, rfl, rfl⟩
  | deleteExpiredEvents cutoff limit => exact ⟨job', h, rfl, rfl⟩
  | deleteExpiredJobs cutoff limit =>
    have hrow : (withoutJobs db ((expiredJobs db cutoff limit).map ResearchJob.id)).job? j = some job' := h
    rw [job?_withoutJobs] at hrow
    split at hrow
    · cases hrow
    · obtain ⟨job, hj, rfl⟩ := Option.map_eq_some_iff.mp hrow
      refine ⟨job, hj, ?_⟩
      rcases orphaned_cases ((expiredJobs db cutoff limit).map ResearchJob.id) job with hsame | hcleared
      · rw [hsame]
        exact ⟨rfl, rfl⟩
      · rw [hcleared]
        exact ⟨rfl, rfl⟩
  | _ => cases hop

theorem WrittenSince.retained {op : Op} (h : WrittenSince j time db) (hop : op.isRetention = true) :
    WrittenSince j time (step H op db) := by
  intro job' hj'
  obtain ⟨job, hj, hsame, hstate⟩ := retention_row hop hj'
  rw [hsame, hstate]
  exact h job hj

/-- What does not declare its runner stale leaves a job under way, or ends it. -/
theorem UnderWay.kept {op : Op} (h : UnderWay H db j token) (hop : op.staleRunner? ≠ some j) :
    InHand H (ResearchGateway.step H op db) j token := (h.step op).resolve_right fun hstale => hop hstale.1

/-! ### The tables and the replicas -/

/-- Who is on a replica's list of stale runners was silent for long enough. -/
structure SilentListed (settings : ControllerSettings) (w : ControllerSystem) : Prop where
  sound : Sound w.db
  silent : ∀ replica, ∀ runner ∈ (w.phases replica).runners,
    runner.updatedAt + seconds settings.runnerStaleSeconds ≤ w.clock

theorem SilentListed.next {w : ControllerSystem} (h : SilentListed settings w) (i : ControllerInput) :
    SilentListed settings ((controllers H settings).next i w) := by
  have hclock := @controllers_clock H settings i w
  refine ⟨?_, fun replica runner hlisted => ?_⟩
  · rw [controllers_db]
    exact apply_sound h.sound _
  · rcases runners_next hlisted with hknown | ⟨-, hnow⟩
    · exact Int.le_trans (h.silent replica runner hknown) hclock
    · obtain ⟨job, -, hstale, rfl⟩ := listStaleRunners_spec hnow
      simp only [runnerStale, decide_eq_true_eq] at hstale
      exact Int.le_trans (Int.add_le_of_le_sub_right hstale.2.2) hclock

theorem SilentListed.retained {w : ControllerSystem} (h : SilentListed settings w) (op : Op) :
    SilentListed settings {w with db := step H op w.db} := ⟨step_sound H op h.sound, h.silent⟩

theorem SilentListed.nextBeaten {b : HeartbeatSystem} (h : SilentListed settings b.system) (i : HeartbeatInput) :
    SilentListed settings ((heartbeats H settings j token).next i b).system := by
  cases i with
  | other i => exact h.next i
  | retention op hop => exact h.retained op
  | start =>
    simp only [heartbeats]
    split
    · exact h.next (.request (.markStarted 0 j token) rfl)
    · exact h
  | deliver =>
    simp only [heartbeats]
    split
    · exact h.next (.request (.heartbeat 0 j token) rfl)
    · exact h
  | wake | finish =>
    simp only [heartbeats]
    split <;> exact h
  | leave => exact h

/-- What a replica has listed as stale does not select the row of a runner that was heard since. -/
theorem SilentListed.not_selected {w : ControllerSystem} {job : ResearchJob} (h : SilentListed settings w)
    (hj : w.db.job? j = some job) (hfresh : w.clock < job.updatedAt + seconds settings.runnerStaleSeconds)
    {i : ControllerInput} {op : Op} (hop : i.op? settings w = some op) (hstale : op.staleRunner? = some j) :
    step H op w.db = w.db := by
  cases i with
  | request op' hrequest =>
    obtain rfl := Option.some.inj hop
    have hstamped := Op.stamped_isRequest hrequest w.clock
    generalize op'.stamped w.clock = op at hstale hstamped
    cases op <;> first | (cases hstale; done) | cases hstamped
  | turn replica s =>
    rcases ControllerPhase.op?_cases hop with ⟨_, _, _, -, rfl⟩ | ⟨runner, status, rest, hphase, rfl⟩ |
      ⟨-, rfl⟩ | ⟨_, _, _, -, rfl⟩ <;> cases hstale
    have hlisted : runner ∈ (w.phases replica).runners := by simp [hphase, ControllerPhase.runners]
    have hsilent := h.silent replica runner hlisted
    refine step_stale_skipped fun found hfound hm => ?_
    obtain rfl := Option.some.inj (hj.symm.trans hfound)
    have hold := Int.add_le_add_right hm.2.2 (seconds settings.runnerStaleSeconds)
    exact absurd (Int.lt_of_lt_of_le hfresh (Int.le_trans hold hsilent)) (Int.lt_irrefl _)
  | _ => cases hop

variable {period delay : Nat} {b : HeartbeatSystem}

/-- The runner was last heard at `time`, by where its loop is. -/
def HeartbeatLoop.HeardAt (period delay : Nat) (time : Time) : HeartbeatLoop → Prop
  | .stopped => True
  | .calling since true _ => since ≤ time
  | .calling since false false => since ≤ time + delay + period
  | .calling since false true => since ≤ time + 2 * delay + 2 * period
  | .sleeping since false => since ≤ time + delay
  | .sleeping since true => since ≤ time + 2 * delay + period

/-- A loop that goes on was heard two periods and three calls ago at the earliest. -/
theorem HeartbeatLoop.HeardAt.recent {loop : HeartbeatLoop} (h : loop.HeardAt period delay time) (hgoes : loop ≠ .stopped)
    (hpace : loop.KeepsPace period delay now) : now ≤ time + 2 * period + 3 * delay := by
  have hperiod := Int.natCast_nonneg period
  have hdelay := Int.natCast_nonneg delay
  cases loop with
  | stopped => exact (hgoes rfl).elim
  | calling since heard missed => cases heard <;> cases missed <;> simp only [HeardAt, KeepsPace] at h hpace <;> linarith
  | sleeping since missed => cases missed <;> simp only [HeardAt, KeepsPace] at h hpace <;> linarith

/-- The job is under way and its runner was heard not long ago. -/
structure Beats (H : Hashing) (j : JobId) (token : String) (period delay : Nat) (b : HeartbeatSystem) : Prop where
  underWay : UnderWay H b.system.db j token
  pace : b.loop.KeepsPace period delay b.system.clock
  heard : ∃ time, time ≤ b.system.clock ∧ WrittenSince j time b.system.db ∧ b.loop.HeardAt period delay time

/-- Who beats has a row that is not old enough to be stale. -/
theorem Beats.fresh (h : Beats H j token period delay b) (hgoes : b.loop ≠ .stopped)
    (hmargin : (2 * period + 3 * delay : Nat) < seconds settings.runnerStaleSeconds) {job : ResearchJob}
    (hj : b.system.db.job? j = some job) :
    b.system.clock < job.updatedAt + seconds settings.runnerStaleSeconds := by
  obtain ⟨job', hj', -, hst⟩ := h.underWay
  obtain rfl := Option.some.inj (hj.symm.trans hj')
  obtain ⟨time, -, hwritten, hheard⟩ := h.heard
  have hrecent := hheard.recent hgoes h.pace
  rcases hwritten job hj with hsince | hover
  · push_cast at hmargin
    linarith
  · rcases hst with hst | hst <;> rw [hst] at hover <;> cases hover

/-- What the replicas, users and other runners do. -/
theorem Beats.other (h : Beats H j token period delay b) (hlisted : SilentListed settings b.system) (hgoes : b.loop ≠ .stopped)
    (hmargin : (2 * period + 3 * delay : Nat) < seconds settings.runnerStaleSeconds) (i : ControllerInput)
    (hpace : b.loop.KeepsPace period delay ((controllers H settings).next i b.system).clock) :
    Ended ((controllers H settings).next i b.system).db j ∨
      Beats H j token period delay {b with system := (controllers H settings).next i b.system} := by
  have hhand : InHand H ((controllers H settings).next i b.system).db j token := by
    rw [controllers_db]
    cases hop : i.op? settings b.system with
    | none => exact .inl h.underWay
    | some op =>
      show InHand H (step H op b.system.db) j token
      by_cases hstale : op.staleRunner? = some j
      · -- Who took the job would have found it stale.
        obtain ⟨job, hj, -, -⟩ := id h.underWay
        rw [hlisted.not_selected hj (h.fresh hgoes hmargin hj) hop hstale]
        exact .inl h.underWay
      · exact h.underWay.kept hstale
  rcases hhand with hway | hended
  · obtain ⟨time, htime, hwritten, hheard⟩ := h.heard
    exact .inr ⟨hway, hpace, time, Int.le_trans htime (controllers_clock ..), hwritten.next htime, hheard⟩
  · exact .inl hended

/-- Where no time passes, the loop is as much in time as it was. -/
theorem other_clock {i : ControllerInput} (hpaced : (HeartbeatInput.other i).Paced H j token period delay b)
    (h : b.loop.KeepsPace period delay b.system.clock) :
    b.loop.KeepsPace period delay ((controllers H settings).next i b.system).clock := by
  cases i with
  | tick microseconds => exact hpaced
  | acquire replica =>
    show b.loop.KeepsPace period delay (b.system.acquire replica).clock
    unfold ControllerSystem.acquire
    split <;> exact h
  | _ => exact h

/-- The loop wakes up for its next call. -/
theorem Beats.wake (h : Beats H j token period delay b) :
    Beats H j token period delay ((heartbeats H settings j token).next .wake b) := by
  obtain ⟨system, loop⟩ := b
  cases loop with
  | sleeping since missed =>
    obtain ⟨time, htime, hwritten, hheard⟩ := h.heard
    have hclock := h.pace
    refine ⟨h.underWay, ?_, time, htime, hwritten, ?_⟩
    · exact ⟨Int.le_refl _, Int.le_add_of_nonneg_right (Int.natCast_nonneg _)⟩
    · cases missed <;> simp only [HeartbeatLoop.HeardAt, HeartbeatLoop.KeepsPace, heartbeats] at hheard hclock ⊢ <;> linarith
  | _ => exact h

/-- The heartbeat that is out comes in and is written. -/
theorem Beats.deliver (h : Beats H j token period delay b) (hlisted : SilentListed settings b.system)
    (hgoes : b.loop ≠ .stopped) (hmargin : (2 * period + 3 * delay : Nat) < seconds settings.runnerStaleSeconds) :
    Ended ((heartbeats H settings j token).next .deliver b).system.db j ∨
      Beats H j token period delay ((heartbeats H settings j token).next .deliver b) := by
  obtain ⟨system, loop⟩ := b
  cases loop with
  | calling since heard missed =>
    cases heard with
    | true => exact .inr h
    | false =>
      have hrequest := h.other hlisted hgoes hmargin (.request (.heartbeat 0 j token) rfl) h.pace
      refine hrequest.imp_right fun hbeats => ⟨hbeats.underWay, hbeats.pace, system.clock, Int.le_refl _, ?_, ?_⟩
      · exact heartbeat_written h.underWay
      · simp only [heartbeats, decide_eq_true h.underWay]
        exact h.pace.1
  | _ => exact .inr h

/-- The call is over, and it is not the second that was lost. -/
theorem Beats.finish (h : Beats H j token period delay b) (hpaced : HeartbeatInput.finish.Paced H j token period delay b) :
    Beats H j token period delay ((heartbeats H settings j token).next .finish b) := by
  obtain ⟨system, loop⟩ := b
  cases loop with
  | calling since heard missed =>
    obtain ⟨time, htime, hwritten, hheard⟩ := h.heard
    have hclock := h.pace
    refine ⟨h.underWay, ?_, time, htime, hwritten, ?_⟩
    · exact ⟨Int.le_refl _, Int.le_add_of_nonneg_right (Int.natCast_nonneg _)⟩
    · cases heard with
      | true => exact Int.le_trans hclock.2 (Int.add_le_add_right hheard _)
      | false =>
        cases missed with
        | true => exact (hpaced rfl h.underWay).elim
        | false =>
          simp only [HeartbeatLoop.HeardAt, HeartbeatLoop.KeepsPace, heartbeats] at hheard hclock ⊢
          show system.clock ≤ time + 2 * delay + period
          linarith
  | _ => exact h

/-- A runner that beats goes on to, until its loop or its job has ended. -/
theorem Beats.next (h : Beats H j token period delay b) (hlisted : SilentListed settings b.system) (hgoes : b.loop ≠ .stopped)
    (hmargin : (2 * period + 3 * delay : Nat) < seconds settings.runnerStaleSeconds) {i : HeartbeatInput}
    (hpaced : i.Paced H j token period delay b) :
    ((heartbeats H settings j token).next i b).loop = .stopped ∨ Ended ((heartbeats H settings j token).next i b).system.db j ∨
      Beats H j token period delay ((heartbeats H settings j token).next i b) := by
  cases i with
  | other i => exact .inr (h.other hlisted hgoes hmargin i (other_clock hpaced h.pace))
  | retention op hop =>
    have hstale : op.staleRunner? ≠ some j := by
      cases op <;> first | (cases hop; done) | exact nofun
    obtain ⟨time, htime, hwritten, hheard⟩ := h.heard
    rcases h.underWay.kept hstale with hway | hended
    · exact .inr (.inr ⟨hway, h.pace, time, htime, hwritten.retained hop, hheard⟩)
    · exact .inr (.inl hended)
  | start =>
    have hsame : (heartbeats H settings j token).next .start b = b := if_neg fun hstart => hgoes hstart.1
    rw [hsame]
    exact .inr (.inr h)
  | leave => exact .inl rfl
  | wake => exact .inr (.inr h.wake)
  | deliver => exact .inr (h.deliver hlisted hgoes hmargin)
  | finish => exact .inr (.inr (h.finish hpaced))

/-- A start that is taken begins the beat. -/
theorem beats_start (hstopped : b.loop = .stopped) (i : HeartbeatInput) :
    ((heartbeats H settings j token).next i b).loop = .stopped ∨
      Beats H j token period delay ((heartbeats H settings j token).next i b) := by
  obtain ⟨system, loop⟩ := b
  obtain rfl : loop = .stopped := hstopped
  cases i with
  | start =>
    by_cases hstart : AwaitsStart H j token system.db
    · have hnext : (heartbeats H settings j token).next .start ⟨system, .stopped⟩ =
          ⟨(controllers H settings).next (.request (.markStarted 0 j token) rfl) system, .calling system.clock true false⟩ :=
        if_pos ⟨rfl, hstart⟩
      obtain ⟨hway, hwritten⟩ := @markStarted_written H j token system.db system.clock hstart
      rw [hnext]
      exact .inr ⟨hway, ⟨Int.le_refl _, Int.le_add_of_nonneg_right (Int.natCast_nonneg _)⟩,
        system.clock, Int.le_refl _, hwritten, Int.le_refl _⟩
    · exact .inl (congrArg HeartbeatSystem.loop (if_neg fun h => hstart h.2))
  | _ => exact .inl rfl

theorem beaten_snoc (inputs : List HeartbeatInput) (i : HeartbeatInput) :
    beaten H settings j token (inputs ++ [i]) = (heartbeats H settings j token).next i (beaten H settings j token inputs) :=
  Machine.run_snoc ..

theorem beaten_listed (inputs : List HeartbeatInput) : SilentListed settings (beaten H settings j token inputs).system :=
  Machine.run_invariant (M := heartbeats H settings j token) (A := fun _ => True) (P := fun b => SilentListed settings b.system)
    (fun i _ _ h => h.nextBeaten i) ⟨empty_sound, fun _ _ h => by cases h⟩ inputs fun _ _ => trivial

/-- In a paced run a loop that goes on beats, unless its job has ended. -/
theorem beaten_beats (hmargin : (2 * period + 3 * delay : Nat) < seconds settings.runnerStaleSeconds)
    (inputs : List HeartbeatInput)
    (hpaced : ∀ before i, before ++ [i] <+: inputs → i.Paced H j token period delay (beaten H settings j token before)) :
    (beaten H settings j token inputs).loop = .stopped ∨
      (∃ before, before <+: inputs ∧ Ended (beaten H settings j token before).system.db j) ∨
      Beats H j token period delay (beaten H settings j token inputs) := by
  induction inputs using List.reverseRecOn with
  | nil => exact .inl rfl
  | append_singleton inputs i ih =>
    rcases ih fun before k hpre => hpaced before k (hpre.trans (List.prefix_append ..)) with hstopped | ⟨before, hpre, hended⟩ | hbeats
    · rw [beaten_snoc]
      exact (beats_start hstopped i).imp_right .inr
    · exact .inr (.inl ⟨before, hpre.trans (List.prefix_append ..), hended⟩)
    · by_cases hstopped : (beaten H settings j token inputs).loop = .stopped
      · rw [beaten_snoc]
        exact (beats_start hstopped i).imp_right .inr
      · rcases hbeats.next (beaten_listed inputs) hstopped hmargin (hpaced inputs i List.prefix_rfl) with hleft | hended | hnext
        · rw [beaten_snoc]
          exact .inl hleft
        · rw [← beaten_snoc] at hended
          exact .inr (.inl ⟨_, List.prefix_rfl, hended⟩)
        · rw [beaten_snoc]
          exact .inr (.inr hnext)

end

namespace Sample

/-- A runner starts, loses its first heartbeat and is heard with the second. -/
def beating : List HeartbeatInput :=
  ([ControllerInput.request (.createJob 0 1 "user" "kept" request) rfl, .acquire 0] ++ uptoCount 0 ++
      [ControllerInput.turn 0 {runnerToken := "runner"}]).map .other ++
    [.start, .finish, .other (.tick 20000000), .wake, .other (.tick 5000000), .finish, .other (.tick 20000000), .wake,
      .other (.tick 5000000), .deliver, .finish]

theorem beating_open (before : List HeartbeatInput) (hpre : before <+: beating) :
    ¬ Ended (beaten hashing controllerSettings 1 "runner" before).system.db 1 := by
  have hopen : ∀ before ∈ beating.inits, ((beaten hashing controllerSettings 1 "runner" before).system.db.job? 1).all
      fun job => !job.state.isTerminal := by decide +kernel
  rintro ⟨job, hj, hended⟩
  have hrow := hopen before (List.mem_inits _ _ |>.mpr hpre)
  simp [hj, hended] at hrow

end Sample

end ResearchGateway
