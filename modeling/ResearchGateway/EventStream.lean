import ResearchGateway.EventLog
import ResearchGateway.Settlement

/-! The event stream.

`generate` loops: it reads the job row, then the events past its cursor, emits
them one by one and returns once the row it had read was terminal. Each statement
sees what was committed by then, so any number of transactions may land between
any two steps of the reader; `Following` runs the tables and one reader together.

What makes the stream complete is the order of the two reads. A row that reads as
terminal never changes again and has all its events, so the later read finds them
all (`stream_complete`). -/
namespace ResearchGateway
open Library

/-- The select of `list_events`. -/
def listEvents (db : Database) (j : JobId) (after : Nat) : List ResearchEvent :=
  ((db.eventsOf j).filter fun e => after < e.sequence).insertionSort
    fun a b => a.sequence ≤ b.sequence

/-- Where `generate` is, with the state of the job row it has read. -/
inductive StreamPhase where
  | looping
  | authorizing (state : JobState)
  | selecting (state : JobState)
  | emitting (state : JobState) (events : List ResearchEvent)
  | returned
  | notFound

structure Stream where
  sequence : Nat
  emitted : List ResearchEvent
  phase : StreamPhase

namespace Stream

def start (after : Nat) : Stream := ⟨after, [], .looping⟩

/-- The next statement of `generate`; `list_events` checks the owner once more. -/
def advance (j : JobId) (userId : String) (db : Database) (s : Stream) : Stream :=
  match s.phase with
  | .looping =>
    match getForUser j userId db with
    | .ok (job, _) => {s with phase := .authorizing job.state}
    | .error _ => {s with phase := .notFound}
  | .authorizing state =>
    match getForUser j userId db with
    | .ok _ => {s with phase := .selecting state}
    | .error _ => {s with phase := .notFound}
  | .selecting state => {s with phase := .emitting state (listEvents db j s.sequence)}
  | .emitting state (e :: rest) => ⟨e.sequence, s.emitted ++ [e], .emitting state rest⟩
  | .emitting state [] => {s with phase := if state.isTerminal then .returned else .looping}
  | .returned | .notFound => s

end Stream

/-- A step of the stream, or a transaction of somebody else. -/
inductive StreamInput where
  | reader
  | writer (op : Op)

/-- The tables and one stream over job `j`. -/
def following (H : Hashing) (j : JobId) (userId : String) :
    Machine (Database × Stream) StreamInput Unit where
  next
    | .reader, (db, s) => (db, s.advance j userId db)
    | .writer op, (db, s) => (step H op db, s)
  out _ _ := []

/-! ### What writers do to a log that is being read -/

section
variable {H : Hashing} {op : Op} {acct : Account} {j : JobId} {s s' : Slice} {db : Database}

theorem JobStep.log_extends (h : JobStep H op j acct s s') (hop : op.isRetention = false) :
    s.events <+: s'.events := by
  cases h with
  | kept => exact List.prefix_rfl
  | created => exact List.prefix_append ..
  | written => exact List.prefix_append ..
  | pruned hret | artifactDeleted hret | orphaned hret | removed hret => simp [hop] at hret

/-- A writer only extends what a reader still has to see. -/
theorem past_step (hop : op.isRetention = false) (after : Nat) :
    Journal.past ResearchEvent.sequence after (db.eventsOf j) <+:
      Journal.past ResearchEvent.sequence after ((step H op db).eventsOf j) :=
  ((job_step H op db j).log_extends hop).filter _

theorem listEvents_eq (hs : Sound db) (after : Nat) :
    listEvents db j after = Journal.past ResearchEvent.sequence after (db.eventsOf j) := by
  refine List.Pairwise.insertionSort_eq ?_
  have hinc := (hs j).increasing
  unfold Journal.Increasing at hinc
  rw [List.pairwise_map] at hinc
  exact (hinc.imp Nat.le_of_lt).sublist List.filter_sublist

end

/-! ### The reader's invariant -/

/-- The events of the job past the cursor the stream was opened with. -/
def due (db : Database) (j : JobId) (after : Nat) : List ResearchEvent :=
  Journal.past ResearchEvent.sequence after (db.eventsOf j)

/-- What each phase knows about the tables. -/
def PhaseSound (db : Database) (j : JobId) (after : Nat) (emitted : List ResearchEvent) :
    StreamPhase → Prop
  | .looping | .notFound => emitted <+: due db j after
  | .authorizing state | .selecting state =>
    emitted <+: due db j after ∧ (state.isTerminal = true → Ended db j)
  | .emitting state events =>
    emitted ++ events <+: due db j after ∧
      (state.isTerminal = true → Ended db j ∧ emitted ++ events = due db j after)
  | .returned => Ended db j ∧ emitted = due db j after

structure StreamSound (j : JobId) (after : Nat) (world : Database × Stream) : Prop where
  sound : Sound world.1
  cursor : world.2.sequence = Journal.cursor ResearchEvent.sequence after world.2.emitted
  phase : PhaseSound world.1 j after world.2.emitted world.2.phase

section
variable {H : Hashing} {j : JobId} {userId : String} {after : Nat} {db : Database} {s : Stream}

/-- A writer leaves the reader's knowledge valid. -/
theorem PhaseSound.writer {op : Op} (hop : op.isRetention = false) (hs : Sound db)
    {emitted : List ResearchEvent} {phase : StreamPhase} (h : PhaseSound db j after emitted phase) :
    PhaseSound (step H op db) j after emitted phase := by
  have hmore : due db j after <+: due (step H op db) j after := past_step hop after
  have hdue (hend : Ended db j) : due (step H op db) j after = due db j after :=
    congrArg (Journal.past _ after) (congrArg Slice.events (hend.step_slice hs hop))
  have ended (hend : Ended db j) : Ended (step H op db) j :=
    (hend.step hs op).resolve_right fun ⟨hret, _⟩ => by simp [hop] at hret
  cases phase with
  | looping => exact List.IsPrefix.trans h hmore
  | notFound => exact List.IsPrefix.trans h hmore
  | authorizing state => exact ⟨h.1.trans hmore, fun ht => ended (h.2 ht)⟩
  | selecting state => exact ⟨h.1.trans hmore, fun ht => ended (h.2 ht)⟩
  | emitting state events =>
    refine ⟨h.1.trans hmore, fun ht => ?_⟩
    obtain ⟨hend, hall⟩ := h.2 ht
    exact ⟨ended hend, hall.trans (hdue hend).symm⟩
  | returned => exact ⟨ended h.1, h.2.trans (hdue h.1).symm⟩

theorem getForUser_job {job : ResearchJob} {db' : Database}
    (h : getForUser j userId db = .ok (job, db')) : db.job? j = some job := (ok_user h).2.1

/-- A step of the reader keeps what it knows. -/
theorem StreamSound.reader (h : StreamSound j after (db, s)) :
    StreamSound j after (db, s.advance j userId db) := by
  obtain ⟨hs, hcursor, hphase⟩ := h
  obtain ⟨sequence, emitted, phase⟩ := s
  simp only at hcursor hphase
  cases phase with
  | looping =>
    simp only [Stream.advance]
    split
    · next job _ hread =>
      refine ⟨hs, hcursor, hphase, fun ht => ?_⟩
      exact ⟨job, getForUser_job hread, ht⟩
    · exact ⟨hs, hcursor, hphase⟩
  | authorizing state =>
    simp only [Stream.advance]
    split
    · exact ⟨hs, hcursor, hphase⟩
    · exact ⟨hs, hcursor, hphase.1⟩
  | selecting state =>
    obtain ⟨⟨rest, hrest⟩, hend⟩ := hphase
    have hpending : listEvents db j sequence = rest := by
      rw [listEvents_eq hs, hcursor]
      exact Journal.past_resume (hs j).increasing hrest.symm
    refine ⟨hs, hcursor, ?_⟩
    show PhaseSound db j after emitted (.emitting state (listEvents db j sequence))
    rw [hpending]
    exact ⟨by simp [hrest], fun ht => ⟨hend ht, hrest⟩⟩
  | emitting state events =>
    cases events with
    | nil =>
      simp only [PhaseSound, List.append_nil] at hphase
      refine ⟨hs, hcursor, ?_⟩
      show PhaseSound db j after emitted (if state.isTerminal then .returned else .looping)
      split
      · next ht => exact hphase.2 ht
      · exact hphase.1
    | cons e rest =>
      have hmoved : e.sequence = Journal.cursor ResearchEvent.sequence after (emitted ++ [e]) :=
        (Journal.cursor_snoc after emitted e).symm
      refine ⟨hs, hmoved, ?_⟩
      show PhaseSound db j after (emitted ++ [e]) (.emitting state rest)
      simp only [PhaseSound, List.append_assoc, List.singleton_append]
      exact hphase
  | returned => exact ⟨hs, hcursor, hphase⟩
  | notFound => exact ⟨hs, hcursor, hphase⟩

theorem StreamSound.emitted_due (h : StreamSound j after (db, s)) :
    s.emitted <+: due db j after := by
  have hphase := h.phase
  simp only at hphase
  cases hp : s.phase with
  | looping => rw [hp] at hphase; exact hphase
  | notFound => rw [hp] at hphase; exact hphase
  | authorizing state => rw [hp] at hphase; exact hphase.1
  | selecting state => rw [hp] at hphase; exact hphase.1
  | emitting state events => rw [hp] at hphase; exact (List.prefix_append ..).trans hphase.1
  | returned => rw [hp] at hphase; simp [hphase.2]

theorem start_sound (hs : Sound db) : StreamSound j after (db, Stream.start after) :=
  ⟨hs, rfl, List.nil_prefix⟩

end

/-! ### Every interleaving -/

/-- The inputs hold no retention transaction. -/
def WithoutRetention (inputs : List StreamInput) : Prop :=
  ∀ op, StreamInput.writer op ∈ inputs → op.isRetention = false

theorem stream_sound (H : Hashing) (ops : List Op) (j : JobId) (userId : String) (cursor : Nat)
    (inputs : List StreamInput) (hinputs : WithoutRetention inputs) :
    StreamSound j cursor ((following H j userId).run (after H ops, Stream.start cursor) inputs) := by
  refine Machine.run_invariant (M := following H j userId)
    (A := fun i => ∀ op, i = .writer op → op.isRetention = false) ?_
    (start_sound (after_sound H ops)) inputs fun i hi op hop => hinputs op (hop ▸ hi)
  rintro (_ | op) ⟨db, s⟩ hallowed h
  · exact h.reader
  · exact ⟨step_sound H op h.sound, h.cursor, h.phase.writer (hallowed op rfl) h.sound⟩

/-- The transactions of the writers. -/
def writers : List StreamInput → List Op :=
  List.filterMap fun
    | .reader => none
    | .writer op => some op

theorem mem_writers {inputs : List StreamInput} {op : Op} :
    op ∈ writers inputs ↔ StreamInput.writer op ∈ inputs := by
  simp only [writers, List.mem_filterMap]
  constructor
  · rintro ⟨_ | op', hmem, hop⟩
    · cases hop
    · cases hop
      exact hmem
  · exact fun hmem => ⟨_, hmem, rfl⟩

/-- The tables under a stream are those of the writers' run. -/
theorem stream_tables (H : Hashing) (ops : List Op) (j : JobId) (userId : String) (s : Stream)
    (inputs : List StreamInput) :
    ((following H j userId).run (after H ops, s) inputs).1 = after H (ops ++ writers inputs) := by
  induction inputs generalizing ops s with
  | nil =>
    rw [writers, List.filterMap_nil, List.append_nil]
    rfl
  | cons i rest ih =>
    cases i with
    | reader => exact ih ops (s.advance j userId (after H ops))
    | writer op =>
      have hrest := ih (ops ++ [op]) s
      rw [after_snoc, ← List.append_cons] at hrest
      exact hrest

/-- The stream loses and repeats nothing: at every moment it has emitted, in order and
without a gap, the first events past its cursor, and when it returns it has emitted
all of them. The event that closed the job is then the last one, if it is past the
cursor; it is there unless an event of the job was deleted before the stream began. -/
theorem stream_complete (H : Hashing) (ops : List Op) (j : JobId) (userId : String) (cursor : Nat)
    (inputs : List StreamInput) (hinputs : WithoutRetention inputs) :
    let world := (following H j userId).run (after H ops, Stream.start cursor) inputs
    world.2.emitted <+: due world.1 j cursor ∧
    (world.2.emitted.map ResearchEvent.sequence).Pairwise (· < ·) ∧
    (world.2.phase = .returned → Ended world.1 j ∧ world.2.emitted = due world.1 j cursor ∧
      ((∀ op ∈ ops ++ writers inputs, op.progressOnly = true) →
        (∀ e ∈ world.1.eventsOf j, e.closes = true → cursor < e.sequence →
          world.2.emitted.getLast? = some e) ∧
        ((after H ops).eventsOf j = appended H ops j →
          ∃ e ∈ world.1.eventsOf j, e.closes = true))) := by
  intro world
  have hsound : StreamSound j cursor world := stream_sound H ops j userId cursor inputs hinputs
  have hpre : world.2.emitted <+: due world.1 j cursor := hsound.emitted_due
  have hinc : Journal.Increasing ResearchEvent.sequence world.2.emitted :=
    (hsound.sound j).increasing.sublist (hpre.sublist.trans (Journal.past_sublist ..))
  refine ⟨hpre, hinc, fun hreturned => ?_⟩
  have hphase := hsound.phase
  rw [hreturned] at hphase
  obtain ⟨hended, hall⟩ := hphase
  refine ⟨hended, hall, fun hprogress => ?_⟩
  obtain ⟨job, hj, ht⟩ := hended
  have hworld : world.1 = after H (ops ++ writers inputs) :=
    stream_tables H ops j userId (Stream.start cursor) inputs
  have hlogged := logged_after H (ops ++ writers inputs) hprogress j job (by rw [← hworld]; exact hj)
  rw [← hworld] at hlogged
  refine ⟨fun e he hcloses hlt => ?_, fun hstart => ?_⟩
  · obtain ⟨front, hsplit⟩ := hlogged.ends_with ht he hcloses
    have hlast : Journal.past ResearchEvent.sequence cursor [e] = [e] := by
      simp [Journal.past, hlt]
    rw [hall, due, hsplit, Journal.past_append, hlast, List.getLast?_concat]
  · have hintact := log_intact H ops (writers inputs) j hstart
      fun op hop => hinputs op (mem_writers.mp hop)
    obtain ⟨front, last, happended, hcloses, -⟩ := hlogged.closed ht
    refine ⟨last, ?_, hcloses⟩
    rw [hworld, hintact, happended]
    exact List.mem_append_right _ (List.mem_singleton_self last)

/-- A job that ends between the reader's two reads: the stream sees the end one round later. -/
theorem stream_complete_between :
    let inputs := [.reader, .writer (.requestCancel 3 1 "user"), .reader,
      .writer (.markCancelled 4 1 "token")] ++ List.replicate 12 StreamInput.reader
    let world := (following Sample.hashing 1 "user").run
      (after Sample.hashing Sample.started, Stream.start 1) inputs
    world.2.emitted.map ResearchEvent.sequence = [2, 3, 4, 5] ∧
      world.2.emitted = due world.1 1 1 := by
  intro inputs world
  have hinputs : WithoutRetention inputs := by
    intro op hop
    simp only [inputs, List.cons_append, List.nil_append, List.mem_cons, List.mem_replicate,
      StreamInput.writer.injEq, reduceCtorEq, and_false, or_false, false_or] at hop
    rcases hop with rfl | rfl <;> rfl
  have hstream := stream_complete Sample.hashing Sample.started 1 "user" 1 inputs hinputs
  exact ⟨by decide, (hstream.2.2 rfl).2.1⟩

end ResearchGateway
