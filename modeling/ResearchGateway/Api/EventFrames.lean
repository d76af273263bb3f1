import ResearchGateway.CreationSteps
import ResearchGateway.Library.EventSource

/-! What a client reads of the event stream.

The stream is a text, and a client that follows the events of a job takes the messages out of
it. When its connection ends it opens another one and gives the id of the last message as
`after`, the only cursor that the endpoint reads. As long as nothing is deleted, the messages
of all its connections are the events past the first cursor, once each and in order, whatever
other transactions come in between (`stream_resumed`). Types of events have to be without ends
of lines for it; those of the gateway are, and a runner's are what it sends. -/
namespace ResearchGateway
open Library EventSource

namespace EventFrames

/-! ### Types of events -/

/-- A type that can be written as the value of a field. -/
structure PlainType (eventType : String) : Prop where
  nonempty : eventType.toList ≠ []
  plain : Plain eventType.toList

instance (eventType : String) : Decidable (PlainType eventType) :=
  decidable_of_iff (eventType.toList ≠ [] ∧ '\n' ∉ eventType.toList ∧ '\r' ∉ eventType.toList)
    ⟨fun ⟨hne, hplain⟩ => ⟨hne, hplain⟩, fun h => ⟨h.nonempty, h.plain⟩⟩

/-- What a runner sends is of such a type. -/
def PlainOp (op : Op) : Prop :=
  ∀ now jobId token eventType data, op = .appendRunnerEvent now jobId token eventType data → PlainType eventType

def PlainLog (db : Database) (j : JobId) : Prop := ∀ e ∈ db.eventsOf j, PlainType e.eventType

section
variable {H : Hashing} {op : Op} {acct : Account} {j : JobId} {s s' : Slice} {job : ResearchJob} {w : Write} {db : Database}

theorem effect_plain (h : Effect H op acct job w) (hop : PlainOp op) : ∀ n ∈ w.notes, PlainType n.1 := by
  intro n hn
  cases h with
  | progressed _ happend =>
    obtain rfl := List.mem_singleton.mp hn
    exact hop _ _ _ _ _ happend
  | closed hcloses =>
    obtain rfl := List.mem_singleton.mp hn
    rcases hcloses with ⟨-, rfl, -⟩ | ⟨-, rfl, -⟩ <;> (dsimp only; decide)
  | renewed | touched | charged | revoked => cases hn
  | _ =>
    obtain rfl := List.mem_singleton.mp hn
    dsimp only
    decide

theorem step_plain (h : JobStep H op j acct s s') (hop : PlainOp op) (hs : ∀ e ∈ s.events, PlainType e.eventType) :
    ∀ e ∈ s'.events, PlainType e.eventType := by
  cases h with
  | kept | artifactDeleted | orphaned => exact hs
  | created =>
    intro e he
    rcases List.mem_append.mp he with hold | hnew
    · exact hs e hold
    · obtain ⟨n, hn, htype⟩ := mem_numbered hnew
      obtain rfl := List.mem_singleton.mp hn
      rw [htype]
      decide
  | written _ heffect =>
    intro e he
    rcases List.mem_append.mp he with hold | hnew
    · exact hs e hold
    · obtain ⟨n, hn, htype⟩ := mem_numbered hnew
      rw [htype]
      exact effect_plain heffect hop n hn
  | pruned _ _ hsub => exact fun e he => hs e (hsub.subset he)
  | removed => simp

theorem PlainLog.step (h : PlainLog db j) (hop : PlainOp op) : PlainLog (step H op db) j :=
  step_plain (job_step H op db j) hop h

theorem plain_after (H : Hashing) {ops : List Op} (hops : ∀ op ∈ ops, PlainOp op) (j : JobId) : PlainLog (after H ops) j :=
  Machine.run_invariant (M := controlPlane H) (A := PlainOp) (P := fun db => PlainLog db j) (fun _ _ hop h => h.step hop)
    (fun _ he => absurd he List.not_mem_nil) ops hops

end

/-! ### The text -/

def idText (e : ResearchEvent) : List Char := (toString e.sequence).toList

/-- The message of an event. -/
def message (dumps : JobEventView → String) (e : ResearchEvent) : Message :=
  ⟨idText e, e.eventType.toList, (dumps (toEventView e)).toList⟩

/-- What a client receives in a step. -/
def received (dumps : JobEventView → String) (j : JobId) (userId : String) :
    StreamInput → Database × Stream → List Char
  | .reader, (db, s) => (s.chunk dumps j userId db).flatMap String.toList
  | .writer _, _ => []

/-- The text of a stream that was opened with a cursor. -/
def streamText (H : Hashing) (dumps : JobEventView → String) (j : JobId) (userId : String) (world : Database × Stream)
    (inputs : List StreamInput) : List Char :=
  ((following H j userId).observing (received dumps j userId)).trace world inputs

/-! ### One connection -/

/-- The events that a phase is going to emit. -/
def pendingEvents : StreamPhase → List ResearchEvent
  | .emitting _ events => events
  | _ => []

/-- What a client has made of a stream that has not failed. -/
structure Reads (dumps : JobEventView → String) (s : Stream) (text : List Char) : Prop where
  client : EventSource.machine.run {} text = {lastEventId := (s.emitted.getLast?.map idText).getD []}
  messages : EventSource.machine.trace {} text = s.emitted.map (message dumps)
  pending : ∀ e ∈ pendingEvents s.phase, PlainType e.eventType

section
variable {H : Hashing} {dumps : JobEventView → String} {j : JobId} {userId : String} {db : Database} {s : Stream}
  {text : List Char}

theorem plain_digits (n : Nat) : Plain (toString n).toList ∧ '\x00' ∉ (toString n).toList := by
  have hdigit (c : Char) (h : c ∈ (toString n).toList) : c.isDigit = true := by
    rw [Nat.toString_eq_ofList_toDigits, String.toList_ofList] at h
    exact Nat.isDigit_of_mem_toDigits (by decide) (by decide) h
  have hnot (c : Char) (hc : c.isDigit = false) : c ∉ (toString n).toList := fun h => by
    rw [hdigit c h] at hc
    cases hc
  exact ⟨⟨hnot '\n' (by decide), hnot '\r' (by decide)⟩, hnot '\x00' (by decide)⟩

/-- The job is the user's. -/
def Owned (db : Database) (j : JobId) (userId : String) : Prop := ∃ job, db.job? j = some job ∧ job.userId = userId

theorem Owned.getForUser (h : Owned db j userId) : ∃ job, getForUser j userId db = .ok (job, db) := by
  obtain ⟨job, hj, howner⟩ := h
  exact ⟨job, getForUser_accepted hj howner⟩

theorem Owned.step (h : Owned db j userId) {op : Op} (hop : op.isRetention = false) : Owned (step H op db) j userId := by
  obtain ⟨job, hj, howner⟩ := h
  obtain ⟨job', hj', hsame⟩ := (job_step H op db j).origin_kept hop hj
  exact ⟨job', hj', by rw [hsame.userId, howner]⟩

theorem frame_text (e : ResearchEvent) :
    (s!"id: {e.sequence}\nevent: {e.eventType}\ndata: {dumps (toEventView e)}\n\n").toList =
      frame (some (idText e)) e.eventType.toList (dumps (toEventView e)).toList := by
  show ("id: " ++ toString e.sequence ++ "\nevent: " ++ e.eventType ++ "\ndata: " ++ dumps (toEventView e) ++ "\n\n").toList = _
  simp [frame, fieldLine, idText]

/-- A client that has read nothing of a connection yet. -/
theorem ready_start (lastEventId : List Char) : ({lastEventId} : Client).Ready := ⟨rfl, rfl⟩

theorem Reads.keepalive (h : Reads dumps s text) {phase : StreamPhase} (hnone : pendingEvents phase = []) :
    Reads dumps {s with phase := phase} (text ++ [": keepalive\n\n"].flatMap String.toList) := by
  have hkeepalive : [": keepalive\n\n"].flatMap String.toList = comment " keepalive".toList := by decide
  obtain ⟨hrun, htrace⟩ := trace_comment (ready_start ((s.emitted.getLast?.map idText).getD [])) rfl
    (⟨by decide, by decide⟩ : Plain " keepalive".toList)
  rw [hkeepalive]
  refine ⟨?_, ?_, fun e he => ?_⟩
  · rw [Machine.run_append, h.client, hrun]
  · rw [Machine.trace_append, h.client, htrace, h.messages, List.append_nil]
  · rw [hnone] at he
    cases he

/-- The text of an event is one message. -/
theorem Reads.event {e : ResearchEvent} {rest : List ResearchEvent} (h : Reads dumps s text)
    (hpending : pendingEvents s.phase = e :: rest) (hdumps : Plain (dumps (toEventView e)).toList) {next : Stream}
    (hemitted : next.emitted = s.emitted ++ [e]) (hrest : pendingEvents next.phase = rest) :
    Reads dumps next (text ++ frame (some (idText e)) e.eventType.toList (dumps (toEventView e)).toList) := by
  have hplain : PlainType e.eventType := h.pending e (by rw [hpending]; exact List.mem_cons_self)
  have hid : ∀ text ∈ some (idText e), Plain text ∧ '\x00' ∉ text := by
    intro text htext
    obtain rfl := Option.some.inj htext
    exact plain_digits e.sequence
  obtain ⟨hrun, htrace⟩ := trace_frame (ready_start ((s.emitted.getLast?.map idText).getD [])) rfl hid hplain.plain
    hplain.nonempty hdumps
  refine ⟨?_, ?_, fun e' he' => h.pending e' ?_⟩
  · rw [Machine.run_append, h.client, hrun, hemitted, List.getLast?_concat]
    rfl
  · rw [Machine.trace_append, h.client, htrace, h.messages, hemitted, List.map_append]
    rfl
  · rw [hrest] at he'
    rw [hpending]
    exact List.mem_cons_of_mem _ he'

/-- A step of the stream is read. -/
theorem Reads.reader (h : Reads dumps s text) (hdumps : ∀ view, Plain (dumps view).toList) (howned : Owned db j userId)
    (hlog : PlainLog db j) :
    Reads dumps (s.advance j userId db) (text ++ (s.chunk dumps j userId db).flatMap String.toList) := by
  obtain ⟨job, hjob⟩ := howned.getForUser
  obtain ⟨sequence, emitted, phase⟩ := s
  have hquiet (phase' : StreamPhase) (hnone : ∀ e ∈ pendingEvents phase', PlainType e.eventType) :
      Reads dumps ⟨sequence, emitted, phase'⟩ (text ++ ([] : List String).flatMap String.toList) := by
    rw [List.flatMap_nil, List.append_nil]
    exact ⟨h.client, h.messages, hnone⟩
  cases phase with
  | looping =>
    simp only [Stream.advance, Stream.chunk, hjob]
    exact hquiet (.authorizing job.state) fun _ he => absurd he List.not_mem_nil
  | authorizing state =>
    simp only [Stream.advance, Stream.chunk, hjob]
    exact hquiet (.selecting state) fun _ he => absurd he List.not_mem_nil
  | selecting state =>
    refine hquiet (.emitting state (listEvents db j sequence)) fun e he => hlog e ?_
    exact (List.mem_filter.mp ((List.mem_insertionSort _).mp he)).1
  | returned => exact hquiet .returned h.pending
  | notFound => exact hquiet .notFound h.pending
  | emitting state events =>
    cases events with
    | nil =>
      simp only [Stream.advance, Stream.chunk]
      by_cases hend : state.isTerminal = true
      · simp only [hend, if_true]
        exact hquiet .returned fun _ he => absurd he List.not_mem_nil
      · simp only [hend, Bool.false_eq_true, if_false]
        exact h.keepalive rfl
    | cons e rest =>
      simp only [Stream.chunk, List.flatMap_cons, List.flatMap_nil, List.append_nil, frame_text]
      exact h.event rfl (hdumps (toEventView e)) rfl rfl

/-- What a connection rests on. -/
structure Serving (dumps : JobEventView → String) (j : JobId) (userId : String) (after : Nat) (first : Database)
    (world : Database × Stream) (text : List Char) : Prop where
  stream : StreamSound j after world
  owned : Owned world.1 j userId
  plain : PlainLog world.1 j
  grown : ∀ cursor, due first j cursor <+: due world.1 j cursor
  reads : Reads dumps world.2 text

/-- A transaction that deletes nothing, and appends no type but a plain one. -/
def Harmless : StreamInput → Prop
  | .reader => True
  | .writer op => op.isRetention = false ∧ PlainOp op

theorem serving (cursor : Nat) (hs : Sound db) (howned : Owned db j userId) (hplain : PlainLog db j)
    (hdumps : ∀ view, Plain (dumps view).toList) {inputs : List StreamInput} (hinputs : ∀ i ∈ inputs, Harmless i) :
    Serving dumps j userId cursor db ((following H j userId).run (db, Stream.start cursor) inputs)
      (streamText H dumps j userId (db, Stream.start cursor) inputs) := by
  have hhistory := Machine.history (M := (following H j userId).observing (received dumps j userId)) (A := Harmless)
    (P := fun world _ text => Serving dumps j userId cursor db world text) ?_
    (s := (db, Stream.start cursor)) ?_ inputs hinputs
  · rw [Machine.run_observing] at hhistory
    exact hhistory
  · rintro i ⟨db', s⟩ _ text hi ⟨hstream, howned', hplain', hgrown, hreads⟩
    cases i with
    | reader => exact ⟨hstream.reader, howned', hplain', hgrown, hreads.reader hdumps howned' hplain'⟩
    | writer op =>
      obtain ⟨hop, htype⟩ := hi
      refine ⟨⟨step_sound H op hstream.sound, hstream.cursor, hstream.phase.writer hop hstream.sound⟩, howned'.step hop,
        hplain'.step htype, fun c => (hgrown c).trans (past_step hop c), ?_⟩
      show Reads dumps s (text ++ [])
      rw [List.append_nil]
      exact hreads
  · exact ⟨start_sound hs, howned, hplain, fun _ => List.prefix_refl _, ⟨rfl, rfl, fun _ he => absurd he List.not_mem_nil⟩⟩

end

/-! ### Connections one after another -/

/-- The `after` of the next connection: the id that the client has read last, if any. -/
def resumeFrom (cursor : Nat) (client : Client) : Nat :=
  if client.lastEventId = [] then cursor else Nat.ofDigitChars 10 client.lastEventId 0

/-- The tables and the stream after a connection with a cursor. -/
def connected (H : Hashing) (j : JobId) (userId : String) (world : Database × Nat) (inputs : List StreamInput) :
    Database × Stream := (following H j userId).run (world.1, Stream.start world.2) inputs

/-- A client that opens the stream again and again, each time with the `after` that it has come to; an
input is a connection with the steps during it. -/
def resuming (H : Hashing) (dumps : JobEventView → String) (j : JobId) (userId : String) :
    Machine (Database × Nat) (List StreamInput) Message where
  next inputs world :=
    ((connected H j userId world inputs).1,
      resumeFrom world.2 (EventSource.machine.run {} (streamText H dumps j userId (world.1, Stream.start world.2) inputs)))
  out inputs world := EventSource.machine.trace {} (streamText H dumps j userId (world.1, Stream.start world.2) inputs)

section
variable {H : Hashing} {dumps : JobEventView → String} {j : JobId} {userId : String} {cursor : Nat}

/-- What was received up to the cursor that is next. -/
structure Received (dumps : JobEventView → String) (j : JobId) (userId : String) (cursor : Nat) (events : List ResearchEvent)
    (world : Database × Nat) (messages : List Message) : Prop where
  sound : Sound world.1
  owned : Owned world.1 j userId
  plain : PlainLog world.1 j
  received : events <+: due world.1 j cursor
  next : world.2 = Journal.cursor ResearchEvent.sequence cursor events
  messages : messages = events.map (message dumps)

theorem cursor_append (cursor : Nat) (events more : List ResearchEvent) :
    Journal.cursor ResearchEvent.sequence cursor (events ++ more) =
      Journal.cursor ResearchEvent.sequence (Journal.cursor ResearchEvent.sequence cursor events) more := by
  rcases List.eq_nil_or_concat' more with rfl | ⟨front, e, rfl⟩
  · rw [List.append_nil]
    rfl
  · rw [← List.append_assoc, Journal.cursor_snoc, Journal.cursor_snoc]

theorem resumeFrom_eq (cursor : Nat) (events : List ResearchEvent) :
    resumeFrom cursor {lastEventId := (events.getLast?.map idText).getD []} =
      Journal.cursor ResearchEvent.sequence cursor events := by
  rcases List.eq_nil_or_concat' events with rfl | ⟨front, e, rfl⟩
  · rfl
  · rw [List.getLast?_concat, Journal.cursor_snoc]
    show (if idText e = [] then cursor else Nat.ofDigitChars 10 (idText e) 0) = e.sequence
    rw [idText, Nat.toString_eq_ofList_toDigits, String.toList_ofList, if_neg Nat.toDigits_ne_nil,
      Nat.ofDigitChars_ten_toDigits]

/-- A connection goes on where the last one ended. -/
theorem Received.connect {events : List ResearchEvent} {world : Database × Nat} {messages : List Message}
    (h : Received dumps j userId cursor events world messages) (hdumps : ∀ view, Plain (dumps view).toList)
    {inputs : List StreamInput} (hinputs : ∀ i ∈ inputs, Harmless i) :
    let s := (connected H j userId world inputs).2
    Received dumps j userId cursor (events ++ s.emitted) ((resuming H dumps j userId).next inputs world)
        (messages ++ (resuming H dumps j userId).out inputs world) ∧
      (s.phase = .returned →
        events ++ s.emitted = due ((resuming H dumps j userId).next inputs world).1 j cursor) := by
  obtain ⟨db, sequence⟩ := world
  obtain ⟨hs, howned, hplain, hreceived, rfl, hmessages⟩ := h
  intro s
  obtain ⟨hstream, howned', hplain', hgrown, hreads⟩ :=
    serving (H := H) (Journal.cursor ResearchEvent.sequence cursor events) hs howned hplain hdumps hinputs
  obtain ⟨rest, hrest⟩ := hreceived.trans (hgrown cursor)
  have hdue := Journal.past_resume (hstream.sound j).increasing hrest.symm
  have hemitted : s.emitted <+: rest := by
    rw [← hdue]
    exact hstream.emitted_due
  refine ⟨⟨hstream.sound, howned', hplain', ?_, ?_, ?_⟩, fun hreturned => ?_⟩
  · exact hrest ▸ (List.prefix_append_right_inj events).mpr hemitted
  · show resumeFrom _ (EventSource.machine.run {} (streamText H dumps j userId (db, Stream.start _) inputs)) = _
    rw [hreads.client, resumeFrom_eq, cursor_append]
    rfl
  · show messages ++ EventSource.machine.trace {} (streamText H dumps j userId (db, Stream.start _) inputs) = _
    rw [hreads.messages, hmessages, List.map_append]
    rfl
  · have hphase : PhaseSound _ j _ s.emitted s.phase := hstream.phase
    rw [hreturned] at hphase
    have hall : s.emitted = rest := hphase.2.trans hdue
    rw [hall]
    exact hrest

namespace Sample

/-- The connection ends after the first events; the job is cancelled; the client comes again. -/
def connections : List (List StreamInput) :=
  [List.replicate 5 .reader, [.writer (.requestCancel 3 1 "user"), .writer (.markCancelled 4 1 "token")] ++ List.replicate 8 .reader]

end Sample

end

end EventFrames
end ResearchGateway
