import ResearchGateway.RunnerErrors

/-! In which order a job's messages reach Open WebUI.

A handler commits its transaction first and sends its messages afterwards, under no
lock. So a message is about a state that the job may have left by the time it is sent:
a handler that has committed a progress event may be overtaken by the one that ends
the job. Only such a handler, though: once a job has ended, no handler commits
anything that it would announce as progress. -/
namespace ResearchGateway
open Library

/-- The tables and the requests under way. A job identifier is drawn only once. -/
structure MessageSystem where
  db : Database
  drawn : List JobId
  requests : Nat → Handler

inductive MessageInput where
  /-- A transaction of anybody else. -/
  | other (op : Op)
  | call (n : Nat) (request : RunnerRequest)
  /-- A handler goes on to its next stop. -/
  | resume (n : Nat) (now : Time)
  /-- A request is cut off. -/
  | drop (n : Nat)

namespace MessageSystem

def initial : MessageSystem := ⟨.empty, [], fun _ => .returns⟩

def enter (w : MessageSystem) (n : Nat) (handler : Handler) : MessageSystem :=
  {w with requests := Function.update w.requests n handler}

def others (H : Hashing) (w : MessageSystem) (op : Op) : MessageSystem :=
  match op.createdId with
  | none => {w with db := step H op w.db}
  | some id => if id ∈ w.drawn then w else {w with db := step H op w.db, drawn := id :: w.drawn}

def next (H : Hashing) (settings : RunnerSettings) : MessageInput → MessageSystem → MessageSystem
  | .other op, w => w.others H op
  | .call n request, w =>
    match w.requests n with
    | .finish _ => w.enter n (request.handler H settings)
    | _ => w
  | .resume n now, w =>
    match w.requests n with
    | .finish _ => w
    | .emit e next => w.enter n (if e.isAddressable then next else .finish .broken)
    | .transaction writes next => {w with db := writes now w.db}.enter n (next now w.db)
  | .drop n, w => w.enter n (.finish .broken)

/-- What is sent to Open WebUI. -/
def sent (i : MessageInput) (w : MessageSystem) : List Emission :=
  match i with
  | .resume n _ =>
    match w.requests n with
    | .emit e _ => if e.isAddressable then [e] else []
    | _ => []
  | _ => []

end MessageSystem

/-- The request goes on, or it is cut off. -/
def MessageInput.moves (n : Nat) : MessageInput → Bool
  | .resume m _ | .drop m => m = n
  | .other _ | .call .. => false

/-- The gateway; its trace is what Open WebUI is sent. -/
def messages (H : Hashing) (settings : RunnerSettings) : Machine MessageSystem MessageInput Emission :=
  ⟨MessageSystem.next H settings, MessageSystem.sent⟩

/-! ### What a transaction lets a handler say -/

/-- The job is there and has not ended. -/
def Open (db : Database) (j : JobId) : Prop :=
  ∃ job, db.job? j = some job ∧ job.state.isTerminal = false

/-- The row is the job's, and closed. -/
def ClosedRow (db : Database) (j : JobId) (job : ResearchJob) : Prop :=
  db.job? j = some job ∧ job.state.isTerminal = true

theorem ClosedRow.ended {db : Database} {j : JobId} {job : ResearchJob} (h : ClosedRow db j job) :
    Ended db j := ⟨job, h⟩

namespace Handler

/-- Nothing is left but messages of this job, none of them about progress. -/
def Closing (j : JobId) : Handler → Prop
  | .finish _ => True
  | .emit e next => e.jobId = j ∧ e.done? ≠ some false ∧ next.Closing j
  | .transaction _ _ => False

/-- What a handler may be left with by a transaction: its answer, a message about the
progress of a job that is open, closing messages for a job that has ended, or another
transaction. -/
inductive Announces (db : Database) : Handler → Prop
  | answer (served : Served) : Announces db (.finish served)
  | progress (e : Emission) (served : Served) (hdone : e.done? = some false) (hopen : Open db e.jobId) :
    Announces db (.emit e (.finish served))
  | closing (j : JobId) (h : Handler) (hclosing : h.Closing j) (hended : Ended db j) : Announces db h
  | again (writes : Time → Database → Database) (next : Time → Database → Handler) :
    Announces db (.transaction writes next)

/-- At most one operation was committed, and it created no job. -/
def Steps (H : Hashing) (db db' : Database) : Prop :=
  db' = db ∨ ∃ op : Op, op.createdId = none ∧ db' = step H op db

/-- Every transaction commits at most one operation and lets the handler say only what
`Announces` allows. -/
def Orderly (H : Hashing) : Handler → Prop
  | .finish _ => True
  | .emit _ next => next.Orderly H
  | .transaction writes next => ∀ now db, Sound db →
    Steps H db (writes now db) ∧ Announces (writes now db) (next now db) ∧ (next now db).Orderly H

end Handler

/-! ### What the transactions return -/

section
variable {H : Hashing} {j : JobId} {token : String} {db db' : Database} {r : ResearchJob} {now : Time}

theorem markStarted_open (h : markStarted H now j token db = .ok (r, db')) :
    r.id = j ∧ Open db' j := by
  obtain ⟨job, hj', -, hst⟩ := markStarted_underWay h
  obtain ⟨found, _, hrow, hstart⟩ := ok_bind h
  obtain ⟨rfl, hj, -⟩ := ok_runner hrow
  have hid := Database.id_of_job? hj
  refine ⟨?_, job, hj', by rcases hst with hst | hst <;> rw [hst] <;> rfl⟩
  rcases ok_ite hstart with ⟨-, hthrow⟩ | ⟨-, hstart⟩
  · exact (ok_throw hthrow).elim
  · rcases ok_ite hstart with ⟨-, hsame⟩ | ⟨-, hstart⟩
    · rw [← (ok_pure hsame).1, hid]
    · rcases ok_ite hstart with ⟨-, hsaved⟩ | ⟨-, hsame⟩
      · rw [← (ok_written hsaved).1, hid]
      · rw [← (ok_pure hsame).1, hid]

theorem markFailed_closed {error : String} (h : markFailed H now j token error db = .ok (r, db')) :
    ClosedRow db' j r := by
  obtain ⟨job, _, hrow, hfail⟩ := ok_bind h
  obtain ⟨rfl, hj, -⟩ := ok_runner hrow
  rcases ok_ite hfail with ⟨hs, hfail⟩ | ⟨-, hfail⟩
  · obtain ⟨rfl, rfl⟩ := ok_saved now hfail
    have hid : (revokeToken now job).id = job.id :=
      revokeToken_rule (P := fun after => after.id = job.id) rfl rfl
    exact ⟨Database.job?_write hj hid, by rw [revokeToken_state, hs]; rfl⟩
  · rcases ok_ite hfail with ⟨-, hfail⟩ | ⟨-, hbad⟩
    · rcases ok_ite hfail with ⟨-, hfail⟩ | ⟨-, hbad⟩
      · obtain ⟨rfl, rfl⟩ := ok_written hfail
        exact ⟨Database.job?_write hj rfl, rfl⟩
      · exact (ok_throw hbad).elim
    · exact (ok_throw hbad).elim

theorem markCancelled_closed (h : markCancelled H now j token db = .ok (r, db')) :
    ClosedRow db' j r := by
  obtain ⟨job, _, hrow, hcancel⟩ := ok_bind h
  obtain ⟨rfl, hj, -⟩ := ok_runner hrow
  rcases ok_ite hcancel with ⟨hs, hcancel⟩ | ⟨-, hcancel⟩
  · obtain ⟨rfl, rfl⟩ := ok_saved now hcancel
    have hid : (revokeToken now job).id = job.id :=
      revokeToken_rule (P := fun after => after.id = job.id) rfl rfl
    exact ⟨Database.job?_write hj hid, by rw [revokeToken_state, hs]; rfl⟩
  · rcases ok_ite hcancel with ⟨-, hcancel⟩ | ⟨-, hbad⟩
    · obtain ⟨rfl, rfl⟩ := ok_written hcancel
      exact ⟨Database.job?_write hj rfl, rfl⟩
    · exact (ok_throw hbad).elim

theorem runnerPublicSearch_closed {enabled : Bool} {db' : Database}
    (h : runnerPublicSearch H now j token enabled db = .ok (some r, db')) : ClosedRow db' j r := by
  obtain ⟨_, _, -, -, -, hended⟩ := runnerPublicSearch_inv h
  rcases hended with ⟨failed, hsome, hmark⟩ | ⟨hnone, -⟩
  · cases hsome
    exact markFailed_closed hmark
  · cases hnone

theorem chatAdmission_closed {model : Option String} {estimatedInput safetyTokens : Nat}
    (h : chatAdmission H now j token model estimatedInput safetyTokens db = .ok (some r, db')) :
    ClosedRow db' j r := by
  rcases chatAdmission_inv h with ⟨failed, _, hsome, hmark⟩ | ⟨hnone, -⟩
  · cases hsome
    exact markFailed_closed hmark
  · cases hnone

theorem completionCommit_closed {completion : RunnerCompletion} {stored : List StoredObject}
    (h : completionCommit H now j token completion stored db = .ok (r, db')) :
    r.id = j ∧ Ended db' j := by
  refine ⟨?_, completionCommit_ended h⟩
  obtain ⟨job, _, hrow, hcommit⟩ := ok_bind h
  obtain ⟨rfl, hj, -⟩ := ok_runner hrow
  rcases ok_ite hcommit with ⟨-, hbad⟩ | ⟨hr, hcommit⟩
  · exact (ok_throw hbad).elim
  · obtain ⟨marked, _, hcomplete, hcommit⟩ := ok_bind hcommit
    obtain ⟨_, _, -, hret⟩ := ok_bind hcommit
    rw [← (ok_pure hret).1]
    obtain ⟨found, _, hrow', hmark⟩ := ok_bind hcomplete
    obtain ⟨rfl, hj', -⟩ := ok_runner hrow'
    obtain rfl : job = found := Option.some.inj (hj.symm.trans hj')
    rw [if_neg (by rw [Decidable.not_not.mp hr]; decide),
      if_neg (by rw [Decidable.not_not.mp hr]; decide)] at hmark
    rw [← (ok_written hmark).1]
    exact (Database.id_of_job? hj : job.id = j)

end

/-! ### Every handler is orderly -/

namespace Handler
variable {H : Hashing} {α : Type}

theorem Orderly.commits {caught : Failure → Option Nat} {t : Time → Transaction α} {next : α → Handler}
    (h : ∀ now db a db', Sound db → t now db = .ok (a, db') →
      Steps H db db' ∧ Announces db' (next a) ∧ (next a).Orderly H) :
    (Handler.commits caught t next).Orderly H := by
  intro now db hs
  cases ht : t now db with
  | ok p =>
    simp only [commit_ok ht]
    exact h now db p.1 p.2 hs ht
  | error e =>
    simp only [commit_error ht]
    exact ⟨.inl rfl, .answer _, trivial⟩

/-- A transaction that is an operation of its own. -/
theorem Steps.of_op (op : Op) {t : Transaction α} {f : α → Outcome} {db db' : Database} {a : α}
    (hcreates : op.createdId = none) (hop : transact H op = t >>= fun a => pure (f a))
    (h : t db = .ok (a, db')) : Steps H db db' := by
  refine .inr ⟨op, hcreates, ?_⟩
  rw [step_of_commit hop, commit_ok h]

theorem Steps.sound {db db' : Database} (h : Steps H db db') (hs : Sound db) : Sound db' := by
  rcases h with rfl | ⟨op, -, rfl⟩
  · exact hs
  · exact step_sound H op hs

/-- No step of a handler creates a job. -/
theorem Steps.present {db db' : Database} {j : JobId} {job : ResearchJob} (h : Steps H db db')
    (hj : db'.job? j = some job) : ∃ found, db.job? j = some found := by
  rcases h with rfl | ⟨op, hcreates, rfl⟩
  · exact ⟨job, hj⟩
  · cases hbefore : db.job? j with
    | some found => exact ⟨found, rfl⟩
    | none =>
      have hcreated := (job_step H op db j).created_of_absent hbefore hj
      rw [hcreates] at hcreated
      cases hcreated

theorem Steps.over {db db' : Database} {j : JobId} (h : Steps H db db') (hs : Sound db) (ho : Over db j) :
    Over db' j := by
  rcases h with rfl | ⟨op, hcreates, rfl⟩
  · exact ho
  · exact ho.step hs (by rw [hcreates]; nofun)

theorem answers_announces (answer : Upstream) (db : Database) :
    Announces db (answers answer) ∧ (answers answer).Orderly H := by
  cases answer <;> exact ⟨.answer _, trivial⟩

theorem chargeStream_orderly (j : JobId) (token : String) (charge : Charge) :
    (chargeStream H j token charge).Orderly H := by
  intro now db hs
  have hstep : step H (.consumeUsage now j token charge) db = _ := step_of_commit rfl db
  refine ⟨.inr ⟨_, rfl, hstep.symm⟩, ?_⟩
  beta_reduce
  cases (commit (consumeUsage H now j token charge) db).1 with
  | ok => exact ⟨.answer _, trivial⟩
  | error => exact ⟨.answer _, trivial⟩

/-- One status line about a job that was just closed. -/
theorem publish_announces {db : Database} {j : JobId} {job : ResearchJob} {event : MessageEvent}
    {served : Served} (hclosed : ClosedRow db j job)
    (hdone : (job.emission event).done? ≠ some false) :
    Announces db (.emit (job.emission event) (.finish served)) ∧
      (Handler.emit (job.emission event) (.finish served)).Orderly H :=
  ⟨.closing j _ ⟨Database.id_of_job? hclosed.1, hdone, trivial⟩ hclosed.ended, trivial⟩

end Handler

/-- The check that a job is active writes nothing. -/
theorem activeRunner_unchanged {H : Hashing} {j : JobId} {token : String} {db db' : Database} {u : Unit}
    (h : (getForRunner H j token >>= ensureActive) db = .ok (u, db')) : db' = db := by
  obtain ⟨job, _, hrow, hactive⟩ := ok_bind h
  obtain ⟨-, rfl⟩ := ensureActive_ok hactive
  exact (ok_runner hrow).1.symm

open Handler in
theorem RunnerRequest.handler_orderly (H : Hashing) (settings : RunnerSettings) (r : RunnerRequest) :
    (r.handler H settings).Orderly H := by
  obtain ⟨j, token, call⟩ := r
  cases call with
  | job =>
    exact Orderly.commits fun now db _ db' _ h => ⟨.inl (activeRunner_unchanged h), .answer _, trivial⟩
  | state =>
    exact Orderly.commits fun now db _ db' _ h => ⟨.inl (ok_runner h).1.symm, .answer _, trivial⟩
  | started =>
    refine Orderly.commits fun now db job db' _ h => ⟨.of_op (.markStarted now j token) rfl rfl h, ?_, trivial⟩
    obtain ⟨hid, hopen⟩ := markStarted_open h
    exact .progress _ _ rfl (by rw [← hid] at hopen; exact hopen)
  | heartbeat =>
    exact Orderly.commits fun now db _ db' _ h =>
      ⟨.of_op (.heartbeat now j token) rfl rfl h, .answer _, trivial⟩
  | events event =>
    refine Orderly.commits fun now db job db' hs h => ?_
    obtain ⟨_, db₁, happend, hrow⟩ := ok_bind h
    obtain ⟨rfl, hj, hacc⟩ := ok_runner hrow
    have hsteps : Steps H db db₁ :=
      .of_op (.appendRunnerEvent now j token event.eventType event.data) rfl rfl happend
    refine ⟨hsteps, ?_⟩
    split
    · refine ⟨.progress _ _ rfl ⟨job, ?_, ?_⟩, trivial⟩
      · rw [show (job.emission _).jobId = j from Database.id_of_job? hj]
        exact hj
      · rcases (hsteps.sound hs).active_of_accepts hj hacc with hst | hst | hst <;> rw [hst] <;> rfl
    · exact ⟨.answer _, trivial⟩
  | search retrieved =>
    refine Orderly.commits fun now db job db' _ h => ⟨.of_op (.runnerSearch now j token) rfl rfl h, ?_⟩
    split
    · exact ⟨.answer _, trivial⟩
    · exact answers_announces ..
  | publicSearch searched =>
    refine Orderly.commits fun now db failure db' _ h =>
      ⟨.of_op (.runnerPublicSearch now j token settings.publicSearchEnabled) rfl rfl h, ?_⟩
    cases failure with
    | none => exact answers_announces ..
    | some limitFailure => exact publish_announces (runnerPublicSearch_closed h) nofun
  | complete completion uploads =>
    refine Orderly.commits fun now db attempt db' _ h => ⟨.inl (completionCheck_unchanged h), ?_⟩
    cases uploads attempt with
    | none => exact ⟨.answer _, trivial⟩
    | some stored =>
      refine ⟨.again _ _, Orderly.commits fun now db job db' _ h =>
        ⟨.of_op (.completionCommit now j token completion stored) rfl rfl h, ?_⟩⟩
      obtain ⟨hid, hended⟩ := completionCommit_closed h
      split
      · exact ⟨.closing j _ ⟨hid, nofun, hid, nofun, trivial⟩ hended, trivial⟩
      · exact ⟨.answer _, trivial⟩
  | failed body =>
    exact Orderly.commits fun now db job db' _ h =>
      ⟨.of_op (.markFailed now j token body.error) rfl rfl h, publish_announces (markFailed_closed h) nofun⟩
  | cancelled =>
    exact Orderly.commits fun now db job db' _ h =>
      ⟨.of_op (.markCancelled now j token) rfl rfl h, publish_announces (markCancelled_closed h) nofun⟩
  | chatCompletions model estimatedInput stream answer =>
    refine Orderly.commits fun now db failure db' _ h =>
      ⟨.of_op (.chatAdmission now j token model estimatedInput settings.modelContextSafetyTokens) rfl rfl h, ?_⟩
    cases failure with
    | some contextFailure => exact publish_announces (chatAdmission_closed h) nofun
    | none =>
      cases answer with
      | refused | broken => exact ⟨.answer _, trivial⟩
      | answered charge =>
        cases stream with
        | false =>
          exact ⟨.again _ _, Orderly.commits fun now db _ db' _ h =>
            ⟨.of_op (.consumeUsage now j token charge) rfl rfl h, .answer _, trivial⟩⟩
        | true => exact ⟨.again _ _, chargeStream_orderly j token charge⟩
  | embeddings answer =>
    exact Orderly.commits fun now db _ db' _ h => ⟨.inl (activeRunner_unchanged h), answers_announces ..⟩

theorem RunnerRequest.handler_begins (H : Hashing) (settings : RunnerSettings) (r : RunnerRequest) :
    ∃ writes next, r.handler H settings = .transaction writes next := by
  obtain ⟨j, token, call⟩ := r
  cases call <;> exact ⟨_, _, rfl⟩

/-! ### Along a run -/

/-- The job was created, and it has ended or is gone. -/
def MessageSystem.Closed (w : MessageSystem) (j : JobId) : Prop := Over w.db j ∧ j ∈ w.drawn

section
variable (H : Hashing) (settings : RunnerSettings)

/-- The request with a number has committed its transaction at a step of the run, the job
being open. It was left with one message about progress, and has waited since. -/
structure AwaitsEmission (inputs : List MessageInput) (n : Nat) (e : Emission) (served : Served)
    (commits : List MessageInput) (now : Time) (waiting : List MessageInput) : Prop where
  split : inputs = commits ++ .resume n now :: waiting
  commit : ∃ writes next, ((messages H settings).run .initial commits).requests n = .transaction writes next ∧
    next now ((messages H settings).run .initial commits).db = .emit e (.finish served)
  idle : ∀ i ∈ waiting, i.moves n = false
  hopen : Open ((messages H settings).run .initial (commits ++ [.resume n now])).db e.jobId

/-- What a handler still has to send: progress that was committed, at some earlier time,
while the job was open, or messages of a job that is closed. -/
structure Told (inputs : List MessageInput) (w : MessageSystem) : Prop where
  reached : (messages H settings).run .initial inputs = w
  sound : Sound w.db
  known : ∀ j job, w.db.job? j = some job → j ∈ w.drawn
  /-- What was closed at some time is closed now. -/
  kept : ∀ earlier, earlier <+: inputs → ∀ j,
    ((messages H settings).run .initial earlier).Closed j → w.Closed j
  orderly : ∀ n, (w.requests n).Orderly H
  progress : ∀ n e next, w.requests n = .emit e next → e.done? = some false →
    ∃ served commits now waiting, next = .finish served ∧ AwaitsEmission H settings inputs n e served commits now waiting
  closing : ∀ n e next, w.requests n = .emit e next → e.done? ≠ some false →
    w.Closed e.jobId ∧ next.Closing e.jobId

variable {H settings} {inputs : List MessageInput} {i : MessageInput} {w w' : MessageSystem}

/-- A request that is not moved waits on. -/
theorem AwaitsEmission.later {n : Nat} {e : Emission} {served : Served} {commits waiting : List MessageInput} {now : Time}
    (h : AwaitsEmission H settings inputs n e served commits now waiting) (hidle : i.moves n = false) :
    AwaitsEmission H settings (inputs ++ [i]) n e served commits now (waiting ++ [i]) where
  split := by rw [h.split, List.append_assoc, List.cons_append]
  commit := h.commit
  idle k hk := by
    rcases List.mem_append.mp hk with hk | hk
    · exact h.idle k hk
    · rw [List.mem_singleton.mp hk]
      exact hidle
  hopen := h.hopen

theorem Told.reached_next (h : Told H settings inputs w) (hnext : MessageSystem.next H settings i w = w') :
    (messages H settings).run .initial (inputs ++ [i]) = w' := by
  rw [Machine.run_snoc, h.reached]
  exact hnext

theorem Told.kept_next (h : Told H settings inputs w) (hnext : MessageSystem.next H settings i w = w')
    (hkept : ∀ j, w.Closed j → w'.Closed j) (earlier : List MessageInput)
    (hpre : earlier <+: inputs ++ [i]) (j : JobId)
    (hclosed : ((messages H settings).run .initial earlier).Closed j) : w'.Closed j := by
  rcases List.prefix_concat_iff.mp hpre with rfl | hpre
  · rwa [h.reached_next hnext] at hclosed
  · exact hkept j (h.kept earlier hpre j hclosed)

/-- The tables moved on, and every request is where it was. -/
theorem Told.tables (h : Told H settings inputs w) (hnext : MessageSystem.next H settings i w = w')
    (hidle : ∀ n e next, w.requests n = .emit e next → i.moves n = false)
    (hrequests : w'.requests = w.requests) (hsound : Sound w'.db)
    (hknown : ∀ j job, w'.db.job? j = some job → j ∈ w'.drawn)
    (hkept : ∀ j, w.Closed j → w'.Closed j) : Told H settings (inputs ++ [i]) w' where
  reached := h.reached_next hnext
  sound := hsound
  known := hknown
  kept := h.kept_next hnext hkept
  orderly := by
    rw [hrequests]
    exact h.orderly
  progress := by
    intro n e next hn hdone
    rw [hrequests] at hn
    obtain ⟨served, commits, now, waiting, hlast, hwaits⟩ := h.progress n e next hn hdone
    exact ⟨served, commits, now, _, hlast, hwaits.later (hidle n e next hn)⟩
  closing := by
    intro n e next hn hdone
    rw [hrequests] at hn
    obtain ⟨hclosed, hrest⟩ := h.closing n e next hn hdone
    exact ⟨hkept _ hclosed, hrest⟩

/-- One request was put in place, with what it may send. -/
theorem Told.enter {n : Nat} {handler : Handler} (h : Told H settings inputs w)
    (hnext : MessageSystem.next H settings i w = w'.enter n handler)
    (hidle : ∀ k, k ≠ n → i.moves k = false) (hrequests : w'.requests = w.requests) (hsound : Sound w'.db)
    (hknown : ∀ j job, w'.db.job? j = some job → j ∈ w'.drawn)
    (hkept : ∀ j, w.Closed j → w'.Closed j) (horderly : handler.Orderly H)
    (hannounces : ∀ e next, handler = .emit e next →
      (e.done? = some false → ∃ served now writes rest, next = .finish served ∧ i = .resume n now ∧
        w.requests n = .transaction writes rest ∧ rest now w.db = .emit e next ∧ Open w'.db e.jobId) ∧
      (e.done? ≠ some false → w'.Closed e.jobId ∧ next.Closing e.jobId)) :
    Told H settings (inputs ++ [i]) (w'.enter n handler) where
  reached := h.reached_next hnext
  sound := hsound
  known := hknown
  kept := h.kept_next hnext hkept
  orderly := by
    intro k
    show (Function.update w'.requests n handler k).Orderly H
    by_cases hk : k = n
    · rw [hk, Function.update_self]
      exact horderly
    · rw [Function.update_of_ne hk, hrequests]
      exact h.orderly k
  progress := by
    intro k e next hk hdone
    rcases update_cases hk with ⟨rfl, heq⟩ | ⟨hother, heq⟩
    · obtain ⟨served, now, writes, rest, rfl, rfl, hn, hleft, hopen⟩ := (hannounces e next heq).1 hdone
      refine ⟨served, inputs, now, [], rfl, rfl, ⟨writes, rest, ?_, ?_⟩, nofun, ?_⟩
      · rw [h.reached, hn]
      · rw [h.reached, hleft]
      · rw [h.reached_next hnext]
        exact hopen
    · rw [hrequests] at heq
      obtain ⟨served, commits, now, waiting, hlast, hwaits⟩ := h.progress k e next heq hdone
      exact ⟨served, commits, now, _, hlast, hwaits.later (hidle k hother)⟩
  closing := by
    intro k e next hk hdone
    rcases update_cases hk with ⟨-, heq⟩ | ⟨-, heq⟩
    · exact (hannounces e next heq).2 hdone
    · rw [hrequests] at heq
      obtain ⟨hclosed, hrest⟩ := h.closing k e next heq hdone
      exact ⟨hkept _ hclosed, hrest⟩

theorem Told.others (h : Told H settings inputs w) (op : Op) :
    Told H settings (inputs ++ [.other op]) (w.others H op) := by
  have hunmoved : ∀ j, w.Closed j → w.Closed j := fun _ hclosed => hclosed
  have hcreated {j : JobId} {job : ResearchJob} (hj : (step H op w.db).job? j = some job) :
      j ∈ w.drawn ∨ op.createdId = some j := by
    cases hbefore : w.db.job? j with
    | some found => exact .inl (h.known j found hbefore)
    | none => exact .inr ((job_step H op w.db j).created_of_absent hbefore hj)
  unfold MessageSystem.others
  cases hid : op.createdId with
  | none =>
    refine h.tables (by simp only [MessageSystem.next, MessageSystem.others, hid]) (fun _ _ _ _ => rfl) rfl
      (step_sound H op h.sound) (fun j job hj => ?_) fun j hclosed => ?_
    · exact (hcreated hj).resolve_right (by rw [hid]; nofun)
    · exact ⟨hclosed.1.step h.sound (by rw [hid]; nofun), hclosed.2⟩
  | some id =>
    simp only
    split
    · next hmem =>
      exact h.tables (by simp only [MessageSystem.next, MessageSystem.others, hid, if_pos hmem])
        (fun _ _ _ _ => rfl) rfl h.sound h.known hunmoved
    · next hnew =>
      refine h.tables (by simp only [MessageSystem.next, MessageSystem.others, hid, if_neg hnew])
        (fun _ _ _ _ => rfl) rfl (step_sound H op h.sound) (fun j job hj => ?_) fun j hclosed => ?_
      · rcases hcreated hj with hmem | hj
        · exact List.mem_cons_of_mem _ hmem
        · rw [hid] at hj
          obtain rfl := Option.some.inj hj
          exact List.mem_cons_self ..
      · refine ⟨hclosed.1.step h.sound fun hj => ?_, List.mem_cons_of_mem _ hclosed.2⟩
        rw [hid] at hj
        obtain rfl := Option.some.inj hj
        exact hnew hclosed.2

theorem moves_other {n k : Nat} {now : Time} (hk : k ≠ n) : (MessageInput.resume n now).moves k = false := by
  simpa [MessageInput.moves] using Ne.symm hk

theorem Told.resume (h : Told H settings inputs w) (n : Nat) (now : Time) :
    Told H settings (inputs ++ [.resume n now]) (MessageSystem.next H settings (.resume n now) w) := by
  cases hn : w.requests n with
  | finish served =>
    have hnext : MessageSystem.next H settings (.resume n now) w = w := by
      simp only [MessageSystem.next, hn]
    rw [hnext]
    refine h.tables hnext (fun k e next hk => moves_other ?_) rfl h.sound h.known fun _ => id
    rintro rfl
    rw [hn] at hk
    cases hk
  | emit e next =>
    have hnext : MessageSystem.next H settings (.resume n now) w =
        w.enter n (if e.isAddressable then next else .finish .broken) := by
      simp only [MessageSystem.next, hn]
    have horderly := h.orderly n
    rw [hn] at horderly
    rw [hnext]
    by_cases hurl : e.isAddressable = true
    · rw [if_pos hurl] at hnext ⊢
      refine h.enter hnext (fun _ => moves_other) rfl h.sound h.known (fun _ => id) horderly
        fun e' next' hemit => ?_
      by_cases hdone : e.done? = some false
      · obtain ⟨_, _, _, _, rfl, -⟩ := h.progress n e next hn hdone
        cases hemit
      · obtain ⟨hclosed, hrest⟩ := h.closing n e next hn hdone
        rw [hemit] at hrest
        obtain ⟨hid, hnot, hrest⟩ := hrest
        exact ⟨fun hprogress => (hnot hprogress).elim, fun _ => ⟨hid ▸ hclosed, hid ▸ hrest⟩⟩
    · rw [if_neg hurl] at hnext ⊢
      exact h.enter hnext (fun _ => moves_other) rfl h.sound h.known (fun _ => id) trivial
        fun e' next' hemit => by cases hemit
  | transaction writes next =>
    have hnext : MessageSystem.next H settings (.resume n now) w =
        ({w with db := writes now w.db} : MessageSystem).enter n (next now w.db) := by
      simp only [MessageSystem.next, hn]
    have horderly := h.orderly n
    rw [hn] at horderly
    obtain ⟨hsteps, hannounces, horderly⟩ := horderly now w.db h.sound
    have hknown : ∀ j job, (writes now w.db).job? j = some job → j ∈ w.drawn := by
      intro j job hj
      obtain ⟨found, hbefore⟩ := hsteps.present hj
      exact h.known j found hbefore
    rw [hnext]
    refine h.enter hnext (fun _ => moves_other) rfl (hsteps.sound h.sound) hknown
      (fun j hclosed => ⟨hsteps.over h.sound hclosed.1, hclosed.2⟩) horderly fun e next' hemit => ?_
    rw [hemit] at hannounces
    cases hannounces with
    | progress _ served hdone hopen =>
      exact ⟨fun _ => ⟨served, now, writes, next, rfl, rfl, hn, hemit, hopen⟩, fun hnot => (hnot hdone).elim⟩
    | closing j _ hclosing hended =>
      obtain ⟨hid, hnot, hrest⟩ := hclosing
      have hover := hended.over
      obtain ⟨job, hj, -⟩ := hended
      exact ⟨fun hprogress => (hnot hprogress).elim, fun _ =>
        ⟨⟨hid ▸ hover, hid ▸ hknown j job hj⟩, hid ▸ hrest⟩⟩

theorem told_run (H : Hashing) (settings : RunnerSettings) (inputs : List MessageInput) :
    Told H settings inputs ((messages H settings).run .initial inputs) := by
  refine Machine.history (M := messages H settings) (P := fun w is _ => Told H settings is w)
    (A := fun _ => True) ?_ ?_ inputs fun _ _ => trivial
  · rintro (op | ⟨n, r⟩ | ⟨n, now⟩ | n) w is os - h
    · exact h.others op
    · show Told H settings _ (MessageSystem.next H settings (.call n r) w)
      cases hn : w.requests n with
      | finish served =>
        have hnext : MessageSystem.next H settings (.call n r) w = w.enter n (r.handler H settings) := by
          simp only [MessageSystem.next, hn]
        rw [hnext]
        refine h.enter hnext (fun _ _ => rfl) rfl h.sound h.known (fun _ => id) (r.handler_orderly H settings)
          fun e next hemit => ?_
        obtain ⟨writes, rest, hbegins⟩ := r.handler_begins H settings
        rw [hbegins] at hemit
        cases hemit
      | emit | transaction =>
        have hnext : MessageSystem.next H settings (.call n r) w = w := by
          simp only [MessageSystem.next, hn]
        rw [hnext]
        exact h.tables hnext (fun _ _ _ _ => rfl) rfl h.sound h.known fun _ => id
    · exact h.resume n now
    · exact h.enter rfl (fun k hk => by simpa [MessageInput.moves] using Ne.symm hk) rfl h.sound h.known
        (fun _ => id) trivial fun e next hemit => by cases hemit
  · refine ⟨rfl, empty_sound, fun j job hj => ?_, fun earlier hpre j hclosed => ?_, fun _ => trivial,
      fun n e next hn => ?_, fun n e next hn => ?_⟩
    · cases hj
    · obtain rfl := List.prefix_nil.mp hpre
      exact hclosed
    · cases hn
    · cases hn

/-- What is sent was pending. -/
theorem mem_sent {e : Emission} (h : e ∈ MessageSystem.sent i w) :
    ∃ n now next, i = .resume n now ∧ w.requests n = .emit e next := by
  cases i with
  | resume n now =>
    simp only [MessageSystem.sent] at h
    split at h
    · next hn =>
      split at h
      · obtain rfl := List.mem_singleton.mp h
        exact ⟨n, now, _, rfl, hn⟩
      · cases h
    · cases h
  | other | call | drop => cases h

end

/-- A commit that the job survived came before the job was closed. -/
theorem AwaitsEmission.before_closed {n : Nat} {e : Emission} {served : Served} {commits waiting front : List MessageInput}
    {now : Time} (h : AwaitsEmission H settings inputs n e served commits now waiting) (hfront : front <+: inputs)
    (hclosed : ((messages H settings).run .initial front).Closed e.jobId) :
    commits ++ [.resume n now] <+: front := by
  have hcommit : commits ++ [.resume n now] <+: inputs := ⟨waiting, by rw [h.split]; simp⟩
  rcases List.prefix_or_prefix_of_prefix hcommit hfront with hearlier | hlater
  · exact hearlier
  · -- The job was closed before the commit, so it was not open after it.
    have hover := ((told_run H settings (commits ++ [.resume n now])).kept front hlater e.jobId hclosed).1
    obtain ⟨job, hj, hst⟩ := h.hopen
    rw [hover job hj] at hst
    cases hst

theorem Told.closed_of_ended {j : JobId} (h : Told H settings inputs w) (hended : Ended w.db j) : w.Closed j := by
  refine ⟨hended.over, ?_⟩
  obtain ⟨job, hj, -⟩ := hended
  exact h.known j job hj

/-- Whoever sends a status `done=false` had committed its transaction when the job had not
ended, was left with this status only, and has waited since. So it committed before the
job ended and before any status `done=true` of the job was sent, and it is not among the
requests that have committed anything since the end of the job. -/
theorem late_progress_pending (H : Hashing) (settings : RunnerSettings) (before : List MessageInput)
    (late : MessageInput) (e : Emission) :
    let M := messages H settings
    e ∈ M.out late (M.run .initial before) → e.done? = some false →
    ∃ n now served commits committed waiting, late = .resume n now ∧
      AwaitsEmission H settings before n e served commits committed waiting ∧
      (∀ front, front <+: before → Ended (M.run .initial front).db e.jobId →
        commits ++ [.resume n committed] <+: front) ∧
      (∀ front final rest e', before = front ++ final :: rest → e' ∈ M.out final (M.run .initial front) →
        e'.done? = some true → e'.jobId = e.jobId → commits ++ [.resume n committed] <+: front) ∧
      ∀ front m time writes next, front ++ [.resume m time] <+: before → Ended (M.run .initial front).db e.jobId →
        (M.run .initial front).requests m = .transaction writes next → m ≠ n := by
  intro M hlate hdone
  obtain ⟨n, now, next, rfl, hn⟩ := mem_sent hlate
  obtain ⟨served, commits, committed, waiting, -, hwaits⟩ := (told_run H settings before).progress n e next hn hdone
  have hended (front : List MessageInput) (hfront : front <+: before)
      (h : Ended (M.run .initial front).db e.jobId) : commits ++ [.resume n committed] <+: front :=
    hwaits.before_closed hfront ((told_run H settings front).closed_of_ended h)
  refine ⟨n, now, served, commits, committed, waiting, rfl, hwaits, hended, ?_, ?_⟩
  · rintro front final rest e' rfl hfinal hdone' hsame
    obtain ⟨m, -, next', -, hm⟩ := mem_sent hfinal
    have hclosed := ((told_run H settings front).closing m e' next' hm (by rw [hdone']; nofun)).1
    rw [hsame] at hclosed
    exact hwaits.before_closed (List.prefix_append ..) hclosed
  · rintro front m time writes next' hpre h - rfl
    -- The step is one of those at which the sender has waited.
    obtain ⟨more, rfl⟩ := hended front ((List.prefix_append ..).trans hpre) h
    obtain ⟨rest, hrest⟩ := hpre
    have hsplit := hwaits.split
    rw [← hrest] at hsplit
    simp only [List.append_assoc, List.cons_append, List.nil_append, List.append_cancel_left_eq,
      List.cons.injEq, true_and] at hsplit
    have hidle := hwaits.idle (.resume m time) (by rw [← hsplit]; simp)
    simp [MessageInput.moves] at hidle

/-- A runner has committed a progress event, and its failure is reported and announced
before the event is. -/
def Sample.overtaken : List MessageInput :=
  Sample.started.map .other ++
    [.call 1 ⟨1, "token", .events ⟨"research.progress", ∅, by decide⟩⟩, .resume 1 3,
      .call 2 ⟨1, "token", .failed ⟨"out of memory", by decide⟩⟩, .resume 2 4]

/-- A status `done=false` follows the final one. -/
theorem finished_message_reopened :
    ¬ ∀ (H : Hashing) (settings : RunnerSettings) (inputs : List MessageInput),
      ((messages H settings).trace .initial inputs).Pairwise fun e e' =>
        e'.jobId = e.jobId → e.done? = some true → e'.done? ≠ some false := by
  intro hall
  have h := hall Sample.hashing {} (Sample.overtaken ++ [.resume 2 4, .resume 1 5])
  revert h
  decide +kernel

theorem late_progress_pending_overtaken :
    ∃ n now served commits committed waiting, (MessageInput.resume 1 5) = .resume n now ∧
      AwaitsEmission Sample.hashing {} (Sample.overtaken ++ [.resume 2 4]) n
        ⟨1, "chat", "message", .status "Researching sources" false none⟩ served commits committed waiting := by
  obtain ⟨n, now, served, commits, committed, waiting, hlate, hwaits, -⟩ :=
    late_progress_pending Sample.hashing {} (Sample.overtaken ++ [.resume 2 4]) (.resume 1 5)
      ⟨1, "chat", "message", .status "Researching sources" false none⟩ (by decide +kernel) rfl
  exact ⟨n, now, served, commits, committed, waiting, hlate, hwaits⟩

end ResearchGateway
