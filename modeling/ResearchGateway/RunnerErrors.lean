import ResearchGateway.Api.Handlers
import ResearchGateway.RunnerReports

/-! Which repository errors leave the runner endpoints.

Most handlers catch both errors that the repository raises under a token. Four catch
less: the report of a failure, the report of a cancel, a public search at its limit and
a model call. What is left open is a condition on the tables that their transactions
find, so whether the error comes up depends on what commits between them. -/
namespace ResearchGateway
open Library

/-! ### A request among other transactions -/

/-- What commits before a transaction of a request, and the time of the transaction. -/
structure Turn where
  others : List Op
  now : Time

def Handler.serve (H : Hashing) : Handler → (Nat → Turn) → Database → Served × Database
  | .finish served, _, db => (served, db)
  | .emit emission next, turns, db =>
    if emission.isAddressable then next.serve H turns db else (.broken, db)
  | .transaction writes next, turns, db =>
    let found := (controlPlane H).run db (turns 0).others
    (next (turns 0).now found).serve H (fun n => turns (n + 1)) (writes (turns 0).now found)

/-- The two errors of the repository. -/
def Failure.ofRepository : Failure → Bool
  | .jobNotFound | .invalidState _ => true
  | _ => false

namespace Served

/-- A repository error came up and was turned into a 4xx, or none came up. -/
def answered : Served → Bool
  | .caught e status => !e.ofRepository || (400 ≤ status && status < 500)
  | .logged e | .unhandled e => !e.ofRepository
  | .replied _ | .broken => true

/-- A repository error leaves the handler. -/
def escaped : Served → Bool
  | .unhandled e => e.ofRepository
  | _ => false

end Served

/-! ### When an error is left open -/

namespace RunnerRequest
variable (H : Hashing) (settings : RunnerSettings) (r : RunnerRequest)

/-- The row accepts the token that the request presents. -/
def Presented (db : Database) (job : ResearchJob) : Prop :=
  db.job? r.jobId = some job ∧ accepts H job r.runnerToken = true

/-- The row that a model call finds, and the room its request leaves for an answer. -/
def Room (db : Database) (model : Option String) (estimatedInput : Nat) (job : ResearchJob)
    (room : Int) : Prop :=
  r.Presented H db job ∧ ∃ capability, capabilityOf? job (requestedModel job model) = some capability ∧
    room = capability.contextLength - (estimatedInput : Int) - settings.modelContextSafetyTokens

/-- The model call was admitted and answered, and then nobody accepts its token. -/
def Abandoned (first second : Database) (model : Option String) (estimatedInput : Nat)
    (answer : ModelAnswer) : Prop :=
  (∃ job room, r.Room H settings first model estimatedInput job room ∧ 0 < room) ∧
    (∃ charge, answer = .answered charge) ∧ ¬ ∃ job, r.Presented H second job

/-- A repository error leaves the handler, from the tables that its first and its
second transaction find. -/
def Escapes (first second : Database) : Prop :=
  match r.call with
  | .failed _ => ∃ job, r.Presented H first job ∧ job.state = .cancelRequested
  | .cancelled => ∃ job, r.Presented H first job ∧ job.state = .dispatched
  | .publicSearch _ => settings.publicSearchEnabled = true ∧ ∃ job current,
      r.Presented H first job ∧ job.state = .cancelRequested ∧
      usageInt? (job.usage.getD ∅) Counter.searches.key = some current ∧
      (job.budget.maxQueries : Int) ≤ current
  | .chatCompletions model estimatedInput stream answer =>
    (¬ ∃ job, r.Presented H first job) ∨
    (∃ job room, r.Room H settings first model estimatedInput job room ∧ room ≤ 0 ∧
      job.state = .cancelRequested) ∨
    (stream = false ∧ r.Abandoned H settings first second model estimatedInput answer)
  | _ => False

/-- A repository error is only logged: the charge of a stream that was sent. -/
def Drops (first second : Database) : Prop :=
  match r.call with
  | .chatCompletions model estimatedInput stream answer =>
    stream = true ∧ r.Abandoned H settings first second model estimatedInput answer
  | _ => False

end RunnerRequest

/-! ### Serving a transaction -/

section
variable {H : Hashing} {α : Type} {caught : Failure → Option Nat} {t : Time → Transaction α}
  {next : α → Handler} {turns : Nat → Turn} {db db' : Database}

theorem serve_ok {a : α}
    (h : t (turns 0).now ((controlPlane H).run db (turns 0).others) = .ok (a, db')) :
    (Handler.commits caught t next).serve H turns db =
      (next a).serve H (fun n => turns (n + 1)) db' := by
  simp only [Handler.commits, Handler.serve, commit_ok h]

theorem serve_error {e : Failure}
    (h : t (turns 0).now ((controlPlane H).run db (turns 0).others) = .error e) :
    ((Handler.commits caught t next).serve H turns db).1 = Served.of caught e := by
  simp only [Handler.commits, Handler.serve, commit_error h]

theorem serve_conflict (hnext : ∀ a turns db, ((next a).serve H turns db).1.answered = true) :
    ((Handler.commits conflict t next).serve H turns db).1.answered = true := by
  cases h : t (turns 0).now ((controlPlane H).run db (turns 0).others) with
  | ok p =>
    rw [serve_ok h]
    exact hnext ..
  | error e =>
    rw [serve_error h]
    cases e <;> rfl

/-- A message without a URL breaks the request off, which raises no error of the repository. -/
theorem emit_answered {emission : Emission} {next : Handler}
    (h : (next.serve H turns db).1.answered = true) :
    ((Handler.emit emission next).serve H turns db).1.answered = true := by
  simp only [Handler.serve]
  split
  · exact h
  · rfl

theorem answers_answered (answer : Upstream) (turns : Nat → Turn) (db : Database) :
    ((Handler.answers answer).serve H turns db).1.answered = true := by
  cases answer <;> rfl

end

/-! ### What the transactions raise -/

section
variable {H : Hashing} {j : JobId} {token : String} {db : Database} {job : ResearchJob} {e : Failure}

theorem getForRunner_error (h : getForRunner H j token db = .error e) : e = .jobNotFound := by
  by_cases hrow : ∃ job, db.job? j = some job ∧ accepts H job token = true
  · obtain ⟨job, hj, hacc⟩ := hrow
    rw [getForRunner_accepted hj hacc] at h
    cases h
  · rw [unpresented hrow] at h
    cases h
    rfl

theorem ensureActive_error (h : ensureActive job db = .error e) :
    e = .httpError 409 "job is terminal" := by
  unfold ensureActive at h
  split at h
  · cases h
    rfl
  · cases h

/-- The check that a job is active raises no invalid state. -/
theorem activeRunner_valid {m : String} (h : (getForRunner H j token >>= ensureActive) db = .error (.invalidState m)) :
    False := by
  rcases error_bind h with hread | ⟨job, _, -, hactive⟩
  · cases getForRunner_error hread
  · cases ensureActive_error hactive

/-- A charge is refused without an accepted token, and it fails on a counter that is
no number. -/
theorem consumeUsage_cases (H : Hashing) (j : JobId) (token : String) (db : Database) (now : Time)
    (charge : Charge) :
    ((¬ ∃ job, db.job? j = some job ∧ accepts H job token = true) ∧
      consumeUsage H now j token charge db = .error .jobNotFound) ∨
    (∃ job, db.job? j = some job ∧ accepts H job token = true) ∧
      (consumeUsage H now j token charge db = .error .valueError ∨
        ∃ r db', consumeUsage H now j token charge db = .ok (r, db')) := by
  by_cases hrow : ∃ job, db.job? j = some job ∧ accepts H job token = true
  · refine .inr ⟨hrow, ?_⟩
    obtain ⟨job, hj, hacc⟩ := hrow
    have hread : getForRunnerLocked H j token db = .ok (job, db) := getForRunner_accepted hj hacc
    rw [consumeUsage, bind_ok hread]
    cases chargedUsage charge (job.usage.getD ∅) with
    | none => exact .inl rfl
    | some usage =>
      cases ht : usageTotals usage with
      | none =>
        left
        simp only [ht]
        rfl
      | some totals =>
        right
        simp only [ht]
        exact ⟨_, _, rfl⟩
  · exact .inl ⟨hrow, bind_error (unpresented hrow)⟩

theorem consumeUsage_error {now : Time} {charge : Charge}
    (h : consumeUsage H now j token charge db = .error e) : e = .jobNotFound ∨ e = .valueError := by
  rcases consumeUsage_cases H j token db now charge with
    ⟨-, hnot⟩ | ⟨-, hvalue | ⟨r, db', hok⟩⟩
  · rw [hnot] at h
    cases h
    exact .inl rfl
  · rw [hvalue] at h
    cases h
    exact .inr rfl
  · rw [hok] at h
    cases h

theorem runnerSearch_error {now : Time} (h : runnerSearch H now j token db = .error e) :
    e = .jobNotFound ∨ e = .valueError ∨ e = .httpError 409 "job is terminal" := by
  rcases error_bind h with hread | ⟨job, db₁, -, hrest⟩
  · exact .inl (getForRunner_error hread)
  · rcases error_bind hrest with hactive | ⟨_, db₂, -, hrest⟩
    · exact .inr (.inr (ensureActive_error hactive))
    · rcases error_bind hrest with hcharge | ⟨_, _, -, hpure⟩
      · exact (consumeUsage_error hcharge).imp_right .inl
      · cases hpure

theorem markFailed_invalid (hs : Sound db) {now : Time} {error : String} :
    (∃ m, markFailed H now j token error db = .error (.invalidState m)) ↔
      ∃ job, (db.job? j = some job ∧ accepts H job token = true) ∧ job.state = .cancelRequested := by
  rcases markFailed_cases H j token hs now error with
    ⟨hrow, h⟩ | ⟨job, m, hj, hacc, hst, h⟩ | ⟨-, h⟩ | ⟨job, r, db', hj, hacc, hst, -, h, -⟩
  · refine ⟨fun ⟨m, hm⟩ => ?_, fun ⟨job, hpresented, _⟩ => (hrow ⟨job, hpresented⟩).elim⟩
    rw [h] at hm
    cases hm
  · exact ⟨fun _ => ⟨job, ⟨hj, hacc⟩, hst⟩, fun _ => ⟨m, h⟩⟩
  · refine ⟨fun ⟨m, hm⟩ => ?_, fun ⟨job, ⟨hj, hacc⟩, hst⟩ => ?_⟩
    · rw [h] at hm
      cases hm
    · exact (markFailed_cancelRequested hj hacc hst now error)
  · refine ⟨fun ⟨m, hm⟩ => ?_, fun ⟨job', ⟨hj', _⟩, hst'⟩ => ?_⟩
    · rw [h] at hm
      cases hm
    · obtain rfl : job = job' := Option.some.inj (hj.symm.trans hj')
      exact (hst hst').elim

theorem markCancelled_invalid (hs : Sound db) {now : Time} :
    (∃ m, markCancelled H now j token db = .error (.invalidState m)) ↔
      ∃ job, (db.job? j = some job ∧ accepts H job token = true) ∧ job.state = .dispatched := by
  constructor
  · rintro ⟨m, h⟩
    rcases error_bind h with hread | ⟨job, _, hread, -⟩
    · cases getForRunner_error hread
    · obtain ⟨rfl, hj, hacc⟩ := ok_runner hread
      refine ⟨job, ⟨hj, hacc⟩, (hs.active_of_accepts hj hacc).resolve_right fun hst => ?_⟩
      obtain ⟨r, db', hok, -⟩ := markCancelled_underWay ⟨job, hj, hacc, hst⟩ now
      rw [hok] at h
      cases h
  · rintro ⟨job, ⟨hj, hacc⟩, hst⟩
    have hread : getForRunnerLocked H j token db = .ok (job, db) := getForRunner_accepted hj hacc
    refine ⟨s!"cannot cancel job in state {job.state.value}", ?_⟩
    rw [markCancelled, bind_ok hread, if_neg (by rw [hst]; decide), if_neg (by rw [hst]; decide)]
    rfl

theorem ensureActive_open (ht : job.state.isTerminal = false) : ensureActive job db = .ok ((), db) := by
  rw [ensureActive, ht]
  rfl

/-- A public search raises an invalid state at its limit, while a cancel is pending. -/
theorem runnerPublicSearch_invalid (hs : Sound db) {now : Time} {enabled : Bool} :
    (∃ m, runnerPublicSearch H now j token enabled db = .error (.invalidState m)) ↔
      enabled = true ∧ ∃ job current, (db.job? j = some job ∧ accepts H job token = true) ∧
        job.state = .cancelRequested ∧
        usageInt? (job.usage.getD ∅) Counter.searches.key = some current ∧
        (job.budget.maxQueries : Int) ≤ current := by
  constructor
  · rintro ⟨m, h⟩
    rcases error_bind h with hread | ⟨job, db₁, hread, hrest⟩
    · cases getForRunner_error hread
    obtain ⟨rfl, hj, hacc⟩ := ok_runner hread
    rcases error_bind hrest with hactive | ⟨_, db₂, hactive, hrest⟩
    · cases ensureActive_error hactive
    obtain ⟨-, rfl⟩ := ensureActive_ok hactive
    cases enabled with
    | false => cases hrest
    | true =>
      cases hu : usageInt? (job.usage.getD ∅) Counter.searches.key with
      | none =>
        simp only [hu, Bool.true_eq_false, if_false] at hrest
        cases hrest
      | some current =>
        simp only [hu, Bool.true_eq_false, if_false] at hrest
        split at hrest
        · next hlimit =>
          rcases error_bind hrest with hfail | ⟨_, _, -, hpure⟩
          · rcases markFailed_cases H j token hs now searchLimitMessage with
              ⟨-, hrow⟩ | ⟨job', _, hj', -, hst, -⟩ | ⟨-, hnul⟩ | ⟨_, _, _, -, -, -, -, hok, -⟩
            · rw [hrow] at hfail
              cases hfail
            · obtain rfl : job = job' := Option.some.inj (hj.symm.trans hj')
              exact ⟨rfl, job, current, ⟨hj, hacc⟩, hst, hu, hlimit⟩
            · rw [hnul] at hfail
              cases hfail
            · rw [hok] at hfail
              cases hfail
          · cases hpure
        · rcases error_bind hrest with hcharge | ⟨_, _, -, hpure⟩
          · rcases consumeUsage_error hcharge with hnot | hvalue
            · cases hnot
            · cases hvalue
          · cases hpure
  · rintro ⟨rfl, job, current, ⟨hj, hacc⟩, hst, hu, hlimit⟩
    have hread : getForRunnerLocked H j token db = .ok (job, db) := getForRunner_accepted hj hacc
    obtain ⟨m, hrefused⟩ := markFailed_cancelRequested hj hacc hst now searchLimitMessage
    refine ⟨m, ?_⟩
    rw [runnerPublicSearch, bind_ok hread, bind_ok (ensureActive_open (by rw [hst]; rfl))]
    simp only [hu, Bool.true_eq_false, if_false, if_pos hlimit]
    exact bind_error hrefused

/-- What the admission of a model call finds, and what it does: nobody, a model that was
not chosen, no room while a cancel is pending, no room otherwise, where a model's name may
keep the failure from being stored, or room. -/
theorem chatAdmission_cases (H : Hashing) (j : JobId) (token : String) (hs : Sound db) (now : Time)
    (model : Option String) (estimatedInput safetyTokens : Nat) :
    let admission := chatAdmission H now j token model estimatedInput safetyTokens db
    let room (capability : ModelCapability) :=
      capability.contextLength - (estimatedInput : Int) - safetyTokens
    ((¬ ∃ job, db.job? j = some job ∧ accepts H job token = true) ∧ admission = .error .jobNotFound) ∨
    ∃ job, (db.job? j = some job ∧ accepts H job token = true) ∧
      ((capabilityOf? job (requestedModel job model) = none ∧ ∃ detail, admission = .error (.httpError 403 detail)) ∨
      ∃ capability, capabilityOf? job (requestedModel job model) = some capability ∧
        ((room capability ≤ 0 ∧ job.state = .cancelRequested ∧ ∃ m, admission = .error (.invalidState m)) ∨
        (room capability ≤ 0 ∧ job.state ≠ .cancelRequested ∧ (admission = .error .database ∨
          ∃ failed db', admission = .ok (some failed, db') ∧ Ended db' j)) ∨
        (0 < room capability ∧ admission = .ok (none, db)))) := by
  intro admission room
  by_cases hrow : ∃ job, db.job? j = some job ∧ accepts H job token = true
  · obtain ⟨job, hj, hacc⟩ := hrow
    refine .inr ⟨job, ⟨hj, hacc⟩, ?_⟩
    have hread : getForRunnerLocked H j token db = .ok (job, db) := getForRunner_accepted hj hacc
    have hopen : job.state.isTerminal = false := by
      rcases hs.active_of_accepts hj hacc with hst | hst | hst <;> rw [hst] <;> rfl
    cases hc : capabilityOf? job (requestedModel job model) with
    | none =>
      refine .inl ⟨rfl, "runner attempted to use a model outside the user's frozen model selection", ?_⟩
      simp only [admission]
      rw [chatAdmission, bind_ok hread, bind_ok (ensureActive_open hopen)]
      simp only [hc]
      rfl
    | some capability =>
      refine .inr ⟨capability, rfl, ?_⟩
      have hadmission : admission = (if room capability ≤ 0 then do
          let failed ← markFailed H now j token
            (contextMessage estimatedInput (requestedModel job model) capability)
          return some failed
        else return none : Transaction (Option ResearchJob)) db := by
        simp only [admission]
        rw [chatAdmission, bind_ok hread, bind_ok (ensureActive_open hopen)]
        simp only [hc]
        rfl
      by_cases hroom : room capability ≤ 0
      · rw [if_pos hroom] at hadmission
        rcases markFailed_cases H j token hs now
            (contextMessage estimatedInput (requestedModel job model) capability) with
          ⟨hnone, -⟩ | ⟨job', m, hj', -, hst, hrefused⟩ | ⟨-, hnul⟩ | ⟨job', r, db', hj', -, hst, -, hok, hended⟩
        · exact (hnone ⟨job, hj, hacc⟩).elim
        · obtain rfl : job = job' := Option.some.inj (hj.symm.trans hj')
          exact .inl ⟨hroom, hst, m, hadmission.trans (bind_error hrefused)⟩
        · refine .inr (.inl ⟨hroom, fun hst => ?_, .inl (hadmission.trans (bind_error hnul))⟩)
          obtain ⟨m, hrefused⟩ := markFailed_cancelRequested hj hacc hst now
            (contextMessage estimatedInput (requestedModel job model) capability)
          rw [hnul] at hrefused
          cases hrefused
        · obtain rfl : job = job' := Option.some.inj (hj.symm.trans hj')
          exact .inr (.inl ⟨hroom, hst, .inr ⟨r, db', hadmission.trans (bind_ok hok), hended⟩⟩)
      · rw [if_neg hroom] at hadmission
        exact .inr (.inr ⟨by omega, hadmission⟩)
  · exact .inl ⟨hrow, bind_error (unpresented hrow)⟩

end

/-! ### Every endpoint -/

/-- A request is answered, or an error leaves it for `escapes`, or is logged for `drops`. -/
structure Verdict (served : Served) (escapes drops : Prop) : Prop where
  answered : served.answered = true ↔ ¬ escapes ∧ ¬ drops
  escaped : served.escaped = true ↔ escapes

namespace Verdict
variable {served : Served} {escapes drops : Prop}

theorem of_answered (h : served.answered = true) (he : ¬ escapes) (hd : ¬ drops) :
    Verdict served escapes drops := by
  refine ⟨⟨fun _ => ⟨he, hd⟩, fun _ => h⟩, ⟨fun hesc => ?_, fun hesc => (he hesc).elim⟩⟩
  cases served with
  | unhandled e =>
    have : (!e.ofRepository) = true := h
    rw [show e.ofRepository = true from hesc] at this
    cases this
  | replied | caught | logged | broken => cases hesc

theorem of_escaped (h : served.escaped = true) (he : escapes) : Verdict served escapes drops := by
  refine ⟨⟨fun hans => ?_, fun hno => (hno.1 he).elim⟩, ⟨fun _ => he, fun _ => h⟩⟩
  cases served with
  | unhandled e =>
    have : (!e.ofRepository) = true := hans
    rw [show e.ofRepository = true from h] at this
    cases this
  | replied | caught | logged | broken => cases h

theorem of_logged {e : Failure} (h : served = .logged e) (hrepo : e.ofRepository = true)
    (he : ¬ escapes) (hd : drops) : Verdict served escapes drops := by
  subst h
  refine ⟨⟨fun hans => ?_, fun hno => (hno.2 hd).elim⟩, ⟨nofun, fun hesc => (he hesc).elim⟩⟩
  have : (!e.ofRepository) = true := hans
  rw [hrepo] at this
  cases this

end Verdict

/-- Where only `JobNotFoundError` is caught, what escapes is an invalid state. -/
theorem verdict_notFound {H : Hashing} {α : Type} {t : Time → Transaction α} {next : α → Handler}
    {turns : Nat → Turn} {db : Database} {escapes drops : Prop}
    (hnext : ∀ a turns db, ((next a).serve H turns db).1.answered = true)
    (hiff : (∃ m, t (turns 0).now ((controlPlane H).run db (turns 0).others) = .error (.invalidState m)) ↔
      escapes) (hd : ¬ drops) :
    Verdict ((Handler.commits notFound t next).serve H turns db).1 escapes drops := by
  cases h : t (turns 0).now ((controlPlane H).run db (turns 0).others) with
  | ok p =>
    refine .of_answered ?_ (fun hesc => ?_) hd
    · rw [serve_ok h]
      exact hnext ..
    · obtain ⟨m, hinvalid⟩ := hiff.mpr hesc
      rw [h] at hinvalid
      cases hinvalid
  | error e =>
    rw [h] at hiff
    cases e with
    | invalidState m =>
      refine .of_escaped ?_ (hiff.mp ⟨m, rfl⟩)
      rw [serve_error h]
      rfl
    | jobNotFound | idempotencyConflict | integrity | database | httpError | valueError =>
      refine .of_answered ?_ (fun hesc => ?_) hd
      · rw [serve_error h]
        rfl
      · obtain ⟨m, hinvalid⟩ := hiff.mpr hesc
        cases hinvalid

section
variable {H : Hashing} {settings : RunnerSettings} {turns : Nat → Turn} {db first second : Database}
  {jobId : JobId} {token : String}

theorem RunnerRequest.Room.unique {r : RunnerRequest} {model : Option String} {estimatedInput : Nat}
    {job job' : ResearchJob} {room room' : Int} (h : r.Room H settings db model estimatedInput job room)
    (h' : r.Room H settings db model estimatedInput job' room') : job = job' ∧ room = room' := by
  obtain ⟨⟨hj, -⟩, capability, hc, hroom⟩ := h
  obtain ⟨⟨hj', -⟩, capability', hc', hroom'⟩ := h'
  obtain rfl : job = job' := Option.some.inj (hj.symm.trans hj')
  obtain rfl : capability = capability' := Option.some.inj (hc.symm.trans hc')
  exact ⟨rfl, hroom.trans hroom'.symm⟩

theorem chat_escapes {r : RunnerRequest} {model : Option String} {estimatedInput : Nat} {stream : Bool}
    {answer : ModelAnswer} (hcall : r.call = .chatCompletions model estimatedInput stream answer) :
    r.Escapes H settings first second ↔ (¬ ∃ job, r.Presented H first job) ∨
      (∃ job room, r.Room H settings first model estimatedInput job room ∧ room ≤ 0 ∧
        job.state = .cancelRequested) ∨
      (stream = false ∧ r.Abandoned H settings first second model estimatedInput answer) := by
  unfold RunnerRequest.Escapes
  rw [hcall]

theorem chat_drops {r : RunnerRequest} {model : Option String} {estimatedInput : Nat} {stream : Bool}
    {answer : ModelAnswer} (hcall : r.call = .chatCompletions model estimatedInput stream answer) :
    r.Drops H settings first second ↔
      stream = true ∧ r.Abandoned H settings first second model estimatedInput answer := by
  unfold RunnerRequest.Drops
  rw [hcall]

/-- The charge of a model call that was answered: it finds the token accepted, or the
error is left open, or logged for a stream. -/
theorem charge_verdict {r : RunnerRequest} {model : Option String} {estimatedInput : Nat}
    {stream : Bool} {charge : Charge} {job : ResearchJob} {room : Int}
    (hcall : r.call = .chatCompletions model estimatedInput stream (.answered charge))
    (hadmitted : r.Room H settings first model estimatedInput job room) (hroom : 0 < room)
    (hsecond : (controlPlane H).run db (turns 0).others = second) :
    Verdict ((if stream then Handler.chargeStream H r.jobId r.runnerToken charge
      else Handler.commits (fun _ => none) (fun now => consumeUsage H now r.jobId r.runnerToken charge)
        fun _ => Handler.returns).serve H turns db).1
      (r.Escapes H settings first second) (r.Drops H settings first second) := by
  subst hsecond
  have hescapes : r.Escapes H settings first ((controlPlane H).run db (turns 0).others) ↔
      stream = false ∧ ¬ ∃ job, r.Presented H ((controlPlane H).run db (turns 0).others) job := by
    rw [chat_escapes hcall]
    constructor
    · rintro (hnone | ⟨job', room', hadmitted', hroom', -⟩ | ⟨hstream, -, -, hgone⟩)
      · exact (hnone ⟨job, hadmitted.1⟩).elim
      · obtain ⟨-, rfl⟩ := hadmitted.unique hadmitted'
        omega
      · exact ⟨hstream, hgone⟩
    · rintro ⟨hstream, hgone⟩
      exact .inr (.inr ⟨hstream, ⟨job, room, hadmitted, hroom⟩, ⟨charge, rfl⟩, hgone⟩)
  have hdrops : r.Drops H settings first ((controlPlane H).run db (turns 0).others) ↔
      stream = true ∧ ¬ ∃ job, r.Presented H ((controlPlane H).run db (turns 0).others) job := by
    rw [chat_drops hcall]
    exact ⟨fun ⟨hstream, _, _, hgone⟩ => ⟨hstream, hgone⟩, fun ⟨hstream, hgone⟩ =>
      ⟨hstream, ⟨job, room, hadmitted, hroom⟩, ⟨charge, rfl⟩, hgone⟩⟩
  rcases consumeUsage_cases H r.jobId r.runnerToken ((controlPlane H).run db (turns 0).others)
      (turns 0).now charge with
    ⟨hgone, h⟩ | ⟨hrow, h | ⟨_, _, h⟩⟩
  · cases stream with
    | false =>
      refine .of_escaped ?_ (hescapes.mpr ⟨rfl, hgone⟩)
      rw [if_neg (by decide), serve_error h]
      rfl
    | true =>
      refine .of_logged (e := .jobNotFound) ?_ rfl (fun hesc => ?_) (hdrops.mpr ⟨rfl, hgone⟩)
      · simp only [if_true, Handler.chargeStream, Handler.serve, commit_error h]
      · cases (hescapes.mp hesc).1
  · refine .of_answered ?_ (fun hesc => (hescapes.mp hesc).2 hrow) fun hdrop => (hdrops.mp hdrop).2 hrow
    cases stream with
    | false =>
      rw [if_neg (by decide), serve_error h]
      rfl
    | true =>
      simp only [if_true, Handler.chargeStream, Handler.serve, commit_error h]
      rfl
  · refine .of_answered ?_ (fun hesc => (hescapes.mp hesc).2 hrow) fun hdrop => (hdrops.mp hdrop).2 hrow
    cases stream with
    | false =>
      rw [if_neg (by decide), serve_ok h]
      rfl
    | true =>
      simp only [if_true, Handler.chargeStream, Handler.serve, commit_ok h]
      rfl

/-- A model call that no cancel meets without room, and that is not charged in vain. -/
theorem chat_answered {r : RunnerRequest} {model : Option String} {estimatedInput : Nat} {stream : Bool}
    {answer : ModelAnswer} (hcall : r.call = .chatCompletions model estimatedInput stream answer)
    {job : ResearchJob} (hrow : r.Presented H first job)
    (hcancel : ∀ job' room, r.Room H settings first model estimatedInput job' room → room ≤ 0 →
      job'.state ≠ .cancelRequested)
    (hcharged : ¬ r.Abandoned H settings first second model estimatedInput answer) {served : Served}
    (h : served.answered = true) :
    Verdict served (r.Escapes H settings first second) (r.Drops H settings first second) := by
  apply Verdict.of_answered h
  · intro hesc
    rcases (chat_escapes hcall).mp hesc with hnone | ⟨job', room, hadmitted, hroom, hstate⟩ | ⟨-, habandoned⟩
    · exact hnone ⟨job, hrow⟩
    · exact hcancel job' room hadmitted hroom hstate
    · exact hcharged habandoned
  · intro hdrop
    exact hcharged ((chat_drops hcall).mp hdrop).2

/-- A model call: nobody presented the token, the model was not chosen, there was no
room, or the call was admitted and goes on to its charge. -/
theorem chat_verdict {r : RunnerRequest} {model : Option String} {estimatedInput : Nat} {stream : Bool}
    {answer : ModelAnswer} (hcall : r.call = .chatCompletions model estimatedInput stream answer)
    (hs : Sound first) (hfirst : (controlPlane H).run db (turns 0).others = first)
    (hsecond : (controlPlane H).run first (turns 1).others = second) :
    Verdict ((Handler.proxyChatCompletion H settings r.jobId r.runnerToken model estimatedInput stream
      answer).serve H turns db).1 (r.Escapes H settings first second) (r.Drops H settings first second) := by
  subst hfirst
  rcases chatAdmission_cases H r.jobId r.runnerToken hs (turns 0).now model estimatedInput
      settings.modelContextSafetyTokens with
    ⟨hrow, h⟩ | ⟨job, hrow, ⟨hmodel, detail, h⟩ | ⟨capability, hc, ⟨hroom, hst, m, h⟩ |
      ⟨hroom, hst, h⟩ | ⟨hroom, h⟩⟩⟩
  · refine .of_escaped ?_ ((chat_escapes hcall).mpr (.inl hrow))
    unfold Handler.proxyChatCompletion
    rw [serve_error h]
    rfl
  · have hnone : ∀ job' room,
        ¬ r.Room H settings ((controlPlane H).run db (turns 0).others) model estimatedInput job' room := by
      rintro job' room ⟨⟨hj', -⟩, capability, hc, -⟩
      obtain rfl : job = job' := Option.some.inj (hrow.1.symm.trans hj')
      rw [hmodel] at hc
      cases hc
    apply chat_answered hcall hrow (fun job' room hadmitted => (hnone job' room hadmitted).elim)
    · rintro ⟨⟨job', room, hadmitted, -⟩, -⟩
      exact hnone job' room hadmitted
    · unfold Handler.proxyChatCompletion
      rw [serve_error h]
      rfl
  · refine .of_escaped ?_ ((chat_escapes hcall).mpr (.inr (.inl ⟨job, _, ⟨hrow, capability, hc, rfl⟩, hroom, hst⟩)))
    unfold Handler.proxyChatCompletion
    rw [serve_error h]
    rfl
  · have hadmitted : r.Room H settings ((controlPlane H).run db (turns 0).others) model estimatedInput job _ :=
      ⟨hrow, capability, hc, rfl⟩
    apply chat_answered hcall hrow
    · intro job' room hadmitted' _
      obtain ⟨rfl, -⟩ := hadmitted.unique hadmitted'
      exact hst
    · rintro ⟨⟨job', room, hadmitted', hroom'⟩, -⟩
      obtain ⟨-, rfl⟩ := hadmitted.unique hadmitted'
      exact absurd hroom (Int.not_le.mpr hroom')
    · unfold Handler.proxyChatCompletion
      rcases h with h | ⟨failed, db', h, -⟩
      · rw [serve_error h]
        rfl
      · rw [serve_ok h]
        exact emit_answered rfl
  · have hadmitted : r.Room H settings ((controlPlane H).run db (turns 0).others) model estimatedInput job _ :=
      ⟨hrow, capability, hc, rfl⟩
    unfold Handler.proxyChatCompletion
    rw [serve_ok h]
    cases answer with
    | answered charge => exact charge_verdict hcall hadmitted hroom hsecond
    | refused | broken =>
      apply chat_answered hcall hrow
      · intro job' room hadmitted' hroom'
        obtain ⟨-, rfl⟩ := hadmitted.unique hadmitted'
        exact absurd hroom' (Int.not_le.mpr hroom)
      · rintro ⟨-, ⟨charge, hanswer⟩, -⟩
        cases hanswer
      · rfl

end

/-- The repository errors of a runner request are answered with a 4xx exactly when its
transactions do not find the tables in one of the states of `Escapes` and `Drops`, for
every call, every token and whatever commits before and between its transactions; and
an error leaves the handler exactly in the states of `Escapes`. -/
theorem repository_errors_answered_iff (H : Hashing) (settings : RunnerSettings) (ops : List Op)
    (r : RunnerRequest) (turns : Nat → Turn) :
    let served := ((r.handler H settings).serve H turns (after H ops)).1
    let first := after H (ops ++ (turns 0).others)
    let second := after H (ops ++ (turns 0).others ++ (turns 1).others)
    (served.answered = true ↔
      ¬ r.Escapes H settings first second ∧ ¬ r.Drops H settings first second) ∧
    (served.escaped = true ↔ r.Escapes H settings first second) := by
  intro served first second
  have hs : Sound first := after_sound H _
  have hfirst : (controlPlane H).run (after H ops) (turns 0).others = first := (Machine.run_append ..).symm
  have hsecond : (controlPlane H).run first (turns 1).others = second := (Machine.run_append ..).symm
  suffices Verdict served (r.Escapes H settings first second) (r.Drops H settings first second) from
    ⟨this.answered, this.escaped⟩
  obtain ⟨jobId, token, call⟩ := r
  cases call with
  | job =>
    exact verdict_notFound (fun _ _ _ => rfl) ⟨fun ⟨m, h⟩ => activeRunner_valid h, False.elim⟩ nofun
  | state =>
    refine verdict_notFound (fun _ _ _ => rfl) ⟨fun ⟨m, h⟩ => ?_, False.elim⟩ nofun
    cases getForRunner_error h
  | started => exact .of_answered (serve_conflict fun _ _ _ => emit_answered rfl) nofun nofun
  | heartbeat => exact .of_answered (serve_conflict fun _ _ _ => rfl) nofun nofun
  | events event =>
    refine .of_answered (serve_conflict fun job _ _ => ?_) nofun nofun
    split
    · exact emit_answered rfl
    · rfl
  | search retrieved =>
    refine verdict_notFound (fun job _ _ => ?_) ⟨fun ⟨m, h⟩ => ?_, False.elim⟩ nofun
    · split
      · rfl
      · exact answers_answered ..
    · rcases runnerSearch_error h with h | h | h <;> cases h
  | publicSearch searched =>
    refine verdict_notFound (fun failure _ _ => ?_) ?_ nofun
    · cases failure with
      | none => exact answers_answered ..
      | some limitFailure => exact emit_answered rfl
    · rw [hfirst]
      exact runnerPublicSearch_invalid hs
  | complete completion uploads =>
    refine .of_answered (serve_conflict fun attempt _ _ => ?_) nofun nofun
    cases uploads attempt with
    | none => rfl
    | some stored =>
      refine serve_conflict fun job _ _ => ?_
      split
      · exact emit_answered (emit_answered rfl)
      · rfl
  | failed body =>
    refine verdict_notFound (fun _ _ _ => emit_answered rfl) ?_ nofun
    rw [hfirst]
    exact markFailed_invalid hs
  | cancelled =>
    refine verdict_notFound (fun _ _ _ => emit_answered rfl) ?_ nofun
    rw [hfirst]
    exact markCancelled_invalid hs
  | chatCompletions model estimatedInput stream answer => exact chat_verdict rfl hs hfirst hsecond
  | embeddings answer =>
    exact verdict_notFound (fun _ _ _ => answers_answered ..) ⟨fun ⟨m, h⟩ => activeRunner_valid h, False.elim⟩ nofun

/-- A runner is dispatched, its user cancels, and the runner reports that it failed. -/
theorem repository_error_escapes :
    ¬ ∀ (H : Hashing) (settings : RunnerSettings) (ops : List Op) (r : RunnerRequest) (turns : Nat → Turn),
      ((r.handler H settings).serve H turns (after H ops)).1.answered = true := by
  intro hall
  have h := hall Sample.hashing {} (Sample.started ++ [.requestCancel 3 1 "user"])
    ⟨1, "token", .failed ⟨"out of memory", by decide⟩⟩ fun _ => ⟨[], 4⟩
  revert h
  decide +kernel

end ResearchGateway
