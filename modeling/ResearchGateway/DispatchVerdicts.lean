import ResearchGateway.Executors
import ResearchGateway.Reconcilers

/-! One controller process with its executor.

The controller acts on an inspection in a transaction of its own, which may fail; the next pass
then inspects again. With an executor that answers an exited attempt the same way each time
(`Observed`) a dispatch whose runner has exited is never put back into the queue, and the pass
that changes it closes it (`Observed.verdicts`). The local executor does so if and only if no
attempt is inspected again (`local_verdicts_iff`). -/
namespace ResearchGateway
open Library

structure ControllerProcess (σ : Type) where
  system : ControllerSystem
  executor : σ

/-- What a turn learns from elsewhere. -/
structure Chance where
  /-- A call of a remote executor raises. -/
  raised : Bool := false
  /-- The exception that a submission raises. -/
  submission : Option Text := none
  runnerToken : String := ""
  locked : List JobId := []

inductive ProcessInput where
  | tick (microseconds : Nat)
  /-- A transaction of a user or a runner, now. -/
  | request (op : Op) (h : op.isRequest = true)
  | acquire
  | loseLock
  /-- The loop ends by an exception: the transaction of a pass has failed. -/
  | abandon
  /-- The process of an attempt ends. -/
  | exit (k : Attempt) (code : Int)
  | turn (chance : Chance)

namespace Executor
variable {σ : Type} (E : Executor σ)

def raises (chance : Chance) : Bool := E.remote && chance.raised

/-- The calls of a turn in a phase. -/
def calls (phase : ControllerPhase) (chance : Chance) : List ExecutorEvent :=
  match phase with
  | .inspectingDispatches (dispatch :: _) =>
    if E.raises chance then [] else [.inspect (dispatch.id, dispatch.attempt)]
  | .inspectingRunners (runner :: _) =>
    if E.raises chance then [] else [.inspect (runner.id, runner.attempt)]
  | .stoppingDispatch dispatch _ => if E.raises chance then [] else [.stop (dispatch.id, dispatch.attempt)]
  | .stoppingRunner runner _ => if E.raises chance then [] else [.stop (runner.id, runner.attempt)]
  | .submitting claim => if chance.submission.isSome then [] else [.submit (claim.id, claim.attempt)]
  | _ => []

/-- Whom a phase inspects. -/
def inspected? : ControllerPhase → Option Attempt
  | .inspectingDispatches (dispatch :: _) => some (dispatch.id, dispatch.attempt)
  | .inspectingRunners (runner :: _) => some (runner.id, runner.attempt)
  | _ => none

def surroundings (s : σ) (phase : ControllerPhase) (chance : Chance) : Surroundings where
  inspection := if E.raises chance then none else (inspected? phase).map fun k => (E.inspect k s).1
  stopped := !E.raises chance
  submission := chance.submission
  runnerToken := chance.runnerToken
  locked := chance.locked

end Executor

namespace ProcessInput
variable {σ : Type} (E : Executor σ) (w : ControllerProcess σ)

/-- The step of the controller that an input is. -/
def control : ProcessInput → Option ControllerInput
  | .tick microseconds => some (.tick microseconds)
  | .request op h => some (.request op h)
  | .acquire => some (.acquire 0)
  | .loseLock => some .loseLock
  | .abandon => some (.abandon 0)
  | .exit _ _ => none
  | .turn chance => some (.turn 0 (E.surroundings w.executor (w.system.phases 0) chance))

/-- The events of the executor that an input brings about. -/
def events : ProcessInput → List ExecutorEvent
  | .exit k code => [.exit k code]
  | .turn chance => E.calls (w.system.phases 0) chance
  | _ => []

end ProcessInput

section
variable {σ : Type} (E : Executor σ) (H : Hashing) (settings : ControllerSettings)

/-- The process over the tables. -/
def controllerProcess : Machine (ControllerProcess σ) ProcessInput ExecutorEvent where
  next i w := ⟨(i.control E w).elim w.system fun c => (controllers H settings).next c w.system,
    (i.events E w).foldl E.next w.executor⟩
  out i w := i.events E w

def reached (inputs : List ProcessInput) : ControllerProcess σ :=
  (controllerProcess E H settings).run ⟨.initial, E.initial⟩ inputs

def eventsOf (inputs : List ProcessInput) : List ExecutorEvent :=
  (controllerProcess E H settings).trace ⟨.initial, E.initial⟩ inputs

def ControllerProcess.phase (w : ControllerProcess σ) : ControllerPhase := w.system.phases 0

def ControllerProcess.job? (w : ControllerProcess σ) (j : JobId) : Option ResearchJob := w.system.db.job? j

/-- Neither a step of the controller nor the end of its loop. -/
def ProcessInput.isQuiet : ProcessInput → Bool
  | .abandon | .turn _ => false
  | _ => true

/-- What becomes of a dispatch whose runner has exited. -/
structure Verdicts (inputs : List ProcessInput) : Prop where
  /-- It is not put back into the queue. -/
  kept : ∀ before chance, before ++ [.turn chance] <+: inputs → ∀ dispatch action rest,
    (reached E H settings before).phase = .settlingDispatch dispatch action rest →
    ∀ job job', (reached E H settings before).job? dispatch.id = some job → job.state = .dispatched →
      (reached E H settings (before ++ [.turn chance])).job? dispatch.id = some job' → job'.state = .pending →
      fateOf (eventsOf E H settings before) (dispatch.id, job.attempt) ≠ some .exited
  /-- The pass that inspects it and then changes its row closes it. -/
  closed : ∀ before chance quiet chance',
    before ++ .turn chance :: (quiet ++ [.turn chance']) <+: inputs → (∀ i ∈ quiet, i.isQuiet = true) →
    ∀ dispatch rest, (reached E H settings before).phase = .inspectingDispatches (dispatch :: rest) →
    E.raises chance = false →
    fateOf (eventsOf E H settings before) (dispatch.id, dispatch.attempt) = some .exited →
    ∀ job, (reached E H settings (before ++ .turn chance :: quiet)).job? dispatch.id = some job →
      dispatchMatches dispatch job →
      ∃ job', (reached E H settings (before ++ .turn chance :: (quiet ++ [.turn chance']))).job? dispatch.id =
          some job' ∧
        job'.state = if job.state = .cancelRequested then .cancelled else .failed

end

section
variable {σ : Type} {E : Executor σ} {H : Hashing} {settings : ControllerSettings}
  {inputs before : List ProcessInput}

theorem reached_snoc (inputs : List ProcessInput) (i : ProcessInput) :
    reached E H settings (inputs ++ [i]) = (controllerProcess E H settings).next i (reached E H settings inputs) :=
  Machine.run_snoc ..

theorem eventsOf_snoc (inputs : List ProcessInput) (i : ProcessInput) :
    eventsOf E H settings (inputs ++ [i]) =
      eventsOf E H settings inputs ++ i.events E (reached E H settings inputs) := Machine.trace_snoc ..

theorem eventsOf_before (h : before <+: inputs) : eventsOf E H settings before <+: eventsOf E H settings inputs := by
  obtain ⟨rest, rfl⟩ := h
  rw [eventsOf, eventsOf, Machine.trace_append]
  exact List.prefix_append ..

/-- The executor is where its events have brought it. -/
theorem reached_executor (inputs : List ProcessInput) :
    (reached E H settings inputs).executor = E.after (eventsOf E H settings inputs) := by
  induction inputs using List.reverseRecOn with
  | nil => rfl
  | append_singleton inputs i ih =>
    rw [reached_snoc, eventsOf_snoc, Executor.after, List.foldl_append, ← Executor.after, ← ih]
    rfl

theorem reached_turn (inputs : List ProcessInput) (chance : Chance) :
    let w := reached E H settings inputs
    (reached E H settings (inputs ++ [.turn chance])).phase =
      (w.phase.next H settings w.system.clock (w.system.leader = some 0) (E.surroundings w.executor w.phase chance)
        w.system.db).2 := by
  intro w
  rw [reached_snoc]
  show Function.update w.system.phases 0 _ 0 = _
  exact Function.update_self 0 _ _

/-- What a turn that settles a dispatch does to the tables. -/
theorem reached_settled {dispatch : ExpiredDispatch} {action : DispatchAction} {rest : List ExpiredDispatch}
    (h : (reached E H settings inputs).phase = .settlingDispatch dispatch action rest) (chance : Chance) :
    (reached E H settings (inputs ++ [.turn chance])).system.db =
      step H (.reconcileExpiredDispatch (reached E H settings inputs).system.clock dispatch action
        settings.dispatchLeaseSeconds dispatchError) (reached E H settings inputs).system.db := by
  rw [reached_snoc]
  show ((controllers H settings).next (.turn 0 _) _).db = _
  rw [controllers_db, ControllerInput.op?, show (reached E H settings inputs).system.phases 0 = _ from h]
  rfl

/-- A quiet input leaves the process where it is, or lets it into its loop. -/
theorem reached_quiet {i : ProcessInput} (h : i.isQuiet = true) :
    (reached E H settings (inputs ++ [i])).phase = (reached E H settings inputs).phase ∨
      ((reached E H settings inputs).phase = .follower ∧
        (reached E H settings (inputs ++ [i])).phase = .checkingLease) := by
  rw [reached_snoc]
  cases i with
  | abandon | turn chance => cases h
  | acquire =>
    show ((reached E H settings inputs).system.acquire 0).phases 0 = _ ∨ _ ∧
      ((reached E H settings inputs).system.acquire 0).phases 0 = _
    unfold ControllerSystem.acquire
    split
    · next hfree =>
      refine .inr ⟨hfree.1, ?_⟩
      show Function.update (reached E H settings inputs).system.phases 0 .checkingLease 0 = _
      exact Function.update_self 0 _ _
    · exact .inl rfl
  | _ => exact .inl rfl

theorem reached_quiets {quiet : List ProcessInput} (h : ∀ i ∈ quiet, i.isQuiet = true)
    (hloop : (reached E H settings inputs).phase ≠ .follower) :
    (reached E H settings (inputs ++ quiet)).phase = (reached E H settings inputs).phase := by
  induction quiet using List.reverseRecOn with
  | nil => rw [List.append_nil]
  | append_singleton quiet i ih =>
    have hsame := ih fun i hi => h i (List.mem_append_left _ hi)
    rw [← List.append_assoc]
    rcases reached_quiet (h i (List.mem_append_right _ (List.mem_singleton_self i))) with hkept | ⟨hfollower, -⟩
    · rw [hkept, hsame]
    · exact (hloop (hsame ▸ hfollower)).elim

/-- Who is gone without an exit stays so until the next submission. -/
theorem fate_quiet {i : ProcessInput} (h : i.isQuiet = true) {k : Attempt}
    (hgone : fateOf (eventsOf E H settings inputs) k = none ∨
      fateOf (eventsOf E H settings inputs) k = some .stopped) :
    fateOf (eventsOf E H settings (inputs ++ [i])) k = fateOf (eventsOf E H settings inputs) k := by
  rw [eventsOf_snoc]
  cases i with
  | abandon | turn chance => cases h
  | exit k' code =>
    show fateOf (_ ++ [.exit k' code]) k = _
    rw [fateOf_snoc]
    apply if_neg
    intro hk
    rcases hgone with hgone | hgone <;> rw [hgone] at hk <;> cases hk.2
  | _ =>
    show fateOf (_ ++ []) k = _
    rw [List.append_nil]

theorem dispatchWrite_state {now : Time} {action : DispatchAction} (h : action ≠ .renew) (lease : Nat)
    (error : String) (job : ResearchJob) : (dispatchWrite now action lease error job).job.state =
      if job.state = .cancelRequested then .cancelled else if action = .requeue then .pending else .failed := by
  unfold dispatchWrite
  rw [if_neg h]
  simp only [closeReconciled_state, settleDispatch]
  split
  · rfl
  · split <;> rfl

/-- Where a process is about to settle a dispatch: it has inspected or stopped it. -/
theorem ControllerPhase.next_settling {phase : ControllerPhase} {now : Time} {leads : Bool} {s : Surroundings}
    {db : Database} {dispatch : ExpiredDispatch} {action : DispatchAction} {rest : List ExpiredDispatch}
    (h : (phase.next H settings now leads s db).2 = .settlingDispatch dispatch action rest) :
    (phase = .inspectingDispatches (dispatch :: rest) ∧
      ∃ status, s.inspection = some status ∧ action = dispatchAction dispatch status) ∨
    (phase = .stoppingDispatch dispatch rest ∧ action = .cancel) := by
  cases phase with
  | inspectingDispatches dispatches =>
    cases dispatches with
    | nil => cases h
    | cons first others =>
      simp only [ControllerPhase.next] at h
      cases hinspection : s.inspection with
      | none =>
        rw [hinspection] at h
        cases h
      | some status =>
        simp only [hinspection] at h
        split at h
        · cases h
        · cases h
          exact .inl ⟨rfl, status, rfl, rfl⟩
  | stoppingDispatch first others =>
    simp only [ControllerPhase.next] at h
    split at h
    · cases h
      exact .inr ⟨rfl, rfl⟩
    · cases h
  | inspectingRunners runners =>
    cases runners with
    | nil => cases h
    | cons first others =>
      simp only [ControllerPhase.next] at h
      split at h
      · cases h
      · split at h <;> cases h
  | follower | listingDispatches | listingRunners => cases h
  | reporting claim error =>
    rcases @ControllerPhase.next_reporting H settings now leads s db claim error with hnext | hnext <;>
      rw [hnext] at h <;> cases h
  | _ =>
    simp only [ControllerPhase.next] at h
    split at h <;> cases h

/-- The answer that a turn acts on. -/
theorem surroundings_inspection {w : ControllerProcess σ} {dispatch : ExpiredDispatch}
    {rest : List ExpiredDispatch} (h : w.phase = .inspectingDispatches (dispatch :: rest)) {chance : Chance}
    (hraises : E.raises chance = false) :
    (E.surroundings w.executor w.phase chance).inspection =
        some (E.inspect (dispatch.id, dispatch.attempt) w.executor).1 ∧
      ProcessInput.events E w (.turn chance) = [.inspect (dispatch.id, dispatch.attempt)] := by
  constructor
  · rw [Executor.surroundings, h, hraises]
    rfl
  · show E.calls w.phase chance = _
    rw [h, Executor.calls, hraises]
    rfl

/-- Only an attempt that is missing is put back. -/
theorem dispatchAction_requeue {dispatch : ExpiredDispatch} {status : DispatchStatus}
    (h : dispatchAction dispatch status = .requeue) : status = .missing := by
  unfold dispatchAction at h
  split at h
  · cases h
  · cases status with
    | missing => rfl
    | active | exited => cases h

/-- A turn that comes to put a dispatch back has found its attempt missing. -/
theorem Observed.requeued_turn (hobserved : Observed E (eventsOf E H settings inputs)) (hpresent : Present E)
    {chance : Chance} (hb : before ++ [.turn chance] <+: inputs) {dispatch : ExpiredDispatch}
    {rest : List ExpiredDispatch}
    (h : (reached E H settings (before ++ [.turn chance])).phase = .settlingDispatch dispatch .requeue rest) :
    fateOf (eventsOf E H settings (before ++ [.turn chance])) (dispatch.id, dispatch.attempt) = none ∨
      fateOf (eventsOf E H settings (before ++ [.turn chance])) (dispatch.id, dispatch.attempt) = some .stopped := by
  rw [reached_turn] at h
  rcases ControllerPhase.next_settling h with ⟨hphase, status, hinspection, haction⟩ | ⟨-, haction⟩
  · have hraises : E.raises chance = false := by
      by_contra hraises
      rw [Executor.surroundings, Bool.eq_true_of_not_eq_false hraises] at hinspection
      cases hinspection
    obtain ⟨hanswer, hevents⟩ := surroundings_inspection hphase hraises
    rw [hanswer, reached_executor, dispatchAction_requeue haction.symm] at hinspection
    have hmissing : E.answer (eventsOf E H settings before) (dispatch.id, dispatch.attempt) = .missing :=
      Option.some.inj hinspection
    rw [eventsOf_snoc, hevents, fateOf_snoc]
    show fateOf (eventsOf E H settings before) _ = _ ∨ fateOf (eventsOf E H settings before) _ = _
    cases hfate : fateOf (eventsOf E H settings before) (dispatch.id, dispatch.attempt) with
    | none => exact .inl rfl
    | some fate =>
      cases fate with
      | running => exact (hpresent _ _ hfate hmissing).elim
      | exited =>
        have hinspect := @eventsOf_before σ E H settings _ _ hb
        rw [eventsOf_snoc, hevents] at hinspect
        rw [hobserved _ _ hinspect hfate] at hmissing
        cases hmissing
      | stopped => exact .inr rfl
  · cases haction

/-- Who is about to be put back into the queue has no process that is running or has exited. -/
theorem Observed.requeued (hobserved : Observed E (eventsOf E H settings inputs)) (hpresent : Present E)
    (hb : before <+: inputs) {dispatch : ExpiredDispatch} {rest : List ExpiredDispatch}
    (h : (reached E H settings before).phase = .settlingDispatch dispatch .requeue rest) :
    fateOf (eventsOf E H settings before) (dispatch.id, dispatch.attempt) = none ∨
      fateOf (eventsOf E H settings before) (dispatch.id, dispatch.attempt) = some .stopped := by
  induction before using List.reverseRecOn with
  | nil => cases h
  | append_singleton front i ih =>
    have hfront := (List.prefix_append front [i]).trans hb
    by_cases hquiet : i.isQuiet = true
    · rcases @reached_quiet σ E H settings front i hquiet with hkept | ⟨-, hchecking⟩
      · have hgone := ih hfront (hkept ▸ h)
        rw [fate_quiet hquiet hgone]
        exact hgone
      · rw [hchecking] at h
        cases h
    · cases i with
      | abandon =>
        rw [reached_snoc] at h
        change Function.update (reached E H settings front).system.phases 0 .follower 0 = _ at h
        rw [Function.update_self] at h
        cases h
      | turn chance => exact hobserved.requeued_turn hpresent hb h
      | _ => exact (hquiet rfl).elim

theorem dispatchAction_exited (dispatch : ExpiredDispatch) :
    dispatchAction dispatch .exited ≠ .renew ∧ dispatchAction dispatch .exited ≠ .requeue := by
  unfold dispatchAction
  split <;> decide

/-- The row of a dispatch after the transaction that changes it. -/
theorem reached_closed {dispatch : ExpiredDispatch} {action : DispatchAction} {rest : List ExpiredDispatch}
    (h : (reached E H settings inputs).phase = .settlingDispatch dispatch action rest) (chance : Chance)
    {job : ResearchJob} (hj : (reached E H settings inputs).job? dispatch.id = some job)
    (hmatches : dispatchMatches dispatch job) :
    (reached E H settings (inputs ++ [.turn chance])).job? dispatch.id =
      some (dispatchWrite (reached E H settings inputs).system.clock action settings.dispatchLeaseSeconds
        dispatchError job).job := by
  rw [ControllerProcess.job?, reached_settled h, step_dispatch_selected hj hmatches]
  exact Database.job?_write hj (dispatchWrite_id ..)

/-- A turn that inspects an attempt that has exited comes to settle its dispatch. -/
theorem Observed.settling (hobserved : Observed E (eventsOf E H settings inputs)) {chance : Chance}
    (hb : before ++ [.turn chance] <+: inputs) {dispatch : ExpiredDispatch} {rest : List ExpiredDispatch}
    (hphase : (reached E H settings before).phase = .inspectingDispatches (dispatch :: rest))
    (hraises : E.raises chance = false)
    (hfate : fateOf (eventsOf E H settings before) (dispatch.id, dispatch.attempt) = some .exited) :
    (reached E H settings (before ++ [.turn chance])).phase =
      .settlingDispatch dispatch (dispatchAction dispatch .exited) rest := by
  obtain ⟨hanswer, hevents⟩ := surroundings_inspection hphase hraises
  have hexited : E.answer (eventsOf E H settings before) (dispatch.id, dispatch.attempt) = .exited := by
    have hinspect := @eventsOf_before σ E H settings _ _ hb
    rw [eventsOf_snoc, hevents] at hinspect
    exact hobserved _ _ hinspect hfate
  have hinspection := hanswer.trans (congrArg some ((congrArg (fun s => (E.inspect _ s).1)
    (reached_executor before)).trans hexited))
  rw [reached_turn]
  rw [hphase] at hinspection ⊢
  simp only [ControllerPhase.next, hinspection]
  exact congrArg Prod.snd (if_neg fun h => absurd h.2 (by decide))

/-- Where an exited attempt is answered so each time, its dispatch is closed and never put back. -/
theorem Observed.verdicts (hobserved : Observed E (eventsOf E H settings inputs)) (hpresent : Present E) :
    Verdicts E H settings inputs := by
  constructor
  · intro before chance hb dispatch action rest hphase job job' hj hdispatched hj' hpending
    have hbefore := (List.prefix_append before [.turn chance]).trans hb
    by_cases hmatches : dispatchMatches dispatch job
    · have hrow := reached_closed hphase chance hj hmatches
      obtain rfl := Option.some.inj (hrow.symm.trans hj')
      have hrequeue : action = .requeue := by
        by_cases hrenew : action = .renew
        · rw [dispatchWrite, if_pos hrenew] at hpending
          rw [hdispatched] at hpending
          cases hpending
        · rw [dispatchWrite_state hrenew, hdispatched] at hpending
          simpa using hpending
      obtain rfl := hrequeue
      rw [hmatches.1]
      rcases hobserved.requeued hpresent hbefore hphase with hgone | hgone <;> rw [hgone] <;> decide
    · rw [ControllerProcess.job?, reached_settled hphase, step_dispatch_skipped] at hj'
      · obtain rfl := Option.some.inj (hj.symm.trans hj')
        rw [hdispatched] at hpending
        cases hpending
      · intro job' hj'
        obtain rfl := Option.some.inj (hj.symm.trans hj')
        exact hmatches
  · intro before chance quiet chance' hb hquiet dispatch rest hphase hraises hfate job hj hmatches
    have hturn : before ++ [.turn chance] <+: inputs := by
      refine List.IsPrefix.trans ⟨quiet ++ [.turn chance'], ?_⟩ hb
      simp
    have hsettling := hobserved.settling hturn hphase hraises hfate
    have hphase' : (reached E H settings (before ++ .turn chance :: quiet)).phase =
        .settlingDispatch dispatch (dispatchAction dispatch .exited) rest := by
      have hkept := reached_quiets hquiet (by rw [hsettling]; simp)
      rw [hsettling, List.append_assoc] at hkept
      exact hkept
    obtain ⟨hrenew, hrequeue⟩ := dispatchAction_exited dispatch
    have hrow := reached_closed hphase' chance' hj hmatches
    rw [List.append_assoc] at hrow
    refine ⟨_, hrow, ?_⟩
    rw [dispatchWrite_state hrenew, if_neg hrequeue]

end

/-- With the executor that only reads, whatever happens. -/
theorem kubernetes_verdicts (H : Hashing) (settings : ControllerSettings) (inputs : List ProcessInput) :
    Verdicts kubernetesJobExecutor H settings inputs :=
  (kubernetesJobExecutor_observed _).verdicts kubernetesJobExecutor_present

/-- The local executor answers alike each time, and the controller acts on it alike, if and only
if no attempt is inspected again after an inspection that found it exited. -/
theorem local_verdicts_iff (events : List ExecutorEvent) (H : Hashing) (settings : ControllerSettings)
    (inputs : List ProcessInput) :
    (Observed localProcessExecutor events ↔ InspectedOnce events) ∧
      (Observed localProcessExecutor (eventsOf localProcessExecutor H settings inputs) ∧
          Verdicts localProcessExecutor H settings inputs ↔
        InspectedOnce (eventsOf localProcessExecutor H settings inputs)) := by
  refine ⟨localProcessExecutor_observed_iff events, ?_⟩
  constructor
  · intro h
    exact (localProcessExecutor_observed_iff _).mp h.1
  · intro h
    have hobserved := (localProcessExecutor_observed_iff _).mpr h
    exact ⟨hobserved, hobserved.verdicts localProcessExecutor_present⟩

namespace Sample

theorem minute_ge : 10 ≤ 60 := by decide

theorem creation_isRequest : (Op.createJob 0 1 "user" "key" request).isRequest = true := rfl

def singleRunner : ControllerSettings where
  maxConcurrentJobs := 1
  dispatchLeaseSeconds := 60
  dispatchReconcileBatchSize := 10
  runnerStaleSeconds := 60
  runnerMaxAttempts := 3
  jobs_ge := Nat.one_pos
  lease_ge := minute_ge
  stale_ge := minute_ge
  attempts_ge := by decide

def turns (n : Nat) : List ProcessInput := List.replicate n (.turn {})

/-- A runner exits before it reports, and the transaction after the inspection fails. -/
def failedPass : List ProcessInput :=
  [.request (.createJob 0 1 "user" "key" request) creation_isRequest, .acquire] ++ turns 6 ++
    [.turn {runnerToken := "token"}] ++ turns 1 ++ [.exit (1, 1) 1, .tick 61000000] ++ turns 3 ++
    [.abandon, .acquire] ++ turns 3

end Sample

/-- The next pass puts the job back into the queue. -/
theorem local_verdicts_requeued :
    ¬ Verdicts localProcessExecutor Sample.hashing Sample.singleRunner (Sample.failedPass ++ [.turn {}]) := by
  intro h
  have hphase : (reached localProcessExecutor Sample.hashing Sample.singleRunner Sample.failedPass).phase =
      .settlingDispatch ⟨1, 1, .dispatched⟩ .requeue [] := by decide +kernel
  have hrow : ((reached localProcessExecutor Sample.hashing Sample.singleRunner Sample.failedPass).job? 1).any
      (fun job => job.state = .dispatched ∧ job.attempt = 1) = true := by decide +kernel
  have hrow' : ((reached localProcessExecutor Sample.hashing Sample.singleRunner
      (Sample.failedPass ++ [.turn {}])).job? 1).any (fun job => job.state = .pending) = true := by decide +kernel
  have hfate : fateOf (eventsOf localProcessExecutor Sample.hashing Sample.singleRunner Sample.failedPass)
      (1, 1) = some .exited := by decide +kernel
  obtain ⟨job, hj, hjob⟩ := (Option.any_eq_true _ _).mp hrow
  obtain ⟨job', hj', hpending⟩ := (Option.any_eq_true _ _).mp hrow'
  obtain ⟨hdispatched, hattempt⟩ := of_decide_eq_true hjob
  have hkept := h.kept _ _ List.prefix_rfl _ _ _ hphase job job' hj hdispatched hj' (of_decide_eq_true hpending)
  rw [hattempt] at hkept
  exact hkept hfate

end ResearchGateway
