import ResearchGateway.Controller

/-! The executors, and what they answer about an attempt.

The local executor holds the processes in a dictionary and drops one when it answers that it
has exited; the other one reads the status of a Job. `Observed` says that an attempt that has
exited is answered so until it is stopped. A reading executor always does that, the local one
if and only if no attempt is inspected again after an answer that it has exited
(`localProcessExecutor_observed_iff`). -/
namespace ResearchGateway

/-- A job and its attempt. -/
abbrev Attempt := JobId × Nat

inductive ExecutorEvent where
  | submit (k : Attempt)
  /-- The process of the attempt ends. -/
  | exit (k : Attempt) (code : Int)
  | inspect (k : Attempt)
  | stop (k : Attempt)
  deriving DecidableEq

def ExecutorEvent.attempt : ExecutorEvent → Attempt
  | .submit k | .exit k _ | .inspect k | .stop k => k

structure Executor (σ : Type) where
  initial : σ
  /-- Its calls may raise. -/
  remote : Bool
  submit : Attempt → σ → σ
  exit : Attempt → Int → σ → σ
  inspect : Attempt → σ → DispatchStatus × σ
  stop : Attempt → σ → σ

namespace Executor
variable {σ : Type} (E : Executor σ)

def next (s : σ) : ExecutorEvent → σ
  | .submit k => E.submit k s
  | .exit k code => E.exit k code s
  | .inspect k => (E.inspect k s).2
  | .stop k => E.stop k s

def after (events : List ExecutorEvent) : σ := events.foldl E.next E.initial

/-- What an inspection answers after some events. -/
def answer (events : List ExecutorEvent) (k : Attempt) : DispatchStatus := (E.inspect k (E.after events)).1

theorem after_snoc (events : List ExecutorEvent) (e : ExecutorEvent) :
    E.after (events ++ [e]) = E.next (E.after events) e := List.foldl_concat ..

end Executor

/-! ### The two of the source -/

/-- `asyncio.subprocess.Process`. -/
structure Process where
  returncode : Option Int
  deriving DecidableEq

/-- `LocalProcessExecutor`; its state is `_processes`. -/
def localProcessExecutor : Executor (Attempt → Option Process) where
  initial _ := none
  remote := false
  submit k processes := Function.update processes k (some ⟨none⟩)
  exit k code processes :=
    if processes k = some ⟨none⟩ then Function.update processes k (some ⟨some code⟩) else processes
  inspect k processes :=
    match processes k with
    | none => (.missing, processes)
    | some process =>
      if process.returncode = none then (.active, processes) else (.exited, Function.update processes k none)
  stop k processes := Function.update processes k none

/-- `V1JobStatus`. -/
structure JobStatus where
  failed : Nat := 0
  succeeded : Nat := 0
  deriving DecidableEq

/-- `KubernetesJobExecutor`; the state is the Jobs of the namespace. A Job that is there already
is left as it is, and so is one that has finished, until it is deleted. -/
def kubernetesJobExecutor : Executor (Attempt → Option JobStatus) where
  initial _ := none
  remote := true
  submit k jobs := if (jobs k).isSome then jobs else Function.update jobs k (some {})
  exit k code jobs :=
    if jobs k = some {} then
      Function.update jobs k (some (if code = 0 then {succeeded := 1} else {failed := 1}))
    else jobs
  inspect k jobs :=
    (match jobs k with
    | none => .missing
    | some status => if 0 < status.failed ∨ 0 < status.succeeded then .exited else .active, jobs)
  stop k jobs := Function.update jobs k none

/-! ### What has become of an attempt -/

inductive Fate where
  | running
  | exited
  | stopped
  deriving DecidableEq

def Fate.next (k : Attempt) (fate : Option Fate) : ExecutorEvent → Option Fate
  | .submit k' => if k' = k then some .running else fate
  | .exit k' _ => if k' = k ∧ fate = some .running then some .exited else fate
  | .inspect _ => fate
  | .stop k' => if k' = k then fate.map fun _ => .stopped else fate

def fateOf (events : List ExecutorEvent) (k : Attempt) : Option Fate := events.foldl (Fate.next k) none

theorem fateOf_snoc (events : List ExecutorEvent) (e : ExecutorEvent) (k : Attempt) :
    fateOf (events ++ [e]) k = Fate.next k (fateOf events k) e := List.foldl_concat ..

/-- The attempt has been inspected after its exit, and neither submitted nor stopped since. -/
def SeenExited (events : List ExecutorEvent) (k : Attempt) : Prop :=
  ∃ front rest, events = front ++ .inspect k :: rest ∧ fateOf front k = some .exited ∧
    ∀ e ∈ rest, e ≠ .submit k ∧ e ≠ .stop k

/-- Every inspection of an attempt that has exited answers so. -/
def Observed {σ : Type} (E : Executor σ) (events : List ExecutorEvent) : Prop :=
  ∀ before k, before ++ [.inspect k] <+: events → fateOf before k = some .exited → E.answer before k = .exited

/-- No attempt is inspected again after an inspection that found it exited. -/
def InspectedOnce (events : List ExecutorEvent) : Prop :=
  ∀ before k, before ++ [.inspect k] <+: events → fateOf before k = some .exited → ¬ SeenExited before k

section
variable {events : List ExecutorEvent} {e : ExecutorEvent} {k : Attempt}

theorem seenExited_nil : ¬ SeenExited [] k := by
  intro h
  obtain ⟨front, rest, heq, -⟩ := h
  simp at heq

theorem seenExited_snoc : SeenExited (events ++ [e]) k ↔
    (SeenExited events k ∧ e ≠ .submit k ∧ e ≠ .stop k) ∨ (e = .inspect k ∧ fateOf events k = some .exited) := by
  constructor
  · intro h
    obtain ⟨front, rest, heq, hfate, hrest⟩ := h
    induction rest using List.reverseRecOn with
    | nil =>
      obtain ⟨rfl, he⟩ := List.append_inj' heq rfl
      exact .inr ⟨List.singleton_inj.mp he, hfate⟩
    | append_singleton rest last _ =>
      rw [← List.cons_append, ← List.append_assoc] at heq
      obtain ⟨rfl, he⟩ := List.append_inj' heq rfl
      obtain rfl := List.singleton_inj.mp he
      refine .inl ⟨⟨front, rest, rfl, hfate, fun e he => hrest e (List.mem_append_left _ he)⟩, ?_⟩
      exact hrest e (List.mem_append_right _ (List.mem_singleton_self e))
  · intro h
    cases h with
    | inl h =>
      obtain ⟨⟨front, rest, rfl, hfate, hrest⟩, he⟩ := h
      refine ⟨front, rest ++ [e], by simp, hfate, fun e' he' => ?_⟩
      rcases List.mem_append.mp he' with hmem | hmem
      · exact hrest e' hmem
      · exact List.mem_singleton.mp hmem ▸ he
    | inr h =>
      obtain ⟨rfl, hfate⟩ := h
      exact ⟨events, [], rfl, hfate, nofun⟩

/-- Who was seen exited is still so. -/
theorem SeenExited.fate (h : SeenExited events k) : fateOf events k = some .exited := by
  induction events using List.reverseRecOn with
  | nil => exact (seenExited_nil h).elim
  | append_singleton events e ih =>
    rw [fateOf_snoc]
    rcases seenExited_snoc.mp h with ⟨hseen, hsubmit, hstop⟩ | ⟨rfl, hfate⟩
    · rw [ih hseen]
      cases e with
      | submit k' => exact if_neg fun hk => hsubmit (congrArg ExecutorEvent.submit hk)
      | exit k' code => exact if_neg fun hk => absurd hk.2 (by decide)
      | inspect k' => rfl
      | stop k' => exact if_neg fun hk => hstop (congrArg ExecutorEvent.stop hk)
    · exact hfate

/-! ### The local executor -/

/-- What the dictionary holds of an attempt, given what has become of it. -/
inductive Held (seen : Prop) : Option Process → Option Fate → Prop
  | absent : Held seen none none
  | running : Held seen (some ⟨none⟩) (some .running)
  | exited (code : Int) (h : ¬ seen) : Held seen (some ⟨some code⟩) (some .exited)
  | dropped (h : seen) : Held seen none (some .exited)
  | stopped : Held seen none (some .stopped)

section
variable {processes : Attempt → Option Process}

theorem localProcessExecutor_inspect (processes : Attempt → Option Process) (k : Attempt) :
    (localProcessExecutor.inspect k processes).2 =
      if (processes k).any fun process => process.returncode.isSome then Function.update processes k none
      else processes := by
  simp only [localProcessExecutor]
  cases processes k with
  | none => rfl
  | some process =>
    obtain ⟨returncode⟩ := process
    cases returncode <;> rfl

/-- An event of another attempt. -/
theorem localProcessExecutor_other (h : e.attempt ≠ k) :
    localProcessExecutor.next processes e k = processes k := by
  cases e with
  | submit k' | stop k' => exact Function.update_of_ne h.symm ..
  | exit k' code =>
    show (if _ then Function.update processes k' _ else processes) k = _
    split
    · exact Function.update_of_ne h.symm ..
    · rfl
  | inspect k' =>
    show (localProcessExecutor.inspect k' processes).2 k = _
    rw [localProcessExecutor_inspect]
    split
    · exact Function.update_of_ne h.symm ..
    · rfl

theorem fate_other {fate : Option Fate} (h : e.attempt ≠ k) : Fate.next k fate e = fate := by
  cases e with
  | inspect k' => rfl
  | exit k' code => exact if_neg fun hk => h hk.1
  | submit k' | stop k' => exact if_neg h

theorem seenExited_other (h : e.attempt ≠ k) : SeenExited (events ++ [e]) k ↔ SeenExited events k := by
  rw [seenExited_snoc]
  constructor
  · intro hseen
    rcases hseen with ⟨hseen, -⟩ | ⟨rfl, -⟩
    · exact hseen
    · exact (h rfl).elim
  · intro hseen
    refine .inl ⟨hseen, ?_, ?_⟩
    · intro he
      exact h (he ▸ rfl)
    · intro he
      exact h (he ▸ rfl)

/-- What one event does to an entry and to the fate of the attempt. -/
theorem Held.step (h : Held (SeenExited events k) (processes k) (fateOf events k)) (e : ExecutorEvent) :
    Held (SeenExited (events ++ [e]) k) (localProcessExecutor.next processes e k)
      (Fate.next k (fateOf events k) e) := by
  by_cases hk : e.attempt = k
  · subst hk
    cases e with
    | submit k =>
      simp only [localProcessExecutor, Executor.next, Fate.next, ExecutorEvent.attempt, Function.update_self,
        if_true]
      exact .running
    | exit k code =>
      have hseen : SeenExited (events ++ [.exit k code]) k ↔ SeenExited events k := by simp [seenExited_snoc]
      simp only [ExecutorEvent.attempt, Executor.next, localProcessExecutor, Fate.next, true_and, hseen] at h ⊢
      generalize hprocess : processes k = process at h ⊢
      generalize hfate : fateOf events k = fate at h ⊢
      cases h with
      | absent => simpa [hprocess] using Held.absent
      | running => simpa using Held.exited code fun hsaw => absurd (hsaw.fate.symm.trans hfate) (by decide)
      | exited code' hnot => simpa [hprocess] using Held.exited code' hnot
      | dropped hsaw => simpa [hprocess] using Held.dropped hsaw
      | stopped => simpa [hprocess] using Held.stopped
    | inspect k =>
      simp only [ExecutorEvent.attempt, Executor.next, localProcessExecutor_inspect, Fate.next] at h ⊢
      generalize hprocess : processes k = process at h ⊢
      generalize hfate : fateOf events k = fate at h ⊢
      cases h with
      | absent => simpa [hprocess] using Held.absent
      | running => simpa [hprocess] using Held.running
      | exited code hnot => simpa using Held.dropped (seenExited_snoc.mpr (.inr ⟨rfl, hfate⟩))
      | dropped hsaw => simpa [hprocess] using Held.dropped (seenExited_snoc.mpr (.inr ⟨rfl, hfate⟩))
      | stopped => simpa [hprocess] using Held.stopped
    | stop k =>
      simp only [ExecutorEvent.attempt, Executor.next, localProcessExecutor, Fate.next, Function.update_self,
        if_true]
      cases fateOf events k with
      | none => exact .absent
      | some fate => exact .stopped
  · rw [localProcessExecutor_other hk, fate_other hk]
    simpa only [seenExited_other hk] using h

end

theorem localProcessExecutor_held (events : List ExecutorEvent) (k : Attempt) :
    Held (SeenExited events k) (localProcessExecutor.after events k) (fateOf events k) := by
  induction events using List.reverseRecOn with
  | nil => exact .absent
  | append_singleton events e ih =>
    rw [Executor.after_snoc, fateOf_snoc]
    exact ih.step e

/-- The answer depends on the entry. -/
theorem localProcessExecutor_answer (processes : Attempt → Option Process) (k : Attempt) :
    (localProcessExecutor.inspect k processes).1 =
      (processes k).elim .missing fun process => if process.returncode = none then .active else .exited := by
  simp only [localProcessExecutor]
  cases processes k with
  | none => rfl
  | some process =>
    simp only [Option.elim_some]
    split <;> rfl

theorem localProcessExecutor_exited {before : List ExecutorEvent} (hfate : fateOf before k = some .exited) :
    localProcessExecutor.answer before k = .exited ↔ ¬ SeenExited before k := by
  have hheld := localProcessExecutor_held before k
  rw [hfate] at hheld
  rw [Executor.answer, localProcessExecutor_answer]
  generalize localProcessExecutor.after before k = process at hheld
  cases hheld with
  | exited code hnot => simp [hnot]
  | dropped hseen => simp [hseen]

/-- The local executor answers that an attempt has exited once. -/
theorem localProcessExecutor_observed_iff (events : List ExecutorEvent) :
    Observed localProcessExecutor events ↔ InspectedOnce events := by
  constructor
  · intro h before k hb hfate
    exact (localProcessExecutor_exited hfate).mp (h before k hb hfate)
  · intro h before k hb hfate
    exact (localProcessExecutor_exited hfate).mpr (h before k hb hfate)

theorem localProcessExecutor_running (h : fateOf events k = some .running) :
    localProcessExecutor.answer events k = .active := by
  have hheld := localProcessExecutor_held events k
  rw [h] at hheld
  rw [Executor.answer, localProcessExecutor_answer]
  generalize localProcessExecutor.after events k = process at hheld
  cases hheld with
  | running => rfl

/-! ### The reading executor -/

/-- What the namespace holds of an attempt, given what has become of it. -/
inductive Reported : Option JobStatus → Option Fate → Prop
  | absent : Reported none none
  | running (status : JobStatus) : Reported (some status) (some .running)
  | exited (status : JobStatus) (h : status ≠ {}) : Reported (some status) (some .exited)
  | stopped : Reported none (some .stopped)

theorem kubernetesJobExecutor_other {jobs : Attempt → Option JobStatus} (h : e.attempt ≠ k) :
    kubernetesJobExecutor.next jobs e k = jobs k := by
  cases e with
  | submit k' | exit k' code =>
    show (if _ then _ else _ : Attempt → Option JobStatus) k = _
    split
    · first | rfl | exact Function.update_of_ne h.symm ..
    · first | rfl | exact Function.update_of_ne h.symm ..
  | inspect k' => rfl
  | stop k' => exact Function.update_of_ne h.symm ..

theorem Reported.step {jobs : Attempt → Option JobStatus} {fate : Option Fate}
    (h : Reported (jobs k) fate) (e : ExecutorEvent) :
    Reported (kubernetesJobExecutor.next jobs e k) (Fate.next k fate e) := by
  by_cases hk : e.attempt = k
  · subst hk
    cases e with
    | submit k =>
      simp only [ExecutorEvent.attempt, Executor.next, kubernetesJobExecutor, Fate.next, if_true] at h ⊢
      generalize hjob : jobs k = job at h
      cases h with
      | absent | stopped => simpa [hjob] using Reported.running {}
      | running status => simpa [hjob] using Reported.running status
      | exited status hdone => simpa [hjob] using Reported.running status
    | exit k code =>
      simp only [ExecutorEvent.attempt, Executor.next, kubernetesJobExecutor, Fate.next, true_and] at h ⊢
      generalize hjob : jobs k = job at h
      cases h with
      | absent => simpa [hjob] using Reported.absent
      | running status =>
        by_cases hidle : status = {}
        · have hdone : (if code = 0 then {succeeded := 1} else {failed := 1} : JobStatus) ≠ {} := by
            split <;> decide
          simpa [hjob, hidle] using Reported.exited _ hdone
        · simpa [hjob, hidle] using Reported.exited status hidle
      | exited status hdone => simpa [hjob, hdone] using Reported.exited status hdone
      | stopped => simpa [hjob] using Reported.stopped
    | inspect k => exact h
    | stop k =>
      simp only [ExecutorEvent.attempt, Executor.next, kubernetesJobExecutor, Fate.next, Function.update_self,
        if_true]
      cases fate with
      | none => exact .absent
      | some fate => exact .stopped
  · rw [kubernetesJobExecutor_other hk, fate_other hk]
    exact h

theorem kubernetesJobExecutor_reported (events : List ExecutorEvent) (k : Attempt) :
    Reported (kubernetesJobExecutor.after events k) (fateOf events k) := by
  induction events using List.reverseRecOn with
  | nil => exact .absent
  | append_singleton events e ih =>
    rw [Executor.after_snoc, fateOf_snoc]
    exact ih.step e

theorem kubernetesJobExecutor_answer (jobs : Attempt → Option JobStatus) (k : Attempt) :
    (kubernetesJobExecutor.inspect k jobs).1 =
      (jobs k).elim .missing fun status => if status = {} then .active else .exited := by
  simp only [kubernetesJobExecutor]
  cases jobs k with
  | none => rfl
  | some status =>
    obtain ⟨failed, succeeded⟩ := status
    simp only [Option.elim_some, JobStatus.mk.injEq]
    split <;> split <;> first | rfl | omega

/-- The reading executor answers so as often as it is asked. -/
theorem kubernetesJobExecutor_observed (events : List ExecutorEvent) : Observed kubernetesJobExecutor events := by
  intro before k hb hfate
  have hreported := kubernetesJobExecutor_reported before k
  rw [hfate] at hreported
  rw [Executor.answer, kubernetesJobExecutor_answer]
  generalize kubernetesJobExecutor.after before k = job at hreported
  cases hreported with
  | exited status hdone => exact if_neg hdone

/-! ### What both answer -/

/-- A running attempt is never missing. -/
def Present {σ : Type} (E : Executor σ) : Prop :=
  ∀ events k, fateOf events k = some .running → E.answer events k ≠ .missing

theorem localProcessExecutor_present : Present localProcessExecutor := by
  intro events k h hmissing
  rw [localProcessExecutor_running h] at hmissing
  cases hmissing

theorem kubernetesJobExecutor_present : Present kubernetesJobExecutor := by
  intro events k h hmissing
  have hreported := kubernetesJobExecutor_reported events k
  rw [h] at hreported
  rw [Executor.answer, kubernetesJobExecutor_answer] at hmissing
  generalize kubernetesJobExecutor.after events k = job at hreported hmissing
  cases hreported with
  | running status =>
    simp only [Option.elim_some] at hmissing
    split at hmissing <;> cases hmissing

end

end ResearchGateway
