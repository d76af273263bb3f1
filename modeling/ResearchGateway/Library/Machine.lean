import Mathlib.Data.List.Induction
import Mathlib.Logic.Function.Basic

/-! Machines that take one input at a time and may emit outputs.

A machine is a step function and an output function; a run folds the inputs, a
trace collects what was emitted. Three rules carry every argument about runs:
`run_invariant` (what each step keeps, a run keeps), `history` (an invariant that
relates the state to everything emitted so far) and `run_kept` (a run keeps a
property to its end or leaves it at some step). Each of them lets the step assume
that its input is allowed (`A`); `history_allowed` lets it be allowed by the state. -/
namespace Library

structure Machine (σ ι ο : Type) where
  next : ι → σ → σ
  out : ι → σ → List ο

namespace Machine
variable {σ ι ο : Type} (M : Machine σ ι ο)

def run (s : σ) : List ι → σ
  | [] => s
  | i :: rest => run (M.next i s) rest

/-- Everything emitted along a run, in order. -/
def trace (s : σ) : List ι → List ο
  | [] => []
  | i :: rest => M.out i s ++ trace (M.next i s) rest

@[simp] theorem run_nil (s : σ) : M.run s [] = s := rfl

@[simp] theorem trace_nil (s : σ) : M.trace s [] = [] := rfl

/-- What was emitted was emitted by one of the steps. -/
theorem mem_trace {s : σ} {inputs : List ι} {o : ο} :
    o ∈ M.trace s inputs ↔ ∃ before i, before ++ [i] <+: inputs ∧ o ∈ M.out i (M.run s before) := by
  induction inputs generalizing s with
  | nil => simp
  | cons i rest ih =>
    rw [trace, List.mem_append, ih]
    constructor
    · rintro (hnow | ⟨before, k, hpre, hlater⟩)
      · exact ⟨[], i, List.cons_prefix_cons.mpr ⟨rfl, List.nil_prefix⟩, hnow⟩
      · exact ⟨i :: before, k, List.cons_prefix_cons.mpr ⟨rfl, hpre⟩, hlater⟩
    · rintro ⟨before, k, hpre, hout⟩
      cases before with
      | nil =>
        obtain ⟨rfl, -⟩ := List.cons_prefix_cons.mp hpre
        exact .inl hout
      | cons first before =>
        obtain ⟨rfl, hrest⟩ := List.cons_prefix_cons.mp hpre
        exact .inr ⟨before, k, hrest, hout⟩

/-- The same machine with another output. -/
def observing {ο' : Type} (out' : ι → σ → List ο') : Machine σ ι ο' := ⟨M.next, out'⟩

theorem run_observing {ο' : Type} (out' : ι → σ → List ο') (s : σ) (inputs : List ι) :
    (M.observing out').run s inputs = M.run s inputs := by
  induction inputs generalizing s with
  | nil => rfl
  | cons i rest ih => exact ih _

theorem run_append (s : σ) (a b : List ι) : M.run s (a ++ b) = M.run (M.run s a) b := by
  induction a generalizing s with
  | nil => rfl
  | cons i rest ih => exact ih _

theorem trace_append (s : σ) (a b : List ι) :
    M.trace s (a ++ b) = M.trace s a ++ M.trace (M.run s a) b := by
  induction a generalizing s with
  | nil => rfl
  | cons i rest ih => simp only [List.cons_append, trace, run, ih, List.append_assoc]

theorem run_snoc (s : σ) (a : List ι) (i : ι) : M.run s (a ++ [i]) = M.next i (M.run s a) := by
  rw [run_append]
  rfl

theorem trace_snoc (s : σ) (a : List ι) (i : ι) :
    M.trace s (a ++ [i]) = M.trace s a ++ M.out i (M.run s a) := by
  rw [trace_append]
  simp only [trace, List.append_nil]

theorem trace_observing_snoc {ο' : Type} (out' : ι → σ → List ο') (s : σ) (a : List ι) (i : ι) :
    (M.observing out').trace s (a ++ [i]) = (M.observing out').trace s a ++ out' i (M.run s a) := by
  rw [trace_snoc, run_observing]
  rfl

theorem mem_trace_observing {ο' : Type} {out' : ι → σ → List ο'} {s : σ} {inputs : List ι} {o : ο'} :
    o ∈ (M.observing out').trace s inputs ↔
      ∃ before i, before ++ [i] <+: inputs ∧ o ∈ out' i (M.run s before) := by
  simp only [mem_trace, run_observing]
  rfl

section Rules
variable {M} {A : ι → Prop}

/-- What every allowed step keeps, every run of allowed inputs keeps. -/
theorem run_invariant {P : σ → Prop} (hstep : ∀ i s, A i → P s → P (M.next i s)) {s : σ}
    (h : P s) (inputs : List ι) (hi : ∀ i ∈ inputs, A i) : P (M.run s inputs) := by
  induction inputs generalizing s with
  | nil => exact h
  | cons i rest ih =>
    exact ih (hstep i s (hi i (List.mem_cons_self ..)) h)
      (fun j hj => hi j (List.mem_cons_of_mem i hj))

/-- An invariant of the state together with the inputs taken and the outputs
emitted so far. -/
theorem history {P : σ → List ι → List ο → Prop}
    (hstep : ∀ i s is os, A i → P s is os → P (M.next i s) (is ++ [i]) (os ++ M.out i s))
    {s : σ} (h : P s [] []) (inputs : List ι) (hi : ∀ i ∈ inputs, A i) :
    P (M.run s inputs) inputs (M.trace s inputs) := by
  suffices ∀ (rest : List ι) (s : σ) (is : List ι) (os : List ο), (∀ i ∈ rest, A i) →
      P s is os → P (M.run s rest) (is ++ rest) (os ++ M.trace s rest) by
    simpa only [List.nil_append] using this inputs s [] [] hi h
  intro rest
  induction rest with
  | nil =>
    intro s is os _ hP
    simpa only [run_nil, trace_nil, List.append_nil] using hP
  | cons i rest ih =>
    intro s is os hi hP
    have hnext := hstep i s is os (hi i (List.mem_cons_self ..)) hP
    have := ih _ _ _ (fun j hj => hi j (List.mem_cons_of_mem i hj)) hnext
    simpa only [run, trace, List.append_assoc, List.singleton_append] using this

/-- The same for inputs that are each allowed in the state that takes them. -/
theorem history_allowed {A : ι → σ → Prop} {P : σ → List ι → List ο → Prop}
    (hstep : ∀ i s is os, A i s → P s is os → P (M.next i s) (is ++ [i]) (os ++ M.out i s))
    {s : σ} (h : P s [] []) (inputs : List ι)
    (hi : ∀ before i, before ++ [i] <+: inputs → A i (M.run s before)) :
    P (M.run s inputs) inputs (M.trace s inputs) := by
  induction inputs using List.reverseRecOn with
  | nil => exact h
  | append_singleton inputs i ih =>
    rw [run_snoc, trace_snoc]
    refine hstep i _ _ _ (hi inputs i List.prefix_rfl) (ih fun before k hpre => ?_)
    exact hi before k (hpre.trans (List.prefix_append ..))

/-- That the state allows each input of a run is decided along the run. -/
theorem forall_prefix_cons {A : ι → σ → Prop} {s : σ} {i : ι} {rest : List ι} :
    (∀ before k, before ++ [k] <+: i :: rest → A k (M.run s before)) ↔
      A i s ∧ ∀ before k, before ++ [k] <+: rest → A k (M.run (M.next i s) before) := by
  constructor
  · exact fun h => ⟨h [] i (List.cons_prefix_cons.mpr ⟨rfl, List.nil_prefix⟩),
      fun before k hpre => h (i :: before) k (List.cons_prefix_cons.mpr ⟨rfl, hpre⟩)⟩
  · rintro ⟨hnow, hlater⟩ before k hpre
    cases before with
    | nil =>
      obtain ⟨rfl, -⟩ := List.cons_prefix_cons.mp hpre
      exact hnow
    | cons first before =>
      obtain ⟨rfl, hrest⟩ := List.cons_prefix_cons.mp hpre
      exact hlater before k hrest

instance decidableAllowed {A : ι → σ → Prop} [∀ i s, Decidable (A i s)] (s : σ) :
    (inputs : List ι) → Decidable (∀ before i, before ++ [i] <+: inputs → A i (M.run s before))
  | [] => .isTrue fun _ _ hpre => by simp at hpre
  | i :: rest =>
    have := decidableAllowed (A := A) (M.next i s) rest
    decidable_of_iff _ forall_prefix_cons.symm

/-- A run either keeps a property to its end or leaves it at some step, for the
reason `Q`. -/
theorem run_kept {P : σ → Prop} {Q : ι → σ → Prop}
    (hstep : ∀ i s, A i → P s → P (M.next i s) ∨ Q i (M.next i s)) {s : σ} (h : P s)
    (inputs : List ι) (hi : ∀ i ∈ inputs, A i) :
    P (M.run s inputs) ∨
      ∃ before i, before ++ [i] <+: inputs ∧ Q i (M.run s (before ++ [i])) := by
  induction inputs generalizing s with
  | nil => exact .inl h
  | cons i rest ih =>
    rcases hstep i s (hi i (List.mem_cons_self ..)) h with hkept | hleft
    · rcases ih hkept (fun j hj => hi j (List.mem_cons_of_mem i hj)) with hend | ⟨before, k, hpre, hleft⟩
      · exact .inl hend
      · exact .inr ⟨i :: before, k, List.cons_prefix_cons.mpr ⟨rfl, hpre⟩, hleft⟩
    · exact .inr ⟨[], i, List.cons_prefix_cons.mpr ⟨rfl, List.nil_prefix⟩, hleft⟩

end Rules

end Machine

/-- Where processes are kept under their names and one of them was put in place: who is found
there is the new one, or one that was there before. -/
theorem update_cases {κ π : Type} [DecidableEq κ] {processes : κ → π} {k k' : κ} {p p' : π}
    (h : Function.update processes k p k' = p') :
    (k' = k ∧ p = p') ∨ (k' ≠ k ∧ processes k' = p') := by
  by_cases hk : k' = k
  · rw [hk, Function.update_self] at h
    exact .inl ⟨hk, h⟩
  · rw [Function.update_of_ne hk] at h
    exact .inr ⟨hk, h⟩

end Library
