import Mathlib.Data.List.Infix
import ResearchGateway.Library.Dialog

/-! Steps that bring a state to what they want.

A step checks whether the state needs its write, and a write settles what was checked. Where
the steps are stable, so that no later write unsettles an earlier step, a run of them is
idempotent (`run_settles`), and a run that broke off after some of them is resumed by running
all of them again (`run_resume`).

`Performs` says that a dialog with a server does the steps, in order and with a write only
where a step needs it; `idempotent`, `completes_cuts` and `cuts_preserves` then hold of the
dialog. -/
namespace Library

structure Ensure (σ ε : Type) where
  label : σ → String
  check : σ → Except ε Bool
  write : σ → σ
  settles : ∀ s, check s = .ok true → check (write s) = .ok false

namespace Ensure
variable {σ τ ε : Type}

/-- Nothing is to be written. -/
def Settled (e : Ensure σ ε) (s : σ) : Prop := e.check s = .ok false

def step (e : Ensure σ ε) (s : σ) : Except ε σ :=
  match e.check s with
  | .ok true => .ok (e.write s)
  | .ok false => .ok s
  | .error err => .error err

/-- The steps in order, up to one that raises. -/
def run (steps : List (Ensure σ ε)) (s : σ) : Except ε σ := steps.foldlM (fun s e => e.step s) s

/-- The labels of the steps that write. -/
def changes : List (Ensure σ ε) → σ → List String
  | [], _ => []
  | e :: rest, s =>
    match e.check s with
    | .ok true => e.label s :: changes rest (e.write s)
    | .ok false => changes rest s
    | .error _ => []

/-- What `e` has settled stays so when `g` writes. -/
def Stable (e g : Ensure σ ε) : Prop := ∀ s, e.Settled s → e.Settled (g.write s)

section
variable {e g : Ensure σ ε} {steps steps' before : List (Ensure σ ε)} {s t : σ}

theorem step_settled (h : e.Settled s) : e.step s = .ok s := by
  rw [Settled] at h
  simp only [step, h]

theorem step_write (h : e.check s = .ok true) : e.step s = .ok (e.write s) := by
  simp only [step, h]

theorem step_error {err : ε} (h : e.check s = .error err) : e.step s = .error err := by
  simp only [step, h]

theorem step_ok (h : e.step s = .ok t) : (e.Settled s ∧ t = s) ∨ (e.check s = .ok true ∧ t = e.write s) := by
  cases hcheck : e.check s with
  | error err =>
    rw [step_error hcheck] at h
    cases h
  | ok needed =>
    cases needed with
    | true =>
      rw [step_write hcheck] at h
      exact .inr ⟨rfl, (Except.ok.inj h).symm⟩
    | false =>
      rw [step_settled hcheck] at h
      exact .inl ⟨hcheck, (Except.ok.inj h).symm⟩

theorem settled_step (h : e.step s = .ok t) : e.Settled t := by
  rcases step_ok h with ⟨hsettled, rfl⟩ | ⟨hneeded, rfl⟩
  · exact hsettled
  · exact e.settles s hneeded

theorem run_cons : run (e :: steps) s = e.step s >>= run steps := rfl

theorem run_cons_ok (h : run (e :: steps) s = .ok t) : ∃ u, e.step s = .ok u ∧ run steps u = .ok t := by
  rw [run_cons] at h
  cases hstep : e.step s with
  | error err =>
    rw [hstep] at h
    cases h
  | ok u =>
    rw [hstep] at h
    exact ⟨u, rfl, h⟩

theorem run_append : run (steps ++ steps') s = run steps s >>= run steps' := List.foldlM_append

theorem run_append_ok (h : run steps s = .ok t) : run (steps ++ steps') s = run steps' t := by
  rw [run_append, h]
  rfl

theorem run_append_error {err : ε} (h : run steps s = .error err) : run (steps ++ steps') s = .error err := by
  rw [run_append, h]
  rfl

theorem run_singleton : run [e] s = e.step s := by
  rw [run_cons]
  cases e.step s <;> rfl

theorem changes_append (h : run steps s = .ok t) :
    changes (steps ++ steps') s = changes steps s ++ changes steps' t := by
  induction steps generalizing s with
  | nil =>
    obtain rfl := Except.ok.inj h
    rfl
  | cons e rest ih =>
    obtain ⟨u, hstep, hrest⟩ := run_cons_ok h
    rcases step_ok hstep with ⟨hsettled, rfl⟩ | ⟨hneeded, rfl⟩
    · rw [Settled] at hsettled
      simp only [List.cons_append, changes, hsettled, ih hrest]
    · simp only [List.cons_append, changes, hneeded, ih hrest]

/-! ### Runs of stable steps -/

theorem settled_run (hstable : ∀ g ∈ steps, Stable e g) (hsettled : e.Settled s) (h : run steps s = .ok t) :
    e.Settled t := by
  induction steps generalizing s with
  | nil =>
    obtain rfl := Except.ok.inj h
    exact hsettled
  | cons g rest ih =>
    rw [List.forall_mem_cons] at hstable
    obtain ⟨u, hstep, hrest⟩ := run_cons_ok h
    apply ih hstable.2 _ hrest
    rcases step_ok hstep with ⟨-, rfl⟩ | ⟨-, rfl⟩
    · exact hsettled
    · exact hstable.1 s hsettled

theorem run_settles (hstable : steps.Pairwise Stable) (h : run steps s = .ok t) : ∀ e ∈ steps, e.Settled t := by
  induction steps generalizing s with
  | nil => exact List.forall_mem_nil _
  | cons e rest ih =>
    rw [List.pairwise_cons] at hstable
    obtain ⟨u, hstep, hrest⟩ := run_cons_ok h
    exact List.forall_mem_cons.mpr
      ⟨settled_run hstable.1 (settled_step hstep) hrest, ih hstable.2 hrest⟩

theorem run_of_settled (h : ∀ e ∈ steps, e.Settled s) : run steps s = .ok s := by
  induction steps with
  | nil => rfl
  | cons e rest ih =>
    rw [List.forall_mem_cons] at h
    rw [run_cons, step_settled h.1]
    exact ih h.2

theorem changes_of_settled (h : ∀ e ∈ steps, e.Settled s) : changes steps s = [] := by
  induction steps with
  | nil => rfl
  | cons e rest ih =>
    rw [List.forall_mem_cons] at h
    have hcheck : e.check s = .ok false := h.1
    simp only [changes, hcheck, ih h.2]

/-- All the steps after some of them do what all of them would have done at once. -/
theorem run_resume (hstable : steps.Pairwise Stable) (hbefore : before <+: steps) (h : run before s = .ok t) :
    run steps t = run steps s := by
  obtain ⟨rest, rfl⟩ := hbefore
  have hsettled := run_settles (List.pairwise_append.mp hstable).1 h
  rw [run_append_ok (run_of_settled hsettled), run_append_ok h]

/-- What every write preserves, a run preserves. -/
theorem run_preserves {R : σ → σ → Prop} (refl : ∀ s, R s s) (trans : ∀ s t u, R s t → R t u → R s u)
    (hwrite : ∀ e ∈ steps, ∀ s, e.check s = .ok true → R s (e.write s)) (h : run steps s = .ok t) : R s t := by
  induction steps generalizing s with
  | nil =>
    obtain rfl := Except.ok.inj h
    exact refl s
  | cons e rest ih =>
    rw [List.forall_mem_cons] at hwrite
    obtain ⟨u, hstep, hrest⟩ := run_cons_ok h
    rcases step_ok hstep with ⟨-, rfl⟩ | ⟨hneeded, rfl⟩
    · exact ih hwrite.2 hrest
    · exact trans s _ t (hwrite.1 s hneeded) (ih hwrite.2 hrest)

/-- Steps that raise in no state with `I` and keep it come to their end. -/
theorem run_completes {I : σ → Prop} (hcheck : ∀ e ∈ steps, ∀ s, I s → ∃ needed, e.check s = .ok needed)
    (hwrite : ∀ e ∈ steps, ∀ s, I s → e.check s = .ok true → I (e.write s)) (h : I s) :
    ∃ t, run steps s = .ok t ∧ I t := by
  induction steps generalizing s with
  | nil => exact ⟨s, rfl, h⟩
  | cons e rest ih =>
    rw [List.forall_mem_cons] at hcheck hwrite
    obtain ⟨needed, hneeded⟩ := hcheck.1 s h
    cases needed with
    | true =>
      rw [run_cons, step_write hneeded]
      exact ih hcheck.2 hwrite.2 (hwrite.1 s h hneeded)
    | false =>
      rw [run_cons, step_settled hneeded]
      exact ih hcheck.2 hwrite.2 h

end

/-! ### Steps on a part of the state -/

structure Part (σ τ : Type) where
  get : σ → τ
  set : τ → σ → σ
  get_set : ∀ a s, get (set a s) = a

def focus (part : Part σ τ) (e : Ensure τ ε) : Ensure σ ε where
  label s := e.label (part.get s)
  check s := e.check (part.get s)
  write s := part.set (e.write (part.get s)) s
  settles s h := by
    rw [part.get_set]
    exact e.settles _ h

theorem stable_focus {e g : Ensure τ ε} {part : Part σ τ} (h : Stable e g) :
    Stable (e.focus part) (g.focus part) := by
  intro s hs
  simp only [Settled, focus, part.get_set]
  exact h _ hs

/-- Steps on different parts do not meet. -/
theorem stable_apart {τ' : Type} {e : Ensure τ ε} {g : Ensure τ' ε} {part : Part σ τ} {part' : Part σ τ'}
    (h : ∀ a s, part.get (part'.set a s) = part.get s) : Stable (e.focus part) (g.focus part') := by
  intro s hs
  simp only [Settled, focus, h]
  exact hs

end Ensure

/-! ### Dialogs that do the steps -/

section
open Ensure
variable {σ Q A ε α β : Type} (serve : σ → Q → A × σ) (writes : Q → Bool)

/-- From `s`, the dialog raises where a step does, and otherwise ends where the steps end; it
sends no write where no step needs one, and wherever it is cut off, some of the steps have
been done. `post` says what it returns, given the changes and the state afterwards. -/
structure Performs (steps : List (Ensure σ ε)) (d : Dialog Q A ε α) (s : σ)
    (post : α → List String → σ → Prop) : Prop where
  raises : ∀ e, run steps s = .error e → ∃ questions t, d.exec serve s = (questions, .error e, t)
  returns : ∀ t, run steps s = .ok t → ∃ questions a, d.exec serve s = (questions, .ok a, t) ∧
    post a (changes steps s) t ∧ (changes steps s = [] → ∀ q ∈ questions, writes q = false)
  cuts : ∀ n, ∃ before, before <+: steps ∧ run before s = .ok (d.cut serve n s)

namespace Performs
variable {serve writes} {steps steps' : List (Ensure σ ε)} {s : σ} {post : α → List String → σ → Prop}

theorem pure {a : α} (h : post a [] s) :
    Performs serve writes [] (Pure.pure a : Dialog Q A ε α) s post where
  raises _ h := by cases h
  returns t ht := by
    obtain rfl := Except.ok.inj ht
    exact ⟨[], a, rfl, h, fun _ => List.forall_mem_nil _⟩
  cuts n := ⟨[], List.nil_prefix, by cases n <;> rfl⟩

section
variable {e : Ensure σ ε}

theorem settled {a : α} (he : e.Settled s) (h : post a [] s) :
    Performs serve writes [e] (Pure.pure a) s post where
  raises err herr := by
    rw [run_singleton, step_settled he] at herr
    cases herr
  returns t ht := by
    rw [run_singleton, step_settled he] at ht
    obtain rfl := Except.ok.inj ht
    rw [changes_of_settled (List.forall_mem_singleton.mpr he)]
    exact ⟨[], a, rfl, h, fun _ => List.forall_mem_nil _⟩
  cuts n := ⟨[], List.nil_prefix, by cases n <;> rfl⟩

theorem error {err : ε} (he : e.check s = .error err) :
    Performs serve writes [e] (.done (.error err) : Dialog Q A ε α) s post where
  raises err' h := by
    rw [run_singleton, step_error he] at h
    obtain rfl := Except.error.inj h
    exact ⟨[], s, rfl⟩
  returns t h := by
    rw [run_singleton, step_error he] at h
    cases h
  cuts n := ⟨[], List.nil_prefix, by cases n <;> rfl⟩

theorem write {q : Q} {next : A → Dialog Q A ε α} {answer : A} {a : α} (he : e.check s = .ok true)
    (hserve : serve s q = (answer, e.write s)) (hnext : next answer = Pure.pure a)
    (h : post a [e.label s] (e.write s)) : Performs serve writes [e] (.ask q next) s post where
  raises err herr := by
    rw [run_singleton, step_write he] at herr
    cases herr
  returns t ht := by
    rw [run_singleton, step_write he] at ht
    obtain rfl := Except.ok.inj ht
    have hchanges : changes [e] s = [e.label s] := by simp only [changes, he]
    rw [hchanges]
    refine ⟨[q], a, ?_, h, fun hnone => by cases hnone⟩
    rw [Dialog.exec_ask, hserve, hnext]
    exact ⟨[], rfl, rfl⟩
  cuts n := by
    cases n with
    | zero => exact ⟨[], List.nil_prefix, rfl⟩
    | succ n =>
      refine ⟨[e], List.prefix_refl _, ?_⟩
      rw [run_singleton, step_write he, Dialog.cut, hserve, hnext]
      cases n <;> rfl

end

theorem read {q : Q} {next : A → Dialog Q A ε α} {answer : A} (hq : writes q = false)
    (hserve : serve s q = (answer, s)) (h : Performs serve writes steps (next answer) s post) :
    Performs serve writes steps (.ask q next) s post where
  raises err herr := by
    obtain ⟨questions, t, hexec⟩ := h.raises err herr
    exact ⟨q :: questions, t, Dialog.exec_ask.mpr ⟨questions, rfl, by rwa [hserve]⟩⟩
  returns t ht := by
    obtain ⟨questions, a, hexec, hpost, hquiet⟩ := h.returns t ht
    exact ⟨q :: questions, a, Dialog.exec_ask.mpr ⟨questions, rfl, by rwa [hserve]⟩, hpost,
      fun hnone => List.forall_mem_cons.mpr ⟨hq, hquiet hnone⟩⟩
  cuts n := by
    cases n with
    | zero => exact ⟨[], List.nil_prefix, rfl⟩
    | succ n =>
      rw [Dialog.cut, hserve]
      exact h.cuts n

theorem bind {d : Dialog Q A ε α} {f : α → Dialog Q A ε β} {post' : β → List String → σ → Prop}
    (h : Performs serve writes steps d s post)
    (hf : ∀ a t, run steps s = .ok t → post a (changes steps s) t →
      Performs serve writes steps' (f a) t fun b labels u => post' b (changes steps s ++ labels) u) :
    Performs serve writes (steps ++ steps') (d >>= f) s post' where
  raises err herr := by
    cases hrun : run steps s with
    | error err' =>
      rw [run_append_error hrun] at herr
      obtain rfl := Except.error.inj herr
      obtain ⟨questions, t, hexec⟩ := h.raises _ hrun
      exact ⟨questions, t, Dialog.exec_bind_error hexec⟩
    | ok t =>
      rw [run_append_ok hrun] at herr
      obtain ⟨questions, a, hexec, hpost, -⟩ := h.returns t hrun
      obtain ⟨questions', u, hexec'⟩ := (hf a t hrun hpost).raises err herr
      exact ⟨questions ++ questions', u, Dialog.exec_bind_ok hexec hexec'⟩
  returns u hu := by
    cases hrun : run steps s with
    | error err =>
      rw [run_append_error hrun] at hu
      cases hu
    | ok t =>
      rw [run_append_ok hrun] at hu
      obtain ⟨questions, a, hexec, hpost, hquiet⟩ := h.returns t hrun
      obtain ⟨questions', b, hexec', hpost', hquiet'⟩ := (hf a t hrun hpost).returns u hu
      rw [changes_append hrun]
      refine ⟨questions ++ questions', b, Dialog.exec_bind_ok hexec hexec', hpost', fun hnone => ?_⟩
      obtain ⟨hnone, hnone'⟩ := List.append_eq_nil_iff.mp hnone
      exact List.forall_mem_append.mpr ⟨hquiet hnone, hquiet' hnone'⟩
  cuts n := by
    have hcases : (d >>= f).cut serve n s = _ ∨ _ := Dialog.cut_bind n
    rcases hcases with hcut | ⟨questions, a, t, m, hexec, hcut⟩
    · obtain ⟨before, hbefore, hrun⟩ := h.cuts n
      exact ⟨before, hbefore.trans (List.prefix_append ..), by rwa [hcut]⟩
    · cases hrun : run steps s with
      | error err =>
        obtain ⟨_, _, hexec'⟩ := h.raises err hrun
        rw [hexec] at hexec'
        cases hexec'
      | ok u =>
        obtain ⟨_, b, hexec', hpost, -⟩ := h.returns u hrun
        rw [hexec] at hexec'
        cases hexec'
        obtain ⟨before, hbefore, hbeforeRun⟩ := (hf a t hrun hpost).cuts m
        refine ⟨steps ++ before, (List.prefix_append_right_inj steps).mpr hbefore, ?_⟩
        rw [run_append_ok hrun, hbeforeRun, hcut]

end Performs

/-! ### What a dialog that does stable steps is like -/

/-- The dialog ends without an exception. -/
def Completes (d : Dialog Q A ε α) (s t : σ) : Prop := ∃ questions a, d.exec serve s = (questions, .ok a, t)

variable {serve writes} {steps : List (Ensure σ ε)} {d : Dialog Q A ε α} {s t : σ}
  {post : α → List String → σ → Prop}

theorem Performs.completes (h : Performs serve writes steps d s post) : Completes serve d s t ↔ run steps s = .ok t := by
  constructor
  · rintro ⟨questions, a, hexec⟩
    cases hrun : run steps s with
    | error err =>
      obtain ⟨_, _, hexec'⟩ := h.raises err hrun
      rw [hexec] at hexec'
      cases hexec'
    | ok u =>
      obtain ⟨_, _, hexec', -⟩ := h.returns u hrun
      rw [hexec] at hexec'
      cases hexec'
      rfl
  · intro hrun
    obtain ⟨questions, a, hexec, -⟩ := h.returns t hrun
    exact ⟨questions, a, hexec⟩

section
variable (h : ∀ s, Performs serve writes steps d s post) (hstable : steps.Pairwise Stable)
include h hstable

/-- After a run that completes, another one writes and changes nothing. -/
theorem Performs.idempotent (hd : Completes serve d s t) :
    ∃ questions a, d.exec serve t = (questions, .ok a, t) ∧ post a [] t ∧ ∀ q ∈ questions, writes q = false := by
  have hsettled := run_settles hstable ((h s).completes.mp hd)
  obtain ⟨questions, a, hexec, hpost, hquiet⟩ := (h t).returns t (run_of_settled hsettled)
  rw [changes_of_settled hsettled] at hpost
  exact ⟨questions, a, hexec, hpost, hquiet (changes_of_settled hsettled)⟩

theorem Performs.completes_cut (n : Nat) : Completes serve d (d.cut serve n s) t ↔ Completes serve d s t := by
  obtain ⟨before, hbefore, hrun⟩ := (h s).cuts n
  rw [(h _).completes, (h s).completes, run_resume hstable hbefore hrun]

/-- A run after some that were cut off ends where the first would have ended. -/
theorem Performs.completes_cuts (lengths : List Nat) :
    Completes serve d (d.cuts serve s lengths) t ↔ Completes serve d s t := by
  induction lengths generalizing s with
  | nil => rfl
  | cons n rest ih => exact ih.trans (Performs.completes_cut h hstable n)

end

section
variable {R : σ → σ → Prop} (h : ∀ s, Performs serve writes steps d s post) (refl : ∀ s, R s s)
  (trans : ∀ s t u, R s t → R t u → R s u) (hwrite : ∀ e ∈ steps, ∀ s, e.check s = .ok true → R s (e.write s))
include h refl trans hwrite

theorem Performs.cut_preserves (s : σ) (n : Nat) : R s (d.cut serve n s) := by
  obtain ⟨before, hbefore, hrun⟩ := (h s).cuts n
  exact run_preserves refl trans (fun e he => hwrite e (hbefore.subset he)) hrun

theorem Performs.cuts_preserves (s : σ) (lengths : List Nat) : R s (d.cuts serve s lengths) := by
  induction lengths generalizing s with
  | nil => exact refl s
  | cons n rest ih => exact trans s _ _ (Performs.cut_preserves h refl trans hwrite s n) (ih _)

theorem Performs.completes_preserves (s t : σ) (hd : Completes serve d s t) : R s t := by
  obtain ⟨questions, a, hexec⟩ := hd
  rw [← Dialog.cut_exec hexec]
  exact Performs.cut_preserves h refl trans hwrite s _

end

end

end Library
