import Mathlib.Logic.Function.Basic

/-! Programs that ask questions.

A dialog ends with a result or an exception, or it asks and goes on with the answer,
whatever that is. A run is the list of the questions that were asked with their answers,
in order, and what the dialog ended with; `runs_bind` takes the runs of a sequence apart.
Against a server, which answers from its state, a dialog has one run (`exec`), and it may be
cut off after any of its questions (`cut`). -/
namespace Library

inductive Dialog (Q A ε α : Type) where
  | done (result : Except ε α)
  | ask (question : Q) (next : A → Dialog Q A ε α)

namespace Dialog
variable {Q A ε α β : Type}

protected def bind : Dialog Q A ε α → (α → Dialog Q A ε β) → Dialog Q A ε β
  | .done (.ok a), f => f a
  | .done (.error e), _ => .done (.error e)
  | .ask question next, f => .ask question fun a => (next a).bind f

instance : Monad (Dialog Q A ε) where
  pure a := .done (.ok a)
  bind := Dialog.bind

/-- Ask and return the answer. -/
def question (question : Q) : Dialog Q A ε A := .ask question fun a => .done (.ok a)

/-- A run: what was asked and answered, and the result. -/
inductive Runs : Dialog Q A ε α → List (Q × A) → Except ε α → Prop
  | done {result : Except ε α} : Runs (.done result) [] result
  | ask {question : Q} {next : A → Dialog Q A ε α} {answer : A} {exchanges : List (Q × A)}
      {result : Except ε α} (rest : Runs (next answer) exchanges result) :
      Runs (.ask question next) ((question, answer) :: exchanges) result

/-- The run on given answers, if they suffice. -/
def run : Dialog Q A ε α → List A → Option (List (Q × A) × Except ε α)
  | .done result, _ => some ([], result)
  | .ask _ _, [] => none
  | .ask question next, answer :: answers =>
    (run (next answer) answers).map fun (exchanges, result) => ((question, answer) :: exchanges, result)

theorem runs_of_run {d : Dialog Q A ε α} {answers : List A} {exchanges : List (Q × A)} {result : Except ε α}
    (h : d.run answers = some (exchanges, result)) : Runs d exchanges result := by
  induction d generalizing answers exchanges with
  | done r =>
    obtain ⟨rfl, rfl⟩ := Prod.mk.inj (Option.some.inj h)
    exact .done
  | ask question next ih =>
    cases answers with
    | nil => cases h
    | cons answer answers =>
      obtain ⟨⟨rest, r⟩, hrest, hsame⟩ := Option.map_eq_some_iff.mp h
      obtain ⟨rfl, rfl⟩ := Prod.mk.inj hsame
      exact .ask (ih answer hrest)

section
variable {exchanges : List (Q × A)} {result : Except ε α}

@[simp] theorem runs_done {r : Except ε α} :
    Runs (.done r : Dialog Q A ε α) exchanges result ↔ exchanges = [] ∧ result = r := by
  constructor
  · intro h
    cases h
    exact ⟨rfl, rfl⟩
  · rintro ⟨rfl, rfl⟩
    exact .done

@[simp] theorem runs_pure {a : α} :
    Runs (pure a : Dialog Q A ε α) exchanges result ↔ exchanges = [] ∧ result = .ok a := runs_done

theorem runs_ask {q : Q} {next : A → Dialog Q A ε α} :
    Runs (.ask q next) exchanges result ↔
      ∃ answer rest, exchanges = (q, answer) :: rest ∧ Runs (next answer) rest result := by
  constructor
  · intro h
    cases h with
    | ask rest => exact ⟨_, _, rfl, rest⟩
  · rintro ⟨answer, rest, rfl, h⟩
    exact .ask h

end

section
variable {f : α → Dialog Q A ε β}

@[simp] theorem ok_bind {a : α} : (Dialog.done (.ok a) : Dialog Q A ε α) >>= f = f a := rfl

@[simp] theorem error_bind {e : ε} : (Dialog.done (.error e) : Dialog Q A ε α) >>= f = .done (.error e) := rfl

@[simp] theorem question_bind {q : Q} {f : A → Dialog Q A ε β} : question q >>= f = .ask q f := rfl

/-- A sequence raises what its first part raises, or goes on with its value. -/
theorem runs_bind {d : Dialog Q A ε α} {exchanges : List (Q × A)} {result : Except ε β}
    (h : Runs (d >>= f) exchanges result) :
    (∃ e, Runs d exchanges (.error e) ∧ result = .error e) ∨
      ∃ before after a, exchanges = before ++ after ∧ Runs d before (.ok a) ∧ Runs (f a) after result := by
  induction d generalizing exchanges with
  | done r =>
    cases r with
    | error e =>
      obtain ⟨rfl, rfl⟩ := runs_done.mp h
      exact .inl ⟨e, .done, rfl⟩
    | ok a => exact .inr ⟨[], exchanges, a, rfl, .done, h⟩
  | ask q next ih =>
    obtain ⟨answer, rest, rfl, hrest⟩ := runs_ask.mp h
    rcases ih answer hrest with ⟨e, hnext, rfl⟩ | ⟨before, after, a, rfl, hnext, hafter⟩
    · exact .inl ⟨e, .ask hnext, rfl⟩
    · exact .inr ⟨(q, answer) :: before, after, a, rfl, .ask hnext, hafter⟩

end

/-! ### Against a server -/

section
variable {σ : Type} (serve : σ → Q → A × σ)

/-- The questions, the result, and the server afterwards. -/
def exec : Dialog Q A ε α → σ → List Q × Except ε α × σ
  | .done result, s => ([], result, s)
  | .ask question next, s =>
    let (questions, ended) := exec (next (serve s question).1) (serve s question).2
    (question :: questions, ended)

/-- The server where the dialog is cut off: it has received the first `n` questions. -/
def cut : Nat → Dialog Q A ε α → σ → σ
  | n + 1, .ask question next, s => cut n (next (serve s question).1) (serve s question).2
  | _, _, s => s

/-- The server after dialogs that were cut off. -/
def cuts (d : Dialog Q A ε α) (s : σ) (lengths : List Nat) : σ := lengths.foldl (fun s n => d.cut serve n s) s

variable {serve} {s t : σ} {d : Dialog Q A ε α} {f : α → Dialog Q A ε β} {questions : List Q}

theorem exec_ask {q : Q} {next : A → Dialog Q A ε α} {ended : Except ε α × σ} :
    (ask q next).exec serve s = (questions, ended) ↔
      ∃ rest, questions = q :: rest ∧ (next (serve s q).1).exec serve (serve s q).2 = (rest, ended) := by
  constructor
  · intro h
    obtain ⟨rfl, hended⟩ := Prod.mk.inj h
    exact ⟨_, rfl, Prod.ext rfl hended⟩
  · rintro ⟨rest, rfl, h⟩
    rw [exec, h]

theorem exec_bind_ok {a : α} {questions' : List Q} {ended : Except ε β × σ}
    (h : d.exec serve s = (questions, .ok a, t)) (hf : (f a).exec serve t = (questions', ended)) :
    (d >>= f).exec serve s = (questions ++ questions', ended) := by
  induction d generalizing s questions with
  | done result =>
    obtain ⟨rfl, hresult⟩ := Prod.mk.inj h
    obtain ⟨rfl, rfl⟩ := Prod.mk.inj hresult
    exact hf
  | ask q next ih =>
    obtain ⟨rest, rfl, hrest⟩ := exec_ask.mp h
    exact exec_ask.mpr ⟨_, rfl, ih _ hrest⟩

theorem exec_bind_error {e : ε} (h : d.exec serve s = (questions, .error e, t)) :
    (d >>= f).exec serve s = (questions, .error e, t) := by
  induction d generalizing s questions with
  | done result =>
    obtain ⟨rfl, hresult⟩ := Prod.mk.inj h
    obtain ⟨rfl, rfl⟩ := Prod.mk.inj hresult
    rfl
  | ask q next ih =>
    obtain ⟨rest, rfl, hrest⟩ := exec_ask.mp h
    exact exec_ask.mpr ⟨_, rfl, ih _ hrest⟩

/-- A sequence is cut off in its first part, or after it. -/
theorem cut_bind (n : Nat) : (d >>= f).cut serve n s = d.cut serve n s ∨
    ∃ questions a t m, d.exec serve s = (questions, .ok a, t) ∧
      (d >>= f).cut serve n s = (f a).cut serve m t := by
  induction d generalizing s n with
  | done result =>
    cases result with
    | error e => exact .inl (by cases n <;> rfl)
    | ok a => exact .inr ⟨[], a, s, n, rfl, rfl⟩
  | ask question next ih =>
    cases n with
    | zero => exact .inl rfl
    | succ n =>
      rcases ih (serve s question).1 (s := (serve s question).2) n with hcut | ⟨questions, a, t, m, hexec, hcut⟩
      · exact .inl hcut
      · exact .inr ⟨question :: questions, a, t, m, exec_ask.mpr ⟨_, rfl, hexec⟩, hcut⟩

/-- A whole run is one that was cut off after its last question. -/
theorem cut_exec {result : Except ε α} (h : d.exec serve s = (questions, result, t)) :
    d.cut serve questions.length s = t := by
  induction d generalizing s questions with
  | done r =>
    obtain ⟨rfl, hended⟩ := Prod.mk.inj h
    exact (Prod.mk.inj hended).2
  | ask q next ih =>
    obtain ⟨rest, rfl, hrest⟩ := exec_ask.mp h
    exact ih _ hrest

end

end Dialog

end Library
