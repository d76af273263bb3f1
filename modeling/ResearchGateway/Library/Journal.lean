import Mathlib.Data.List.Basic
import Mathlib.Data.List.Range
import Mathlib.Data.List.Nodup

/-! Numbered logs, cursors over them, and replay.

A writer numbers a new entry one past the largest number in the log
(`lastNumber`). As long as nothing was deleted the numbers are `1, 2, 3, …`
(`Numbered`), and such a log grows by the next number only. A reader that holds a
cursor asks for the entries past it (`past`); in an increasing log, asking again
from the last entry it was given resumes exactly where it stopped (`past_resume`).

`replay` runs a log through a partial effect on states: entries without an effect
leave the state alone. `since` is the part of a history after it last started over. -/
namespace Library.Journal
variable {ε σ : Type}

/-! ### Numbering -/

def lastNumber (ns : List Nat) : Nat := ns.max?.getD 0

theorem le_lastNumber {ns : List Nat} {n : Nat} (h : n ∈ ns) : n ≤ lastNumber ns := by
  unfold lastNumber
  cases hm : ns.max? with
  | none => rw [List.max?_eq_none_iff.mp hm] at h; cases h
  | some m => exact (List.max?_eq_some_iff.mp hm).2 n h

theorem lastNumber_mem {ns : List Nat} (h : ns ≠ []) : lastNumber ns ∈ ns := by
  unfold lastNumber
  cases hm : ns.max? with
  | none => exact absurd (List.max?_eq_none_iff.mp hm) h
  | some m => exact (List.max?_eq_some_iff.mp hm).1

/-- The number a writer takes is not in the log. -/
theorem lastNumber_fresh (ns : List Nat) : lastNumber ns + 1 ∉ ns := fun h =>
  Nat.not_succ_le_self _ (le_lastNumber h)

section
variable (number : ε → Nat)

/-- Numbered from one without a gap. -/
def Numbered (log : List ε) : Prop := log.map number = List.range' 1 log.length

/-- The numbers only grow along the log. -/
def Increasing (log : List ε) : Prop := (log.map number).Pairwise (· < ·)

/-- What a reader with the cursor `c` still has to see. -/
def past (c : Nat) (log : List ε) : List ε := log.filter fun e => c < number e

variable {number}

theorem numbered_nil : Numbered number [] := rfl

theorem Numbered.increasing {log : List ε} (h : Numbered number log) : Increasing number log := by
  unfold Increasing
  rw [h]
  exact List.pairwise_lt_range'

theorem Increasing.sublist {log log' : List ε} (h : Increasing number log) (hs : log'.Sublist log) :
    Increasing number log' := List.Pairwise.sublist (hs.map number) h

theorem Numbered.lastNumber {log : List ε} (h : Numbered number log) :
    lastNumber (log.map number) = log.length := by
  cases log with
  | nil => rfl
  | cons e rest =>
    have hmem := lastNumber_mem (show (e :: rest).map number ≠ [] by simp)
    have hlen : (e :: rest).length ∈ (e :: rest).map number := by
      rw [h, List.mem_range'_1, List.length_cons]
      omega
    have hle := le_lastNumber hlen
    rw [h, List.mem_range'_1] at hmem
    rw [h] at hle ⊢
    omega

/-- Numbering the next entry one past the largest keeps a log without gaps. -/
theorem Numbered.append {log : List ε} (h : Numbered number log) {e : ε}
    (he : number e = Journal.lastNumber (log.map number) + 1) : Numbered number (log ++ [e]) := by
  unfold Numbered at h ⊢
  rw [List.map_append, List.map_singleton, he, Numbered.lastNumber h, h, List.length_append,
    List.length_singleton, List.range'_1_concat, Nat.add_comm 1]

theorem past_append (c : Nat) (a b : List ε) :
    past number c (a ++ b) = past number c a ++ past number c b := List.filter_append ..

theorem past_sublist (c : Nat) (log : List ε) : (past number c log).Sublist log :=
  List.filter_sublist

/-- The entries of a log whose number another log does not use. -/
def unseen (number : ε → Nat) (log' log : List ε) : List ε :=
  log'.filter fun e => number e ∉ log.map number

theorem unseen_sublist {log log' : List ε} (h : log'.Sublist log) : unseen number log' log = [] := by
  refine List.filter_eq_nil_iff.mpr fun e he => ?_
  simpa using ⟨e, h.subset he, rfl⟩

/-- What was appended is what was not there before. -/
theorem unseen_append {log more : List ε} (h : Increasing number (log ++ more)) :
    unseen number (log ++ more) log = more := by
  unfold Increasing at h
  rw [List.map_append, List.pairwise_append] at h
  unfold unseen
  rw [List.filter_append]
  have hold : log.filter (fun e => number e ∉ log.map number) = [] :=
    unseen_sublist (List.Sublist.refl log)
  have hnew : more.filter (fun e => number e ∉ log.map number) = more := by
    refine List.filter_eq_self.mpr fun e he => ?_
    simp only [decide_eq_true_eq]
    intro hmem
    exact Nat.lt_irrefl _ (h.2.2 _ hmem _ (List.mem_map.mpr ⟨e, he, rfl⟩))
  rw [hold, hnew, List.nil_append]

/-- Where a reader stands after the entries `seen`, having started at `c`. -/
def cursor (number : ε → Nat) (c : Nat) (seen : List ε) : Nat := (seen.getLast?.map number).getD c

theorem cursor_snoc (c : Nat) (seen : List ε) (e : ε) : cursor number c (seen ++ [e]) = number e := by
  simp [cursor]

/-- Reading on from the last entry seen yields the entries not yet seen. -/
theorem past_resume {c : Nat} {log seen rest : List ε} (hinc : Increasing number log)
    (h : past number c log = seen ++ rest) : past number (cursor number c seen) log = rest := by
  rcases List.eq_nil_or_concat seen with rfl | ⟨front, e, rfl⟩
  · simpa [cursor] using h
  · rw [List.concat_eq_append] at h ⊢
    rw [cursor_snoc]
    have hce : c < number e := by
      have : e ∈ past number c log := by rw [h]; simp
      simpa using (List.mem_filter.mp this).2
    have hsub : past number (number e) log = past number (number e) (past number c log) := by
      unfold past
      rw [List.filter_filter]
      refine List.filter_congr fun x _ => ?_
      by_cases hx : number e < number x
      · simp [hx, Nat.lt_trans hce hx]
      · simp [hx]
    have hord : Increasing number (front ++ [e] ++ rest) := by
      rw [← h]
      exact hinc.sublist (past_sublist c log)
    unfold Increasing at hord
    simp only [List.map_append, List.map_cons, List.map_nil, List.pairwise_append, List.mem_append,
      List.mem_map, List.mem_singleton] at hord
    obtain ⟨⟨-, -, hfront⟩, -, hrest⟩ := hord
    rw [hsub, h, past_append, past_append]
    have hnone : past number (number e) front = [] ∧ past number (number e) [e] = [] := by
      refine ⟨List.filter_eq_nil_iff.mpr fun x hx => ?_, by simp [past]⟩
      have := hfront (number x) ⟨x, hx, rfl⟩ (number e) rfl
      simpa using Nat.le_of_lt this
    have hall : past number (number e) rest = rest := List.filter_eq_self.mpr fun x hx => by
      simpa using hrest (number e) (Or.inr rfl) (number x) ⟨x, hx, rfl⟩
    rw [hnone.1, hnone.2, hall]
    rfl

end

/-! ### Replay -/

/-- The state after a log whose entries each set a state or say nothing. -/
def replay (effect : ε → Option σ) : Option σ → List ε → Option σ
  | s, [] => s
  | s, e :: rest => replay effect ((effect e).or s) rest

theorem replay_append (effect : ε → Option σ) (s : Option σ) (a b : List ε) :
    replay effect s (a ++ b) = replay effect (replay effect s a) b := by
  induction a generalizing s with
  | nil => rfl
  | cons e rest ih => exact ih _

theorem replay_silent {effect : ε → Option σ} {log : List ε} (h : ∀ e ∈ log, effect e = none)
    (s : Option σ) : replay effect s log = s := by
  induction log with
  | nil => rfl
  | cons e rest ih =>
    rw [replay, h e (List.mem_cons_self ..), Option.none_or]
    exact ih fun x hx => h x (List.mem_cons_of_mem e hx)

/-- Only the entries with an effect matter. -/
theorem replay_filter (effect : ε → Option σ) (s : Option σ) (log : List ε) :
    replay effect s (log.filter fun e => (effect e).isSome) = replay effect s log := by
  induction log generalizing s with
  | nil => rfl
  | cons e rest ih =>
    cases he : effect e with
    | none => simp [he, replay, ih]
    | some x => simp [he, replay, ih]

/-! ### Histories that start over -/

/-- What was recorded since the last time the history started over (`none`). -/
def since (history : List (Option ε)) : List ε :=
  history.foldl (fun kept entry => entry.elim [] fun e => kept ++ [e]) []

theorem since_append_none (history : List (Option ε)) : since (history ++ [none]) = [] := by
  simp only [since, List.foldl_append, List.foldl_cons, List.foldl_nil, Option.elim_none]

theorem since_append_some (history : List (Option ε)) (es : List ε) :
    since (history ++ es.map some) = since history ++ es := by
  induction es generalizing history with
  | nil => simp only [List.map_nil, List.append_nil]
  | cons e rest ih =>
    have hone : since (history ++ [some e]) = since history ++ [e] := by
      simp only [since, List.foldl_append, List.foldl_cons, List.foldl_nil, Option.elim_some]
    rw [List.map_cons, List.append_cons, ih, hone, List.append_assoc, List.singleton_append]

end Library.Journal
