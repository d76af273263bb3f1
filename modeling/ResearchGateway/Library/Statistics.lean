import Mathlib.Algebra.BigOperators.Group.List.Basic
import Mathlib.Algebra.GroupWithZero.Nat
import Mathlib.Data.List.Sort
import Mathlib.Order.Defs.LinearOrder

/-! Counts by label, and order statistics. -/
namespace Library

/-! ### Counts by label -/

/-- If every element has one of the labels, the counts of the labels make up the whole. -/
theorem sum_countP_labels {α κ : Type} [DecidableEq κ] (label : α → κ) {labels : List κ}
    (hlabels : labels.Nodup) {l : List α} (h : ∀ a ∈ l, label a ∈ labels) :
    (labels.map fun k => l.countP fun a => label a = k).sum = l.length := by
  induction l with
  | nil =>
    apply List.sum_eq_zero
    intro n hn
    obtain ⟨k, -, rfl⟩ := List.mem_map.mp hn
    rfl
  | cons a rest ih =>
    have hone : (labels.map fun k => if label a = k then 1 else 0).sum = 1 := by
      have hmem := h a (List.mem_cons_self ..)
      clear ih h
      induction labels with
      | nil => cases hmem
      | cons k labels ih =>
        obtain ⟨hk, hrest⟩ := List.nodup_cons.mp hlabels
        rw [List.map_cons, List.sum_cons]
        by_cases hlabel : label a = k
        · have hnone : (labels.map fun k => if label a = k then 1 else 0).sum = 0 := by
            apply List.sum_eq_zero
            intro n hn
            obtain ⟨k', hk', rfl⟩ := List.mem_map.mp hn
            rw [if_neg]
            rintro rfl
            exact hk (hlabel ▸ hk')
          rw [if_pos hlabel, hnone]
        · rw [if_neg hlabel, ih hrest ((List.mem_cons.mp hmem).resolve_left hlabel)]
    have hsplit : (labels.map fun k => (a :: rest).countP fun a => label a = k).sum =
        (labels.map fun k => rest.countP fun a => label a = k).sum +
          (labels.map fun k => if label a = k then 1 else 0).sum := by
      rw [← List.sum_map_add]
      refine congrArg List.sum (List.map_congr_left fun k _ => ?_)
      rw [List.countP_cons]
      simp
    rw [hsplit, hone, ih fun b hb => h b (List.mem_cons_of_mem _ hb), List.length_cons]

/-! ### Order statistics -/

section
variable {α : Type} [LinearOrder α]

/-- The `r`-th smallest value, counted from one. -/
def nthSmallest (values : List α) (r : Nat) : Option α := (values.insertionSort (· ≤ ·))[r - 1]?

theorem countP_le_getElem {l : List α} (h : l.Pairwise (· ≤ ·)) {k : Nat} (hk : k < l.length) :
    k + 1 ≤ l.countP fun a => a ≤ l[k] := by
  induction l generalizing k with
  | nil => cases hk
  | cons a rest ih =>
    obtain ⟨hfirst, hrest⟩ := List.pairwise_cons.mp h
    cases k with
    | zero => simp
    | succ k =>
      have hk' : k < rest.length := Nat.lt_of_succ_lt_succ hk
      have hcount := ih hrest hk'
      rw [List.getElem_cons_succ, List.countP_cons, if_pos (decide_eq_true (hfirst _ (List.getElem_mem hk')))]
      omega

theorem countP_lt_getElem {l : List α} (h : l.Pairwise (· ≤ ·)) {k : Nat} (hk : k < l.length) :
    l.countP (fun a => a < l[k]) ≤ k := by
  induction l generalizing k with
  | nil => cases hk
  | cons a rest ih =>
    obtain ⟨hfirst, hrest⟩ := List.pairwise_cons.mp h
    cases k with
    | zero =>
      have hnone : rest.countP (fun b => b < a) = 0 := by
        rw [List.countP_eq_zero]
        intro b hb
        simpa using hfirst b hb
      simp [hnone]
    | succ k =>
      have hcount := ih hrest (Nat.lt_of_succ_lt_succ hk)
      rw [List.getElem_cons_succ, List.countP_cons]
      split <;> omega

/-- At least `r` values are no larger than the `r`-th smallest, and fewer are smaller. -/
theorem nthSmallest_spec {values : List α} {r : Nat} (hpos : 1 ≤ r) (hle : r ≤ values.length) :
    ∃ v, nthSmallest values r = some v ∧ v ∈ values ∧ r ≤ (values.countP fun a => a ≤ v) ∧
      (values.countP fun a => a < v) < r := by
  have hperm := List.perm_insertionSort (· ≤ ·) values
  have hsorted : (values.insertionSort (· ≤ ·)).Pairwise (· ≤ ·) := List.pairwise_insertionSort ..
  have hk : r - 1 < (values.insertionSort (· ≤ ·)).length := by
    rw [hperm.length_eq]
    omega
  have hlow := countP_le_getElem hsorted hk
  have hhigh := countP_lt_getElem hsorted hk
  rw [hperm.countP_eq] at hlow hhigh
  exact ⟨_, List.getElem?_eq_getElem hk, hperm.mem_iff.mp (List.getElem_mem hk), by omega, by omega⟩

end

/-- A fraction above zero, up to one. -/
structure Quantile where
  num : Nat
  den : Nat
  num_pos : 0 < num
  num_le : num ≤ den

/-- `ceil(n * q)`. -/
def Quantile.rank (q : Quantile) (n : Nat) : Nat := (n * q.num + (q.den - 1)) / q.den

theorem Quantile.rank_pos (q : Quantile) {n : Nat} (h : 0 < n) : 1 ≤ q.rank n := by
  have hden : 0 < q.den := Nat.lt_of_lt_of_le q.num_pos q.num_le
  have hmul : 1 ≤ n * q.num := Nat.mul_pos h q.num_pos
  rw [rank, Nat.le_div_iff_mul_le hden]
  omega

theorem Quantile.rank_le (q : Quantile) (n : Nat) : q.rank n ≤ n := by
  have hden : 0 < q.den := Nat.lt_of_lt_of_le q.num_pos q.num_le
  have hmul : n * q.num ≤ n * q.den := Nat.mul_le_mul_left n q.num_le
  apply Nat.le_of_lt_succ
  rw [rank, Nat.div_lt_iff_lt_mul hden, Nat.succ_mul]
  omega

end Library
