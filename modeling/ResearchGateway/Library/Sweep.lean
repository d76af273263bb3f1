import Mathlib.Data.List.Nodup
import Mathlib.Data.List.TakeWhile

/-! Repeated passes over the front of a queue.

A pass looks at the first `n` elements, leaves the stuck ones where they are and takes the
others away. Stuck elements never move, so they fill the front when there are `n` of them
before an element that is not: the passes come to every such element exactly if the queue
is `Clear` (`passes_stuck_iff`). -/
namespace Library.Sweep
variable {α : Type} (stuck : α → Bool) (n : Nat)

def pass (queue : List α) : List α := (queue.take n).filter stuck ++ queue.drop n

def passes : Nat → List α → List α
  | 0, queue => queue
  | k + 1, queue => passes k (pass stuck n queue)

/-- Before every element that is not stuck there are fewer than `n` that are. -/
def Clear (queue : List α) : Prop :=
  ∀ front a rest, queue = front ++ a :: rest → stuck a = false → front.countP stuck < n

/-- The elements that a pass may take away. -/
def loose (queue : List α) : Nat := queue.countP fun a => !stuck a

section
variable {stuck : α → Bool} {n : Nat} {queue : List α}

theorem countP_filter_self (l : List α) : (l.filter stuck).countP stuck = l.countP stuck := by
  rw [List.countP_filter]
  simp

/-- A pass removes, by their keys, the elements at the front that are not stuck. -/
theorem filter_eq_pass {κ : Type} [DecidableEq κ] {key : α → κ} (hkeys : (queue.map key).Nodup) :
    (queue.filter fun a => !(queue.take n).any fun b => key b = key a && !stuck b) =
      pass stuck n queue := by
  have hsplit : queue.take n ++ queue.drop n = queue := List.take_append_drop n queue
  have hfront : ∀ a ∈ queue.take n,
      (!(queue.take n).any fun b => key b = key a && !stuck b) = stuck a := by
    intro a ha
    have hinj {b : α} (hb : b ∈ queue.take n) (hkey : key b = key a) : b = a :=
      List.inj_on_of_nodup_map hkeys (List.mem_of_mem_take hb) (List.mem_of_mem_take ha) hkey
    cases hstuck : stuck a with
    | false =>
      rw [Bool.not_eq_false', List.any_eq_true]
      exact ⟨a, ha, by simp [hstuck]⟩
    | true =>
      rw [Bool.not_eq_true', List.any_eq_false]
      intro b hb hmatch
      simp only [Bool.and_eq_true, decide_eq_true_eq, Bool.not_eq_true'] at hmatch
      rw [hinj hb hmatch.1, hstuck] at hmatch
      cases hmatch.2
  have hrest : ∀ a ∈ queue.drop n,
      (!(queue.take n).any fun b => key b = key a && !stuck b) = true := by
    intro a ha
    rw [← hsplit, List.map_append, List.nodup_append] at hkeys
    rw [Bool.not_eq_true', List.any_eq_false]
    intro b hb hmatch
    simp only [Bool.and_eq_true, decide_eq_true_eq] at hmatch
    exact hkeys.2.2 (key b) (List.mem_map_of_mem hb) (key a) (List.mem_map_of_mem ha) hmatch.1
  calc (queue.filter fun a => !(queue.take n).any fun b => key b = key a && !stuck b)
    _ = (queue.take n ++ queue.drop n).filter fun a =>
          !(queue.take n).any fun b => key b = key a && !stuck b := by rw [hsplit]
    _ = pass stuck n queue := by
      rw [List.filter_append, List.filter_congr hfront, List.filter_eq_self.mpr hrest, pass]

/-- A queue that is blocked stays blocked. -/
theorem clear_of_pass (h : Clear stuck n (pass stuck n queue)) : Clear stuck n queue := by
  intro front a rest hqueue ha
  apply Nat.lt_of_not_le
  intro hfull
  have hlength : n ≤ front.length := Nat.le_trans hfull List.countP_le_length
  have hpass : pass stuck n queue = (front.take n).filter stuck ++ front.drop n ++ a :: rest := by
    rw [pass, hqueue, List.take_append_of_le_length hlength, List.drop_append_of_le_length hlength,
      List.append_assoc]
  have hcount : ((front.take n).filter stuck ++ front.drop n).countP stuck = front.countP stuck := by
    rw [List.countP_append, countP_filter_self, ← List.countP_append, List.take_append_drop]
  have hless := h _ a rest hpass ha
  omega

theorem Clear.pass (h : Clear stuck n queue) : Clear stuck n (pass stuck n queue) := by
  intro front a rest hqueue ha
  rcases List.append_eq_append_iff.mp hqueue with ⟨between, hfront, hdrop⟩ | ⟨between, hkept, -⟩
  · have hsplit : queue = (queue.take n ++ between) ++ a :: rest := by
      rw [List.append_assoc, ← hdrop, List.take_append_drop]
    have hless := h _ a rest hsplit ha
    rw [hfront, List.countP_append, countP_filter_self, ← List.countP_append]
    exact hless
  · cases between with
    | nil =>
      rw [List.append_nil] at hkept
      have hdrop : queue.drop n = a :: rest := by
        rw [Sweep.pass, hkept] at hqueue
        exact List.append_cancel_left hqueue
      have hsplit : queue = queue.take n ++ a :: rest := by
        rw [← hdrop, List.take_append_drop]
      have hless := h _ a rest hsplit ha
      rw [← hkept, countP_filter_self]
      exact hless
    | cons b between =>
      -- The element would be one of those that the pass left for being stuck.
      rw [Sweep.pass, hkept, List.append_assoc] at hqueue
      obtain rfl := (List.cons.inj (List.append_cancel_left hqueue)).1
      have hmem : b ∈ (queue.take n).filter stuck := by
        rw [hkept]
        exact List.mem_append_right _ (List.mem_cons_self ..)
      rw [(List.mem_filter.mp hmem).2] at ha
      cases ha

/-- A pass over a clear queue takes something away, unless there is nothing to take. -/
theorem Clear.progress (h : Clear stuck n queue) (hloose : loose stuck queue ≠ 0) :
    loose stuck (Sweep.pass stuck n queue) < loose stuck queue := by
  have hsplit := List.takeWhile_append_dropWhile (p := stuck) (l := queue)
  cases hrest : queue.dropWhile stuck with
  | nil =>
    rw [hrest, List.append_nil] at hsplit
    refine absurd (List.countP_eq_zero.mpr fun a ha => ?_) hloose
    rw [← hsplit] at ha
    simp [List.mem_takeWhile_imp ha]
  | cons a rest =>
    have ha : stuck a = false := by
      have hhead := List.head?_dropWhile_not stuck queue
      rw [hrest] at hhead
      simpa using hhead
    have hfront : ∀ b ∈ queue.takeWhile stuck, stuck b = true := fun b hb => List.mem_takeWhile_imp hb
    rw [hrest] at hsplit
    have hless := h _ a rest hsplit.symm ha
    rw [List.countP_eq_length.mpr hfront] at hless
    have hmem : a ∈ queue.take n := by
      rw [← hsplit, List.take_append]
      apply List.mem_append_right
      obtain ⟨k, hk⟩ := Nat.exists_eq_add_of_lt hless
      rw [hk, Nat.add_assoc, Nat.add_sub_cancel_left]
      exact List.mem_cons_self ..
    have hkept : loose stuck ((queue.take n).filter stuck) = 0 :=
      List.countP_eq_zero.mpr fun b hb => by simp [(List.mem_filter.mp hb).2]
    have htaken : 0 < loose stuck (queue.take n) := List.countP_pos_iff.mpr ⟨a, hmem, by simp [ha]⟩
    have hpass : loose stuck (Sweep.pass stuck n queue) = loose stuck (queue.drop n) := by
      rw [Sweep.pass, loose, List.countP_append]
      exact Nat.add_eq_right.mpr hkept
    have hqueue : loose stuck queue = loose stuck (queue.take n) + loose stuck (queue.drop n) := by
      rw [loose, loose, loose, ← List.countP_append, List.take_append_drop]
    omega

theorem passes_of_clear (h : Clear stuck n queue) {k : Nat} (hk : loose stuck queue ≤ k) :
    ∀ a ∈ passes stuck n k queue, stuck a = true := by
  induction k generalizing queue with
  | zero =>
    intro a ha
    simpa using List.countP_eq_zero.mp (Nat.le_zero.mp hk) a ha
  | succ k ih =>
    apply ih h.pass
    by_cases hloose : loose stuck queue = 0
    · have hnone : loose stuck (pass stuck n queue) ≤ loose stuck queue := by
        refine List.Sublist.countP_le ?_
        calc (queue.take n).filter stuck ++ queue.drop n
          _ |>.Sublist (queue.take n ++ queue.drop n) := List.filter_sublist.append_right _
          _ = queue := List.take_append_drop n queue
      omega
    · have hless := h.progress hloose
      omega

theorem clear_of_passes {k : Nat} (h : Clear stuck n (passes stuck n k queue)) : Clear stuck n queue := by
  induction k generalizing queue with
  | zero => exact h
  | succ k ih => exact clear_of_pass (ih h)

/-- As many passes as there are elements take away all that is not stuck, exactly if the
queue is clear. -/
theorem passes_stuck_iff {k : Nat} (hk : queue.length ≤ k) :
    (∀ a ∈ passes stuck n k queue, stuck a = true) ↔ Clear stuck n queue := by
  constructor
  · intro h
    apply clear_of_passes (k := k)
    intro front a rest hqueue ha
    have hstuck := h a (hqueue ▸ List.mem_append_right _ (List.mem_cons_self ..))
    rw [ha] at hstuck
    cases hstuck
  · intro h
    exact passes_of_clear h (Nat.le_trans List.countP_le_length hk)

/-- Clear, said with the keys that the queue is ordered by. -/
theorem clear_iff {key : α → Nat} (hkeys : (queue.map key).Pairwise (· < ·)) :
    Clear stuck n queue ↔
      ∀ a ∈ queue, stuck a = false → queue.countP (fun b => key b < key a && stuck b) < n := by
  have hcount {front : List α} {a : α} {rest : List α} (hqueue : queue = front ++ a :: rest) :
      queue.countP (fun b => key b < key a && stuck b) = front.countP stuck := by
    rw [hqueue, List.map_append, List.map_cons, List.pairwise_append, List.pairwise_cons] at hkeys
    obtain ⟨-, ⟨hrest, -⟩, hfront⟩ := hkeys
    have hnone : (a :: rest).countP (fun b => key b < key a && stuck b) = 0 := by
      rw [List.countP_eq_zero]
      intro b hb
      rcases List.mem_cons.mp hb with rfl | hb
      · simp
      · have hlater := hrest (key b) (List.mem_map_of_mem hb)
        simp [Nat.not_lt.mpr (Nat.le_of_lt hlater)]
    rw [hqueue, List.countP_append, hnone, Nat.add_zero]
    refine List.countP_congr fun b hb => ?_
    have hearlier := hfront (key b) (List.mem_map_of_mem hb) (key a) (List.mem_cons_self ..)
    simp [hearlier]
  constructor
  · intro h a ha hstuck
    obtain ⟨front, rest, hqueue⟩ := List.append_of_mem ha
    rw [hcount hqueue]
    exact h front a rest hqueue hstuck
  · intro h front a rest hqueue hstuck
    rw [← hcount hqueue]
    exact h a (hqueue ▸ List.mem_append_right _ (List.mem_cons_self ..)) hstuck

end

end Library.Sweep
