import Mathlib.Data.Finset.Card
import Mathlib.Data.List.Sort
import ResearchGateway.Library.Machine

/-! A backlog that is worked off in batches.

A worker lists what is due, so many at most and the oldest first, and goes through what it
listed while everybody else goes on. What was due once and is no more does not come back; but a
pass may be broken off at any moment. Each pass that comes to its end has taken a full batch
away, or all that was left (`WorksOff.bound`). -/
namespace Library.Backlog

/-! ### Listing the oldest -/

section
variable {ρ κ τ : Type}

/-- Where a list begins with those that are selected, so does its front. -/
theorem filter_take {p : ρ → Bool} {l : List ρ} (h : l.Pairwise fun a b => p b = true → p a = true) (n : Nat) :
    (l.take n).filter p = (l.filter p).take n := by
  induction l generalizing n with
  | nil => simp
  | cons a l ih =>
    obtain ⟨hfirst, hrest⟩ := List.pairwise_cons.mp h
    cases n with
    | zero => rfl
    | succ n =>
      rw [List.take_succ_cons]
      cases ha : p a with
      | true => rw [List.filter_cons_of_pos ha, List.filter_cons_of_pos ha, List.take_succ_cons, ih hrest]
      | false =>
        have hnone : l.filter p = [] := List.filter_eq_nil_iff.mpr fun b hb hpb => by
          have hpa := hfirst b hb hpb
          rw [ha] at hpa
          cases hpa
        have hfalse : ¬ p a = true := by simp [ha]
        rw [List.filter_cons_of_neg hfalse, List.filter_cons_of_neg hfalse, ih hrest, hnone]
        simp

variable [DecidableEq κ] [LinearOrder τ]

def keysOf (rows : List ρ) (key : ρ → κ) (p : ρ → Bool) : Finset κ := ((rows.filter p).map key).toFinset

theorem mem_keysOf {rows : List ρ} {key : ρ → κ} {p : ρ → Bool} {k : κ} :
    k ∈ keysOf rows key p ↔ ∃ row ∈ rows, p row = true ∧ key row = k := by
  simp [keysOf, and_assoc]

/-- The oldest of those that are selected now, by the time they have waited since. -/
def oldest (rows : List ρ) (since : ρ → τ) (q : ρ → Bool) (n : Nat) : List ρ :=
  ((rows.filter q).insertionSort fun a b => since a ≤ since b).take n

/-- A listing of the oldest has a full batch of those that have waited for long, or all of them. -/
theorem oldest_keys {rows : List ρ} {key : ρ → κ} {since : ρ → τ} {p q : ρ → Bool} {cutoff : τ} (hkeys : (rows.map key).Nodup)
    (hlong : ∀ row, p row = true ↔ q row = true ∧ since row ≤ cutoff) (n : Nat) :
    min n (keysOf rows key p).card ≤ (keysOf rows key p ∩ ((oldest rows since q n).map key).toFinset).card := by
  have hsorted : ((rows.filter q).insertionSort fun a b => since a ≤ since b).Pairwise
      fun a b => decide (since b ≤ cutoff) = true → decide (since a ≤ cutoff) = true :=
    (List.pairwise_insertionSort (fun a b => since a ≤ since b) (rows.filter q)).imp fun hle h =>
      decide_eq_true (le_trans hle (of_decide_eq_true h))
  have hsame : (rows.filter q).filter (fun row => decide (since row ≤ cutoff)) = rows.filter p := by
    rw [List.filter_filter]
    refine List.filter_congr fun row _ => ?_
    rw [Bool.eq_iff_iff, hlong row]
    simp [and_comm]
  have hperm : (((rows.filter q).insertionSort fun a b => since a ≤ since b).filter fun row =>
      decide (since row ≤ cutoff)).Perm (rows.filter p) := by
    rw [← hsame]
    exact (List.perm_insertionSort ..).filter _
  have hnodup : ((rows.filter p).map key).Nodup := hkeys.sublist (List.filter_sublist.map _)
  let found := (oldest rows since q n).filter fun row => decide (since row ≤ cutoff)
  have hfound : found = (((rows.filter q).insertionSort fun a b => since a ≤ since b).filter fun row =>
      decide (since row ≤ cutoff)).take n := filter_take hsorted n
  have hdistinct : (found.map key).Nodup := by
    rw [hfound]
    exact ((hperm.map key).nodup_iff.mpr hnodup).sublist ((List.take_sublist ..).map _)
  have hsub : (found.map key).toFinset ⊆ keysOf rows key p ∩ ((oldest rows since q n).map key).toFinset := by
    intro k hk
    obtain ⟨row, hrow, rfl⟩ := List.mem_map.mp (List.mem_toFinset.mp hk)
    have hlisted : row ∈ oldest rows since q n := (List.mem_filter.mp hrow).1
    have hdue : row ∈ rows.filter p := hperm.subset (List.mem_of_mem_take (hfound ▸ hrow))
    exact Finset.mem_inter.mpr ⟨List.mem_toFinset.mpr (List.mem_map_of_mem hdue),
      List.mem_toFinset.mpr (List.mem_map_of_mem hlisted)⟩
  calc min n (keysOf rows key p).card
    _ = (found.map key).toFinset.card := by
      rw [List.toFinset_card_of_nodup hdistinct, keysOf, List.toFinset_card_of_nodup hnodup, List.length_map, List.length_map,
        hfound, List.length_take, hperm.length_eq]
    _ ≤ _ := Finset.card_le_card hsub

end

/-! ### Passes -/

/-- How a worker of a machine works off what is due: `todo` is what it still has of what it listed,
if it is in a pass. -/
structure WorksOff {σ ι ο κ : Type} [DecidableEq κ] (M : Machine σ ι ο) (A : ι → Prop) (I : σ → Prop) (due : σ → Finset κ)
    (todo : σ → Option (List κ)) (ends : ι → σ → Bool) (batch : Nat) : Prop where
  keeps {i : ι} {s : σ} : A i → I s → I (M.next i s)
  shrinks {i : ι} {s : σ} : A i → I s → due (M.next i s) ⊆ due s
  lists {i : ι} {s : σ} {listed : List κ} : A i → I s → todo s = none → todo (M.next i s) = some listed →
    min batch (due (M.next i s)).card ≤ (due (M.next i s) ∩ listed.toFinset).card
  works {i : ι} {s : σ} {before after : List κ} : A i → I s → todo s = some before → todo (M.next i s) = some after →
    ∀ k ∈ before, k ∈ after ∨ k ∉ due (M.next i s)
  finishes {i : ι} {s : σ} : ends i s = true → todo s = some [] ∧ todo (M.next i s) = none

section
variable {σ ι ο κ : Type} [DecidableEq κ] {M : Machine σ ι ο} {A : ι → Prop} {I : σ → Prop} {due : σ → Finset κ}
  {todo : σ → Option (List κ)} {ends : ι → σ → Bool} {batch : Nat}

/-- How often something happens along a run. -/
def occurrences (M : Machine σ ι ο) (happens : ι → σ → Bool) (s : σ) (inputs : List ι) : Nat :=
  ((M.observing fun i s => if happens i s then [()] else []).trace s inputs).length

theorem occurrences_snoc (happens : ι → σ → Bool) (s : σ) (inputs : List ι) (i : ι) :
    occurrences M happens s (inputs ++ [i]) =
      occurrences M happens s inputs + if happens i (M.run s inputs) then 1 else 0 := by
  rw [occurrences, occurrences, Machine.trace_observing_snoc, List.length_append]
  split <;> rfl

/-- In a pass that began when so many were due: what was listed is still to be done, or no more due. -/
def InPass (due : σ → Finset κ) (batch bound : Nat) (left : List κ) (s : σ) : Prop :=
  ∃ start listed : Finset κ, due s ⊆ start ∧ listed ⊆ start ∧ start.card ≤ bound ∧ min batch start.card ≤ listed.card ∧
    ∀ k ∈ listed, k ∈ left ∨ k ∉ due s

/-- A pass at its end has taken a batch away. -/
theorem InPass.done {bound : Nat} {s : σ} (h : InPass due batch bound [] s) : (due s).card ≤ bound - batch := by
  obtain ⟨start, listed, hdue, hlisted, hbound, hmany, hdone⟩ := h
  have hrest : due s ⊆ start \ listed := fun k hk =>
    Finset.mem_sdiff.mpr ⟨hdue hk, fun hin => (hdone k hin).elim (fun hnil => absurd hnil List.not_mem_nil) fun hnot => hnot hk⟩
  have hcard := Finset.card_le_card hrest
  rw [Finset.card_sdiff_of_subset hlisted] at hcard
  omega

/-- What a worker has achieved after so many passes. -/
structure Achieved (due : σ → Finset κ) (todo : σ → Option (List κ)) (batch bound : Nat) (s : σ) : Prop where
  less : (due s).card ≤ bound
  inPass {left : List κ} : todo s = some left → InPass due batch bound left s

theorem Achieved.step (h : WorksOff M A I due todo ends batch) {i : ι} {s : σ} {bound count : Nat} (hi : A i) (hs : I s)
    (hachieved : Achieved due todo batch (bound - batch * count) s) :
    Achieved due todo batch (bound - batch * (count + if ends i s then 1 else 0)) (M.next i s) := by
  have hsub := h.shrinks hi hs
  have hless := (Finset.card_le_card hsub).trans hachieved.less
  cases hends : ends i s with
  | true =>
    obtain ⟨hleft, hnone⟩ := h.finishes hends
    have hdone := (hachieved.inPass hleft).done
    refine ⟨?_, fun hsome => ?_⟩
    · rw [if_pos rfl, Nat.mul_succ]
      have hcard := Finset.card_le_card hsub
      omega
    · rw [hnone] at hsome
      cases hsome
  | false =>
    rw [if_neg Bool.false_ne_true, Nat.add_zero]
    refine ⟨hless, fun {left} hsome => ?_⟩
    cases hbefore : todo s with
    | none =>
      refine ⟨due (M.next i s), due (M.next i s) ∩ left.toFinset, subset_rfl, Finset.inter_subset_left, hless,
        h.lists hi hs hbefore hsome, fun k hk => .inl ?_⟩
      exact List.mem_toFinset.mp (Finset.mem_of_mem_inter_right hk)
    | some before =>
      obtain ⟨start, listed, hdue, hlisted, hstart, hmany, hdone⟩ := hachieved.inPass hbefore
      refine ⟨start, listed, hsub.trans hdue, hlisted, hstart, hmany, fun k hk => ?_⟩
      rcases hdone k hk with hin | hnot
      · exact h.works hi hs hbefore hsome k hin
      · exact .inr fun hagain => hnot (hsub hagain)

/-- Over any run of a worker that is not in a pass at first, each pass that comes to its end takes a
batch away. -/
theorem WorksOff.bound (h : WorksOff M A I due todo ends batch) {s : σ} (hs : I s) (hidle : todo s = none) (inputs : List ι)
    (hi : ∀ i ∈ inputs, A i) : (due (M.run s inputs)).card ≤ (due s).card - batch * occurrences M ends s inputs := by
  have hrun : I (M.run s inputs) ∧
      Achieved due todo batch ((due s).card - batch * occurrences M ends s inputs) (M.run s inputs) := by
    induction inputs using List.reverseRecOn with
    | nil =>
      refine ⟨hs, le_rfl, fun hsome => ?_⟩
      rw [Machine.run_nil, hidle] at hsome
      cases hsome
    | append_singleton inputs i ih =>
      obtain ⟨hkept, hachieved⟩ := ih fun j hj => hi j (List.mem_append_left _ hj)
      have hallowed : A i := hi i (by simp)
      rw [Machine.run_snoc, occurrences_snoc]
      exact ⟨h.keeps hallowed hkept, hachieved.step h hallowed hkept⟩
  exact hrun.2.less

end

end Library.Backlog
