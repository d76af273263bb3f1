import Mathlib.Order.Basic

/-! A loop that goes on while its body gives no result. -/
namespace Library

/-- The first result from a round on, with its round, if it comes within so many rounds. -/
def firstResult {α : Type} (body : Nat → Option α) : Nat → Nat → Option (Nat × α)
  | 0, _ => none
  | fuel + 1, n =>
    match body n with
    | some result => some (n, result)
    | none => firstResult body fuel (n + 1)

section
variable {α : Type} {body : Nat → Option α} {fuel n m : Nat} {result : α}

theorem firstResult_eq_some : firstResult body fuel n = some (m, result) ↔
    n ≤ m ∧ m < n + fuel ∧ (∀ k, n ≤ k → k < m → body k = none) ∧ body m = some result := by
  induction fuel generalizing n with
  | zero =>
    constructor
    · intro h
      cases h
    · intro h
      omega
  | succ fuel ih =>
    rw [firstResult]
    cases hbody : body n with
    | some first =>
      constructor
      · intro h
        cases h
        exact ⟨Nat.le_refl _, by omega, fun k hn hk => by omega, hbody⟩
      · intro h
        obtain ⟨hle, hlt, hnone, hresult⟩ := h
        have hnm : n = m := by
          by_contra hne
          have hearlier := hnone n (Nat.le_refl n) (by omega)
          rw [hbody] at hearlier
          cases hearlier
        subst hnm
        rw [hbody] at hresult
        exact congrArg some (Prod.ext rfl (Option.some.inj hresult))
    | none =>
      refine ih.trans ?_
      constructor
      · intro h
        obtain ⟨hle, hlt, hnone, hresult⟩ := h
        refine ⟨by omega, by omega, fun k hn hk => ?_, hresult⟩
        by_cases heq : k = n
        · rw [heq, hbody]
        · exact hnone k (by omega) hk
      · intro h
        obtain ⟨hle, hlt, hnone, hresult⟩ := h
        have hne : m ≠ n := by
          rintro rfl
          rw [hbody] at hresult
          cases hresult
        exact ⟨by omega, by omega, fun k hn hk => hnone k (by omega) hk, hresult⟩

/-- From the first round on. -/
theorem firstResult_zero : firstResult body fuel 0 = some (m, result) ↔
    m < fuel ∧ (∀ k, k < m → body k = none) ∧ body m = some result := by
  rw [firstResult_eq_some]
  simp

end

end Library
