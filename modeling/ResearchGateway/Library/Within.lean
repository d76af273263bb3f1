import Mathlib.Order.Defs.Unbundled

/-! What a stateful program may do to its state.

`Within R t` says that a run of `t` that succeeds takes the state from where it was
to somewhere `R` allows. For a preorder the rules follow the program text: reading
and returning stay where they are, a sequence stays within `R` if its parts do, and
a program that throws has nothing to show. -/
namespace Library

structure Within {σ ε α : Type} (R : σ → σ → Prop) (t : StateT σ (Except ε) α) : Prop where
  run : ∀ s a s', t s = .ok (a, s') → R s s'

namespace Within
variable {σ ε α β : Type} {R : σ → σ → Prop}

theorem throw (e : ε) : Within R (throw e : StateT σ (Except ε) α) where
  run s a s' h := by cases h

theorem pure [IsPreorder σ R] (a : α) : Within R (Pure.pure a : StateT σ (Except ε) α) where
  run s b s' h := by
    cases h
    exact refl s

theorem get [IsPreorder σ R] : Within R (get : StateT σ (Except ε) σ) where
  run s b s' h := by
    cases h
    exact refl s

theorem bind [IsPreorder σ R] {t : StateT σ (Except ε) α} {f : α → StateT σ (Except ε) β}
    (ht : Within R t) (hf : ∀ a, Within R (f a)) : Within R (t >>= f) where
  run s b s' h := by
    simp only [Bind.bind, StateT.bind, Except.bind] at h
    cases hrun : t s with
    | error e =>
      rw [hrun] at h
      cases h
    | ok p =>
      rw [hrun] at h
      have hfirst := ht.run s p.1 p.2 hrun
      have hrest := (hf p.1).run p.2 b s' h
      exact IsTrans.trans _ _ _ hfirst hrest

theorem ite {c : Prop} [Decidable c] {t e : StateT σ (Except ε) α} (ht : c → Within R t)
    (he : ¬ c → Within R e) : Within R (if c then t else e) := by
  by_cases hc : c
  · rw [if_pos hc]
    exact ht hc
  · rw [if_neg hc]
    exact he hc

end Within

end Library
