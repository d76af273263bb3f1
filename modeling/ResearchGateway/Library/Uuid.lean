import Mathlib.Algebra.Order.Group.Nat
import ResearchGateway.Library.Text

/-! UUIDs as they are written: 32 hexadecimal digits in five groups. -/
namespace Library

namespace Uuid

def hexSymbol (d : Nat) : CodePoint := .ofChar (("0123456789abcdef".toList[d]?).getD '0')

/-- The last digits of a number, so many of them. -/
def hexDigits : Nat → Nat → Text
  | 0, _ => []
  | width + 1, n => hexDigits width (n / 16) ++ [hexSymbol (n % 16)]

def hyphen : CodePoint := .ofChar '-'

/-- `str(uuid)`, where the UUID is given by its 128 bits. -/
def text (uuid : Nat) : Text :=
  let digits := hexDigits 32 uuid
  digits.take 8 ++ hyphen :: (digits.drop 8).take 4 ++ hyphen :: (digits.drop 12).take 4 ++
    hyphen :: (digits.drop 16).take 4 ++ hyphen :: digits.drop 20

example : text 0x0123456789abcdef0123456789abcdef = .ofString "01234567-89ab-cdef-0123-456789abcdef" := by decide

section
variable {width m n : Nat}

theorem hexSymbol_inj {d e : Nat} (hd : d < 16) (he : e < 16) (h : hexSymbol d = hexSymbol e) : d = e := by
  have hall : ∀ d : Fin 16, ∀ e : Fin 16, hexSymbol d = hexSymbol e → d = e := by decide
  exact congrArg Fin.val (hall ⟨d, hd⟩ ⟨e, he⟩ h)

@[simp] theorem length_hexDigits (width n : Nat) : (hexDigits width n).length = width := by
  induction width generalizing n with
  | zero => rfl
  | succ width ih => simp [hexDigits, ih]

/-- Numbers with so many digits are told apart by them. -/
theorem hexDigits_inj (hm : m < 16 ^ width) (hn : n < 16 ^ width) (h : hexDigits width m = hexDigits width n) : m = n := by
  induction width generalizing m n with
  | zero => omega
  | succ width ih =>
    rw [pow_succ] at hm hn
    obtain ⟨hfront, hlast⟩ := List.append_inj' h rfl
    have hdiv := ih (by omega) (by omega) hfront
    have hmod := hexSymbol_inj (Nat.mod_lt _ (by decide)) (Nat.mod_lt _ (by decide)) (List.cons.inj hlast).1
    omega

@[simp] theorem length_text (uuid : Nat) : (text uuid).length = 36 := by
  simp [text]

/-- A UUID is told by its text. -/
theorem text_inj (hm : m < 2 ^ 128) (hn : n < 2 ^ 128) (h : text m = text n) : m = n := by
  have hpow : (2 : Nat) ^ 128 = 16 ^ 32 := by decide
  rw [hpow] at hm hn
  refine hexDigits_inj hm hn ?_
  simp only [text, List.append_assoc, List.cons_append] at h
  obtain ⟨h₁, h⟩ := List.append_inj h (by simp)
  obtain ⟨h₂, h⟩ := List.append_inj (List.cons.inj h).2 (by simp)
  obtain ⟨h₃, h⟩ := List.append_inj (List.cons.inj h).2 (by simp)
  obtain ⟨h₄, h⟩ := List.append_inj (List.cons.inj h).2 (by simp)
  have h₅ := (List.cons.inj h).2
  have hsplit (t : Text) : t = t.take 8 ++ ((t.drop 8).take 4 ++ ((t.drop 12).take 4 ++ ((t.drop 16).take 4 ++ t.drop 20))) := by
    have hdrop (a : Nat) : t.drop a = (t.drop a).take 4 ++ t.drop (a + 4) := by
      rw [← List.drop_drop, List.take_append_drop]
    rw [← hdrop 16, ← hdrop 12, ← hdrop 8, List.take_append_drop]
  rw [hsplit (hexDigits 32 m), hsplit (hexDigits 32 n), h₁, h₂, h₃, h₄, h₅]

end

end Uuid

end Library
