import ResearchGateway.Library.Pattern
import ResearchGateway.Library.Text

/-! Patterns over Python's code points.

A word is compared without regard to case, as `(?i)` does for ASCII letters, and `^` and `$`
are those of `(?m)`. All that the classes and words here can tell of a code point is its
`kind`, in which a digit is a `0`. -/
namespace Library

/-- The zeros; the other nine digits follow each of them. -/
def digitZeros : List Nat :=
  [0x30, 0x660, 0x6F0, 0x7C0, 0x966, 0x9E6, 0xA66, 0xAE6, 0xB66, 0xBE6, 0xC66, 0xCE6, 0xD66, 0xDE6, 0xE50, 0xED0,
    0xF20, 0x1040, 0x1090, 0x17E0, 0x1810, 0x1946, 0x19D0, 0x1A80, 0x1A90, 0x1B50, 0x1BB0, 0x1C40, 0x1C50, 0xA620,
    0xA8D0, 0xA900, 0xA9D0, 0xA9F0, 0xAA50, 0xABF0, 0xFF10, 0x104A0, 0x10D30, 0x11066, 0x110F0, 0x11136, 0x111D0,
    0x112F0, 0x11450, 0x114D0, 0x11650, 0x116C0, 0x11730, 0x118E0, 0x11950, 0x11C50, 0x11D50, 0x11DA0, 0x11F50,
    0x16A60, 0x16AC0, 0x16B50, 0x1D7CE, 0x1D7D8, 0x1D7E2, 0x1D7EC, 0x1D7F6, 0x1E140, 0x1E2F0, 0x1E4F0, 0x1E950,
    0x1FBF0]

/-- `\d`. -/
def isDigitCode (code : Nat) : Bool := digitZeros.any fun start => start ≤ code && code ≤ start + 9

/-- The ASCII letter that a code point is taken for where case is ignored. -/
def lowerCode (code : Nat) : Nat :=
  if 65 ≤ code ∧ code ≤ 90 then code + 32
  else if code = 0x130 ∨ code = 0x131 then 105
  else if code = 0x17F then 115
  else if code = 0x212A then 107
  else code

/-- A property of codes that no letter has is not changed by `lowerCode`. -/
theorem apply_lowerCode (p : Nat → Bool) (hupper : ∀ code < 26, p (65 + code) = false)
    (hlower : ∀ code < 26, p (97 + code) = false)
    (hother : ∀ code ∈ [0x130, 0x131, 0x17F, 0x212A], p code = false) (code : Nat) :
    p (lowerCode code) = p code := by
  unfold lowerCode
  split
  · next h =>
    have hcode : p (65 + (code - 65)) = false := hupper (code - 65) (by omega)
    have hcode' : p (97 + (code - 65)) = false := hlower (code - 65) (by omega)
    rw [show 65 + (code - 65) = code by omega] at hcode
    rw [show 97 + (code - 65) = code + 32 by omega] at hcode'
    rw [hcode, hcode']
  · split
    · next h => rw [show p 105 = false from hlower 8 (by decide), hother code (by simp; omega)]
    · split
      · next h => rw [show p 115 = false from hlower 18 (by decide), hother code (by simp; omega)]
      · split
        · next h => rw [show p 107 = false from hlower 10 (by decide), hother code (by simp; omega)]
        · rfl

theorem isDigitCode_lowerCode (code : Nat) : isDigitCode (lowerCode code) = isDigitCode code :=
  apply_lowerCode isDigitCode (by decide) (by decide) (by decide) code

theorem isSpaceCode_lowerCode (code : Nat) : isSpaceCode (lowerCode code) = isSpaceCode code :=
  apply_lowerCode isSpaceCode (by decide) (by decide) (by decide) code

theorem beq_lowerCode {code' : Nat} (h : code' < 65) (code : Nat) : (lowerCode code == code') = (code == code') := by
  apply apply_lowerCode (· == code')
  · intro n hn
    exact beq_false_of_ne (by omega)
  · intro n hn
    exact beq_false_of_ne (by omega)
  · intro n hn
    simp only [List.mem_cons, List.not_mem_nil, or_false] at hn
    exact beq_false_of_ne (by omega)

theorem isSpaceCode_of_digit {code : Nat} (h : isDigitCode code = true) : isSpaceCode code = false := by
  have hall : ∀ start ∈ digitZeros, ∀ n < 10, isSpaceCode (start + n) = false := by decide
  obtain ⟨start, hstart, hcode⟩ := List.any_eq_true.mp h
  simp only [Bool.and_eq_true, decide_eq_true_eq] at hcode
  have hspace := hall start hstart (code - start) (by omega)
  rwa [show start + (code - start) = code by omega] at hspace

namespace CodePoint

def isDigit (c : CodePoint) : Bool := isDigitCode c.val

def lower (c : CodePoint) : Nat := lowerCode c.val

def kind (c : CodePoint) : Nat := if c.isDigit then 48 else c.lower

def newline : CodePoint := .ofChar '\n'

def dot : CodePoint := .ofChar '.'

section
variable {c : CodePoint}

theorem kind_of_digit (h : c.isDigit = true) : c.kind = 48 := if_pos h

/-- A symbol of a word has the kind that stands in the word. -/
theorem kind_of_lower {code : Nat} (h : c.lower = code) (hcode : isDigitCode code = false) : c.kind = code := by
  have hdigit : c.isDigit = false := by
    rw [isDigit, ← isDigitCode_lowerCode, ← lower, h]
    exact hcode
  rw [kind, hdigit]
  exact h

theorem isSpaceCode_kind : isSpaceCode c.kind = c.isSpace := by
  unfold kind
  split
  · next h => exact (isSpaceCode_of_digit h).symm
  · exact isSpaceCode_lowerCode _

theorem not_space_of_kind {code : Nat} (h : c.kind = code) (hcode : isSpaceCode code = false) : c.isSpace = false := by
  rw [← isSpaceCode_kind, h]
  exact hcode

/-- The kind of a code point below the digits is the code point. -/
theorem kind_eq_iff {code : Nat} (h : code < 48) : c.kind = code ↔ c.val = code := by
  have hlower : c.lower = code ↔ c.val = code := by
    rw [← beq_iff_eq, lower, beq_lowerCode (by omega), beq_iff_eq]
  unfold kind
  split
  · next hdigit =>
    constructor
    · intro heq
      omega
    · rintro heq
      rw [isDigit, heq] at hdigit
      have hall : ∀ n < 48, isDigitCode n = false := by decide
      rw [hall code h] at hdigit
      cases hdigit
  · exact hlower

theorem kind_eq_newline : c.kind = 10 ↔ c = newline := by
  rw [kind_eq_iff (by decide), Fin.ext_iff]
  rfl

theorem kind_eq_dot : c.kind = 46 ↔ c = dot := by
  rw [kind_eq_iff (by decide), Fin.ext_iff]
  rfl

theorem isSpace_newline : newline.isSpace = true := by decide

end

end CodePoint

namespace Text

/-- A literal, symbol by symbol. -/
theorem ofString_ofList {s : String} {l : List Char} (h : s = String.ofList l) :
    ofString s = l.map CodePoint.ofChar := by
  rw [h, ofString, String.toList_ofList]

theorem ofString_append (s s' : String) : ofString (s ++ s') = ofString s ++ ofString s' := by
  simp [ofString]

end Text

namespace Pattern
open CodePoint

def wordCodes (word : String) : List Nat := word.toList.map fun c => lowerCode c.toNat

/-- `(?i)` and the word. -/
def word (word : String) : Pattern CodePoint := .literal CodePoint.lower (wordCodes word)

/-- `^`. -/
def isLineStart : Option CodePoint → Bool
  | none => true
  | some c => c == newline

/-- `$`. -/
def isLineEnd : Option CodePoint → Bool
  | none => true
  | some c => c == newline

section
variable {c : CodePoint}

theorem isLineStart_some : isLineStart (some c) = true ↔ c = newline := beq_iff_eq

theorem isLineEnd_some : isLineEnd (some c) = true ↔ c = newline := beq_iff_eq

theorem isLineStart_of_ne (h : c ≠ newline) : isLineStart (some c) = false := beq_false_of_ne h

end

theorem matches_word {w : String} {prev next : Option CodePoint} {m : Text} :
    (word w).Matches prev m next ↔ m.map CodePoint.lower = wordCodes w := matches_literal

end Pattern

end Library
