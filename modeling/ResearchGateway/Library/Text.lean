import Mathlib.Data.List.Basic
import Mathlib.Data.List.DropRight

/-! Python's `str`: a sequence of code points, lone surrogates included.

`len` is the number of code points, and a slice takes code points. What cannot be
encoded as UTF-8 is a surrogate; any other code point is a character, so a text
without surrogates is a string. -/
namespace Library

abbrev CodePoint := Fin 0x110000

abbrev Text := List CodePoint

instance : LawfulBEq Text := List.instLawfulBEq

/-- `str.isspace`: what `strip` takes off and `split` splits at. -/
def isSpaceCode (code : Nat) : Bool :=
  (9 ≤ code && code ≤ 13) || (28 ≤ code && code ≤ 32) || code == 0x85 || code == 0xA0 ||
    code == 0x1680 || (0x2000 ≤ code && code ≤ 0x200A) || code == 0x2028 || code == 0x2029 ||
    code == 0x202F || code == 0x205F || code == 0x3000

/-- `str.split()`: the maximal runs of what is not a space. -/
def words (s : String) : List String :=
  ((s.toList.splitOnP fun c => isSpaceCode c.toNat).filter fun word => !word.isEmpty).map String.ofList

namespace CodePoint

def isSpace (c : CodePoint) : Bool := isSpaceCode c.val

def isSurrogate (c : CodePoint) : Bool := 0xD800 ≤ c.val && c.val ≤ 0xDFFF

def ofChar (c : Char) : CodePoint := ⟨c.toNat, by
  have hvalid := c.valid
  simp only [UInt32.isValidChar, Nat.isValidChar] at hvalid
  show c.val.toNat < _
  omega⟩

/-- The character of a code point that is not a surrogate. -/
def toChar (c : CodePoint) : Char := Char.ofNat c.val

theorem toChar_toNat {c : CodePoint} (h : c.isSurrogate = false) : c.toChar.toNat = c.val := by
  have hvalid : c.val.isValidChar := by
    simp only [isSurrogate, Bool.and_eq_false_iff, decide_eq_false_iff_not] at h
    have hbound := c.isLt
    unfold Nat.isValidChar
    omega
  rw [toChar, Char.ofNat, dif_pos hvalid]
  rfl

end CodePoint

namespace Text

def ofString (s : String) : Text := s.toList.map CodePoint.ofChar

theorem ofString_injective : Function.Injective ofString := by
  intro s s' h
  refine String.ext (List.map_injective_iff.mpr (fun c d hcd => ?_) h)
  have hcode : c.toNat = d.toNat := congrArg (fun code : CodePoint => code.val) hcd
  exact Char.ext (UInt32.toNat.inj hcode)

/-- `text.strip()`. -/
def strip (t : Text) : Text := (t.dropWhile CodePoint.isSpace).rdropWhile CodePoint.isSpace

/-- `text[start:]`: a negative start counts from the end. -/
def sliceFrom (t : Text) (start : Int) : Text :=
  t.drop (if 0 ≤ start then start.toNat else t.length - start.natAbs)

theorem sliceFrom_suffix (t : Text) (start : Int) : t.sliceFrom start <:+ t := List.drop_suffix ..

/-- The last code points of a text that has at least as many. -/
theorem length_sliceFrom_last {t : Text} {start : Int} (h : start < 0) (hle : start.natAbs ≤ t.length) :
    (t.sliceFrom start).length = start.natAbs := by
  rw [sliceFrom, if_neg (by omega), List.length_drop]
  omega

theorem length_sliceFrom_of_nonneg {t : Text} {start : Int} (h : 0 ≤ start) :
    (t.sliceFrom start).length = t.length - start.toNat := by
  rw [sliceFrom, if_pos h, List.length_drop]

/-- Every code point has a UTF-8 encoding. -/
def isEncodable (t : Text) : Bool := t.all fun c => !c.isSurrogate

/-- The string that arrives where the text is sent as UTF-8; `none` where `encode` raises. -/
def encode? (t : Text) : Option String :=
  if t.isEncodable then some (String.ofList (t.map CodePoint.toChar)) else none

theorem encode?_eq_some {t : Text} {s : String} :
    t.encode? = some s ↔ t.isEncodable = true ∧ String.ofList (t.map CodePoint.toChar) = s := by
  simp [encode?]

theorem encode?_eq_none {t : Text} : t.encode? = none ↔ t.isEncodable = false := by
  simp [encode?]

/-- `len(text.encode("utf-8"))`; `none` where `encode` raises. -/
def utf8Length? (t : Text) : Option Nat :=
  if t.isEncodable then
    some (t.foldl (fun n c =>
      n + if c.val < 0x80 then 1 else if c.val < 0x800 then 2 else if c.val < 0x10000 then 3 else 4) 0)
  else none

/-- A character of what arrives is a code point of what was sent. -/
theorem mem_toList_encode {t : Text} {s : String} (h : t.encode? = some s) {c : CodePoint}
    (hc : c.isSurrogate = false) : c.toChar ∈ s.toList ↔ c ∈ t := by
  obtain ⟨henc, rfl⟩ := encode?_eq_some.mp h
  simp only [String.toList_ofList, List.mem_map]
  constructor
  · rintro ⟨d, hd, heq⟩
    have hd' : d.isSurrogate = false := by
      simpa using List.all_eq_true.mp henc d hd
    have hval := congrArg Char.toNat heq
    rw [CodePoint.toChar_toNat hd', CodePoint.toChar_toNat hc] at hval
    rwa [Fin.ext hval] at hd
  · intro hmem
    exact ⟨c, hmem, rfl⟩

theorem length_encode {t : Text} {s : String} (h : t.encode? = some s) : s.length = t.length := by
  obtain ⟨-, rfl⟩ := encode?_eq_some.mp h
  simp

end Text

end Library
