import Mathlib.Data.List.Basic
import ResearchGateway.Library.Text

/-! Texts as names of files.

A file name is a sequence of bytes. `os.fsencode` writes a text as UTF-8 and the lone surrogates
from U+DC80 on as single bytes, and `os.fsdecode` reads what is no UTF-8 as such surrogates. A
text without surrogates is read back as it was written (`fsdecode_fsencode`); two texts with
surrogates may have one name. -/
namespace Library

/-- The bytes of a name. -/
abbrev FileName := List Nat

namespace FileName

/-- The bytes of a code point; a zero byte ends a name and is refused. -/
def encodePoint? (n : Nat) : Option FileName :=
  if n = 0 then none
  else if n < 0x80 then some [n]
  else if n < 0x800 then some [0xC0 + n / 64, 0x80 + n % 64]
  else if 0xD800 ≤ n ∧ n < 0xE000 then if 0xDC80 ≤ n ∧ n < 0xDD00 then some [n - 0xDC00] else none
  else if n < 0x10000 then some [0xE0 + n / 4096, 0x80 + n / 64 % 64, 0x80 + n % 64]
  else some [0xF0 + n / 262144, 0x80 + n / 4096 % 64, 0x80 + n / 64 % 64, 0x80 + n % 64]

def isContinuation (b : Nat) : Bool := 0x80 ≤ b && b < 0xC0

/-- The code point at the head, and how many more bytes it takes. -/
def decodePoint (b : Nat) (rest : FileName) : Nat × Nat :=
  let c₁ := rest.getD 0 0
  let c₂ := rest.getD 1 0
  let c₃ := rest.getD 2 0
  let two := (b - 0xC0) * 64 + (c₁ - 0x80)
  let three := (b - 0xE0) * 4096 + (c₁ - 0x80) * 64 + (c₂ - 0x80)
  let four := (b - 0xF0) * 262144 + (c₁ - 0x80) * 4096 + (c₂ - 0x80) * 64 + (c₃ - 0x80)
  if b < 0x80 then (b, 0)
  else if 0xC0 ≤ b ∧ b < 0xE0 ∧ isContinuation c₁ ∧ 0x80 ≤ two then (two, 1)
  else if 0xE0 ≤ b ∧ b < 0xF0 ∧ isContinuation c₁ ∧ isContinuation c₂ ∧ 0x800 ≤ three ∧
      ¬ (0xD800 ≤ three ∧ three < 0xE000) then (three, 2)
  else if 0xF0 ≤ b ∧ b < 0xF8 ∧ isContinuation c₁ ∧ isContinuation c₂ ∧ isContinuation c₃ ∧
      0x10000 ≤ four ∧ four < 0x110000 then (four, 3)
  else (0xDC00 + b, 0)

/-- The code points of so many bytes at most. -/
def decodeFrom : Nat → FileName → Text
  | 0, _ | _ + 1, [] => []
  | fuel + 1, b :: rest =>
    let (code, more) := decodePoint b rest
    Fin.ofNat 0x110000 code :: decodeFrom fuel (rest.drop more)

end FileName

/-- `os.fsencode(text)`; `none` where it raises, or the call that gets the name does. -/
def Text.fsencode? (t : Text) : Option FileName :=
  (t.mapM fun c => FileName.encodePoint? c.val).map List.flatten

/-- `os.fsdecode(name)`. -/
def FileName.fsdecode (name : FileName) : Text := decodeFrom name.length name

namespace FileName
variable {n : Nat} {bytes : FileName}

theorem isContinuation_add (h : n < 64) : isContinuation (0x80 + n) = true := by
  simp only [isContinuation, Bool.and_eq_true, decide_eq_true_eq]
  omega

/-- What was written for a code point other than a surrogate is read back. -/
theorem decodePoint_encodePoint (rest : FileName) (hcode : n < 0x110000)
    (hplain : ¬ (0xD800 ≤ n ∧ n < 0xE000)) (h : encodePoint? n = some bytes) :
    ∃ b more, bytes = b :: more ∧ decodePoint b (more ++ rest) = (n, more.length) := by
  unfold encodePoint? at h
  rw [if_neg hplain] at h
  split at h
  · cases h
  · split at h
    · obtain rfl := Option.some.inj h
      next hsmall => exact ⟨n, [], rfl, if_pos hsmall⟩
    · split at h
      · obtain rfl := Option.some.inj h
        refine ⟨_, _, rfl, ?_⟩
        simp only [decodePoint, List.cons_append, List.nil_append, List.getD_cons_zero, List.length_singleton]
        rw [if_neg (by omega), if_pos ⟨by omega, by omega, isContinuation_add (by omega), by omega⟩]
        exact Prod.ext (by show _ = n; omega) rfl
      · split at h
        · obtain rfl := Option.some.inj h
          refine ⟨_, _, rfl, ?_⟩
          simp only [decodePoint, List.cons_append, List.nil_append, List.getD_cons_zero, List.getD_cons_succ,
            List.length_cons, List.length_nil]
          rw [if_neg (by omega), if_neg (by omega), if_pos ⟨by omega, by omega, isContinuation_add (by omega),
            isContinuation_add (by omega), by omega, by omega⟩]
          exact Prod.ext (by show _ = n; omega) rfl
        · obtain rfl := Option.some.inj h
          refine ⟨_, _, rfl, ?_⟩
          simp only [decodePoint, List.cons_append, List.nil_append, List.getD_cons_zero, List.getD_cons_succ,
            List.length_cons, List.length_nil]
          rw [if_neg (by omega), if_neg (by omega), if_neg (by omega), if_pos ⟨by omega, by omega,
            isContinuation_add (by omega), isContinuation_add (by omega), isContinuation_add (by omega), by omega,
            by omega⟩]
          exact Prod.ext (by show _ = n; omega) rfl

theorem fsencode?_cons {c : CodePoint} {t : Text} {name : FileName} :
    Text.fsencode? (c :: t) = some name ↔
      ∃ bytes rest, encodePoint? c.val = some bytes ∧ t.fsencode? = some rest ∧ name = bytes ++ rest := by
  unfold Text.fsencode?
  rw [List.mapM_cons]
  cases encodePoint? c.val with
  | none => simp
  | some bytes =>
    cases t.mapM fun c => encodePoint? c.val with
    | none => simp
    | some rest => simp [eq_comm]

theorem decodeFrom_fsencode {t : Text} {name : FileName} (h : t.fsencode? = some name)
    (hplain : t.isEncodable = true) {fuel : Nat} (hfuel : name.length ≤ fuel) : decodeFrom fuel name = t := by
  induction t generalizing name fuel with
  | nil =>
    obtain rfl : [] = name := Option.some.inj h
    cases fuel <;> rfl
  | cons c t ih =>
    obtain ⟨bytes, rest, hbytes, hrest, rfl⟩ := fsencode?_cons.mp h
    obtain ⟨hc, ht⟩ := Bool.and_eq_true_iff.mp hplain
    have hsurrogate : ¬ (0xD800 ≤ c.val ∧ c.val < 0xE000) := by
      simp [CodePoint.isSurrogate] at hc
      omega
    obtain ⟨b, more, rfl, hpoint⟩ := decodePoint_encodePoint rest c.isLt hsurrogate hbytes
    cases fuel with
    | zero => cases hfuel
    | succ fuel =>
      have hlength : rest.length ≤ fuel := by
        simp only [List.cons_append, List.length_cons, List.length_append] at hfuel
        omega
      rw [List.cons_append, decodeFrom, hpoint]
      simp only [List.drop_left]
      rw [ih hrest ht hlength, Fin.ofNat_val_eq_self]

/-- A text without surrogates is read back. -/
theorem fsdecode_fsencode {t : Text} {name : FileName} (h : t.fsencode? = some name)
    (hplain : t.isEncodable = true) : name.fsdecode = t := decodeFrom_fsencode h hplain (Nat.le_refl _)

end FileName

end Library
