import Mathlib.Data.List.AList
import Mathlib.Data.Rat.Floor
import ResearchGateway.Library.TextPattern

/-! JSON values and the dictionaries stored in JSON columns.

A `dict[str, object]` is an association list with distinct keys; the order of its
keys is never observed. `toInt?` is the built-in `int(...)` on a decoded value and
`equalsInt` is `==` against an integer. -/
namespace ResearchGateway
open Library

inductive Json where
  | null
  | bool (value : Bool)
  | int (value : Int)
  | float (value : Rat)
  | str (value : String)
  | arr (items : List Json)
  | obj (fields : List (String × Json))

abbrev Dict := AList fun _ : String => Json

namespace Json

/-- What `int` skips around a number: of the ASCII characters those of C's `isspace`, which leaves
out the separators that `str.strip` takes off. -/
def isBlank (c : Char) : Bool :=
  if c.toNat < 127 then (9 ≤ c.toNat && c.toNat ≤ 13) || c.toNat == 32 else isSpaceCode c.toNat

/-- The value of a decimal digit, of any script. -/
def decimal? (c : Char) : Option Nat :=
  (digitZeros.find? fun start => start ≤ c.toNat && c.toNat ≤ start + 9).map fun start => c.toNat - start

/-- The digits of a decimal literal; an underscore may stand between two of them. -/
def digits? : List Char → Option (List Nat)
  | [] => none
  | [c] => (decimal? c).map fun digit => [digit]
  | c :: '_' :: rest => do
    let digit ← decimal? c
    let digits ← digits? rest
    return digit :: digits
  | c :: rest => do
    let digit ← decimal? c
    let digits ← digits? rest
    return digit :: digits

/-- `sys.get_int_max_str_digits()`: a longer literal is refused, whatever it begins with. -/
def intMaxStrDigits : Nat := 4300

def natural? (chars : List Char) : Option Nat := do
  let digits ← digits? chars
  if digits.length ≤ intMaxStrDigits then some (digits.foldl (fun n digit => 10 * n + digit) 0) else none

/-- `int` of a string: blanks around it, a sign, then decimal digits. -/
def intOfString? (s : String) : Option Int :=
  match (s.toList.dropWhile isBlank).rdropWhile isBlank with
  | '-' :: rest => (natural? rest).map fun n => -(n : Int)
  | '+' :: rest => (natural? rest).map fun n => (n : Int)
  | rest => (natural? rest).map fun n => (n : Int)

/-- `int(value)`; `none` where it raises. A float is truncated towards zero. -/
def toInt? : Json → Option Int
  | .bool b => some (if b then 1 else 0)
  | .int n => some n
  | .float q => some (q.num.tdiv q.den)
  | .str s => intOfString? s
  | .null | .arr _ | .obj _ => none

/-- `value == n`. -/
def equalsInt : Json → Int → Bool
  | .bool b, n => (if b then 1 else 0) == n
  | .int m, n => m == n
  | .float q, n => q == n
  | _, _ => false

end Json

end ResearchGateway
