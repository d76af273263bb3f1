import Mathlib.Data.List.Dedup
import Mathlib.Data.List.Lex
import Mathlib.Data.List.Sort
import ResearchGateway.Library.Text

/-! Values as Python's `json.loads` returns them.

Strings and keys are texts, lone surrogates included, and a float is given by its 64
bits. `truthy` is what `if` and `or` see; an operation that a value does not have raises,
which is `none`. -/
namespace Library

namespace Text

/-- `separator.join(parts)`. -/
def join (separator : String) (parts : List Text) : Text := (ofString separator).intercalate parts

/-- `sorted(set(texts))`: by code points, each once. -/
def sorted (texts : List Text) : List Text := texts.dedup.insertionSort (· ≤ ·)

theorem sorted_nodup (texts : List Text) : (sorted texts).Nodup :=
  (List.perm_insertionSort _ _).nodup_iff.mpr (List.nodup_dedup _)

theorem mem_sorted {texts : List Text} {t : Text} : t ∈ sorted texts ↔ t ∈ texts := by
  rw [sorted, List.mem_insertionSort, List.mem_dedup]

end Text

/-- A dictionary after an assignment: the key has the new value. -/
theorem lookup_assigned {β : Type} (key key' : Text) (value : β) (fields : List (Text × β)) :
    ((key, value) :: fields).lookup key' = if key' = key then some value else fields.lookup key' := by
  by_cases hsame : key' = key
  · rw [if_pos hsame, hsame, List.lookup_cons_self]
  · rw [if_neg hsame, List.lookup_cons, beq_false_of_ne hsame]

inductive Value where
  | none
  | bool (value : Bool)
  | int (value : Int)
  | float (bits : BitVec 64)
  | str (text : Text)
  | list (items : List Value)
  | dict (fields : List (Text × Value))

abbrev Fields := List (Text × Value)

namespace Value

/-- A text and a dictionary as they are written. -/
def text (text : String) : Value := .str (.ofString text)

def object (fields : List (String × Value)) : Value :=
  .dict (fields.map fun (key, value) => (.ofString key, value))

/-- `bool(value)`: of the floats, `0.0` and `-0.0` are false. -/
def truthy : Value → Bool
  | .none => false
  | .bool b => b
  | .int n => n != 0
  | .float bits => bits.setWidth 63 != 0
  | .str t => !t.isEmpty
  | .list items => !items.isEmpty
  | .dict fields => !fields.isEmpty

/-- `value or other`. -/
def orElse (value other : Value) : Value := if value.truthy then value else other

/-- `value == text`, for a literal. -/
def isText (value : Value) (text : String) : Bool :=
  match value with
  | .str t => t == Text.ofString text
  | _ => false

/-- The integer that a float is equal to. -/
def floatInt? (bits : BitVec 64) : Option Int :=
  let exponent := (bits.extractLsb' 52 11).toNat
  let fraction := (bits.setWidth 52).toNat
  -- The magnitude is the significand times two to the power of `scale - 1075`.
  let significand := if exponent = 0 then fraction else 1 <<< 52 + fraction
  let scale := if exponent = 0 then 1 else exponent
  let unit := 1 <<< (1075 - scale)
  if exponent = 2047 ∨ significand % unit ≠ 0 then Option.none
  else
    let magnitude := Int.ofNat ((significand / unit) <<< (scale - 1075))
    some (if bits.msb then -magnitude else magnitude)

/-- `value == n`, for an integer: of the booleans and the floats too, those with its value. -/
def isNumber (value : Value) (n : Int) : Bool :=
  match value with
  | .bool b => (if b then 1 else 0) == n
  | .int m => m == n
  | .float bits => floatInt? bits == some n
  | _ => false

/-- `value in texts`, for a set of texts; a list or a dictionary cannot be hashed. -/
def memberOf? (value : Value) (texts : List Text) : Option Bool :=
  match value with
  | .str t => some (t ∈ texts)
  | .list _ | .dict _ => Option.none
  | _ => some false

/-- An `int`, and `True` and `False` are. -/
def int? : Value → Option Int
  | .int n => some n
  | .bool b => some (if b then 1 else 0)
  | _ => Option.none

/-- `int(value)` of a float: towards zero, and neither infinity nor NaN has one. -/
def truncate? (bits : BitVec 64) : Option Int :=
  let exponent := (bits.extractLsb' 52 11).toNat
  let fraction := (bits.setWidth 52).toNat
  let significand := if exponent = 0 then fraction else 1 <<< 52 + fraction
  let scale := if exponent = 0 then 1 else exponent
  if exponent = 2047 then Option.none
  else
    let magnitude := Int.ofNat ((significand <<< (scale - 1075)) >>> (1075 - scale))
    some (if bits.msb then -magnitude else magnitude)

/-- `int(value)`; `intOfText` reads a string, and `none` is an exception. -/
def toInt? (intOfText : Text → Option Int) : Value → Option Int
  | .bool b => some (if b then 1 else 0)
  | .int n => some n
  | .float bits => truncate? bits
  | .str t => intOfText t
  | _ => Option.none

/-- The dictionary whose methods are called. -/
def fields? : Value → Option Fields
  | .dict fields => some fields
  | _ => Option.none

@[simp] theorem fields?_dict (fields : Fields) : (Value.dict fields).fields? = some fields := rfl

/-- `value or {}`, where it is a dictionary. -/
def entries? (value : Value) : Option Fields := (value.orElse (.dict [])).fields?

@[simp] theorem entries?_dict (fields : Fields) : (Value.dict fields).entries? = some fields := by
  cases fields <;> rfl

@[simp] theorem isText_text (text : String) : (Value.text text).isText text = true := beq_self_eq_true _

/-- What iterating over the value gives: the keys of a dictionary, the code points of a text. -/
def items? : Value → Option (List Value)
  | .list items => some items
  | .dict fields => some (fields.map fun field => .str field.1)
  | .str t => some (t.map fun c => .str [c])
  | _ => Option.none

/-- `str(value)`; `repr` gives the text of a float, a list or a dictionary. -/
def toText (repr : Value → Text) : Value → Text
  | .none => .ofString "None"
  | .bool b => .ofString (if b then "True" else "False")
  | .int n => .ofString (toString n)
  | .str t => t
  | value => repr value

end Value

namespace Fields

def get? (fields : Fields) (key : Text) : Option Value := fields.lookup key

/-- `fields.get(key)`. -/
def get (fields : Fields) (key : String) : Value := (fields.get? (.ofString key)).getD .none

/-- `fields.get(key, default)`. -/
def getOr (fields : Fields) (key : String) (default : Value) : Value :=
  (fields.get? (.ofString key)).getD default

end Fields

/-- `fields[key] = value`: an old key keeps its place. -/
def assign {β : Type} (fields : List (Text × β)) (key : Text) (value : β) : List (Text × β) :=
  match fields with
  | [] => [(key, value)]
  | (key', value') :: rest =>
    if key' = key then (key, value) :: rest else (key', value') :: assign rest key value

theorem lookup_assign {β : Type} (fields : List (Text × β)) (key key' : Text) (value : β) :
    (assign fields key value).lookup key' = if key' = key then some value else fields.lookup key' := by
  induction fields with
  | nil => simp only [assign, lookup_assigned]
  | cons field rest ih =>
    simp only [assign]
    by_cases hsame : field.1 = key
    · rw [if_pos hsame, lookup_assigned, lookup_assigned, hsame]
      split <;> rfl
    · rw [if_neg hsame, lookup_assigned, lookup_assigned, ih]
      by_cases hkey : key' = key
      · rw [if_pos hkey, if_pos hkey, if_neg (by rw [hkey]; exact Ne.symm hsame)]
      · rw [if_neg hkey, if_neg hkey]

/-- `{**fields, **entries}`. -/
def assignAll {β : Type} (fields entries : List (Text × β)) : List (Text × β) :=
  entries.foldl (fun fields entry => assign fields entry.1 entry.2) fields

section
variable {β : Type} {fields entries : List (Text × β)} {key : Text}

theorem lookup_assignAll_of_not_mem (h : key ∉ entries.map (·.1)) :
    (assignAll fields entries).lookup key = fields.lookup key := by
  induction entries generalizing fields with
  | nil => rfl
  | cons entry rest ih =>
    rw [List.map_cons, List.mem_cons, not_or] at h
    have hrest : (assignAll (assign fields entry.1 entry.2) rest).lookup key = _ := ih h.2
    rw [lookup_assign, if_neg h.1] at hrest
    exact hrest

theorem lookup_assignAll {value : β} (hkeys : (entries.map (·.1)).Nodup) (h : (key, value) ∈ entries) :
    (assignAll fields entries).lookup key = some value := by
  induction entries generalizing fields with
  | nil => cases h
  | cons entry rest ih =>
    rw [List.map_cons, List.nodup_cons] at hkeys
    rcases List.mem_cons.mp h with rfl | h
    · have hrest : (assignAll (assign fields key value) rest).lookup key = _ := lookup_assignAll_of_not_mem hkeys.1
      rw [lookup_assign, if_pos rfl] at hrest
      exact hrest
    · exact ih hkeys.2 h

end

end Library
