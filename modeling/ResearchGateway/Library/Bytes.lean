import Mathlib.Data.List.DropRight

/-! Python's `bytes`, line by line. -/
namespace Library

abbrev Bytes := List UInt8

namespace Bytes

/-- The bytes of an ASCII literal. -/
def ascii (s : String) : Bytes := s.toList.map fun c => UInt8.ofNat c.toNat

/-- The whitespace that `bytes.strip` takes off. -/
def isSpace (b : UInt8) : Bool := (9 ≤ b && b ≤ 13) || b == 32

/-- `data.strip()`. -/
def strip (data : Bytes) : Bytes := (data.dropWhile isSpace).rdropWhile isSpace

/-- The lines of the rest, the first of which has begun with `line`. -/
def splitLinesFrom (line : Bytes) : Bytes → List Bytes
  | [] => if line.isEmpty then [] else [line]
  | 13 :: 10 :: rest => line :: splitLinesFrom [] rest
  | 10 :: rest => line :: splitLinesFrom [] rest
  | 13 :: rest => line :: splitLinesFrom [] rest
  | b :: rest => splitLinesFrom (line ++ [b]) rest

/-- `body.splitlines()`: at `\n`, `\r\n` and `\r`. -/
def splitLines (body : Bytes) : List Bytes := splitLinesFrom [] body

/-- How a line ends. -/
inductive Framing where
  | lf
  | crlf
  deriving DecidableEq

def Framing.bytes : Framing → Bytes
  | .lf => [10]
  | .crlf => [13, 10]

/-- Neither byte of a line break. -/
def IsLine (line : Bytes) : Prop := ∀ b ∈ line, b ≠ 10 ∧ b ≠ 13

/-- Lines, each with its own ending. -/
def frame (lines : List (Bytes × Framing)) : Bytes := lines.flatMap fun line => line.1 ++ line.2.bytes

theorem splitLinesFrom_line {line : Bytes} (h : IsLine line) (before rest : Bytes) :
    splitLinesFrom before (line ++ rest) = splitLinesFrom (before ++ line) rest := by
  induction line generalizing before with
  | nil => rw [List.nil_append, List.append_nil]
  | cons b line ih =>
    have hb := h b (List.mem_cons_self ..)
    have hstep : splitLinesFrom before (b :: (line ++ rest)) =
        splitLinesFrom (before ++ [b]) (line ++ rest) := by
      rw [splitLinesFrom]
      · exact fun _ h _ => hb.2 h
      · exact hb.1
      · exact hb.2
    rw [List.cons_append, hstep, ih fun c hc => h c (List.mem_cons_of_mem _ hc), List.append_assoc]
    rfl

theorem splitLinesFrom_framing (line : Bytes) (framing : Framing) (rest : Bytes) :
    splitLinesFrom line (framing.bytes ++ rest) = line :: splitLinesFrom [] rest := by
  cases framing with
  | lf => rfl
  | crlf => rfl

/-- A framed body has the lines it was framed from. -/
theorem splitLines_frame {lines : List (Bytes × Framing)} (h : ∀ line ∈ lines, IsLine line.1) :
    splitLines (frame lines) = lines.map Prod.fst := by
  unfold splitLines frame
  induction lines with
  | nil => rfl
  | cons line rest ih =>
    rw [List.flatMap_cons, List.append_assoc, splitLinesFrom_line (h line (List.mem_cons_self ..)),
      List.nil_append, splitLinesFrom_framing, ih fun l hl => h l (List.mem_cons_of_mem _ hl),
      List.map_cons]

end Bytes

end Library
