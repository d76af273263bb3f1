import ResearchGateway.Library.FileNames

/-! The keys of artifacts.

`safe_object_key` reads a key as a path below the root and writes the path again. A path is
written without empty parts and dots, so what was written once is written as it is
(`safeObjectKey?_fixed`). -/
namespace ResearchGateway
open Library

namespace ObjectKey

def slash : CodePoint := .ofChar '/'

/-- `.`, the path without parts. -/
def dot : Text := .ofString "."

/-- `..`, the part that leads up. -/
def dots : Text := .ofString ".."

/-- `Path(key).parts`, of a relative path. -/
def parts (key : Text) : List Text := (key.splitOn slash).filter fun part => part ≠ [] ∧ part ≠ dot

def isAbsolute (key : Text) : Bool := key.head? = some slash

/-- `as_posix()`. -/
def asPosix (parts : List Text) : Text := if parts = [] then dot else [slash].intercalate parts

/-- The parts of a key that is safe. -/
def safeParts? (key : Text) : Option (List Text) :=
  if isAbsolute key ∨ dots ∈ parts key then none else some (parts key)

/-- What `Path` reads as one part. -/
structure IsPart (part : Text) : Prop where
  nonempty : part ≠ []
  named : part ≠ dot
  whole : slash ∉ part

/-- A piece between separators. -/
theorem splitOn_piece {α : Type} [DecidableEq α] {a : α} {xs piece : List α} (h : piece ∈ xs.splitOn a) :
    a ∉ piece ∧ piece ⊆ xs := by
  induction xs generalizing piece with
  | nil =>
    rw [List.splitOn_nil, List.mem_singleton] at h
    simp [h]
  | cons x xs ih =>
    rw [List.splitOn_cons_eq_if_modifyHead] at h
    split at h
    · cases h with
      | head => simp
      | tail _ hrest => exact ⟨(ih hrest).1, List.subset_cons_of_subset x (ih hrest).2⟩
    · next hne =>
      cases hsplit : xs.splitOn a with
      | nil => exact absurd hsplit (List.splitOn_ne_nil a xs)
      | cons first rest =>
        rw [hsplit] at h ih
        cases h with
        | head =>
          have hfirst := ih List.mem_cons_self
          have hax : a ≠ x := fun heq => hne (by simp [heq])
          exact ⟨by simp [hax, hfirst.1], List.cons_subset_cons x hfirst.2⟩
        | tail _ hrest =>
          have hlater := ih (List.mem_cons_of_mem first hrest)
          exact ⟨hlater.1, List.subset_cons_of_subset x hlater.2⟩

variable {key : Text} {ps : List Text}

theorem isPart_of_mem {part : Text} (h : part ∈ parts key) : IsPart part := by
  obtain ⟨hsplit, hkept⟩ := List.mem_filter.mp h
  obtain ⟨hnonempty, hnamed⟩ := of_decide_eq_true hkept
  exact ⟨hnonempty, hnamed, (splitOn_piece hsplit).1⟩

/-- The parts of a key without surrogates. -/
theorem isEncodable_of_mem {part : Text} (hkey : key.isEncodable = true) (h : part ∈ parts key) :
    part.isEncodable = true := by
  apply List.all_eq_true.mpr
  intro c hc
  exact List.all_eq_true.mp hkey c ((splitOn_piece (List.mem_filter.mp h).1).2 hc)

theorem parts_asPosix (h : ∀ part ∈ ps, IsPart part) : parts (asPosix ps) = ps := by
  by_cases hps : ps = []
  · subst hps
    decide
  · rw [asPosix, if_neg hps, parts, List.splitOn_intercalate slash (fun part hpart => (h part hpart).whole) hps,
      List.filter_eq_self]
    intro part hpart
    exact decide_eq_true ⟨(h part hpart).nonempty, (h part hpart).named⟩

theorem isAbsolute_asPosix (h : ∀ part ∈ ps, IsPart part) : isAbsolute (asPosix ps) = false := by
  cases ps with
  | nil => rfl
  | cons part rest =>
    obtain ⟨hnonempty, -, hwhole⟩ := h part List.mem_cons_self
    cases part with
    | nil => exact (hnonempty rfl).elim
    | cons c part =>
      have hc : c ≠ slash := fun heq => hwhole (by simp [heq])
      cases rest with
      | nil => simp [isAbsolute, asPosix, hc]
      | cons next rest => simp [isAbsolute, asPosix, List.intercalate_cons_cons, hc]

/-- A path that is written as a key is read back. -/
theorem safeParts?_asPosix (h : ∀ part ∈ ps, IsPart part) (hdots : dots ∉ ps) :
    safeParts? (asPosix ps) = some ps := by
  rw [safeParts?, parts_asPosix h, isAbsolute_asPosix h, if_neg (by simp [hdots])]

theorem safeParts?_eq_some (h : safeParts? key = some ps) :
    parts key = ps ∧ (∀ part ∈ ps, IsPart part) ∧ dots ∉ ps := by
  obtain ⟨hsafe, h⟩ := Option.ite_none_left_eq_some.mp h
  obtain rfl := Option.some.inj h
  exact ⟨rfl, fun part => isPart_of_mem, fun hmem => hsafe (.inr hmem)⟩

/-! ### Keys and directories -/

/-- The parts of a key below the root. -/
structure IsKey (ps : List Text) : Prop where
  nonempty : ps ≠ []
  parts : ∀ part ∈ ps, IsPart part
  safe : dots ∉ ps

/-- The text with which the keys in a directory begin. -/
def directory (ps : List Text) : Text := asPosix ps ++ [slash]

theorem parts_directory (h : ∀ part ∈ ps, IsPart part) (t : Text) : parts (directory ps ++ t) = ps ++ parts t := by
  have hps := parts_asPosix h
  rw [parts] at hps
  rw [directory, List.append_assoc, List.singleton_append, parts, List.splitOn_append_cons_self, List.filter_append, hps,
    parts]

theorem intercalate_append {ps rest : List Text} (hps : ps ≠ []) (hrest : rest ≠ []) :
    [slash].intercalate (ps ++ rest) = [slash].intercalate ps ++ slash :: [slash].intercalate rest := by
  induction ps with
  | nil => exact absurd rfl hps
  | cons part more ih =>
    cases more with
    | nil =>
      cases rest with
      | nil => exact absurd rfl hrest
      | cons next rest => simp [List.intercalate_cons_cons]
    | cons next more =>
      have hmore := ih (List.cons_ne_nil _ _)
      rw [List.cons_append, List.cons_append, List.intercalate_cons_cons, ← List.cons_append, hmore,
        List.intercalate_cons_cons]
      simp

/-- A key begins with the text of a directory exactly if it is in the directory. -/
theorem directory_isPrefix_iff {qs : List Text} (hps : IsKey ps) (hqs : IsKey qs) :
    directory ps <+: asPosix qs ↔ ∃ rest, rest ≠ [] ∧ qs = ps ++ rest := by
  constructor
  · rintro ⟨t, ht⟩
    have hparts := parts_asPosix hqs.parts
    rw [← ht, parts_directory hps.parts] at hparts
    refine ⟨parts t, fun hnil => ?_, hparts.symm⟩
    -- The key of the directory itself is shorter than its text.
    rw [hnil, List.append_nil] at hparts
    have hlength := congrArg List.length ht
    rw [← hparts, directory, List.length_append, List.length_append, List.length_singleton] at hlength
    omega
  · rintro ⟨rest, hrest, rfl⟩
    refine ⟨[slash].intercalate rest, ?_⟩
    rw [directory, asPosix, if_neg hps.nonempty, asPosix, if_neg hqs.nonempty, intercalate_append hps.nonempty hrest]
    simp

theorem asPosix_ne_dot (h : IsKey ps) : asPosix ps ≠ dot := by
  intro heq
  have hparts := parts_asPosix h.parts
  rw [heq, show parts dot = [] by decide] at hparts
  exact h.nonempty hparts.symm

theorem asPosix_injective {qs : List Text} (hps : ∀ part ∈ ps, IsPart part) (hqs : ∀ part ∈ qs, IsPart part)
    (h : asPosix ps = asPosix qs) : ps = qs := by
  rw [← parts_asPosix hps, h, parts_asPosix hqs]

end ObjectKey

open ObjectKey

/-- `safe_object_key`; `none` where it raises. -/
def safeObjectKey? (objectKey : Text) : Option Text := (safeParts? objectKey).map asPosix

theorem safeObjectKey?_none {key : Text} (h : safeParts? key = none) : safeObjectKey? key = none := by
  rw [safeObjectKey?, h]
  rfl

/-- A key that was returned is returned for itself. -/
theorem safeObjectKey?_fixed {key safe : Text} (h : safeObjectKey? key = some safe) :
    safeObjectKey? safe = some safe := by
  obtain ⟨ps, hps, rfl⟩ := Option.map_eq_some_iff.mp h
  obtain ⟨-, hparts, hdots⟩ := safeParts?_eq_some hps
  rw [safeObjectKey?, safeParts?_asPosix hparts hdots]
  rfl

end ResearchGateway
