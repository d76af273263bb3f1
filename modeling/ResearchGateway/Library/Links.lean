import Mathlib.Data.List.Chain
import Mathlib.Data.List.Nodup

/-! Following links back from one entry to another.

An identifier names an entry or nothing, and every entry has the identifier of the one
before it. A walk goes back as long as it comes to entries that it has not seen (`Walk`);
there is one branch to every start (`Walk.suffix`), from the entry where the walk ends to
the one that the start names (`IsBranch`). -/
namespace Library

structure Links (ι κ ν : Type) where
  /-- The entry that an identifier names, with its key. -/
  entry? : ι → Option (κ × ν)
  next : ν → ι
  keyed : ∀ i j a b, entry? i = some a → entry? j = some b → a.1 = b.1 → a = b

namespace Links
variable {ι κ ν : Type} (L : Links ι κ ν)

/-- The entries passed on the way from the start to an identifier, the last one first. -/
inductive Walk (start : ι) : List (κ × ν) → ι → Prop
  | start : Walk start [] start
  | back {path id entry} (h : Walk start path id) (hentry : L.entry? id = some entry)
      (hnew : entry.1 ∉ path.map Prod.fst) : Walk start (entry :: path) (L.next entry.2)

/-- Each entry is linked to the one before it, and the start names the last one. -/
structure IsPath (start : ι) (branch : List (κ × ν)) : Prop where
  last : branch.getLast? = L.entry? start
  linked : branch.IsChain fun before after => L.entry? (L.next after.2) = some before

/-- A path without repetition that goes as far back as there are other entries. -/
structure IsBranch (start : ι) (branch : List (κ × ν)) : Prop extends L.IsPath start branch where
  distinct : (branch.map Prod.fst).Nodup
  whole : ∀ first ∈ branch.head?, ∀ entry, L.entry? (L.next first.2) = some entry → entry ∈ branch

section
variable {L} {start id : ι} {path branch : List (κ × ν)} {entry : κ × ν}

theorem Walk.distinct (h : L.Walk start path id) : (path.map Prod.fst).Nodup := by
  induction h with
  | start => exact List.nodup_nil
  | back _ _ hnew ih => exact List.nodup_cons.mpr ⟨hnew, ih⟩

theorem Walk.named (h : L.Walk start path id) : ∀ seen ∈ path, ∃ i, L.entry? i = some seen := by
  induction h with
  | start => exact fun seen hseen => by cases hseen
  | back _ hentry _ ih =>
    intro seen hseen
    rcases List.mem_cons.mp hseen with rfl | hseen
    · exact ⟨_, hentry⟩
    · exact ih seen hseen

/-- Where a walk is: at its start, or behind its last entry. -/
theorem Walk.at (h : L.Walk start path id) :
    (path = [] ∧ id = start) ∨ ∃ first rest, path = first :: rest ∧ id = L.next first.2 := by
  cases h with
  | start => exact .inl ⟨rfl, rfl⟩
  | back => exact .inr ⟨_, _, rfl, rfl⟩

theorem Walk.isPath (h : L.Walk start path id) (hstart : path = [] → L.entry? start = none) :
    L.IsPath start path := by
  induction h with
  | start => exact ⟨(hstart rfl).symm, List.IsChain.nil⟩
  | @back path id entry h hentry hnew ih =>
    rcases h.at with ⟨rfl, rfl⟩ | ⟨first, rest, rfl, rfl⟩
    · exact ⟨hentry.symm, List.IsChain.singleton entry⟩
    · obtain ⟨hlast, hlinked⟩ := ih fun hnil => by cases hnil
      refine ⟨?_, List.isChain_cons_cons.mpr ⟨hentry, hlinked⟩⟩
      rw [List.getLast?_cons_cons]
      exact hlast

/-- A walk that comes to nothing new has gone back over a branch. -/
theorem Walk.isBranch (h : L.Walk start path id)
    (hend : ∀ entry, L.entry? id = some entry → entry.1 ∈ path.map Prod.fst) : L.IsBranch start path := by
  have hstart : path = [] → L.entry? start = none := by
    rintro rfl
    rcases h.at with ⟨-, rfl⟩ | ⟨first, rest, hpath, -⟩
    · cases hentry : L.entry? id with
      | none => rfl
      | some entry => cases hend entry hentry
    · cases hpath
  refine ⟨h.isPath hstart, h.distinct, fun first hfirst entry hentry => ?_⟩
  rcases h.at with ⟨rfl, -⟩ | ⟨head, rest, rfl, rfl⟩
  · cases hfirst
  · obtain rfl := Option.some.inj hfirst
    obtain ⟨seen, hseen, hkey⟩ := List.mem_map.mp (hend entry hentry)
    obtain ⟨i, hi⟩ := h.named seen hseen
    rw [← L.keyed i _ seen entry hi hentry hkey]
    exact hseen

/-- What stands before the entries passed is what comes next. -/
theorem Walk.entry_of_path (h : L.Walk start path id) {front : List (κ × ν)}
    (hpath : L.IsPath start (front ++ entry :: path)) : L.entry? id = some entry := by
  rcases h.at with ⟨rfl, rfl⟩ | ⟨first, rest, rfl, rfl⟩
  · rw [← hpath.last, List.getLast?_append]
    rfl
  · have hlinked := (List.isChain_append.mp hpath.linked).2.1
    exact (List.isChain_cons_cons.mp hlinked).1

theorem Walk.front (h : L.Walk start path id) (hpath : L.IsPath start branch)
    (hsuffix : path <:+ branch) (hlength : path.length < branch.length) :
    ∃ entry, L.entry? id = some entry ∧ entry :: path <:+ branch := by
  obtain ⟨front, rfl⟩ := hsuffix
  rcases List.eq_nil_or_concat front with rfl | ⟨before, entry, rfl⟩
  · exact absurd hlength (Nat.lt_irrefl _)
  · rw [List.concat_eq_append, List.append_assoc] at hpath ⊢
    exact ⟨entry, h.entry_of_path hpath, before, rfl⟩

/-- A path begins as the walk does. -/
theorem Walk.suffix (h : L.Walk start path id) (hpath : L.IsPath start branch)
    (hlength : path.length ≤ branch.length) : path <:+ branch := by
  induction h with
  | start => exact List.nil_suffix
  | @back path id entry h hentry _ ih =>
    obtain ⟨entry', hentry', hsuffix⟩ := h.front hpath (ih (Nat.le_of_lt hlength)) hlength
    rw [hentry] at hentry'
    obtain rfl := Option.some.inj hentry'
    exact hsuffix

end

end Links

end Library
