import Mathlib.Data.List.Infix
import ResearchGateway.Library.Table

/-! Directories and files.

A path is the list of its names from the top, and the top is a directory that is always there.
The directory of an entry is there too (`closed`), so an operation can only build trees without
loose ends. There are no links. An operation that the system refuses is `none`. -/
namespace Library

inductive Node (δ : Type) where
  | dir
  | file (data : δ)
  deriving DecidableEq

structure FileTree (κ δ : Type) [DecidableEq κ] where
  entries : Table (List κ × Node δ) (List κ) Prod.fst
  closed : ∀ path name, (entries.find? (path ++ [name])).isSome →
    path = [] ∨ entries.find? path = some (path, .dir)

namespace FileTree
variable {κ δ : Type} [DecidableEq κ]

/-- Nothing but the top. -/
def empty : FileTree κ δ := ⟨.empty, fun _ _ h => by cases h⟩

def node (t : FileTree κ δ) (path : List κ) : Option (Node δ) :=
  if path = [] then some .dir else (t.entries.find? path).map Prod.snd

section
variable {t t' : FileTree κ δ} {path path' : List κ} {name : κ} {x : Node δ}

@[simp] theorem node_nil : t.node [] = some .dir := rfl

theorem node_empty (h : path ≠ []) : (empty : FileTree κ δ).node path = none := if_neg h

theorem find?_of_node (h : t.node path = some x) (hpath : path ≠ []) : t.entries.find? path = some (path, x) := by
  rw [node, if_neg hpath] at h
  obtain ⟨entry, hentry, rfl⟩ := Option.map_eq_some_iff.mp h
  rw [hentry, ← Table.key_of_find? hentry]

theorem node_of_find? (h : t.entries.find? path = some (path, x)) (hpath : path ≠ []) : t.node path = some x := by
  rw [node, if_neg hpath, h]
  rfl

/-- An entry is in a directory. -/
theorem node_parent (h : (t.node (path ++ [name])).isSome) : t.node path = some .dir := by
  rw [node, if_neg (by simp), Option.isSome_map] at h
  rcases t.closed path name h with rfl | hdir
  · rfl
  · by_cases hpath : path = []
    · rw [hpath, node_nil]
    · exact node_of_find? hdir hpath

theorem node_above {more : List κ} (h : (t.node (path ++ more)).isSome) (hmore : more ≠ []) :
    t.node path = some .dir := by
  induction more using List.reverseRecOn with
  | nil => exact (hmore rfl).elim
  | append_singleton more name ih =>
    rw [← List.append_assoc] at h
    have hparent := node_parent h
    by_cases hnil : more = []
    · rwa [hnil, List.append_nil] at hparent
    · exact ih (by rw [hparent]; rfl) hnil

end

/-! ### One entry -/

/-- The table with an entry that is new or overwritten. -/
def set (entries : Table (List κ × Node δ) (List κ) Prod.fst) (path : List κ) (x : Node δ) :
    Table (List κ × Node δ) (List κ) Prod.fst :=
  if h : entries.Fresh path then entries.insert (path, x) h else entries.put (path, x)

theorem find?_set (entries : Table (List κ × Node δ) (List κ) Prod.fst) (path path' : List κ) (x : Node δ) :
    (set entries path x).find? path' = if path = path' then some (path, x) else entries.find? path' := by
  unfold set
  split
  · next h => exact Table.find?_insert entries (path, x) h path'
  · next h =>
    rw [Table.find?_put]
    split
    · next heq =>
      obtain ⟨entry, hentry⟩ := Option.ne_none_iff_exists'.mp (mt Table.find?_eq_none.mp h)
      rw [← heq, hentry]
      rfl
    · rfl

def isDir (t : FileTree κ δ) (path : List κ) : Bool :=
  match t.node path with
  | some .dir => true
  | _ => false

theorem isDir_iff {t : FileTree κ δ} {path : List κ} : t.isDir path = true ↔ t.node path = some .dir := by
  unfold isDir
  split
  · next h => simp [h]
  · next h => simpa using h

theorem closed_set {t : FileTree κ δ} {path : List κ} (x : Node δ)
    (h : path ≠ [] ∧ t.isDir path.dropLast = true ∧ t.isDir path = false) (above : List κ) (name : κ)
    (hentry : ((set t.entries path x).find? (above ++ [name])).isSome) :
    above = [] ∨ (set t.entries path x).find? above = some (above, .dir) := by
  obtain ⟨hpath, hparent, hnew⟩ := h
  by_cases hnil : above = []
  · exact .inl hnil
  · refine .inr ?_
    have hother : path ≠ above → (set t.entries path x).find? above = t.entries.find? above := by
      intro hne
      rw [find?_set, if_neg hne]
    rw [find?_set] at hentry
    split at hentry
    · next heq =>
      subst heq
      rw [List.dropLast_concat] at hparent
      rw [hother (by simp)]
      exact find?_of_node (isDir_iff.mp hparent) hnil
    · have hdir := (t.closed above name hentry).resolve_left hnil
      rw [hother, hdir]
      intro heq
      rw [heq, isDir_iff.mpr (node_of_find? hdir hnil)] at hnew
      cases hnew

/-- Put an entry into a directory that is there; a directory is not overwritten. -/
def place? (t : FileTree κ δ) (path : List κ) (x : Node δ) : Option (FileTree κ δ) :=
  if h : path ≠ [] ∧ t.isDir path.dropLast = true ∧ t.isDir path = false then
    some ⟨set t.entries path x, closed_set x h⟩
  else none

theorem closed_keep {t : FileTree κ δ} {path : List κ}
    (h : ∀ entry ∈ t.entries.rows, path <+: entry.1 → entry.1 = path) (above : List κ) (name : κ)
    (hentry : ((t.entries.keep fun entry => entry.1 ≠ path).find? (above ++ [name])).isSome) :
    above = [] ∨ (t.entries.keep fun entry => entry.1 ≠ path).find? above = some (above, .dir) := by
  by_cases hnil : above = []
  · exact .inl hnil
  · refine .inr ?_
    obtain ⟨entry, hentry⟩ := Option.isSome_iff_exists.mp hentry
    rw [Table.find?_keep, Option.filter_eq_some_iff] at hentry
    obtain ⟨hrow, hkey⟩ := Table.find?_eq_some.mp hentry.1
    have hdir := (t.closed above name (by rw [hentry.1]; rfl)).resolve_left hnil
    rw [Table.find?_keep, hdir]
    refine Option.filter_some_pos (decide_eq_true fun heq : above = path => ?_)
    have hbelow := h entry hrow (by rw [hkey, ← heq]; exact List.prefix_append ..)
    rw [hkey, ← heq] at hbelow
    simp at hbelow

/-- Remove an entry with nothing below it. -/
def remove? (t : FileTree κ δ) (path : List κ) : Option (FileTree κ δ) :=
  if h : path ≠ [] ∧ ∀ entry ∈ t.entries.rows, path <+: entry.1 → entry.1 = path then
    some ⟨t.entries.keep fun entry => entry.1 ≠ path, closed_keep h.2⟩
  else none

section
variable {t t' : FileTree κ δ} {path : List κ} {x : Node δ}

theorem place?_eq_some (h : t.place? path x = some t') :
    (path ≠ [] ∧ t.isDir path.dropLast = true ∧ t.isDir path = false) ∧
      ∀ path', t'.node path' = if path' = path then some x else t.node path' := by
  unfold place? at h
  obtain ⟨hallowed, h⟩ := Option.dite_none_right_eq_some.mp h
  obtain rfl := Option.some.inj h
  refine ⟨hallowed, fun path' => ?_⟩
  by_cases hnil : path' = []
  · rw [hnil, node_nil, if_neg hallowed.1.symm, node_nil]
  · rw [node, if_neg hnil, find?_set]
    split
    · next heq =>
      rw [if_pos heq.symm]
      rfl
    · next hne => rw [if_neg (Ne.symm hne), node, if_neg hnil]

theorem remove?_eq_some (h : t.remove? path = some t') :
    path ≠ [] ∧ ∀ path', t'.node path' = if path' = path then none else t.node path' := by
  unfold remove? at h
  obtain ⟨hallowed, h⟩ := Option.dite_none_right_eq_some.mp h
  obtain rfl := Option.some.inj h
  have hpath := hallowed.1
  refine ⟨hpath, fun path' => ?_⟩
  by_cases hnil : path' = []
  · rw [hnil, node_nil, if_neg hpath.symm, node_nil]
  · rw [node, if_neg hnil, node, if_neg hnil, Table.find?_keep]
    cases hentry : t.entries.find? path' with
    | none => simp
    | some entry =>
      have hkey : entry.1 = path' := Table.key_of_find? hentry
      by_cases heq : path' = path
      · rw [if_pos heq, Option.filter_some_neg (by simp [hkey, heq])]
        rfl
      · rw [if_neg heq, Option.filter_some_pos (by simp [hkey, heq])]

end

/-! ### The calls of the system -/

/-- `os.makedirs` from a directory that is there: each directory that is missing. -/
def makeDirs (t : FileTree κ δ) (above : List κ) : List κ → Option (FileTree κ δ)
  | [] => some t
  | name :: rest =>
    match t.node (above ++ [name]) with
    | some .dir => makeDirs t (above ++ [name]) rest
    | some (.file _) => none
    | none => (t.place? (above ++ [name]) .dir).bind fun t => makeDirs t (above ++ [name]) rest

/-- Write a file. -/
def write? (t : FileTree κ δ) (path : List κ) (data : δ) : Option (FileTree κ δ) := t.place? path (.file data)

/-- Write to a file that is open. Where it was unlinked since, the bytes are lost with it. -/
def fill (t : FileTree κ δ) (path : List κ) (data : δ) : FileTree κ δ :=
  match t.node path with
  | some (.file _) => (t.write? path data).getD t
  | _ => t

/-- There is a file on the way. -/
def isBlocked (t : FileTree κ δ) (path : List κ) : Bool :=
  path.inits.any fun above =>
    match t.node above with
    | some (.file _) => true
    | _ => false

/-- `unlink`; a file that is missing is no error. -/
def unlink? (t : FileTree κ δ) (path : List κ) : Option (FileTree κ δ) :=
  match t.node path with
  | some (.file _) => t.remove? path
  | some .dir => none
  | none => if t.isBlocked path then none else some t

/-- `rmdir`, of an empty directory. -/
def rmdir? (t : FileTree κ δ) (path : List κ) : Option (FileTree κ δ) :=
  if t.isDir path then t.remove? path else none

/-- Remove empty directories upwards until one is left, or the root is met. The path is given
from its last name on. -/
def prune (t : FileTree κ δ) (root : List κ) : List κ → FileTree κ δ
  | [] => t
  | name :: above =>
    if (name :: above).reverse = root then t
    else
      match t.rmdir? (name :: above).reverse with
      | none => t
      | some t => prune t root above

/-- What is below a directory, at any depth. -/
def below (t : FileTree κ δ) (dir : List κ) : List (List κ × Node δ) :=
  t.entries.rows.filter fun entry => dir <+: entry.1 ∧ entry.1 ≠ dir

section
variable {t t' : FileTree κ δ} {path above names root dir : List κ} {x : Node δ} {data : δ}

theorem makeDirs_eq_some (habove : t.node above = some .dir) (h : t.makeDirs above names = some t') :
    t'.node (above ++ names) = some .dir ∧ ∀ path, t'.node path = t.node path ∨
      (t.node path = none ∧ t'.node path = some .dir ∧ path <+: above ++ names) := by
  induction names generalizing t above with
  | nil =>
    obtain rfl := Option.some.inj h
    exact ⟨by rwa [List.append_nil], fun _ => .inl rfl⟩
  | cons name rest ih =>
    rw [makeDirs] at h
    rw [List.append_cons]
    cases hnode : t.node (above ++ [name]) with
    | some found =>
      rw [hnode] at h
      cases found with
      | dir => exact ih hnode h
      | file data => cases h
    | none =>
      rw [hnode] at h
      obtain ⟨made, hmade, h⟩ := Option.bind_eq_some_iff.mp h
      obtain ⟨-, hplaced⟩ := place?_eq_some hmade
      obtain ⟨hdir, hkept⟩ := ih (by rw [hplaced, if_pos rfl]) h
      refine ⟨hdir, fun path => ?_⟩
      by_cases hpath : path = above ++ [name]
      · refine .inr ⟨by rw [hpath, hnode], ?_, by rw [hpath]; exact List.prefix_append ..⟩
        rcases hkept path with hsame | ⟨-, hnew, -⟩
        · rw [hsame, hplaced, if_pos hpath]
        · exact hnew
      · rcases hkept path with hsame | ⟨hnone, hnew, habove⟩
        · rw [hplaced, if_neg hpath] at hsame
          exact .inl hsame
        · rw [hplaced, if_neg hpath] at hnone
          exact .inr ⟨hnone, hnew, habove⟩

/-- Where the directories are there already, nothing is made. -/
theorem makeDirs_exists (h : t.node (above ++ names) = some .dir) : t.makeDirs above names = some t := by
  induction names generalizing above with
  | nil => rfl
  | cons name rest ih =>
    rw [List.append_cons] at h
    have hdir : t.node (above ++ [name]) = some .dir := by
      by_cases hrest : rest = []
      · rwa [hrest, List.append_nil] at h
      · exact node_above (by rw [h]; rfl) hrest
    rw [makeDirs, hdir]
    exact ih h

theorem write?_eq_some (h : t.write? path data = some t') :
    t.node path ≠ some .dir ∧
      ∀ path', t'.node path' = if path' = path then some (.file data) else t.node path' := by
  obtain ⟨⟨-, -, hnew⟩, hwritten⟩ := place?_eq_some h
  refine ⟨fun hdir => ?_, hwritten⟩
  rw [isDir_iff.mpr hdir] at hnew
  cases hnew

theorem unlink?_eq_some (h : t.unlink? path = some t') :
    t.node path ≠ some .dir ∧ ∀ path', t'.node path' = if path' = path then none else t.node path' := by
  unfold unlink? at h
  cases hnode : t.node path with
  | some found =>
    rw [hnode] at h
    cases found with
    | dir => cases h
    | file data => exact ⟨nofun, (remove?_eq_some h).2⟩
  | none =>
    rw [hnode] at h
    obtain ⟨-, h⟩ := Option.ite_none_left_eq_some.mp h
    obtain rfl := Option.some.inj h
    refine ⟨nofun, fun path' => ?_⟩
    split
    · next heq => rw [heq, hnode]
    · rfl

theorem rmdir?_eq_some (h : t.rmdir? path = some t') :
    t.node path = some .dir ∧ path ≠ [] ∧
      ∀ path', t'.node path' = if path' = path then none else t.node path' := by
  unfold rmdir? at h
  obtain ⟨hdir, h⟩ := Option.ite_none_right_eq_some.mp h
  exact ⟨isDir_iff.mp hdir, remove?_eq_some h⟩

/-- From a directory below the root, only directories between the two are removed. -/
theorem prune_node {names : List κ} (hroot : root <+: names.reverse) (path : List κ) :
    (t.prune root names).node path = t.node path ∨
      (t.node path = some .dir ∧ (t.prune root names).node path = none ∧ root <+: path ∧ path ≠ root) := by
  induction names generalizing t with
  | nil => exact .inl rfl
  | cons name above ih =>
    rw [prune]
    split
    · exact .inl rfl
    · next hne =>
      cases hrmdir : t.rmdir? (name :: above).reverse with
      | none => exact .inl rfl
      | some removed =>
        obtain ⟨hdir, -, hremoved⟩ := rmdir?_eq_some hrmdir
        have habove : root <+: above.reverse := by
          rw [List.reverse_cons] at hroot hne
          exact (List.prefix_concat_iff.mp hroot).resolve_left (Ne.symm hne)
        simp only
        rcases ih (t := removed) habove with hsame | ⟨hremoved', hnone, hbelow⟩
        · rw [hsame, hremoved]
          split
          · next heq => exact .inr ⟨by rw [heq, hdir], rfl, by rw [heq]; exact hroot, by rw [heq]; exact hne⟩
          · exact .inl rfl
        · rw [hremoved] at hremoved'
          split at hremoved'
          · cases hremoved'
          · exact .inr ⟨hremoved', hnone, hbelow⟩

theorem place?_isSome (hpath : path ≠ []) (hparent : t.node path.dropLast = some .dir) (hnew : t.node path ≠ some .dir) :
    (t.place? path x).isSome := by
  have hdir : t.isDir path = false := Bool.eq_false_iff.mpr (mt isDir_iff.mp hnew)
  rw [place?, dif_pos ⟨hpath, isDir_iff.mpr hparent, hdir⟩]
  rfl

theorem fill_node {old : δ} (hfile : t.node path = some (.file old)) (path' : List κ) :
    (t.fill path data).node path' = if path' = path then some (.file data) else t.node path' := by
  have hpath : path ≠ [] := by
    rintro rfl
    cases hfile
  obtain ⟨above, name, rfl⟩ : ∃ above name, path = above ++ [name] := ⟨_, _, (List.dropLast_concat_getLast hpath).symm⟩
  have hparent := node_parent (t := t) (by rw [hfile]; rfl)
  have hplaced : (t.place? (above ++ [name]) (.file data)).isSome :=
    place?_isSome hpath (by rwa [List.dropLast_concat]) (by rw [hfile]; nofun)
  obtain ⟨written, hwritten⟩ := Option.isSome_iff_exists.mp hplaced
  have hfill : t.fill (above ++ [name]) data = written := by
    simp only [fill, hfile, write?, hwritten, Option.getD_some]
  rw [hfill]
  exact (place?_eq_some hwritten).2 path'

/-- A file that cannot be written cannot be written, whatever its data are. -/
theorem write?_eq_none {other : δ} (h : t.write? path data = none) : t.write? path other = none := by
  rw [write?, place?, dite_eq_right_iff] at h ⊢
  intro hallowed
  cases h hallowed

theorem fill_cases (t : FileTree κ δ) (path : List κ) (data : δ) :
    t.fill path data = t ∨ ∃ old, t.node path = some (.file old) := by
  unfold fill
  split
  · next old hfile => exact .inr ⟨old, hfile⟩
  · exact .inl rfl

theorem set_rows (entries : Table (List κ × Node δ) (List κ) Prod.fst) (path : List κ) (x : Node δ) :
    (set entries path x).rows =
      if entries.Fresh path then entries.rows ++ [(path, x)]
      else entries.rows.map fun entry => if entry.1 = path then (path, x) else entry := by
  unfold set
  split <;> rfl

theorem set_set (entries : Table (List κ × Node δ) (List κ) Prod.fst) (path : List κ) (x y : Node δ) :
    set (set entries path x) path y = set entries path y := by
  have hpresent : ¬ (set entries path x).Fresh path := by
    rw [← Table.find?_eq_none, find?_set, if_pos rfl]
    nofun
  refine Table.ext_rows ?_
  rw [set_rows, if_neg hpresent, set_rows, set_rows]
  split
  · next hfresh =>
    rw [List.map_append, List.map_singleton, if_pos rfl]
    refine congrArg (· ++ [(path, y)]) ?_
    conv_rhs => rw [← List.map_id entries.rows]
    exact List.map_congr_left fun entry hentry => if_neg (hfresh entry hentry)
  · rw [List.map_map]
    refine List.map_congr_left fun entry _ => ?_
    by_cases hentry : entry.1 = path <;> simp [hentry]

/-- A file that is written once it is open is written at once. -/
theorem fill_write {old : δ} {opened : FileTree κ δ} (h : t.write? path old = some opened) :
    t.write? path data = some (opened.fill path data) := by
  obtain ⟨hallowed, hnodes⟩ := place?_eq_some h
  have hfile : opened.node path = some (.file old) := by rw [hnodes, if_pos rfl]
  have hagain : path ≠ [] ∧ opened.isDir path.dropLast = true ∧ opened.isDir path = false := by
    refine ⟨hallowed.1, ?_, Bool.eq_false_iff.mpr fun hdir => ?_⟩
    · have hne : path.dropLast ≠ path := fun heq => by
        have hlength := congrArg List.length heq
        rw [List.length_dropLast] at hlength
        have hpos := List.length_pos_iff.mpr hallowed.1
        omega
      rw [isDir_iff, hnodes, if_neg hne]
      exact isDir_iff.mp hallowed.2.1
    · rw [isDir_iff.mp hdir] at hfile
      cases hfile
  have hentries : opened.entries = set t.entries path (.file old) := by
    rw [write?, place?, dif_pos hallowed] at h
    rw [← Option.some.inj h]
  have hfilled : opened.fill path data = ⟨set opened.entries path (.file data), closed_set (.file data) hagain⟩ := by
    simp only [fill, hfile, write?, place?, dif_pos hagain, Option.getD_some]
  rw [hfilled, write?, place?, dif_pos hallowed]
  congr 2
  rw [hentries, set_set]

theorem isBlocked_iff : t.isBlocked path = true ↔ ∃ above data, above <+: path ∧ t.node above = some (.file data) := by
  simp only [isBlocked, List.any_eq_true, List.mem_inits]
  constructor
  · rintro ⟨above, hway, hfile⟩
    cases hnode : t.node above with
    | none => simp [hnode] at hfile
    | some found =>
      cases found with
      | dir => simp [hnode] at hfile
      | file data => exact ⟨above, data, hway, hnode⟩
  · rintro ⟨above, data, hway, hnode⟩
    exact ⟨above, hway, by rw [hnode]⟩

/-- Where no file is on the way, the directories can be made. -/
theorem makeDirs_isSome (habove : t.node above = some .dir)
    (h : ∀ path, path <+: above ++ names → ∀ data, t.node path ≠ some (.file data)) : (t.makeDirs above names).isSome := by
  induction names generalizing t above with
  | nil => rfl
  | cons name rest ih =>
    rw [List.append_cons] at h
    rw [makeDirs]
    cases hnode : t.node (above ++ [name]) with
    | some found =>
      cases found with
      | dir => exact ih hnode h
      | file data => exact absurd hnode (h _ (List.prefix_append ..) data)
    | none =>
      have hplaced : (t.place? (above ++ [name]) .dir).isSome :=
        place?_isSome (by simp) (by rwa [List.dropLast_concat]) (by rw [hnode]; nofun)
      obtain ⟨made, hmade⟩ := Option.isSome_iff_exists.mp hplaced
      obtain ⟨-, hnodes⟩ := place?_eq_some hmade
      rw [hmade]
      refine ih (by rw [hnodes, if_pos rfl]) fun path hpath data hfile => ?_
      rw [hnodes] at hfile
      split at hfile
      · cases hfile
      · exact h path hpath data hfile

/-- Nothing is below a file. -/
theorem remove?_isSome (hfile : t.node path = some (.file data)) : (t.remove? path).isSome := by
  have hpath : path ≠ [] := by
    intro hnil
    rw [hnil, node_nil] at hfile
    cases hfile
  have hbare : ∀ entry ∈ t.entries.rows, path <+: entry.1 → entry.1 = path := by
    intro entry hentry hbelow
    obtain ⟨more, hmore⟩ := hbelow
    by_cases hnil : more = []
    · rw [← hmore, hnil, List.append_nil]
    · have hnode : t.node (path ++ more) = some entry.2 :=
        node_of_find? (Table.find?_eq_some.mpr ⟨hentry, hmore.symm⟩ |>.trans (by rw [hmore])) (by simp [hpath])
      rw [node_above (by rw [hnode]; rfl) hnil] at hfile
      cases hfile
  rw [remove?, dif_pos ⟨hpath, hbare⟩]
  rfl

/-- What is no directory can be unlinked if no file is above it. -/
theorem unlink?_isSome (hdir : t.node path ≠ some .dir)
    (h : ∀ above, above <+: path → above ≠ path → ∀ data, t.node above ≠ some (.file data)) : (t.unlink? path).isSome := by
  unfold unlink?
  cases hnode : t.node path with
  | some found =>
    cases found with
    | dir => exact absurd hnode hdir
    | file data => exact remove?_isSome hnode
  | none =>
    have hfree : t.isBlocked path = false := by
      refine Bool.eq_false_iff.mpr fun hblocked => ?_
      obtain ⟨above, data, habove, hfile⟩ := isBlocked_iff.mp hblocked
      have hne : above ≠ path := by
        rintro rfl
        rw [hnode] at hfile
        cases hfile
      exact h above habove hne data hfile
    simp [hfree]

omit [DecidableEq κ] in
theorem ne_nil_of_below (hbelow : dir <+: path) (hne : path ≠ dir) : path ≠ [] := by
  intro hnil
  rw [hnil] at hbelow hne
  exact hne (List.prefix_nil.mp hbelow).symm

theorem mem_below : (path, x) ∈ t.below dir ↔ dir <+: path ∧ path ≠ dir ∧ t.node path = some x := by
  unfold below
  rw [List.mem_filter, decide_eq_true_eq]
  constructor
  · intro h
    obtain ⟨hrow, hbelow, hne⟩ := h
    have hpath := ne_nil_of_below hbelow hne
    exact ⟨hbelow, hne, node_of_find? (Table.find?_eq_some.mpr ⟨hrow, rfl⟩) hpath⟩
  · intro h
    obtain ⟨hbelow, hne, hnode⟩ := h
    have hpath := ne_nil_of_below hbelow hne
    exact ⟨(Table.find?_eq_some.mp (find?_of_node hnode hpath)).1, hbelow, hne⟩

theorem below_nodup (t : FileTree κ δ) (dir : List κ) : ((t.below dir).map Prod.fst).Nodup :=
  t.entries.unique.sublist (List.filter_sublist.map Prod.fst)

end

end FileTree

end Library
