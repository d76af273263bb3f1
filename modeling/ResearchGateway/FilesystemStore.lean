import ResearchGateway.Domain
import ResearchGateway.Library.FileTree
import ResearchGateway.Library.Machine
import ResearchGateway.ObjectKey

/-! The artifact store in a directory.

A key is a path below the root, and its object is the file there. `put` makes the directories of
the file, the root among them; `delete` removes the directories that it leaves empty, up to the
root. `Holds` says which objects a tree has, and each call keeps it (`Holds.next`). The tree has
names of any length; what is said of calls that return is said of keys that a file system and a
bucket take (`IsShort`). -/
namespace ResearchGateway
open Library ObjectKey

namespace FilesystemStore

structure StoredArtifact where
  objectKey : Text
  size : Nat
  deriving DecidableEq

structure StoredObject where
  objectKey : Text
  lastModified : Time
  deriving DecidableEq

structure StoredFile where
  data : List UInt8
  modified : Time
  deriving DecidableEq

abbrev Tree := FileTree FileName StoredFile

/-- No name of the path is longer than `NAME_MAX`, and the key no longer than S3 takes. -/
def IsShort (key : Text) : Prop :=
  (∀ part ∈ parts key, part.fsencode?.all (fun name => name.length ≤ 255) = true) ∧
    key.fsencode?.all (fun bytes => bytes.length ≤ 1024) = true

instance (key : Text) : Decidable (IsShort key) := inferInstanceAs (Decidable (_ ∧ _))

/-- The objects of a store, under the parts of their keys. -/
abbrev Contents := List Text → Option StoredFile

section
variable (root : List FileName)

/-- `self.root / key`; `none` where the system refuses a name. -/
def path? (key : Text) : Option (List FileName) := ((parts key).mapM Text.fsencode?).map (root ++ ·)

/-- `path.parent`. -/
def parent? (key : Text) : Option (List FileName) :=
  if parts key = [] then some root.dropLast
  else ((parts key).dropLast.mapM Text.fsencode?).map (root ++ ·)

/-- `put`: what it returns, or `none` where it raises. -/
def put (now : Time) (objectKey : Text) (data : List UInt8) (t : Tree) : Option StoredArtifact × Tree :=
  match safeObjectKey? objectKey with
  | none => (none, t)
  | some key =>
    match (parent? root key).bind (t.makeDirs []) with
    | none => (none, t)
    | some made =>
      match (path? root key).bind fun path => made.write? path ⟨data, now⟩ with
      -- The directories stay.
      | none => (none, made)
      | some written => (some ⟨key, data.length⟩, written)

/-- `get`; `none` where it raises. -/
def get (objectKey : Text) (t : Tree) : Option (List UInt8) :=
  match ((safeObjectKey? objectKey).bind (path? root)).bind t.node with
  | some (.file file) => some file.data
  | _ => none

/-- `delete`; `none` where it raises. -/
def delete (objectKey : Text) (t : Tree) : Option Unit × Tree :=
  match (safeObjectKey? objectKey).bind (path? root) with
  | none => (none, t)
  | some path =>
    match t.unlink? path with
    | none => (none, t)
    | some removed => (some (), removed.prune root path.dropLast.reverse)

/-- What `list_objects` makes of an entry below the root. -/
def listed (entry : List FileName × Node StoredFile) : Option StoredObject :=
  match entry.2 with
  | .dir => none
  | .file file => some ⟨asPosix ((entry.1.drop root.length).map FileName.fsdecode), file.modified⟩

/-- `list_objects`; `none` where it raises. -/
def listObjects (pfx : Text) (t : Tree) : Option (List StoredObject) :=
  (safeObjectKey? pfx).map fun key =>
    match path? root key with
    | none => []
    | some path => if (t.node path).isSome then (t.below path).filterMap (listed root) else []

end

/-! ### Calls -/

inductive StoreCall where
  | put (objectKey : Text) (data : List UInt8) (now : Time)
  | delete (objectKey : Text)
  deriving DecidableEq

namespace StoreCall

def objectKey : StoreCall → Text
  | .put key .. | .delete key => key

def isPut : StoreCall → Bool
  | .put .. => true
  | .delete _ => false

/-- What a call that returns leaves under its key. -/
def file? : StoreCall → Option StoredFile
  | .put _ data now => some ⟨data, now⟩
  | .delete _ => none

/-- The tree after the call. -/
def next (root : List FileName) (t : Tree) : StoreCall → Tree
  | .put key data now => (FilesystemStore.put root now key data t).2
  | .delete key => (FilesystemStore.delete root key t).2

/-- The call does not raise. -/
def returns (root : List FileName) (t : Tree) : StoreCall → Bool
  | .put key data now => (FilesystemStore.put root now key data t).1.isSome
  | .delete key => (FilesystemStore.delete root key t).1.isSome

/-- What a call that returns does to the objects. -/
def effect (contents : Contents) (call : StoreCall) : Contents :=
  match safeParts? call.objectKey with
  | none => contents
  | some ps => Function.update contents ps call.file?

end StoreCall

/-- The calls on one store; a call that returns is emitted. -/
def storeMachine (root : List FileName) : Machine Tree StoreCall StoreCall where
  next call t := call.next root t
  out call t := if call.returns root t then [call] else []

/-- The objects after some calls that have returned. -/
def stored (contents : Contents) (calls : List StoreCall) : Contents := calls.foldl StoreCall.effect contents

/-! ### One call -/

/-- The parts of a safe key without surrogates, and the names of its file. -/
structure Spelled (ps : List Text) (names : List FileName) : Prop where
  parts : ∀ part ∈ ps, IsPart part ∧ part.isEncodable = true
  safe : dots ∉ ps
  encoded : ps.mapM Text.fsencode? = some names

/-- What a call does at a path that is not its own. -/
inductive Around (root : List FileName) (call : StoreCall) (t t' : Tree) (path : List FileName) : Prop where
  | same (h : t'.node path = t.node path)
  | made (hput : call.isPut = true) (h : t.node path = none) (h' : t'.node path = some .dir)
    (hroot : path <+: root ∨ root <+: path)
  | emptied (h : t.node path = some .dir) (h' : t'.node path = none) (hbelow : root <+: path) (hne : path ≠ root)

section
variable {root names : List FileName} {call : StoreCall} {t t' : Tree} {path : List FileName} {key : Text}
  {ps : List Text} {contents : Contents}

/-- A file is where it was. -/
theorem Around.file (h : Around root call t t' path) (file : StoredFile) :
    t'.node path = some (.file file) ↔ t.node path = some (.file file) := by
  cases h with
  | same h => rw [h]
  | made _ h h' => simp [h, h']
  | emptied h h' => simp [h, h']

/-- The tree afterwards counts only at the path. -/
theorem Around.congr {t'' : Tree} (h : Around root call t t' path) (hsame : t''.node path = t'.node path) :
    Around root call t t'' path := by
  cases h with
  | same h => exact .same (hsame.trans h)
  | made hput h h' hroot => exact .made hput h (hsame.trans h') hroot
  | emptied h h' hbelow hne => exact .emptied h (hsame.trans h') hbelow hne

/-- A root that is a directory stays one. -/
theorem Around.root_dir (h : Around root call t t' root) (hdir : t.node root = some .dir) :
    t'.node root = some .dir := by
  cases h with
  | same h => rw [h, hdir]
  | made _ _ h' => exact h'
  | emptied _ _ _ hne => exact (hne rfl).elim

theorem decoded (h : ps.mapM Text.fsencode? = some names) (hplain : ∀ part ∈ ps, part.isEncodable = true) :
    names.map FileName.fsdecode = ps := by
  induction ps generalizing names with
  | nil =>
    obtain rfl := Option.some.inj h
    rfl
  | cons part rest ih =>
    rw [List.mapM_cons] at h
    obtain ⟨name, hname, h⟩ := Option.bind_eq_some_iff.mp h
    obtain ⟨more, hmore, h⟩ := Option.bind_eq_some_iff.mp h
    obtain rfl := Option.some.inj h
    rw [List.map_cons, FileName.fsdecode_fsencode hname (hplain part List.mem_cons_self),
      ih hmore fun part hpart => hplain part (List.mem_cons_of_mem _ hpart)]

theorem Spelled.decoded (h : Spelled ps names) : names.map FileName.fsdecode = ps :=
  FilesystemStore.decoded h.encoded fun part hpart => (h.parts part hpart).2

theorem mapM_ne_nil (h : ps.mapM Text.fsencode? = some names) (hps : ps ≠ []) : names ≠ [] := by
  cases ps with
  | nil => exact (hps rfl).elim
  | cons part rest =>
    rw [List.mapM_cons] at h
    obtain ⟨name, -, h⟩ := Option.bind_eq_some_iff.mp h
    obtain ⟨more, -, h⟩ := Option.bind_eq_some_iff.mp h
    obtain rfl := Option.some.inj h
    exact List.cons_ne_nil _ _

theorem mapM_append {rest : List Text} (h : (ps ++ rest).mapM Text.fsencode? = some names) :
    ∃ front more, ps.mapM Text.fsencode? = some front ∧ rest.mapM Text.fsencode? = some more ∧
      names = front ++ more := by
  rw [List.mapM_append] at h
  obtain ⟨front, hfront, h⟩ := Option.bind_eq_some_iff.mp h
  obtain ⟨more, hmore, h⟩ := Option.bind_eq_some_iff.mp h
  exact ⟨front, more, hfront, hmore, (Option.some.inj h).symm⟩

/-- A key as it is used. -/
theorem safeObjectKey?_parts (h : safeParts? key = some ps) :
    safeObjectKey? key = some (asPosix ps) ∧ parts (asPosix ps) = ps := by
  obtain ⟨-, hparts, -⟩ := safeParts?_eq_some h
  exact ⟨by rw [safeObjectKey?, h]; rfl, parts_asPosix hparts⟩

theorem path?_eq (h : safeParts? key = some ps) :
    path? root (asPosix ps) = (ps.mapM Text.fsencode?).map (root ++ ·) := by
  rw [path?, (safeObjectKey?_parts h).2]

/-- The directories that are made for a file. -/
theorem parent?_made (h : safeParts? key = some ps) (hroot : ps = [] → t.node root = some .dir)
    (hmade : (parent? root (asPosix ps)).bind (t.makeDirs []) = some t') (hput : call.isPut = true)
    (path : List FileName) : Around root call t t' path := by
  unfold parent? at hmade
  rw [(safeObjectKey?_parts h).2] at hmade
  by_cases hps : ps = []
  · -- The directory of the root is there, as the root is.
    have hparent : t.node ([] ++ root.dropLast) = some .dir := by
      rw [List.nil_append]
      induction root using List.reverseRecOn with
      | nil => rfl
      | append_singleton above name =>
        rw [List.dropLast_concat]
        exact FileTree.node_parent (by rw [hroot hps]; rfl)
    rw [if_pos hps, Option.bind_some, FileTree.makeDirs_exists hparent] at hmade
    obtain rfl := Option.some.inj hmade
    exact .same rfl
  · rw [if_neg hps] at hmade
    obtain ⟨parent, hparent, hmade⟩ := Option.bind_eq_some_iff.mp hmade
    obtain ⟨above, -, rfl⟩ := Option.map_eq_some_iff.mp hparent
    rcases (FileTree.makeDirs_eq_some FileTree.node_nil hmade).2 path with hsame | ⟨hnone, hdir, hbefore⟩
    · exact .same hsame
    · exact .made hput hnone hdir (List.prefix_or_prefix_of_prefix hbefore (List.prefix_append root above))

/-- A file that was written, or nothing but directories. -/
theorem put_cases (now : Time) (data : List UInt8) (h : safeParts? key = some ps)
    (hroot : ps = [] → t.node root = some .dir) (hput : call.isPut = true) :
    ((put root now key data t).1 = none ∧ ∀ path, Around root call t (put root now key data t).2 path) ∨
      ∃ names, ps ≠ [] ∧ ps.mapM Text.fsencode? = some names ∧
        (put root now key data t).1 = some ⟨asPosix ps, data.length⟩ ∧
        (put root now key data t).2.node (root ++ names) = some (.file ⟨data, now⟩) ∧
        ∀ path, path ≠ root ++ names → Around root call t (put root now key data t).2 path := by
  unfold put
  rw [(safeObjectKey?_parts h).1]
  cases hmade : (parent? root (asPosix ps)).bind (t.makeDirs []) with
  | none => exact .inl ⟨by simp only [hmade], fun path => .same (by simp only [hmade])⟩
  | some made =>
    have haround := parent?_made h hroot hmade hput
    simp only [hmade]
    cases hwritten : (path? root (asPosix ps)).bind fun path => made.write? path ⟨data, now⟩ with
    | none => exact .inl ⟨rfl, haround⟩
    | some written =>
      dsimp only
      rw [path?_eq h] at hwritten
      obtain ⟨path, hpath, hwrite⟩ := Option.bind_eq_some_iff.mp hwritten
      obtain ⟨names, hnames, rfl⟩ := Option.map_eq_some_iff.mp hpath
      obtain ⟨hnew, hnodes⟩ := FileTree.write?_eq_some hwrite
      refine .inr ⟨names, fun hps => ?_, hnames, rfl, by rw [hnodes, if_pos rfl], fun path hne => ?_⟩
      · subst hps
        obtain rfl : [] = names := Option.some.inj hnames
        rw [List.append_nil] at hnew
        exact hnew ((haround root).root_dir (hroot rfl))
      · exact (haround path).congr (by rw [hnodes, if_neg hne])

theorem delete_cases (h : safeParts? key = some ps) (hroot : ps = [] → t.node root = some .dir) :
    delete root key t = (none, t) ∨
      ∃ names, ps ≠ [] ∧ ps.mapM Text.fsencode? = some names ∧ (delete root key t).1 = some () ∧
        (delete root key t).2.node (root ++ names) = none ∧
        ∀ path, path ≠ root ++ names → Around root call t (delete root key t).2 path := by
  unfold delete
  rw [(safeObjectKey?_parts h).1, Option.bind_some, path?_eq h]
  cases hnames : ps.mapM Text.fsencode? with
  | none => exact .inl rfl
  | some names =>
    cases hunlink : t.unlink? (root ++ names) with
    | none => exact .inl (by rw [Option.map_some]; simp only [hunlink])
    | some removed =>
      obtain ⟨hfile, hremoved⟩ := FileTree.unlink?_eq_some hunlink
      have hps : ps ≠ [] := by
        intro hps
        subst hps
        obtain rfl : [] = names := Option.some.inj hnames
        rw [List.append_nil] at hfile
        exact hfile (hroot rfl)
      have hbelow : root <+: ((root ++ names).dropLast.reverse).reverse := by
        rw [List.reverse_reverse, List.dropLast_append_of_ne_nil (mapM_ne_nil hnames hps)]
        exact List.prefix_append ..
      rw [Option.map_some]
      simp only [hunlink]
      refine .inr ⟨names, hps, rfl, trivial, ?_, fun path hne => ?_⟩
      · rcases FileTree.prune_node (t := removed) hbelow (root ++ names) with hsame | ⟨-, hnone, -⟩
        · rw [hsame, hremoved, if_pos rfl]
        · exact hnone
      · rcases FileTree.prune_node (t := removed) hbelow path with hsame | ⟨hdir, hnone, hinside, hother⟩
        · exact .same (by rw [hsame, hremoved, if_neg hne])
        · rw [hremoved, if_neg hne] at hdir
          exact .emptied hdir hnone hinside hother

/-- What a call does: its own file, and directories around it. -/
theorem StoreCall.next_cases (h : safeParts? call.objectKey = some ps)
    (hroot : ps = [] → t.node root = some .dir) :
    (call.returns root t = false ∧ ∀ path, Around root call t (call.next root t) path) ∨
      ∃ names, ps ≠ [] ∧ ps.mapM Text.fsencode? = some names ∧ call.returns root t = true ∧
        (call.next root t).node (root ++ names) = call.file?.map .file ∧
        ∀ path, path ≠ root ++ names → Around root call t (call.next root t) path := by
  cases call with
  | put key data now =>
    have hkey : safeParts? key = some ps := h
    have hput : (StoreCall.put key data now).isPut = true := rfl
    rcases put_cases now data hkey hroot hput with ⟨hraised, haround⟩ |
      ⟨names, hps, hnames, hreturned, hfile, haround⟩
    · exact .inl ⟨by rw [returns, hraised]; rfl, haround⟩
    · exact .inr ⟨names, hps, hnames, by rw [returns, hreturned]; rfl, hfile, haround⟩
  | delete key =>
    have hkey : safeParts? key = some ps := h
    rcases delete_cases hkey hroot with hraised | ⟨names, hps, hnames, hreturned, hgone, haround⟩
    · exact .inl ⟨by rw [returns, hraised]; rfl, fun path => .same (by rw [next, hraised])⟩
    · exact .inr ⟨names, hps, hnames, by rw [returns, hreturned]; rfl, hgone, haround⟩

/-- A call with a key that is not safe raises at once. -/
theorem StoreCall.next_refused (h : safeParts? call.objectKey = none) :
    call.returns root t = false ∧ call.next root t = t := by
  cases call with
  | put key data now =>
    have hkey : safeObjectKey? key = none := safeObjectKey?_none h
    simp [returns, next, FilesystemStore.put, hkey]
  | delete key =>
    have hkey : safeObjectKey? key = none := safeObjectKey?_none h
    simp [returns, next, FilesystemStore.delete, hkey]

/-- A key that names the root is used while the root is a directory. -/
def StoreCall.RootThere (root : List FileName) (t : Tree) (call : StoreCall) : Prop :=
  safeParts? call.objectKey = some [] → t.node root = some .dir

/-- Nothing is changed but what lies below the root, and directories that lead to it are made. -/
def Inside (root : List FileName) (call : StoreCall) (t t' : Tree) : Prop :=
  ∀ path, t'.node path ≠ t.node path → (root <+: path ∧ path ≠ root) ∨
    (call.isPut = true ∧ path <+: root ∧ t.node path = none ∧ t'.node path = some .dir)

theorem Around.inside (h : Around root call t t' path) (hchanged : t'.node path ≠ t.node path) :
    (root <+: path ∧ path ≠ root) ∨
      (call.isPut = true ∧ path <+: root ∧ t.node path = none ∧ t'.node path = some .dir) := by
  cases h with
  | same h => exact (hchanged h).elim
  | made hput h h' hroot =>
    by_cases habove : path <+: root
    · exact .inr ⟨hput, habove, h, h'⟩
    · exact .inl ⟨hroot.resolve_left habove, fun heq => habove (by rw [heq])⟩
  | emptied h h' hbelow hne => exact .inl ⟨hbelow, hne⟩

theorem StoreCall.inside (hroot : call.RootThere root t) : Inside root call t (call.next root t) := by
  intro path hchanged
  cases hps : safeParts? call.objectKey with
  | none => exact (hchanged (by rw [(next_refused hps).2])).elim
  | some ps =>
    rcases next_cases hps (fun hnil => hroot (by rw [hps, hnil])) with ⟨-, haround⟩ |
      ⟨names, hnil, hnames, -, -, haround⟩
    · exact (haround path).inside hchanged
    · by_cases hpath : path = root ++ names
      · refine .inl ⟨by rw [hpath]; exact List.prefix_append .., fun heq => mapM_ne_nil hnames hnil ?_⟩
        rw [heq] at hpath
        exact List.append_right_eq_self.mp hpath.symm
      · exact (haround path hpath).inside hchanged

/-! ### The objects of a tree -/

/-- The tree has these objects and no other file below the root. -/
structure Holds (root : List FileName) (contents : Contents) (t : Tree) : Prop where
  file : ∀ names file, t.node (root ++ names) = some (.file file) ↔
    ∃ ps, Spelled ps names ∧ contents ps = some file
  named : ∀ ps file, contents ps = some file → ps ≠ [] ∧ ∃ names, Spelled ps names

theorem Holds.around (h : Holds root contents t) (haround : ∀ path, Around root call t t' path) :
    Holds root contents t' := by
  refine ⟨fun names file => ?_, h.named⟩
  rw [(haround (root ++ names)).file, h.file]

/-- The object at one place is put or deleted. -/
theorem Holds.update (h : Holds root contents t) (hspelled : Spelled ps names) (hps : ps ≠ [])
    {file? : Option StoredFile} (hfile : t'.node (root ++ names) = file?.map .file)
    (haround : ∀ path, path ≠ root ++ names → Around root call t t' path) :
    Holds root (Function.update contents ps file?) t' := by
  constructor
  · intro names' file
    by_cases hnames : names' = names
    · rw [hnames, hfile]
      constructor
      · intro hfound
        obtain ⟨file', hfile', heq⟩ := Option.map_eq_some_iff.mp hfound
        cases heq
        exact ⟨ps, hspelled, by rw [Function.update_self, hfile']⟩
      · intro hfound
        obtain ⟨ps', hspelled', hcontents⟩ := hfound
        rw [← hspelled'.decoded, hspelled.decoded, Function.update_self] at hcontents
        rw [hcontents]
        rfl
    · rw [(haround _ fun heq => hnames (List.append_cancel_left heq)).file, h.file]
      have hother : ∀ ps', Spelled ps' names' → Function.update contents ps file? ps' = contents ps' := by
        intro ps' hspelled'
        refine Function.update_of_ne (fun heq => hnames ?_) ..
        subst heq
        exact Option.some.inj (hspelled'.encoded.symm.trans hspelled.encoded)
      constructor
      · intro hfound
        obtain ⟨ps', hspelled', hcontents⟩ := hfound
        exact ⟨ps', hspelled', by rw [hother ps' hspelled', hcontents]⟩
      · intro hfound
        obtain ⟨ps', hspelled', hcontents⟩ := hfound
        exact ⟨ps', hspelled', by rw [← hother ps' hspelled', hcontents]⟩
  · intro ps' file hcontents
    by_cases heq : ps' = ps
    · rw [heq]
      exact ⟨hps, names, hspelled⟩
    · rw [Function.update_of_ne heq] at hcontents
      exact h.named ps' file hcontents

theorem spelled_of_key (hplain : key.isEncodable = true) (h : safeParts? key = some ps)
    (hnames : ps.mapM Text.fsencode? = some names) : Spelled ps names := by
  obtain ⟨hkey, hparts, hdots⟩ := safeParts?_eq_some h
  refine ⟨fun part hpart => ⟨hparts part hpart, ?_⟩, hdots, hnames⟩
  rw [← hkey] at hpart
  exact isEncodable_of_mem hplain hpart

/-- One call. -/
theorem Holds.next (h : Holds root contents t) (hplain : call.objectKey.isEncodable = true)
    (hroot : call.RootThere root t) :
    Holds root (if call.returns root t then call.effect contents else contents) (call.next root t) := by
  cases hps : safeParts? call.objectKey with
  | none =>
    obtain ⟨hraised, hsame⟩ := @StoreCall.next_refused root call t hps
    rw [hraised, hsame, if_neg Bool.false_ne_true]
    exact h
  | some ps =>
    rcases StoreCall.next_cases hps (fun hnil => hroot (by rw [hps, hnil])) with ⟨hraised, haround⟩ |
      ⟨names, hnil, hnames, hreturned, hfile, haround⟩
    · rw [hraised, if_neg Bool.false_ne_true]
      exact h.around haround
    · rw [hreturned, if_pos rfl, StoreCall.effect, hps]
      exact h.update (spelled_of_key hplain hps hnames) hnil hfile haround

/-! ### Reading -/

theorem Holds.get_eq (h : Holds root contents t) (hplain : key.isEncodable = true)
    (hps : safeParts? key = some ps) : get root key t = (contents ps).map StoredFile.data := by
  unfold get
  rw [(safeObjectKey?_parts hps).1, Option.bind_some, path?_eq hps]
  cases hcontents : contents ps with
  | some file =>
    obtain ⟨-, names, hspelled⟩ := h.named ps file hcontents
    rw [hspelled.encoded, Option.map_some, Option.bind_some, (h.file names file).mpr ⟨ps, hspelled, hcontents⟩]
    rfl
  | none =>
    cases hnames : ps.mapM Text.fsencode? with
    | none => rfl
    | some names =>
      rw [Option.map_some, Option.bind_some]
      split
      · next file hfound =>
        obtain ⟨ps', hspelled, hcontents'⟩ := (h.file names file).mp hfound
        rw [← hspelled.decoded, (spelled_of_key hplain hps hnames).decoded, hcontents] at hcontents'
        cases hcontents'
      · rfl

theorem listed_eq_some {entry : List FileName × Node StoredFile} {object : StoredObject}
    (h : listed root entry = some object) : ∃ file, entry.2 = .file file ∧
      object = ⟨asPosix ((entry.1.drop root.length).map FileName.fsdecode), file.modified⟩ := by
  unfold listed at h
  split at h
  · cases h
  · next file hfile => exact ⟨file, hfile, (Option.some.inj h).symm⟩

/-- A file below a directory is listed as its object. -/
theorem Holds.listed_entry (h : Holds root contents t) (hspelled : Spelled ps names)
    {entry : List FileName × Node StoredFile} (hentry : entry ∈ t.below (root ++ names)) {object : StoredObject}
    (hobject : listed root entry = some object) :
    ∃ rest file below, rest ≠ [] ∧ contents (ps ++ rest) = some file ∧ Spelled (ps ++ rest) below ∧
      entry.1 = root ++ below ∧ object = ⟨asPosix (ps ++ rest), file.modified⟩ := by
  obtain ⟨file, hfile, rfl⟩ := listed_eq_some hobject
  obtain ⟨⟨more, hmore⟩, hne, hnode⟩ := FileTree.mem_below.mp (show (entry.1, entry.2) ∈ _ from hentry)
  rw [hfile, ← hmore, List.append_assoc] at hnode
  obtain ⟨ps', hspelled', hcontents⟩ := (h.file (names ++ more) file).mp hnode
  have hps : ps' = ps ++ more.map FileName.fsdecode := by
    rw [← hspelled'.decoded, List.map_append, hspelled.decoded]
  have hnil : more ≠ [] := by
    intro hnil
    rw [hnil, List.append_nil] at hmore
    exact hne hmore.symm
  subst hps
  refine ⟨more.map FileName.fsdecode, file, names ++ more, by simpa using hnil, hcontents, hspelled', ?_, ?_⟩
  · rw [← hmore, List.append_assoc]
  · rw [← hmore, List.append_assoc, List.drop_left, hspelled'.decoded]

/-- An object below a directory is listed. -/
theorem Holds.mem_below (h : Holds root contents t) (hspelled : ps.mapM Text.fsencode? = some names)
    {rest : List Text} {file : StoredFile} (hrest : rest ≠ []) (hcontents : contents (ps ++ rest) = some file) :
    (t.node (root ++ names)).isSome ∧ ∃ below, (root ++ below, .file file) ∈ t.below (root ++ names) ∧
      below.map FileName.fsdecode = ps ++ rest := by
  obtain ⟨-, below, hbelow⟩ := h.named _ _ hcontents
  obtain ⟨front, more, hfront, hmore, rfl⟩ := mapM_append hbelow.encoded
  obtain rfl := Option.some.inj (hspelled.symm.trans hfront)
  have hnode := (h.file (names ++ more) file).mpr ⟨_, hbelow, hcontents⟩
  have hnil := mapM_ne_nil hmore hrest
  rw [← List.append_assoc] at hnode
  refine ⟨?_, names ++ more, ?_, hbelow.decoded⟩
  · rw [FileTree.node_above (by rw [hnode]; rfl) hnil]
    rfl
  · rw [← List.append_assoc]
    refine FileTree.mem_below.mpr ⟨List.prefix_append .., fun heq => hnil ?_, hnode⟩
    exact List.append_right_eq_self.mp heq

/-- Two files are listed under two keys. -/
theorem Holds.listed_nodup (h : Holds root contents t) (hspelled : Spelled ps names) :
    (((t.below (root ++ names)).filterMap (listed root)).map StoredObject.objectKey).Nodup := by
  have hpaths := FileTree.below_nodup t (root ++ names)
  rw [List.Nodup, List.pairwise_map] at hpaths
  rw [List.Nodup, List.pairwise_map, List.pairwise_filterMap]
  refine hpaths.imp_of_mem fun {entry entry'} hentry hentry' hne object hobject object' hobject' heq => hne ?_
  obtain ⟨rest, file, below, -, -, hbelow, hpath, rfl⟩ := h.listed_entry hspelled hentry hobject
  obtain ⟨rest', file', below', -, -, hbelow', hpath', rfl⟩ := h.listed_entry hspelled hentry' hobject'
  have hparts : ps ++ rest = ps ++ rest' := by
    rw [← parts_asPosix fun part hpart => (hbelow.parts part hpart).1,
      ← parts_asPosix fun part hpart => (hbelow'.parts part hpart).1]
    exact congrArg parts heq
  have hnames := hbelow.encoded
  rw [hparts, hbelow'.encoded] at hnames
  rw [hpath, hpath', Option.some.inj hnames]

theorem Holds.listObjects_eq (h : Holds root contents t) (hplain : key.isEncodable = true)
    (hps : safeParts? key = some ps) :
    ∃ objects, listObjects root key t = some objects ∧ (objects.map StoredObject.objectKey).Nodup ∧
      ∀ object, object ∈ objects ↔ ∃ rest file, rest ≠ [] ∧ contents (ps ++ rest) = some file ∧
        object = ⟨asPosix (ps ++ rest), file.modified⟩ := by
  have hlist : listObjects root key t = some (match (ps.mapM Text.fsencode?).map (root ++ ·) with
      | none => []
      | some path => if (t.node path).isSome then (t.below path).filterMap (listed root) else []) := by
    rw [listObjects, (safeObjectKey?_parts hps).1, Option.map_some, path?_eq hps]
  refine ⟨_, hlist, ?_⟩
  cases hnames : ps.mapM Text.fsencode? with
  | none =>
    refine ⟨List.nodup_nil, fun object => ⟨fun hmem => absurd hmem List.not_mem_nil, fun hstored => ?_⟩⟩
    obtain ⟨rest, file, -, hcontents, -⟩ := hstored
    obtain ⟨-, below, hbelow⟩ := h.named _ _ hcontents
    obtain ⟨front, more, hfront, -⟩ := mapM_append hbelow.encoded
    rw [hnames] at hfront
    cases hfront
  | some names =>
    have hspelled := spelled_of_key hplain hps hnames
    rw [Option.map_some]
    dsimp only
    split
    · refine ⟨h.listed_nodup hspelled, fun object => ?_⟩
      rw [List.mem_filterMap]
      constructor
      · intro hlisted
        obtain ⟨entry, hentry, hobject⟩ := hlisted
        obtain ⟨rest, file, -, hrest, hcontents, -, -, heq⟩ := h.listed_entry hspelled hentry hobject
        exact ⟨rest, file, hrest, hcontents, heq⟩
      · intro hstored
        obtain ⟨rest, file, hrest, hcontents, rfl⟩ := hstored
        obtain ⟨-, below, hbelow, hdecoded⟩ := h.mem_below hnames hrest hcontents
        refine ⟨_, hbelow, ?_⟩
        simp only [listed, List.drop_left, hdecoded]
    · next habsent =>
      refine ⟨List.nodup_nil, fun object => ⟨fun hmem => absurd hmem List.not_mem_nil, fun hstored => ?_⟩⟩
      obtain ⟨rest, file, hrest, hcontents, -⟩ := hstored
      exact (habsent (h.mem_below hnames hrest hcontents).1).elim

/-- The store shows these objects: `get` their bytes, `list_objects` their keys. -/
structure Shows (root : List FileName) (contents : Contents) (t : Tree) : Prop where
  get : ∀ key ps, key.isEncodable = true → safeParts? key = some ps →
    get root key t = (contents ps).map StoredFile.data
  list : ∀ key ps, key.isEncodable = true → safeParts? key = some ps →
    ∃ objects, listObjects root key t = some objects ∧ (objects.map StoredObject.objectKey).Nodup ∧
      ∀ object, object ∈ objects ↔ ∃ rest file, rest ≠ [] ∧ contents (ps ++ rest) = some file ∧
        object = ⟨asPosix (ps ++ rest), file.modified⟩

theorem Holds.shows (h : Holds root contents t) : Shows root contents t :=
  ⟨fun _ _ => h.get_eq, fun _ _ => h.listObjects_eq⟩

/-- An object is listed under a prefix. -/
def Lists (root : List FileName) (pfx : Text) (t : Tree) (object : StoredObject) : Prop :=
  ∃ objects, listObjects root pfx t = some objects ∧ object ∈ objects

/-- The objects of the other keys are read and listed as before. -/
structure KeepsOthers (root : List FileName) (key : Text) (t t' : Tree) : Prop where
  get : ∀ other, other.isEncodable = true → safeObjectKey? other ≠ safeObjectKey? key →
    get root other t' = get root other t
  list : ∀ pfx, pfx.isEncodable = true → ∀ object, safeObjectKey? key ≠ some object.objectKey →
    (Lists root pfx t' object ↔ Lists root pfx t object)

theorem Shows.lists_iff (h : Shows root contents t) (hplain : key.isEncodable = true)
    (hps : safeParts? key = some ps) (object : StoredObject) : Lists root key t object ↔
      ∃ rest file, rest ≠ [] ∧ contents (ps ++ rest) = some file ∧
        object = ⟨asPosix (ps ++ rest), file.modified⟩ := by
  obtain ⟨objects, hlist, -, hmem⟩ := h.list key ps hplain hps
  rw [← hmem]
  constructor
  · intro hlisted
    obtain ⟨objects', hlist', hobject⟩ := hlisted
    rw [hlist] at hlist'
    rwa [Option.some.inj hlist']
  · intro hobject
    exact ⟨objects, hlist, hobject⟩

/-- Only the object of the key is another one. -/
theorem Shows.keepsOthers {contents' : Contents} (h : Shows root contents t) (h' : Shows root contents' t')
    (hsame : ∀ ps, safeObjectKey? key ≠ some (asPosix ps) → contents' ps = contents ps) :
    KeepsOthers root key t t' := by
  constructor
  · intro other hplain hne
    cases hps : safeParts? other with
    | none =>
      simp [FilesystemStore.get, safeObjectKey?_none hps]
    | some ps =>
      rw [(safeObjectKey?_parts hps).1] at hne
      rw [h'.get other ps hplain hps, h.get other ps hplain hps, hsame ps hne.symm]
  · intro pfx hplain object hne
    cases hps : safeParts? pfx with
    | none =>
      simp [Lists, listObjects, safeObjectKey?_none hps]
    | some ps =>
      rw [h'.lists_iff hplain hps, h.lists_iff hplain hps]
      have hobject : ∀ rest modified, object = ⟨asPosix (ps ++ rest), modified⟩ →
          contents' (ps ++ rest) = contents (ps ++ rest) := by
        intro rest modified heq
        exact hsame _ (by rwa [heq] at hne)
      constructor
      · intro hstored
        obtain ⟨rest, file, hrest, hcontents, heq⟩ := hstored
        exact ⟨rest, file, hrest, by rw [← hobject rest _ heq, hcontents], heq⟩
      · intro hstored
        obtain ⟨rest, file, hrest, hcontents, heq⟩ := hstored
        exact ⟨rest, file, hrest, by rw [hobject rest _ heq, hcontents], heq⟩

theorem StoreCall.effect_other (h : safeObjectKey? call.objectKey ≠ some (asPosix ps)) :
    call.effect contents ps = contents ps := by
  rw [effect]
  cases hps : safeParts? call.objectKey with
  | none => rfl
  | some ps' =>
    apply Function.update_of_ne
    intro heq
    rw [heq, (safeObjectKey?_parts hps).1] at h
    exact h rfl

/-- The key that is returned is the safe one. -/
theorem put_returned {now : Time} {data : List UInt8} {artifact : StoredArtifact}
    (h : (put root now key data t).1 = some artifact) :
    ∃ ps, safeParts? key = some ps ∧ artifact = ⟨asPosix ps, data.length⟩ := by
  unfold put at h
  split at h
  · cases h
  · next safe hsafe =>
    obtain ⟨ps, hps, rfl⟩ := Option.map_eq_some_iff.mp hsafe
    refine ⟨ps, hps, ?_⟩
    split at h
    · cases h
    · split at h
      · cases h
      · exact (Option.some.inj h).symm

end

/-! ### Many calls -/

section
variable {root : List FileName} {contents : Contents} {t : Tree} {calls : List StoreCall}

/-- The tree has the objects that the calls have left. -/
theorem Holds.run (h : Holds root contents t) (hplain : ∀ call ∈ calls, call.objectKey.isEncodable = true)
    (hroot : ∀ before call, before ++ [call] <+: calls →
      call.RootThere root ((storeMachine root).run t before)) :
    Holds root (stored contents ((storeMachine root).trace t calls)) ((storeMachine root).run t calls) := by
  induction calls using List.reverseRecOn with
  | nil => exact h
  | append_singleton before call ih =>
    have hbefore := ih (fun call hcall => hplain call (List.mem_append_left _ hcall))
      fun front call hfront => hroot front call (hfront.trans (List.prefix_append ..))
    have hnext := hbefore.next (hplain call (by simp)) (hroot before call (List.prefix_refl _))
    rw [Machine.run_snoc, Machine.trace_snoc, stored, List.foldl_append]
    show Holds root (List.foldl StoreCall.effect _ (if _ then _ else _)) _
    split
    · next hreturned =>
      rw [if_pos hreturned] at hnext
      exact hnext
    · next hraised =>
      rw [if_neg hraised] at hnext
      exact hnext

theorem stored_snoc (before : List StoreCall) (call : StoreCall) (ps : List Text)
    (h : safeObjectKey? call.objectKey ≠ some (asPosix ps)) :
    stored contents ((storeMachine root).trace t (before ++ [call])) ps =
      stored contents ((storeMachine root).trace t before) ps := by
  rw [Machine.trace_snoc, stored, List.foldl_append]
  show List.foldl StoreCall.effect _ (if _ then _ else _) ps = _
  split
  · exact StoreCall.effect_other h
  · rfl

/-- Whatever the keys are, a safe key is safe for itself and what the calls change lies below the
root, or is a directory that leads to it. Where the keys have no surrogates, each key has its own
object: `get` returns the last bytes, `list_objects` the stored keys as `put` has returned them. -/
theorem artifact_keys (root : List FileName) (contents : Contents) (t : Tree) (calls : List StoreCall)
    (hroot : ∀ before call, before ++ [call] <+: calls →
      call.RootThere root ((storeMachine root).run t before)) :
    (∀ key safe, safeObjectKey? key = some safe → safeObjectKey? safe = some safe) ∧
    (∀ before call, before ++ [call] <+: calls → Inside root call ((storeMachine root).run t before)
      ((storeMachine root).run t (before ++ [call]))) ∧
    (∀ now key data t artifact, (put root now key data t).1 = some artifact →
      ∃ ps, safeParts? key = some ps ∧ artifact = ⟨asPosix ps, data.length⟩) ∧
    (Holds root contents t → (∀ call ∈ calls, call.objectKey.isEncodable = true) →
      (∀ before, before <+: calls → Shows root (stored contents ((storeMachine root).trace t before))
        ((storeMachine root).run t before)) ∧
      ∀ before call, before ++ [call] <+: calls → KeepsOthers root call.objectKey
        ((storeMachine root).run t before) ((storeMachine root).run t (before ++ [call]))) := by
  refine ⟨fun key safe => safeObjectKey?_fixed, fun before call hb => ?_,
    fun now key data t artifact => put_returned, fun h hplain => ?_⟩
  · rw [Machine.run_snoc]
    exact StoreCall.inside (hroot before call hb)
  · have hshows : ∀ before, before <+: calls → Shows root (stored contents ((storeMachine root).trace t before))
        ((storeMachine root).run t before) := by
      intro before hb
      have hholds : Holds root _ ((storeMachine root).run t before) :=
        h.run (fun call hcall => hplain call (hb.subset hcall)) fun front call hf => hroot front call (hf.trans hb)
      exact hholds.shows
    refine ⟨hshows, fun before call hb => ?_⟩
    exact (hshows before ((List.prefix_append ..).trans hb)).keepsOthers (hshows _ hb)
      (stored_snoc before call)

namespace Sample

def storeRoot : List FileName := [[0x64]]

/-- A put, another one under a key with needless slashes and dots, and a delete. -/
def storeCalls : List StoreCall :=
  [.put (.ofString "a/b") [1] 0, .put (.ofString "a//./c") [2] 1, .delete (.ofString "a/b/")]

/-- The root without objects. -/
def madeRoot : Tree := (delete storeRoot (.ofString "a") (put storeRoot 0 (.ofString "a") [1] .empty).2).2

/-- A key with lone surrogates, whose name is the UTF-8 of another text. -/
def surrogates : Text := [⟨0xDCC3, by decide⟩, ⟨0xDCA9, by decide⟩]

end Sample

theorem artifact_keys_empty : (storeMachine Sample.storeRoot).trace .empty Sample.storeCalls = Sample.storeCalls ∧
    Shows Sample.storeRoot (stored (fun _ => none) Sample.storeCalls)
      ((storeMachine Sample.storeRoot).run .empty Sample.storeCalls) := by
  have hreturned : (storeMachine Sample.storeRoot).trace .empty Sample.storeCalls = Sample.storeCalls := by
    decide
  have hnamed : ∀ call ∈ Sample.storeCalls, safeParts? call.objectKey ≠ some [] := by decide
  have hempty : Holds Sample.storeRoot (fun _ => none) .empty := by
    refine ⟨fun names file => ?_, fun _ _ h => by cases h⟩
    rw [FileTree.node_empty (by simp [Sample.storeRoot])]
    simp
  have hlaws := (artifact_keys Sample.storeRoot (fun _ => none) .empty Sample.storeCalls
    fun before call hb hroot => absurd hroot (hnamed call (hb.subset (by simp)))).2.2.2 hempty (by decide)
  refine ⟨hreturned, ?_⟩
  have hshows := hlaws.1 Sample.storeCalls (List.prefix_refl _)
  rwa [hreturned] at hshows

/-- A put makes a root that is absent; a delete under the key of an absent root removes the
directory above it; and an object under surrogates is listed under a key that was never put. -/
theorem artifact_keys_outside :
    ((FileTree.empty : Tree).node Sample.storeRoot = none ∧
      (put Sample.storeRoot 0 (.ofString "a") [1] .empty).2.node Sample.storeRoot = some .dir) ∧
    (Sample.madeRoot.node Sample.storeRoot = some .dir ∧
      (delete (Sample.storeRoot ++ [[0x65]]) dot Sample.madeRoot).2.node Sample.storeRoot = none) ∧
    (put Sample.storeRoot 0 Sample.surrogates [1] .empty).1 = some ⟨Sample.surrogates, 1⟩ ∧
      listObjects Sample.storeRoot dot (put Sample.storeRoot 0 Sample.surrogates [1] .empty).2 =
        some [⟨.ofString "é", 0⟩] := by
  decide

end

end FilesystemStore

end ResearchGateway
