import ResearchGateway.FilesystemStore

/-! Keys of one depth.

Where all keys have equally many parts, no key of one object is a directory for another. Then
the directory below the root has its files on one level and its directories above it (`Level`),
and no call raises (`Level.run`). -/
namespace ResearchGateway
open Library ObjectKey

namespace FilesystemStore

/-- Directories lead to the root and from it to the level of the files. -/
structure Level (root : List FileName) (depth : Nat) (t : Tree) : Prop where
  above : ∀ path, path <+: root → ∀ file, t.node path ≠ some (.file file)
  dirs : ∀ names, t.node (root ++ names) = some .dir → names.length < depth
  files : ∀ names file, t.node (root ++ names) = some (.file file) → names.length = depth

/-- The call names a file on the level, by a key that the file system takes. -/
structure OnLevel (depth : Nat) (call : StoreCall) : Prop where
  plain : call.objectKey.isEncodable = true
  short : IsShort call.objectKey
  named : ∃ ps names, safeParts? call.objectKey = some ps ∧ ps.length = depth ∧ ps.mapM Text.fsencode? = some names

instance (depth : Nat) (call : StoreCall) : Decidable (OnLevel depth call) :=
  decidable_of_iff (call.objectKey.isEncodable ∧ IsShort call.objectKey ∧
      (safeParts? call.objectKey).any fun ps => ps.length = depth ∧ (ps.mapM Text.fsencode?).isSome) (by
    constructor
    · rintro ⟨hplain, hfits, hnamed⟩
      obtain ⟨ps, hps, hnamed⟩ := Option.any_eq_true _ _ |>.mp hnamed
      obtain ⟨hlength, hnames⟩ := of_decide_eq_true hnamed
      obtain ⟨names, hnames⟩ := Option.isSome_iff_exists.mp hnames
      exact ⟨hplain, hfits, ps, names, hps, hlength, hnames⟩
    · rintro ⟨hplain, hfits, ps, names, hps, hlength, hnames⟩
      exact ⟨hplain, hfits, by simp [hps, hlength, hnames]⟩)

/-- No file leads to the root, and nothing is below it. -/
def Clear (root : List FileName) (t : Tree) : Prop :=
  (∀ path, path <+: root → ∀ file, t.node path ≠ some (.file file)) ∧ ∀ names, names ≠ [] → t.node (root ++ names) = none

section
variable {root names : List FileName} {depth : Nat} {t t' made : Tree} {key : Text} {ps : List Text} {call : StoreCall}

theorem clear_empty (root : List FileName) : Clear root .empty := by
  refine ⟨fun path _ file hfile => ?_, fun names hnames => FileTree.node_empty (by simp [hnames])⟩
  by_cases hnil : path = []
  · rw [hnil] at hfile
    cases hfile
  · rw [FileTree.node_empty hnil] at hfile
    cases hfile

theorem Clear.level (h : Clear root t) (hdepth : 0 < depth) : Level root depth t := by
  obtain ⟨habove, hbelow⟩ := h
  refine ⟨habove, fun names hdir => ?_, fun names file hfile => ?_⟩
  · by_cases hnil : names = []
    · rwa [hnil]
    · rw [hbelow names hnil] at hdir
      cases hdir
  · by_cases hnil : names = []
    · rw [hnil, List.append_nil] at hfile
      exact absurd hfile (habove root List.prefix_rfl file)
    · rw [hbelow names hnil] at hfile
      cases hfile

theorem Clear.holds (h : Clear root t) : Holds root (fun _ => none) t := by
  refine ⟨fun names file => ⟨fun hfile => ?_, fun hnone => ?_⟩, fun _ _ hnone => by cases hnone⟩
  · by_cases hnil : names = []
    · rw [hnil, List.append_nil] at hfile
      exact absurd hfile (h.1 root List.prefix_rfl file)
    · rw [h.2 names hnil] at hfile
      cases hfile
  · obtain ⟨ps, -, hnone⟩ := hnone
    cases hnone

theorem length_names (h : ps.mapM Text.fsencode? = some names) : names.length = ps.length := by
  induction ps generalizing names with
  | nil =>
    obtain rfl := Option.some.inj h
    rfl
  | cons part rest ih =>
    rw [List.mapM_cons] at h
    obtain ⟨name, -, h⟩ := Option.bind_eq_some_iff.mp h
    obtain ⟨more, hmore, h⟩ := Option.bind_eq_some_iff.mp h
    obtain rfl := Option.some.inj h
    rw [List.length_cons, List.length_cons, ih hmore]

/-- Above the level there is no file. -/
theorem Level.free (h : Level root depth t) {path : List FileName} (hpath : path <+: root ++ names)
    (hshort : names.length ≤ depth) (hne : path ≠ root ++ names ∨ names.length < depth) (file : StoredFile) :
    t.node path ≠ some (.file file) := by
  rcases List.prefix_or_prefix_of_prefix hpath (List.prefix_append root names) with habove | hbelow
  · exact h.above path habove file
  · obtain ⟨front, rfl⟩ := hbelow
    intro hfile
    obtain ⟨rest, hrest⟩ := (List.prefix_append_right_inj root).mp hpath
    have hlength := congrArg List.length hrest
    rw [List.length_append, h.files front file hfile] at hlength
    rcases hne with hne | hlow
    · have hnil : rest = [] := List.eq_nil_of_length_eq_zero (by omega)
      rw [hnil, List.append_nil] at hrest
      exact hne (by rw [hrest])
    · omega

/-- Directories that lead to the level do no harm. -/
theorem Level.directories (h : Level root depth t) (hshort : names.length < depth)
    (hnodes : ∀ path, t'.node path = t.node path ∨ (t'.node path = some .dir ∧ path <+: root ++ names)) : Level root depth t' := by
  refine ⟨fun path hpath file hfile => ?_, fun more hmore => ?_, fun more file hfile => ?_⟩
  · rcases hnodes path with hsame | ⟨hnew, -⟩
    · exact h.above path hpath file (hsame ▸ hfile)
    · rw [hnew] at hfile
      cases hfile
  · rcases hnodes (root ++ more) with hsame | ⟨-, hbefore⟩
    · exact h.dirs more (hsame ▸ hmore)
    · exact Nat.lt_of_le_of_lt ((List.prefix_append_right_inj root).mp hbefore).length_le hshort
  · rcases hnodes (root ++ more) with hsame | ⟨hnew, -⟩
    · exact h.files more file (hsame ▸ hfile)
    · rw [hnew] at hfile
      cases hfile

/-- A file on the level does no harm. -/
theorem Level.file (h : Level root depth t) (hlength : names.length = depth) (hdepth : 0 < depth) {file : StoredFile}
    (hnodes : ∀ path, t'.node path = if path = root ++ names then some (.file file) else t.node path) : Level root depth t' := by
  refine ⟨fun path hpath file' hfile => ?_, fun more hdir => ?_, fun more file' hfile => ?_⟩
  · rw [hnodes, if_neg] at hfile
    · exact h.above path hpath file' hfile
    · rintro rfl
      have hle := hpath.length_le
      rw [List.length_append] at hle
      omega
  · rw [hnodes] at hdir
    split at hdir
    · cases hdir
    · exact h.dirs more hdir
  · rw [hnodes] at hfile
    split at hfile
    · next heq => rw [List.append_cancel_left heq, hlength]
    · exact h.files more file' hfile

/-- Directories above the level are made. -/
theorem Level.makeDirs (h : Level root depth t) (hshort : names.length < depth) :
    ∃ made, t.makeDirs [] (root ++ names) = some made ∧ made.node (root ++ names) = some .dir ∧ Level root depth made := by
  have hmade : (t.makeDirs [] (root ++ names)).isSome :=
    FileTree.makeDirs_isSome FileTree.node_nil fun path hpath file =>
      h.free hpath (Nat.le_of_lt hshort) (.inr hshort) file
  obtain ⟨made, hmade⟩ := Option.isSome_iff_exists.mp hmade
  obtain ⟨hdir, hnodes⟩ := FileTree.makeDirs_eq_some FileTree.node_nil hmade
  exact ⟨made, hmade, hdir, h.directories hshort fun path => (hnodes path).imp_right And.right⟩

/-- A file on the level is written into a directory that is there. -/
theorem Level.write (h : Level root depth t) (hlength : names.length = depth) (hdepth : 0 < depth)
    (hparent : t.node (root ++ names).dropLast = some .dir) (file : StoredFile) :
    ∃ written, t.write? (root ++ names) file = some written ∧ Level root depth written := by
  have hnil : names ≠ [] := List.ne_nil_of_length_pos (by omega)
  have hnew : t.node (root ++ names) ≠ some .dir := fun hdir => Nat.lt_irrefl _ (hlength ▸ h.dirs names hdir)
  have hplaced : (t.place? (root ++ names) (.file file)).isSome := FileTree.place?_isSome (by simp [hnil]) hparent hnew
  obtain ⟨written, hwritten⟩ := Option.isSome_iff_exists.mp hplaced
  exact ⟨written, hwritten, h.file hlength hdepth (FileTree.write?_eq_some hwritten).2⟩

/-- What only takes away keeps the level. -/
theorem Level.less (h : Level root depth t) (hless : ∀ path x, t'.node path = some x → t.node path = some x) :
    Level root depth t' :=
  ⟨fun path hpath file hfile => h.above path hpath file (hless path _ hfile),
    fun names hdir => h.dirs names (hless _ _ hdir), fun names file hfile => h.files names file (hless _ _ hfile)⟩

/-- What is on the level can be unlinked. -/
theorem Level.unlink (h : Level root depth t) (hlength : names.length = depth) : ∃ removed, t.unlink? (root ++ names) = some removed := by
  refine Option.isSome_iff_exists.mp (FileTree.unlink?_isSome (fun hdir => ?_) fun above habove hne file => ?_)
  · exact Nat.lt_irrefl _ (hlength ▸ h.dirs names hdir)
  · exact h.free habove (Nat.le_of_eq hlength) (.inl hne) file

theorem Level.put (h : Level root depth t) (hps : safeParts? key = some ps) (hlength : ps.length = depth) (hdepth : 0 < depth)
    (hnames : ps.mapM Text.fsencode? = some names) (now : Time) (data : List UInt8) :
    (put root now key data t).1.isSome ∧ Level root depth (put root now key data t).2 := by
  have hcount : names.length = depth := by rw [length_names hnames, hlength]
  have hnil : ps ≠ [] := List.ne_nil_of_length_pos (by omega)
  obtain ⟨front, more, hfront, hmore, hsplit⟩ : ∃ front more, ps.dropLast.mapM Text.fsencode? = some front ∧
      [ps.getLast hnil].mapM Text.fsencode? = some more ∧ names = front ++ more :=
    mapM_append (by rw [List.dropLast_append_getLast, hnames])
  have hone : more.length = 1 := by rw [length_names hmore, List.length_singleton]
  have hparent : names.dropLast = front := by
    obtain ⟨name, rfl⟩ := List.length_eq_one_iff.mp hone
    rw [hsplit, List.dropLast_concat]
  have hshort : front.length < depth := by
    rw [← hcount, hsplit, List.length_append]
    omega
  obtain ⟨made, hmade, hdir, hlevel⟩ := h.makeDirs hshort
  have hmadeDir : made.node (root ++ names).dropLast = some .dir := by
    rwa [List.dropLast_append_of_ne_nil (mapM_ne_nil hnames hnil), hparent]
  obtain ⟨written, hwritten, hafter⟩ := hlevel.write hcount hdepth hmadeDir ⟨data, now⟩
  have hplace : (parent? root (asPosix ps)).bind (t.makeDirs []) = some made := by
    rw [parent?, (safeObjectKey?_parts hps).2, if_neg hnil, hfront, Option.map_some, Option.bind_some, hmade]
  have hfile : ((path? root (asPosix ps)).bind fun path => made.write? path ⟨data, now⟩) = some written := by
    rw [path?_eq hps, hnames, Option.map_some, Option.bind_some, hwritten]
  unfold FilesystemStore.put
  rw [(safeObjectKey?_parts hps).1]
  simp only [hplace, hfile]
  exact ⟨rfl, hafter⟩

theorem Level.delete (h : Level root depth t) (hps : safeParts? key = some ps) (hlength : ps.length = depth) (hdepth : 0 < depth)
    (hnames : ps.mapM Text.fsencode? = some names) :
    (delete root key t).1.isSome ∧ Level root depth (delete root key t).2 := by
  have hcount : names.length = depth := by rw [length_names hnames, hlength]
  obtain ⟨removed, hremoved⟩ := h.unlink hcount
  obtain ⟨-, hnodes⟩ := FileTree.unlink?_eq_some hremoved
  unfold FilesystemStore.delete
  rw [(safeObjectKey?_parts hps).1, Option.bind_some, path?_eq hps, hnames, Option.map_some]
  simp only [hremoved]
  refine ⟨rfl, h.less fun path x hnode => ?_⟩
  have hbelow : root <+: ((root ++ names).dropLast.reverse).reverse := by
    rw [List.reverse_reverse, List.dropLast_append_of_ne_nil (List.ne_nil_of_length_pos (by omega))]
    exact List.prefix_append ..
  rcases FileTree.prune_node (t := removed) hbelow path with hsame | ⟨-, hnone, -⟩
  · rw [hsame, hnodes] at hnode
    split at hnode
    · cases hnode
    · exact hnode
  · rw [hnone] at hnode
    cases hnode

/-- A call on the level returns and keeps it. -/
theorem Level.next (h : Level root depth t) (hcall : OnLevel depth call) (hdepth : 0 < depth) :
    call.returns root t = true ∧ Level root depth (call.next root t) := by
  obtain ⟨-, -, ps, names, hps, hlength, hnames⟩ := hcall
  cases call with
  | put key data now => exact h.put hps hlength hdepth hnames now data
  | delete key => exact h.delete hps hlength hdepth hnames

theorem OnLevel.rootThere (h : OnLevel depth call) (hdepth : 0 < depth) : call.RootThere root t := by
  intro hroot
  obtain ⟨-, -, ps, names, hps, hlength, -⟩ := h
  rw [hps] at hroot
  rw [Option.some.inj hroot, List.length_nil] at hlength
  omega

/-- No call of a run on the level raises. -/
theorem Level.run {calls : List StoreCall} (h : Level root depth t) (hdepth : 0 < depth) (hcalls : ∀ call ∈ calls, OnLevel depth call) :
    Level root depth ((storeMachine root).run t calls) ∧ (storeMachine root).trace t calls = calls := by
  induction calls generalizing t with
  | nil => exact ⟨h, rfl⟩
  | cons call calls ih =>
    obtain ⟨hreturns, hnext⟩ := h.next (hcalls call List.mem_cons_self) hdepth
    obtain ⟨hlevel, htrace⟩ := ih hnext fun call' hcall' => hcalls call' (List.mem_cons_of_mem _ hcall')
    refine ⟨hlevel, ?_⟩
    have hout : (storeMachine root).out call t = [call] := if_pos hreturns
    rw [Machine.trace, hout, List.singleton_append]
    exact congrArg (call :: ·) htrace

end

end FilesystemStore

end ResearchGateway
