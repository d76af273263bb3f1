import ResearchGateway.StoreLayout

/-! Calls on the directory that overlap.

A put makes its directories, opens its file, which makes or empties it, and writes; a delete
unlinks and then removes what is left empty. Between any two of their steps go steps of other
calls, in other threads and other processes. Where no two calls with one key overlap, the objects
are those of one call after the other, each at the step at which it writes or unlinks, but for
the files that are open (`calls_linearize`). -/
namespace ResearchGateway
open Library ObjectKey

namespace FilesystemStore

inductive MkdirAnswer where
  | made (t : Tree)
  /-- `FileNotFoundError` -/
  | missing
  /-- another `OSError` -/
  | refused

/-- `os.mkdir`. -/
def mkdir (t : Tree) (dir : List FileName) : MkdirAnswer :=
  match t.node dir with
  | some _ => .refused
  | none =>
    match t.place? dir .dir with
    | some made => .made made
    | none => if t.isBlocked dir then .refused else .missing

/-- Where a call is. -/
inductive CallPhase where
  /-- `mkdir(parents=True)` of a directory, given from its last name on, and the names below it. -/
  | climbing (up rest : List FileName)
  /-- `is_dir()`, after an error. -/
  | checking (dir rest : List FileName)
  /-- The directory is there, or was. -/
  | descending (dir rest : List FileName)
  /-- `write_bytes` opens the file. -/
  | opening
  /-- The file is open, and empty. -/
  | writing
  | unlinking
  /-- `rmdir()` of a directory, given from its last name on. -/
  | pruning (up : List FileName)
  | returned
  | raised
  deriving DecidableEq

/-- The path of a call's key; `none` where a use of it raises. -/
def StoreCall.path? (root : List FileName) (call : StoreCall) : Option (List FileName) :=
  (safeObjectKey? call.objectKey).bind (FilesystemStore.path? root)

/-- What a call does before its first step. -/
def StoreCall.begin (root : List FileName) (call : StoreCall) : CallPhase :=
  match call with
  | .put key .. =>
    match (safeObjectKey? key).bind (parent? root) with
    | none => .raised
    | some parent => .climbing parent.reverse []
  | .delete _ => if (call.path? root).isNone then .raised else .unlinking

/-- One step of a call. -/
def CallPhase.next (root : List FileName) (call : StoreCall) (t : Tree) : CallPhase → CallPhase × Tree
  | .climbing up rest =>
    match mkdir t up.reverse with
    | .made made => (.descending up.reverse rest, made)
    | .refused => (.checking up.reverse rest, t)
    | .missing =>
      match up with
      | [] => (.raised, t)
      | name :: above => (.climbing above (name :: rest), t)
  | .checking dir rest => (if t.isDir dir then .descending dir rest else .raised, t)
  | .descending _ [] => (.opening, t)
  | .descending dir (name :: rest) =>
    match mkdir t (dir ++ [name]) with
    | .made made => (.descending (dir ++ [name]) rest, made)
    | .refused => (.checking (dir ++ [name]) rest, t)
    | .missing => (.raised, t)
  | .opening =>
    match (call.path? root).bind fun path => call.file?.bind fun file => t.write? path {file with data := []} with
    | none => (.raised, t)
    | some opened => (.writing, opened)
  | .writing => (.returned, ((call.path? root).bind fun path => call.file?.map (t.fill path)).getD t)
  | .unlinking =>
    match call.path? root with
    | none => (.raised, t)
    | some path =>
      match t.unlink? path with
      | none => (.raised, t)
      | some removed => (.pruning path.dropLast.reverse, removed)
  | .pruning [] => (.returned, t)
  | .pruning (name :: above) =>
    if (name :: above).reverse = root then (.returned, t)
    else
      match t.rmdir? (name :: above).reverse with
      | none => (.returned, t)
      | some removed => (.pruning above, removed)
  | .returned => (.returned, t)
  | .raised => (.raised, t)

namespace CallPhase

/-- The call has written or unlinked its file. -/
def hasTaken : CallPhase → Bool
  | .pruning _ | .returned => true
  | _ => false

/-- The steps of a put, or those of a delete. -/
def Fits (call : StoreCall) : CallPhase → Prop
  | .climbing .. | .checking .. | .descending .. | .opening => call.isPut = true
  | .writing => call.isPut = true ∧ (safeParts? call.objectKey).isSome
  | .unlinking | .pruning _ => call.isPut = false
  | .returned | .raised => True

/-- The call has ended. -/
def isOver : CallPhase → Bool
  | .returned | .raised => true
  | _ => false

end CallPhase

structure RunningCall where
  call : StoreCall
  phase : CallPhase
  deriving DecidableEq

structure StoreSystem where
  tree : Tree
  calls : Nat → Option RunningCall

inductive StoreInput where
  | start (p : Nat) (call : StoreCall)
  | step (p : Nat)

/-- The call that begins, if one does. -/
def StoreInput.started : StoreInput → Option Nat
  | .start p _ => some p
  | .step _ => none

/-- Any number of calls; a call that writes or unlinks its file is emitted. -/
def storeSystem (root : List FileName) : Machine StoreSystem StoreInput (Nat × StoreCall) where
  next
    | .start p call, s =>
      match s.calls p with
      | none => {s with calls := Function.update s.calls p (some ⟨call, call.begin root⟩)}
      | some _ => s
    | .step p, s =>
      match s.calls p with
      | none => s
      | some c =>
        let (phase, tree) := c.phase.next root c.call s.tree
        ⟨tree, Function.update s.calls p (some ⟨c.call, phase⟩)⟩
  out
    | .start .., _ => []
    | .step p, s =>
      match s.calls p with
      | none => []
      | some c => if !c.phase.hasTaken && (c.phase.next root c.call s.tree).1.hasTaken then [(p, c.call)] else []

/-! ### One step -/

/-- What one step of a call does, with what it passed. -/
inductive CallStep (root : List FileName) (call : StoreCall) (t : Tree) : CallPhase → CallPhase → Tree → Prop
  | made {up rest t'} (h : mkdir t up.reverse = .made t') :
      CallStep root call t (.climbing up rest) (.descending up.reverse rest) t'
  | met {up rest} (h : mkdir t up.reverse = .refused) :
      CallStep root call t (.climbing up rest) (.checking up.reverse rest) t
  | climbed {name above rest} (h : mkdir t (name :: above).reverse = .missing) :
      CallStep root call t (.climbing (name :: above) rest) (.climbing above (name :: rest)) t
  | found {dir rest} (h : t.node dir = some .dir) : CallStep root call t (.checking dir rest) (.descending dir rest) t
  | lost {dir rest} (h : t.node dir ≠ some .dir) : CallStep root call t (.checking dir rest) .raised t
  | arrived {dir} : CallStep root call t (.descending dir []) .opening t
  | madeBelow {dir name rest t'} (h : mkdir t (dir ++ [name]) = .made t') :
      CallStep root call t (.descending dir (name :: rest)) (.descending (dir ++ [name]) rest) t'
  | metBelow {dir name rest} (h : mkdir t (dir ++ [name]) = .refused) :
      CallStep root call t (.descending dir (name :: rest)) (.checking (dir ++ [name]) rest) t
  | vanished {dir name rest} (h : mkdir t (dir ++ [name]) = .missing) :
      CallStep root call t (.descending dir (name :: rest)) .raised t
  | opened {path file t'} (hpath : call.path? root = some path) (hfile : call.file? = some file)
      (h : t.write? path {file with data := []} = some t') : CallStep root call t .opening .writing t'
  | unopened (h : ((call.path? root).bind fun path => call.file?.bind fun file =>
      t.write? path {file with data := []}) = none) : CallStep root call t .opening .raised t
  | written {path file} (hpath : call.path? root = some path) (hfile : call.file? = some file) :
      CallStep root call t .writing .returned (t.fill path file)
  | unnamed (h : ((call.path? root).bind fun path => call.file?.map (t.fill path)) = none) :
      CallStep root call t .writing .returned t
  | unlinked {path t'} (hpath : call.path? root = some path) (h : t.unlink? path = some t') :
      CallStep root call t .unlinking (.pruning path.dropLast.reverse) t'
  | stuck (h : (call.path? root).bind t.unlink? = none) : CallStep root call t .unlinking .raised t
  | pruned {name above t'} (hne : (name :: above).reverse ≠ root) (h : t.rmdir? (name :: above).reverse = some t') :
      CallStep root call t (.pruning (name :: above)) (.pruning above) t'
  | finished {up} : CallStep root call t (.pruning up) .returned t
  | rested : CallStep root call t .returned .returned t
  | failed : CallStep root call t .raised .raised t

section
variable {root : List FileName} {call : StoreCall} {t t' : Tree} {dir path : List FileName} {phase phase' : CallPhase}

theorem mkdir_placed (h : mkdir t dir = .made t') : t.node dir = none ∧ t.place? dir .dir = some t' := by
  unfold mkdir at h
  split at h
  · cases h
  · next hnone =>
    split at h
    · next made hmade =>
      cases h
      exact ⟨hnone, hmade⟩
    · split at h <;> cases h

theorem mkdir_made (h : mkdir t dir = .made t') :
    t.node dir = none ∧ ∀ path, t'.node path = if path = dir then some .dir else t.node path := by
  obtain ⟨hnone, hplaced⟩ := mkdir_placed h
  exact ⟨hnone, (FileTree.place?_eq_some hplaced).2⟩

/-- The directory is there, or there is a file on the way to it or in its place. -/
theorem mkdir_refused (h : mkdir t dir = .refused) :
    t.node dir = some .dir ∨ (t.node dir ≠ some .dir ∧ t.isBlocked dir = true) := by
  unfold mkdir at h
  split at h
  · next found hnode =>
    cases found with
    | dir => exact .inl hnode
    | file file =>
      refine .inr ⟨by rw [hnode]; simp, ?_⟩
      exact FileTree.isBlocked_iff.mpr ⟨dir, file, List.prefix_rfl, hnode⟩
  · next hnone =>
    split at h
    · cases h
    · split at h
      · next hblocked => exact .inr ⟨by rw [hnone]; simp, hblocked⟩
      · cases h

/-- The directory above it is not there. -/
theorem mkdir_missing (h : mkdir t dir = .missing) : t.node dir = none ∧ t.node dir.dropLast ≠ some .dir := by
  unfold mkdir at h
  split at h
  · cases h
  · next hnone =>
    split at h
    · cases h
    · next hunplaced =>
      refine ⟨hnone, fun hparent => ?_⟩
      have hdir : dir ≠ [] := by
        rintro rfl
        cases hnone
      have hplaced : (t.place? dir .dir).isSome := FileTree.place?_isSome hdir hparent (by rw [hnone]; simp)
      rw [hunplaced] at hplaced
      cases hplaced

/-- No file is made, written or removed. -/
def SameFiles (t t' : Tree) : Prop := ∀ path file, t'.node path = some (.file file) ↔ t.node path = some (.file file)

theorem SameFiles.refl (t : Tree) : SameFiles t t := fun _ _ => Iff.rfl

theorem sameFiles_mkdir (h : mkdir t dir = .made t') : SameFiles t t' := by
  obtain ⟨hnone, hnodes⟩ := mkdir_made h
  intro path file
  rw [hnodes]
  split
  · next heq => simp [heq, hnone]
  · rfl

theorem sameFiles_rmdir (h : t.rmdir? dir = some t') : SameFiles t t' := by
  obtain ⟨hdir, -, hnodes⟩ := FileTree.rmdir?_eq_some h
  intro path file
  rw [hnodes]
  split
  · next heq => simp [heq, hdir]
  · rfl

/-- The only things that a step does. -/
theorem CallPhase.next_step (root : List FileName) (call : StoreCall) (t : Tree) (phase : CallPhase) :
    CallStep root call t phase (phase.next root call t).1 (phase.next root call t).2 := by
  cases phase with
  | climbing up rest =>
    cases hmkdir : mkdir t up.reverse with
    | made made =>
      simp only [next, hmkdir]
      exact .made hmkdir
    | refused =>
      simp only [next, hmkdir]
      exact .met hmkdir
    | missing =>
      cases up with
      | nil => cases hmkdir
      | cons name above =>
        simp only [next, hmkdir]
        exact .climbed hmkdir
  | checking dir rest =>
    simp only [next]
    split
    · next hdir => exact .found (FileTree.isDir_iff.mp hdir)
    · next hdir => exact .lost (mt FileTree.isDir_iff.mpr hdir)
  | descending dir rest =>
    cases rest with
    | nil => exact .arrived
    | cons name rest =>
      cases hmkdir : mkdir t (dir ++ [name]) with
      | made made =>
        simp only [next, hmkdir]
        exact .madeBelow hmkdir
      | refused =>
        simp only [next, hmkdir]
        exact .metBelow hmkdir
      | missing =>
        simp only [next, hmkdir]
        exact .vanished hmkdir
  | opening =>
    cases hopened : (call.path? root).bind fun path => call.file?.bind fun file => t.write? path {file with data := []} with
    | none =>
      simp only [next, hopened]
      exact .unopened hopened
    | some opened =>
      simp only [next, hopened]
      obtain ⟨path, hpath, hfile⟩ := Option.bind_eq_some_iff.mp hopened
      obtain ⟨file, hfile, hwrite⟩ := Option.bind_eq_some_iff.mp hfile
      exact .opened hpath hfile hwrite
  | writing =>
    cases hwritten : (call.path? root).bind fun path => call.file?.map (t.fill path) with
    | none =>
      simp only [next, hwritten]
      exact .unnamed hwritten
    | some written =>
      simp only [next, hwritten]
      obtain ⟨path, hpath, hfilled⟩ := Option.bind_eq_some_iff.mp hwritten
      obtain ⟨file, hfile, rfl⟩ := Option.map_eq_some_iff.mp hfilled
      exact .written hpath hfile
  | unlinking =>
    cases hpath : call.path? root with
    | none =>
      simp only [next, hpath]
      exact .stuck (by rw [hpath]; rfl)
    | some path =>
      cases hremoved : t.unlink? path with
      | none =>
        simp only [next, hpath, hremoved]
        exact .stuck (by rw [hpath, Option.bind_some, hremoved])
      | some removed =>
        simp only [next, hpath, hremoved]
        exact .unlinked hpath hremoved
  | pruning up =>
    cases up with
    | nil => exact .finished
    | cons name above =>
      by_cases hroot : (name :: above).reverse = root
      · simp only [next, if_pos hroot]
        exact .finished
      · cases hremoved : t.rmdir? (name :: above).reverse with
        | none =>
          simp only [next, if_neg hroot, hremoved]
          exact .finished
        | some removed =>
          simp only [next, if_neg hroot, hremoved]
          exact .pruned hroot hremoved
  | returned => exact .rested
  | raised => exact .failed

theorem StoreCall.path?_eq_some (h : call.path? root = some path) :
    ∃ ps names, safeParts? call.objectKey = some ps ∧ ps.mapM Text.fsencode? = some names ∧ path = root ++ names := by
  obtain ⟨safe, hsafe, hpath⟩ := Option.bind_eq_some_iff.mp h
  obtain ⟨ps, hps, rfl⟩ := Option.map_eq_some_iff.mp hsafe
  rw [path?_eq hps] at hpath
  obtain ⟨names, hnames, rfl⟩ := Option.map_eq_some_iff.mp hpath
  exact ⟨ps, names, hps, hnames, rfl⟩

theorem CallStep.fits (h : CallStep root call t phase phase' t') (hfits : phase.Fits call) : phase'.Fits call := by
  cases h with
  | lost | vanished | unopened | written | unnamed | stuck | finished | rested | failed => trivial
  | opened hpath =>
    obtain ⟨ps, -, hps, -⟩ := StoreCall.path?_eq_some hpath
    exact ⟨hfits, by rw [hps]; rfl⟩
  | _ => exact hfits

/-- The file of the call is there. -/
def HasFile (root : List FileName) (call : StoreCall) (t : Tree) : Prop :=
  ∃ path file, call.path? root = some path ∧ t.node path = some (.file file)

/-- The node at the path of the call is set to something else. -/
def Sets (root : List FileName) (call : StoreCall) (t t' : Tree) (file? : Option StoredFile) : Prop :=
  ∃ path, call.path? root = some path ∧ ∀ path', t'.node path' = if path' = path then file?.map .file else t.node path'

/-- What a step does to the files: nothing; it opens the file of a put; or it is the one that counts. -/
inductive FileStep (root : List FileName) (call : StoreCall) (t : Tree) (phase phase' : CallPhase) (t' : Tree) : Prop where
  | quiet (hkept : phase'.hasTaken = phase.hasTaken) (hbefore : phase ≠ .writing) (hafter : phase' ≠ .writing) (h : SameFiles t t')
  | opens (hbefore : phase = .opening) (hafter : phase' = .writing) (file : StoredFile) (h : Sets root call t t' (some file))
  | takes (hbefore : phase.hasTaken = false) (hopen : phase.isOver = false) (hafter : phase'.hasTaken = true)
      (h : Sets root call t t' call.file?)

/-- A put whose file is open has a file to write to. -/
theorem CallStep.files (h : CallStep root call t phase phase' t') (hfits : phase.Fits call)
    (hopen : phase = .writing → HasFile root call t) : FileStep root call t phase phase' t' := by
  cases h with
  | made h | madeBelow h => exact .quiet rfl nofun nofun (sameFiles_mkdir h)
  | pruned _ h => exact .quiet rfl nofun nofun (sameFiles_rmdir h)
  | opened hpath hfile h => exact .opens rfl rfl _ ⟨_, hpath, (FileTree.write?_eq_some h).2⟩
  | @written path file hpath hfile =>
    obtain ⟨path', old, hpath', hold⟩ := hopen rfl
    obtain rfl := Option.some.inj (hpath.symm.trans hpath')
    refine .takes rfl rfl rfl ⟨path, hpath, fun path' => ?_⟩
    rw [hfile]
    exact FileTree.fill_node hold path'
  | unnamed hnone =>
    obtain ⟨path, old, hpath, -⟩ := hopen rfl
    cases call with
    | put key data now => simp [hpath, StoreCall.file?] at hnone
    | delete key => cases hfits.1
  | unlinked hpath h =>
    have hfile : call.file? = none := by
      cases call with
      | put key data now => cases hfits
      | delete key => rfl
    refine .takes rfl rfl rfl ⟨_, hpath, fun path' => ?_⟩
    rw [hfile]
    exact (FileTree.unlink?_eq_some h).2 path'
  | _ => exact .quiet rfl nofun nofun (.refl t)

theorem StoreCall.begin_cases (root : List FileName) (call : StoreCall) :
    (call.begin root).Fits call ∧ (call.begin root).hasTaken = false := by
  unfold begin
  split
  · split
    · exact ⟨trivial, rfl⟩
    · exact ⟨rfl, rfl⟩
  · split
    · exact ⟨trivial, rfl⟩
    · exact ⟨rfl, rfl⟩

/-- A call begins with no file open. -/
theorem StoreCall.begin_closed (root : List FileName) (call : StoreCall) : call.begin root ≠ .writing := by
  unfold begin
  split <;> split <;> nofun

/-- The key has no surrogates, is not the root, and is one that the file system takes. -/
def StoreCall.NamesObject (call : StoreCall) : Prop :=
  call.objectKey.isEncodable = true ∧ safeParts? call.objectKey ≠ some [] ∧ IsShort call.objectKey

theorem Holds.sameFiles {contents : Contents} (h : Holds root contents t) (hsame : SameFiles t t') : Holds root contents t' :=
  ⟨fun names file => by rw [hsame, h.file], h.named⟩

/-- A file that is set is an object that is set. -/
theorem Holds.sets {contents : Contents} (h : Holds root contents t) (hnames : call.NamesObject) {file? : Option StoredFile}
    (hsets : Sets root call t t' file?) :
    ∃ ps, safeParts? call.objectKey = some ps ∧ Holds root (Function.update contents ps file?) t' := by
  obtain ⟨path, hpath, hnodes⟩ := hsets
  obtain ⟨ps, names, hps, hnames', rfl⟩ := StoreCall.path?_eq_some hpath
  have haround : ∀ path', path' ≠ root ++ names → Around root call t t' path' :=
    fun path' hne => .same (by rw [hnodes, if_neg hne])
  exact ⟨ps, hps, h.update (spelled_of_key hnames.1 hps hnames') (fun hnil => hnames.2.1 (by rw [hps, hnil]))
    (by rw [hnodes, if_pos rfl]) haround⟩

/-- What is shown under a key is in its file. -/
theorem Holds.hasFile {contents : Contents} (h : Holds root contents t) {ps : List Text} (hps : safeParts? call.objectKey = some ps)
    (hshown : (contents ps).isSome) : HasFile root call t := by
  obtain ⟨file, hfile⟩ := Option.isSome_iff_exists.mp hshown
  obtain ⟨-, names, hspelled⟩ := h.named ps file hfile
  refine ⟨root ++ names, file, ?_, (h.file names file).mpr ⟨ps, hspelled, hfile⟩⟩
  rw [StoreCall.path?, (safeObjectKey?_parts hps).1, Option.bind_some, path?_eq hps, hspelled.encoded, Option.map_some]

end

/-! ### Any order of steps -/

/-- A put has opened the file of this object and not written it yet. -/
def StoreSystem.Open (s : StoreSystem) (ps : List Text) : Prop :=
  ∃ p c, s.calls p = some c ∧ c.phase = .writing ∧ safeParts? c.call.objectKey = some ps

/-- No call that is under way has the key. -/
def StoreSystem.Apart (s : StoreSystem) (objectKey : Text) : Prop :=
  ∀ p c, s.calls p = some c → c.phase.isOver = false → safeParts? c.call.objectKey ≠ safeParts? objectKey

/-- The objects that the tree shows: what the calls have left, and what is open. -/
structure Shown (root : List FileName) (contents : Contents) (s : StoreSystem) (order : List (Nat × StoreCall)) (shown : Contents) :
    Prop where
  holds : Holds root shown s.tree
  settled : ∀ ps, ¬ s.Open ps → shown ps = stored contents (order.map Prod.snd) ps
  opened : ∀ ps, s.Open ps → (shown ps).isSome

/-- The calls that have written or unlinked their file, in this order, against the tree and the calls. -/
structure Linear (root : List FileName) (contents : Contents) (s : StoreSystem) (order : List (Nat × StoreCall)) : Prop where
  shown : ∃ shown, Shown root contents s order shown
  once : (order.map Prod.fst).Nodup
  taken : ∀ p call, (p, call) ∈ order ↔ ∃ phase, s.calls p = some ⟨call, phase⟩ ∧ phase.hasTaken = true
  fits : ∀ p c, s.calls p = some c → c.phase.Fits c.call ∧ c.call.NamesObject
  apart : ∀ p q c d, p ≠ q → s.calls p = some c → s.calls q = some d → c.phase.isOver = false → d.phase.isOver = false →
    safeParts? c.call.objectKey ≠ safeParts? d.call.objectKey

/-- What is started is a call on an object, and no other one with its key is under way. -/
def StoreInput.StartsWell : StoreInput → StoreSystem → Prop
  | .start _ call, s => call.NamesObject ∧ s.Apart call.objectKey
  | .step _, _ => True

instance (call : StoreCall) : Decidable call.NamesObject := inferInstanceAs (Decidable (_ ∧ _))

section
variable {root : List FileName} {contents shown : Contents} {s : StoreSystem} {order : List (Nat × StoreCall)} {i : StoreInput}
  {inputs : List StoreInput} {p : Nat} {c : RunningCall} {phase : CallPhase} {tree : Tree} {ps : List Text}

theorem CallStep.over {call : StoreCall} {t t' : Tree} {phase' : CallPhase} (h : CallStep root call t phase phase' t')
    (hover : phase.isOver = true) : phase'.isOver = true := by
  cases h <;> first | rfl | cases hover

/-- A put other than `p` has opened the file of this object. -/
def StoreSystem.OpenBeside (s : StoreSystem) (p : Nat) (ps : List Text) : Prop :=
  ∃ q d, q ≠ p ∧ s.calls q = some d ∧ d.phase = .writing ∧ safeParts? d.call.objectKey = some ps

theorem open_update : StoreSystem.Open ⟨tree, Function.update s.calls p (some c)⟩ ps ↔
    (c.phase = .writing ∧ safeParts? c.call.objectKey = some ps) ∨ s.OpenBeside p ps := by
  constructor
  · rintro ⟨q, d, hd, hphase, hps⟩
    rcases update_cases hd with ⟨rfl, hnew⟩ | ⟨hne, hbefore⟩
    · obtain rfl := Option.some.inj hnew
      exact .inl ⟨hphase, hps⟩
    · exact .inr ⟨q, d, hne, hbefore, hphase, hps⟩
  · rintro (⟨hphase, hps⟩ | ⟨q, d, hne, hd, hphase, hps⟩)
    · exact ⟨p, c, Function.update_self .., hphase, hps⟩
    · exact ⟨q, d, (Function.update_of_ne hne ..).trans hd, hphase, hps⟩

theorem open_iff (hp : s.calls p = some c) : s.Open ps ↔
    (c.phase = .writing ∧ safeParts? c.call.objectKey = some ps) ∨ s.OpenBeside p ps := by
  have hupdate : StoreSystem.Open ⟨s.tree, Function.update s.calls p (some c)⟩ ps ↔ s.Open ps := by
    rw [← hp, Function.update_eq_self]
  rw [← hupdate, open_update]

theorem open_absent (hp : s.calls p = none) : s.Open ps ↔ s.OpenBeside p ps := by
  constructor
  · rintro ⟨q, d, hd, hphase, hps⟩
    refine ⟨q, d, ?_, hd, hphase, hps⟩
    rintro rfl
    rw [hp] at hd
    cases hd
  · rintro ⟨q, d, -, hd, hphase, hps⟩
    exact ⟨q, d, hd, hphase, hps⟩

/-- A step that opens, writes and removes no file. -/
theorem Shown.quiet (h : Shown root contents s order shown) {s' : StoreSystem} (hsame : SameFiles s.tree s'.tree)
    (hopen : ∀ ps, s'.Open ps ↔ s.Open ps) : Shown root contents s' order shown where
  holds := h.holds.sameFiles hsame
  settled ps hps := h.settled ps (mt (hopen ps).mpr hps)
  opened ps hps := h.opened ps ((hopen ps).mp hps)

/-- A put opens its file. -/
theorem Shown.opens (h : Shown root contents s order shown) (hp : s.calls p = some c) (hnames : c.call.NamesObject)
    (hbefore : c.phase = .opening) {file : StoredFile} (hsets : Sets root c.call s.tree tree (some file)) :
    ∃ shown, Shown root contents ⟨tree, Function.update s.calls p (some ⟨c.call, .writing⟩)⟩ order shown := by
  obtain ⟨ps₀, hps₀, hholds⟩ := h.holds.sets hnames hsets
  have hopen (ps : List Text) : s.Open ps ↔ s.OpenBeside p ps := by simp [open_iff hp, hbefore]
  refine ⟨_, hholds, fun ps hps => ?_, fun ps hps => ?_⟩
  · rw [open_update, not_or] at hps
    have hne : ps ≠ ps₀ := by
      rintro rfl
      exact hps.1 ⟨rfl, hps₀⟩
    rw [Function.update_of_ne hne]
    exact h.settled ps (mt (hopen ps).mp hps.2)
  · by_cases heq : ps = ps₀
    · rw [heq, Function.update_self]
      rfl
    · rw [Function.update_of_ne heq]
      refine h.opened ps ((hopen ps).mpr ((open_update.mp hps).resolve_left fun hown => heq ?_))
      exact Option.some.inj (hown.2.symm.trans hps₀)

/-- A call writes or unlinks its file. -/
theorem Shown.takes (h : Shown root contents s order shown) (hp : s.calls p = some c) (hnames : c.call.NamesObject)
    (hphase : phase ≠ .writing) (hsets : Sets root c.call s.tree tree c.call.file?)
    (halone : ∀ ps, safeParts? c.call.objectKey = some ps → ¬ s.OpenBeside p ps) :
    ∃ shown, Shown root contents ⟨tree, Function.update s.calls p (some ⟨c.call, phase⟩)⟩ (order ++ [(p, c.call)]) shown := by
  obtain ⟨ps₀, hps₀, hholds⟩ := h.holds.sets hnames hsets
  have hopen (ps : List Text) : StoreSystem.Open ⟨tree, Function.update s.calls p (some ⟨c.call, phase⟩)⟩ ps ↔ s.OpenBeside p ps := by
    rw [open_update, or_iff_right fun hown => hphase hown.1]
  have hstored : stored contents ((order ++ [(p, c.call)]).map Prod.snd) =
      Function.update (stored contents (order.map Prod.snd)) ps₀ c.call.file? := by
    rw [List.map_append, stored, List.foldl_append]
    show StoreCall.effect _ c.call = _
    rw [StoreCall.effect, hps₀]
    rfl
  refine ⟨_, hholds, fun ps hps => ?_, fun ps hps => ?_⟩
  · rw [hopen] at hps
    rw [hstored]
    by_cases heq : ps = ps₀
    · rw [heq, Function.update_self, Function.update_self]
    · rw [Function.update_of_ne heq, Function.update_of_ne heq]
      refine h.settled ps fun hopened => hps (((open_iff hp).mp hopened).resolve_left fun hown => heq ?_)
      exact Option.some.inj (hown.2.symm.trans hps₀)
  · rw [hopen] at hps
    have hne : ps ≠ ps₀ := by
      rintro rfl
      exact halone ps hps₀ hps
    rw [Function.update_of_ne hne]
    exact h.opened ps ((open_iff hp).mpr (.inr hps))

/-- What was taken before, and by whom, with a call that goes on. -/
theorem Linear.taken_kept (h : Linear root contents s order) (hkept : ∀ call,
      (∃ phase, s.calls p = some ⟨call, phase⟩ ∧ phase.hasTaken = true) ↔ c.call = call ∧ c.phase.hasTaken = true) (q : Nat)
    (call : StoreCall) : (q, call) ∈ order ↔
      ∃ phase, Function.update s.calls p (some c) q = some ⟨call, phase⟩ ∧ phase.hasTaken = true := by
  rw [h.taken]
  by_cases hq : q = p
  · subst hq
    rw [hkept]
    simp only [Function.update_self]
    constructor
    · rintro ⟨rfl, htaken⟩
      exact ⟨c.phase, rfl, htaken⟩
    · rintro ⟨phase, heq, htaken⟩
      obtain rfl := Option.some.inj heq
      exact ⟨rfl, htaken⟩
  · simp only [Function.update_of_ne hq]

/-- Calls stay apart when a call goes on, or begins with a key that no other one has. -/
theorem Linear.apart_update (h : Linear root contents s order)
    (hown : c.phase.isOver = false → ∀ q d, q ≠ p → s.calls q = some d → d.phase.isOver = false →
      safeParts? c.call.objectKey ≠ safeParts? d.call.objectKey) (q r : Nat) (d e : RunningCall) (hne : q ≠ r)
    (hq : Function.update s.calls p (some c) q = some d) (hr : Function.update s.calls p (some c) r = some e)
    (hd : d.phase.isOver = false) (he : e.phase.isOver = false) : safeParts? d.call.objectKey ≠ safeParts? e.call.objectKey := by
  rcases update_cases hq with ⟨rfl, hnew⟩ | ⟨hqp, hqs⟩
  · obtain rfl := Option.some.inj hnew
    rcases update_cases hr with ⟨hsame, -⟩ | ⟨hrp, hrs⟩
    · exact (hne hsame.symm).elim
    · exact hown hd r e hrp hrs he
  · rcases update_cases hr with ⟨rfl, hnew⟩ | ⟨hrp, hrs⟩
    · obtain rfl := Option.some.inj hnew
      exact (hown he q d hqp hqs hd).symm
    · exact h.apart q r d e hne hqs hrs hd he

/-- A call begins. -/
theorem Linear.start (h : Linear root contents s order) {call : StoreCall} (hp : s.calls p = none) (hnames : call.NamesObject)
    (hapart : s.Apart call.objectKey) :
    Linear root contents {s with calls := Function.update s.calls p (some ⟨call, call.begin root⟩)} order where
  shown := by
    obtain ⟨shown, hshown⟩ := h.shown
    refine ⟨shown, hshown.quiet (.refl _) fun ps => ?_⟩
    rw [open_update, open_absent hp]
    exact or_iff_right fun hown => call.begin_closed root hown.1
  once := h.once
  taken := h.taken_kept fun call' => by simp [hp, (call.begin_cases root).2]
  fits q d hd := by
    rcases update_cases hd with ⟨-, hnew⟩ | ⟨-, hbefore⟩
    · obtain rfl := Option.some.inj hnew
      exact ⟨(call.begin_cases root).1, hnames⟩
    · exact h.fits q d hbefore
  apart := h.apart_update fun _ q d _ hd hopen => (hapart q d hd hopen).symm

/-- A step of a call that writes and unlinks nothing. -/
theorem Linear.goOn (h : Linear root contents s order) (hp : s.calls p = some c) (hfits : phase.Fits c.call)
    (hover : c.phase.isOver = true → phase.isOver = true) (hkept : phase.hasTaken = c.phase.hasTaken)
    (hshown : ∃ shown, Shown root contents ⟨tree, Function.update s.calls p (some ⟨c.call, phase⟩)⟩ order shown) :
    Linear root contents ⟨tree, Function.update s.calls p (some ⟨c.call, phase⟩)⟩ order where
  shown := hshown
  once := h.once
  taken := h.taken_kept fun call => by
    rw [hkept]
    constructor
    · rintro ⟨phase', heq, htaken⟩
      rw [hp] at heq
      obtain rfl := Option.some.inj heq
      exact ⟨rfl, htaken⟩
    · rintro ⟨rfl, htaken⟩
      exact ⟨c.phase, hp, htaken⟩
  fits q d hd := by
    rcases update_cases hd with ⟨-, hnew⟩ | ⟨-, hbefore⟩
    · obtain rfl := Option.some.inj hnew
      exact ⟨hfits, (h.fits p c hp).2⟩
    · exact h.fits q d hbefore
  apart := h.apart_update fun hopen q d hne hd hopen' => h.apart p q c d hne.symm hp hd
    (Bool.eq_false_iff.mpr fun hc => by rw [hover hc] at hopen; cases hopen) hopen'

/-- A call that writes or unlinks its file. -/
theorem Linear.take (h : Linear root contents s order) (hp : s.calls p = some c) (hbefore : c.phase.hasTaken = false)
    (hopen : c.phase.isOver = false) (hafter : phase.hasTaken = true) (hfits : phase.Fits c.call)
    (hsets : Sets root c.call s.tree tree c.call.file?) :
    Linear root contents ⟨tree, Function.update s.calls p (some ⟨c.call, phase⟩)⟩ (order ++ [(p, c.call)]) where
  shown := by
    obtain ⟨shown, hshown⟩ := h.shown
    refine hshown.takes hp (h.fits p c hp).2 (by rintro rfl; cases hafter) hsets fun ps hps hbeside => ?_
    obtain ⟨q, d, hne, hd, hphase, hps'⟩ := hbeside
    exact h.apart q p d c hne hd hp (by rw [hphase]; rfl) hopen (hps'.trans hps.symm)
  once := by
    rw [List.map_append, List.map_singleton]
    refine List.Nodup.append h.once (List.nodup_singleton p) fun q hq hq' => ?_
    obtain rfl := List.mem_singleton.mp hq'
    obtain ⟨⟨q', call⟩, hmem, heq⟩ := List.mem_map.mp hq
    dsimp only at heq
    subst heq
    obtain ⟨phase', hcalls, htaken⟩ := (h.taken _ call).mp hmem
    rw [hp] at hcalls
    rw [Option.some.inj hcalls, htaken] at hbefore
    cases hbefore
  taken q call := by
    rw [List.mem_append, List.mem_singleton]
    by_cases hq : q = p
    · subst hq
      simp only [Function.update_self]
      constructor
      · rintro (hold | hnew)
        · obtain ⟨phase', hcalls, htaken⟩ := (h.taken q call).mp hold
          rw [hp] at hcalls
          rw [Option.some.inj hcalls, htaken] at hbefore
          cases hbefore
        · obtain rfl := (Prod.mk.inj hnew).2
          exact ⟨phase, rfl, hafter⟩
      · rintro ⟨phase', heq, -⟩
        obtain rfl := congrArg RunningCall.call (Option.some.inj heq)
        exact .inr rfl
    · rw [h.taken]
      simp only [Function.update_of_ne hq, or_iff_left (fun hnew : (q, call) = (p, c.call) => hq (Prod.mk.inj hnew).1)]
  fits q d hd := by
    rcases update_cases hd with ⟨-, hnew⟩ | ⟨-, hbefore⟩
    · obtain rfl := Option.some.inj hnew
      exact ⟨hfits, (h.fits p c hp).2⟩
    · exact h.fits q d hbefore
  apart := h.apart_update fun _ q d hne hd hopen' => h.apart p q c d hne.symm hp hd hopen hopen'

/-- A put whose file is open has a file to write to, as no other call has its key. -/
theorem Linear.hasFile (h : Linear root contents s order) (hp : s.calls p = some c) (hphase : c.phase = .writing) :
    HasFile root c.call s.tree := by
  have hfits := (h.fits p c hp).1
  rw [hphase] at hfits
  obtain ⟨ps, hps⟩ := Option.isSome_iff_exists.mp hfits.2
  obtain ⟨shown, hshown⟩ := h.shown
  exact hshown.holds.hasFile hps (hshown.opened ps ⟨p, c, hp, hphase, hps⟩)

theorem Linear.next (h : Linear root contents s order) (hi : i.StartsWell s) :
    Linear root contents ((storeSystem root).next i s) (order ++ (storeSystem root).out i s) := by
  cases i with
  | start p call =>
    rw [show (storeSystem root).out (.start p call) s = [] from rfl, List.append_nil]
    cases hp : s.calls p with
    | some c =>
      rw [show (storeSystem root).next (.start p call) s = s by simp only [storeSystem, hp]]
      exact h
    | none =>
      rw [show (storeSystem root).next (.start p call) s =
        {s with calls := Function.update s.calls p (some ⟨call, call.begin root⟩)} by simp only [storeSystem, hp]]
      exact h.start hp hi.1 hi.2
  | step p =>
    cases hp : s.calls p with
    | none =>
      rw [show (storeSystem root).next (.step p) s = s by simp only [storeSystem, hp],
        show (storeSystem root).out (.step p) s = [] by simp only [storeSystem, hp], List.append_nil]
      exact h
    | some c =>
      obtain ⟨hfits, hnames⟩ := h.fits p c hp
      have hstep := CallPhase.next_step root c.call s.tree c.phase
      rw [show (storeSystem root).next (.step p) s = ⟨(c.phase.next root c.call s.tree).2,
        Function.update s.calls p (some ⟨c.call, (c.phase.next root c.call s.tree).1⟩)⟩ by simp only [storeSystem, hp]]
      rw [show (storeSystem root).out (.step p) s =
        if !c.phase.hasTaken && (c.phase.next root c.call s.tree).1.hasTaken then [(p, c.call)] else [] by simp only [storeSystem, hp]]
      cases hstep.files hfits (h.hasFile hp) with
      | quiet hkept hbefore hafter hsame =>
        rw [if_neg (by simp [hkept]), List.append_nil]
        refine h.goOn hp (hstep.fits hfits) hstep.over hkept ?_
        obtain ⟨shown, hshown⟩ := h.shown
        refine ⟨shown, hshown.quiet hsame fun ps => ?_⟩
        rw [open_update, open_iff hp, or_iff_right fun hown => hafter hown.1, or_iff_right fun hown => hbefore hown.1]
      | opens hbefore hafter file hsets =>
        rw [if_neg (by simp [hafter, CallPhase.hasTaken]), List.append_nil]
        refine h.goOn hp (hstep.fits hfits) hstep.over (by rw [hafter, hbefore]; rfl) ?_
        obtain ⟨shown, hshown⟩ := h.shown
        rw [hafter]
        exact hshown.opens hp hnames hbefore hsets
      | takes hbefore hopen hafter hsets =>
        rw [if_pos (by rw [hbefore, hafter]; rfl)]
        exact h.take hp hbefore hopen hafter (hstep.fits hfits) hsets

end

/-- No call has been started. -/
def StoreSystem.initial (t : Tree) : StoreSystem := ⟨t, fun _ => none⟩

section
variable (root : List FileName) (contents : Contents) (t : Tree) (inputs : List StoreInput)

def ran : StoreSystem := (storeSystem root).run (.initial t) inputs

/-- The calls in the order in which they wrote or unlinked their files. -/
def order : List (Nat × StoreCall) := (storeSystem root).trace (.initial t) inputs

/-- The calls have been made one after the other: each that returned at one moment between its
start and its end, and none that raised. What a put has opened is shown as it may be. -/
structure Linearized : Prop where
  shows : ∃ shown, Shows root shown (ran root t inputs).tree ∧ ∀ ps, ¬ (ran root t inputs).Open ps →
    shown ps = stored contents ((order root t inputs).map Prod.snd) ps
  once : ((order root t inputs).map Prod.fst).Nodup
  started : ∀ p call, (p, call) ∈ order root t inputs → ∃ phase, (ran root t inputs).calls p = some ⟨call, phase⟩
  returned : ∀ p call, (ran root t inputs).calls p = some ⟨call, .returned⟩ → (p, call) ∈ order root t inputs
  raised : ∀ p call, (ran root t inputs).calls p = some ⟨call, .raised⟩ → p ∉ (order root t inputs).map Prod.fst
  realTime : ∀ before, before <+: inputs → ∀ p call, (ran root t before).calls p = some ⟨call, .returned⟩ →
    ∀ q, (ran root t before).calls q = none → ∃ first rest, order root t inputs = first ++ rest ∧
      p ∈ first.map Prod.fst ∧ q ∉ first.map Prod.fst

end

section
variable {root : List FileName} {contents : Contents} {t : Tree} {inputs : List StoreInput}

theorem ran_linear (hholds : Holds root contents t)
    (hinputs : ∀ before i, before ++ [i] <+: inputs → i.StartsWell (ran root t before)) :
    Linear root contents (ran root t inputs) (order root t inputs) := by
  refine Machine.history_allowed (M := storeSystem root) (A := StoreInput.StartsWell)
    (P := fun s _ order => Linear root contents s order) (fun i s _ order hi h => h.next hi) ?_ inputs hinputs
  have hclosed (ps : List Text) : ¬ (StoreSystem.initial t).Open ps := by
    rintro ⟨p, c, hp, -⟩
    cases hp
  exact ⟨⟨contents, hholds, fun ps _ => rfl, fun ps hps => (hclosed ps hps).elim⟩, List.nodup_nil,
    fun p call => ⟨fun h => (List.not_mem_nil h).elim, fun ⟨_, h, _⟩ => by cases h⟩, nofun, fun p q c d _ hp => by cases hp⟩

/-- Who is found in the order was started and did not raise. -/
theorem Linear.not_taken {s : StoreSystem} {order : List (Nat × StoreCall)} (h : Linear root contents s order) {p : Nat}
    (hp : ∀ c, s.calls p = some c → c.phase.hasTaken = false) : p ∉ order.map Prod.fst := by
  intro hmem
  obtain ⟨⟨q, call⟩, hentry, rfl⟩ := List.mem_map.mp hmem
  obtain ⟨phase, hcalls, htaken⟩ := (h.taken q call).mp hentry
  have hfalse := hp _ hcalls
  rw [htaken] at hfalse
  cases hfalse

namespace Sample

/-- An object is put; the directory of another put is removed with it before that one opens its file. -/
def overtakenPut : List StoreInput :=
  [.start 0 (.put (.ofString "a/x") [1] 0)] ++ List.replicate 6 (.step 0) ++
    [.start 1 (.put (.ofString "a/y") [2] 1), .step 1, .step 1, .step 1] ++
    [.start 2 (.delete (.ofString "a/x")), .step 2, .step 2, .step 2, .step 1]

/-- The calls are three. -/
theorem overtaken_few (before : List StoreInput) (hpre : before <+: overtakenPut) (p : Nat) (hp : 3 ≤ p) :
    (ran storeRoot .empty before).calls p = none := by
  refine Machine.run_invariant (M := storeSystem storeRoot) (A := fun i => i.started.all (· < 3)) (P := fun s => s.calls p = none)
    (fun i s hi hnone => ?_) rfl before fun i hi => (by decide : ∀ i ∈ overtakenPut, i.started.all (· < 3)) i (hpre.subset hi)
  cases i with
  | start q call =>
    have hq : q < 3 := of_decide_eq_true hi
    have hne : p ≠ q := by omega
    simp only [storeSystem]
    split
    · exact (Function.update_of_ne hne ..).trans hnone
    · exact hnone
  | step q =>
    simp only [storeSystem]
    split
    · exact hnone
    · next c hc =>
      refine (Function.update_of_ne ?_ ..).trans hnone
      rintro rfl
      rw [hnone] at hc
      cases hc

/-- The delete begins when the put of its object has returned. -/
def StartsApart : StoreInput → StoreSystem → Prop
  | .start _ call, s => call.NamesObject ∧
    ∀ p < 3, (s.calls p).all fun c => c.phase.isOver || safeParts? c.call.objectKey ≠ safeParts? call.objectKey
  | .step _, _ => True

instance (i : StoreInput) (s : StoreSystem) : Decidable (StartsApart i s) := by
  cases i <;> unfold StartsApart <;> infer_instance

theorem overtaken_apart (before : List StoreInput) (i : StoreInput) (hpre : before ++ [i] <+: overtakenPut) :
    i.StartsWell (ran storeRoot .empty before) := by
  have happart : ∀ before i, before ++ [i] <+: overtakenPut →
      StartsApart i ((storeSystem storeRoot).run (.initial .empty) before) := by decide +kernel
  have hi := happart before i hpre
  cases i with
  | step q => trivial
  | start q call =>
    refine ⟨hi.1, fun p c hp hopen => ?_⟩
    by_cases hfew : p < 3
    · have hkeys := hi.2 p hfew
      rw [show ((storeSystem storeRoot).run (.initial .empty) before).calls p = some c from hp] at hkeys
      simpa [hopen] using hkeys
    · rw [overtaken_few before ((List.prefix_append ..).trans hpre) p (Nat.le_of_not_lt hfew)] at hp
      cases hp

end Sample

end

end FilesystemStore

end ResearchGateway
