import ResearchGateway.ConcurrentStore

/-! Overlapping calls end.

A call ends after a number of its own steps that its path bounds, whatever the others do and
whatever the keys are. Where all keys lie on one level a delete returns, and a put raises only if
another call has removed a directory that leads to its file (`call_ends`). -/
namespace ResearchGateway
open Library ObjectKey

namespace FilesystemStore

/-- How many steps a call takes yet at most, where its path has so many names. -/
def CallPhase.toGo (length : Nat) : CallPhase → Nat
  | .climbing up rest => 3 * up.length + 2 * rest.length + 5
  | .checking _ rest => 2 * rest.length + 4
  | .descending _ rest => 2 * rest.length + 3
  | .opening => 2
  | .writing => 1
  | .unlinking => length + 2
  | .pruning up => up.length + 1
  | .returned | .raised => 0

/-- The steps of a call. -/
def StoreCall.bound (root : List FileName) (call : StoreCall) : Nat :=
  3 * (root.length + (parts call.objectKey).length) + 5

def StoreInput.isStepOf (p : Nat) : StoreInput → Bool
  | .start .. => false
  | .step q => q = p

/-- The names between the top and the file. -/
def CallPhase.Shaped (path : List FileName) : CallPhase → Prop
  | .climbing up rest => up.reverse ++ rest = path.dropLast
  | .checking dir rest | .descending dir rest => dir ++ rest = path.dropLast
  | _ => True

/-- The directories that a call has made or found are there. -/
def CallPhase.Secure (path : List FileName) (t : Tree) : CallPhase → Prop
  | .checking dir _ | .descending dir _ => t.node dir = some .dir
  | .opening => t.node path.dropLast = some .dir
  | .raised => False
  | _ => True

/-- A step of a delete that removes a directory on the way to the file. -/
def RemovesOnWay (root path : List FileName) (s : StoreSystem) (i : StoreInput) : Prop :=
  ∃ q c dir, i = .step q ∧ s.calls q = some c ∧ c.call.isPut = false ∧ dir <+: path ∧ s.tree.node dir = some .dir ∧
    ((storeSystem root).next i s).tree.node dir = none

/-- All files are on one level, and the calls under way are for such files. -/
structure Leveled (root : List FileName) (depth : Nat) (s : StoreSystem) : Prop where
  level : Level root depth s.tree
  calls : ∀ p c, s.calls p = some c → OnLevel depth c.call ∧ c.phase.Fits c.call ∧
    ∀ path, c.call.path? root = some path → c.phase.Shaped path

def StoreInput.StartsOnLevel (depth : Nat) : StoreInput → Prop
  | .start _ call => OnLevel depth call
  | .step _ => True

instance (depth : Nat) (i : StoreInput) : Decidable (i.StartsOnLevel depth) :=
  match i with
  | .start _ call => inferInstanceAs (Decidable (OnLevel depth call))
  | .step _ => .isTrue trivial

section
variable {root path names : List FileName} {depth : Nat} {call : StoreCall} {t t' : Tree} {phase phase' : CallPhase}

/-! ### The steps that a call takes -/

theorem CallStep.toGo (h : CallStep root call t phase phase' t') {length : Nat}
    (hlength : ∀ path, call.path? root = some path → path.length ≤ length) :
    phase'.toGo length + 1 ≤ phase.toGo length ∨ phase' = phase ∧ phase.toGo length = 0 := by
  cases h with
  | rested | failed => exact .inr ⟨rfl, rfl⟩
  | unlinked hpath h =>
    have hle := hlength _ hpath
    simp only [CallPhase.toGo, List.length_reverse, List.length_dropLast]
    omega
  | _ =>
    simp only [CallPhase.toGo, List.length_cons]
    omega

theorem CallPhase.toGo_eq_zero {length : Nat} : phase.toGo length = 0 ↔ phase = .returned ∨ phase = .raised := by
  cases phase <;> simp [toGo]

theorem StoreCall.path?_length (h : call.path? root = some path) : path.length ≤ root.length + (parts call.objectKey).length := by
  obtain ⟨ps, names, hps, hnames, rfl⟩ := path?_eq_some h
  rw [List.length_append, length_names hnames, (safeParts?_eq_some hps).1]

theorem StoreCall.toGo_begin (root : List FileName) (call : StoreCall) :
    (call.begin root).toGo (root.length + (parts call.objectKey).length) ≤ call.bound root := by
  cases call with
  | put key data now =>
    simp only [begin, bound, objectKey]
    split
    · exact Nat.zero_le _
    · next parent hparent =>
      obtain ⟨safe, hsafe, hparent⟩ := Option.bind_eq_some_iff.mp hparent
      obtain ⟨ps, hps, rfl⟩ := Option.map_eq_some_iff.mp hsafe
      have hle : parent.length ≤ root.length + (parts key).length := by
        rw [(safeParts?_eq_some hps).1]
        unfold parent? at hparent
        rw [(safeObjectKey?_parts hps).2] at hparent
        split at hparent
        · obtain rfl := Option.some.inj hparent
          rw [List.length_dropLast]
          omega
        · obtain ⟨above, habove, rfl⟩ := Option.map_eq_some_iff.mp hparent
          rw [List.length_append, length_names habove, List.length_dropLast]
          omega
      simp only [CallPhase.toGo, List.length_reverse, List.length_nil]
      omega
  | delete key =>
    simp only [begin, bound, objectKey]
    split
    · exact Nat.zero_le _
    · simp only [CallPhase.toGo]
      omega

/-! ### The way to the file -/

theorem OnLevel.hasPath (h : OnLevel depth call) (root : List FileName) :
    ∃ names, call.path? root = some (root ++ names) ∧ names.length = depth := by
  obtain ⟨-, -, ps, names, hps, hlength, hnames⟩ := h
  refine ⟨names, ?_, by rw [length_names hnames, hlength]⟩
  rw [StoreCall.path?, (safeObjectKey?_parts hps).1, Option.bind_some, path?_eq hps, hnames, Option.map_some]

/-- A put begins at the directory of its file. -/
theorem StoreCall.begin_shaped (hcall : OnLevel depth call) (hdepth : 0 < depth) (hpath : call.path? root = some path) :
    (call.begin root).Shaped path ∧ call.begin root ≠ .raised := by
  cases call with
  | put key data now =>
    obtain ⟨ps, names, hps, hnames, rfl⟩ := path?_eq_some hpath
    have hkey : safeParts? key = some ps := hps
    obtain ⟨-, -, ps', names', hps', hlength, -⟩ := hcall
    obtain rfl := Option.some.inj (hps.symm.trans hps')
    have hnil : ps ≠ [] := List.ne_nil_of_length_pos (by omega)
    obtain ⟨front, more, hfront, hmore, rfl⟩ : ∃ front more, ps.dropLast.mapM Text.fsencode? = some front ∧
        [ps.getLast hnil].mapM Text.fsencode? = some more ∧ names = front ++ more :=
      mapM_append (by rw [List.dropLast_append_getLast, hnames])
    obtain ⟨name, rfl⟩ := List.length_eq_one_iff.mp (by rw [length_names hmore, List.length_singleton] : more.length = 1)
    have hparent : (safeObjectKey? key).bind (parent? root) = some (root ++ front) := by
      rw [(safeObjectKey?_parts hkey).1, Option.bind_some, parent?, (safeObjectKey?_parts hkey).2, if_neg hnil, hfront,
        Option.map_some]
    simp only [begin, hparent]
    refine ⟨?_, by simp⟩
    show (root ++ front).reverse.reverse ++ [] = (root ++ (front ++ [name])).dropLast
    rw [List.reverse_reverse, List.append_nil, ← List.append_assoc, List.dropLast_concat]
  | delete key =>
    simp only [begin, hpath, Option.isNone_some, Bool.false_eq_true, if_false]
    exact ⟨trivial, by simp⟩

theorem CallStep.shaped (h : CallStep root call t phase phase' t') (hshaped : phase.Shaped path) :
    phase'.Shaped path := by
  cases h with
  | made | met | found => exact hshaped
  | climbed => simpa [CallPhase.Shaped] using hshaped
  | madeBelow | metBelow => simpa [CallPhase.Shaped] using hshaped
  | _ => trivial

/-- A step makes a directory on the way to the file, writes the file, or takes away. -/
theorem CallStep.level (h : CallStep root call t phase phase' t') (hlevel : Level root depth t) (hdepth : 0 < depth)
    (hcall : OnLevel depth call) (hshaped : ∀ path, call.path? root = some path → phase.Shaped path) : Level root depth t' := by
  obtain ⟨names, hpath, hlength⟩ := hcall.hasPath root
  have hnil : names ≠ [] := List.ne_nil_of_length_pos (by omega)
  have hshort : names.dropLast.length < depth := by
    rw [List.length_dropLast]
    omega
  have hway := hshaped _ hpath
  have hdirectory {dir : List FileName} (hdir : dir <+: root ++ names.dropLast) (hmade : mkdir t dir = .made t') :
      Level root depth t' := by
    refine hlevel.directories hshort fun path => ?_
    rw [(mkdir_made hmade).2]
    split
    · next heq => exact .inr ⟨rfl, heq ▸ hdir⟩
    · exact .inl rfl
  cases h with
  | made hmade =>
    refine hdirectory ?_ hmade
    rw [← List.dropLast_append_of_ne_nil hnil, ← show _ = (root ++ names).dropLast from hway]
    exact List.prefix_append ..
  | madeBelow hmade =>
    refine hdirectory ?_ hmade
    rw [← List.dropLast_append_of_ne_nil hnil, ← show _ = (root ++ names).dropLast from hway]
    exact (List.prefix_append_right_inj _).mpr (List.prefix_append [_] _)
  | opened hpath' hfile h =>
    obtain rfl := Option.some.inj (hpath.symm.trans hpath')
    exact hlevel.file hlength hdepth (FileTree.write?_eq_some h).2
  | @written path file hpath' hfile =>
    obtain rfl := Option.some.inj (hpath.symm.trans hpath')
    rcases t.fill_cases (root ++ names) file with hsame | ⟨old, hold⟩
    · rwa [hsame]
    · exact hlevel.file hlength hdepth (FileTree.fill_node hold)
  | unlinked hpath' h =>
    refine hlevel.less fun path x hnode => ?_
    rw [(FileTree.unlink?_eq_some h).2] at hnode
    split at hnode
    · cases hnode
    · exact hnode
  | pruned hne h =>
    refine hlevel.less fun path x hnode => ?_
    rw [(FileTree.rmdir?_eq_some h).2.2] at hnode
    split at hnode
    · cases hnode
    · exact hnode
  | _ => exact hlevel

/-- Only a delete takes a directory away. -/
theorem CallStep.keeps_dir (h : CallStep root call t phase phase' t') (hfits : phase.Fits call) {dir : List FileName}
    (hdir : t.node dir = some .dir) : t'.node dir = some .dir ∨ (call.isPut = false ∧ t'.node dir = none) := by
  cases h with
  | made h | madeBelow h =>
    rw [(mkdir_made h).2]
    split
    · exact .inl rfl
    · exact .inl hdir
  | opened hpath hfile h =>
    obtain ⟨hnew, hnodes⟩ := FileTree.write?_eq_some h
    rw [hnodes, if_neg]
    · exact .inl hdir
    · rintro rfl
      exact hnew hdir
  | @written path file hpath hfile =>
    rcases t.fill_cases path file with hsame | ⟨old, hold⟩
    · rw [hsame]
      exact .inl hdir
    · rw [FileTree.fill_node hold, if_neg]
      · exact .inl hdir
      · rintro rfl
        rw [hold] at hdir
        cases hdir
  | unlinked hpath h =>
    obtain ⟨hfile, hnodes⟩ := FileTree.unlink?_eq_some h
    rw [hnodes, if_neg]
    · exact .inl hdir
    · rintro rfl
      exact hfile hdir
  | pruned hne h =>
    rw [(FileTree.rmdir?_eq_some h).2.2]
    split
    · exact .inr ⟨hfits, rfl⟩
    · exact .inl hdir
  | _ => exact .inl hdir

/-- A step of its own leaves a call secure. -/
theorem CallStep.secure (h : CallStep root call t phase phase' t') (hlevel : Level root depth t) (hdepth : 0 < depth)
    (hcall : OnLevel depth call) (hpath : call.path? root = some path) (hshaped : phase.Shaped path) (hfits : phase.Fits call)
    (hsecure : phase.Secure path t) : phase'.Secure path t' := by
  obtain ⟨names, hpath', hlength⟩ := hcall.hasPath root
  obtain rfl := Option.some.inj (hpath.symm.trans hpath')
  have hnil : names ≠ [] := List.ne_nil_of_length_pos (by omega)
  have hshort : names.dropLast.length < depth := by
    rw [List.length_dropLast]
    omega
  -- No file is in the way of a directory that leads to the file.
  have hmkdir {dir rest : List FileName} (hdir : dir ++ rest = (root ++ names).dropLast) :
      (mkdir t dir = .refused → t.node dir = some .dir) ∧ (mkdir t dir = .missing → t.node dir.dropLast ≠ some .dir) := by
    rw [List.dropLast_append_of_ne_nil hnil] at hdir
    refine ⟨fun hrefused => (mkdir_refused hrefused).resolve_right fun hway => ?_, fun hmissing => (mkdir_missing hmissing).2⟩
    obtain ⟨above, file, habove, hfile⟩ := FileTree.isBlocked_iff.mp hway.2
    refine hlevel.free ?_ (Nat.le_of_lt hshort) (.inr hshort) file hfile
    rw [← hdir]
    exact habove.trans (List.prefix_append ..)
  cases h with
  | made hmade | madeBelow hmade =>
    show t'.node _ = some .dir
    rw [(mkdir_made hmade).2, if_pos rfl]
  | met hrefused => exact (hmkdir hshaped).1 hrefused
  | @metBelow dir name rest hrefused =>
    have hdir : (dir ++ [name]) ++ rest = (root ++ names).dropLast := by simpa [CallPhase.Shaped] using hshaped
    exact (hmkdir hdir).1 hrefused
  | found hdir => exact hdir
  | lost hlost => exact absurd hsecure hlost
  | @arrived dir =>
    have hdir : dir = (root ++ names).dropLast := by simpa [CallPhase.Shaped] using hshaped
    show t.node (root ++ names).dropLast = some .dir
    rw [← hdir]
    exact hsecure
  | @vanished dir name rest hmissing =>
    have hdir : (dir ++ [name]) ++ rest = (root ++ names).dropLast := by simpa [CallPhase.Shaped] using hshaped
    refine absurd ?_ ((hmkdir hdir).2 hmissing)
    rw [List.dropLast_concat]
    exact hsecure
  | unopened hunopened =>
    cases call with
    | put key data now =>
      obtain ⟨opened, hopened, -⟩ := hlevel.write hlength hdepth hsecure ⟨[], now⟩
      rw [hpath] at hunopened
      exact absurd (hopened.symm.trans hunopened) (by simp)
    | delete key => cases hfits
  | stuck hstuck =>
    obtain ⟨removed, hremoved⟩ := hlevel.unlink hlength
    rw [hpath, Option.bind_some, hremoved] at hstuck
    cases hstuck
  | failed => exact hsecure
  | _ => trivial

/-- Other steps leave a call secure that keep the directories on its way, and a delete in any case. -/
theorem CallPhase.Secure.mono (hsecure : phase.Secure path t) (hshaped : phase.Shaped path) (hfits : phase.Fits call)
    (hkept : call.isPut = false ∨ ∀ dir, dir <+: path → t.node dir = some .dir → t'.node dir = some .dir) :
    phase.Secure path t' := by
  have hway {dir rest : List FileName} (hdir : dir ++ rest = path.dropLast) : dir <+: path :=
    List.IsPrefix.trans ⟨rest, hdir⟩ (List.dropLast_prefix path)
  have hput (hisPut : call.isPut = true) : ∀ dir, dir <+: path → t.node dir = some .dir → t'.node dir = some .dir :=
    hkept.resolve_left (by simp [hisPut])
  cases phase with
  | checking dir rest | descending dir rest => exact hput hfits dir (hway hshaped) hsecure
  | opening => exact hput hfits _ (List.dropLast_prefix path) hsecure
  | _ => exact hsecure

end

/-! ### Any order of steps -/

section
variable {root path : List FileName} {depth : Nat} {s : StoreSystem} {i : StoreInput} {p : Nat} {call : StoreCall}
  {phase : CallPhase}

theorem storeSystem_start (hp : s.calls p = none) : (storeSystem root).next (.start p call) s =
    {s with calls := Function.update s.calls p (some ⟨call, call.begin root⟩)} := by
  simp only [storeSystem, hp]

theorem storeSystem_started {c : RunningCall} (hp : s.calls p = some c) : (storeSystem root).next (.start p call) s = s := by
  simp only [storeSystem, hp]

theorem storeSystem_step {c : RunningCall} (hp : s.calls p = some c) : (storeSystem root).next (.step p) s =
    ⟨(c.phase.next root c.call s.tree).2, Function.update s.calls p (some ⟨c.call, (c.phase.next root c.call s.tree).1⟩)⟩ := by
  simp only [storeSystem, hp]

theorem storeSystem_idle (hp : s.calls p = none) : (storeSystem root).next (.step p) s = s := by
  simp only [storeSystem, hp]

theorem Leveled.next (h : Leveled root depth s) (hdepth : 0 < depth) (hi : i.StartsOnLevel depth) :
    Leveled root depth ((storeSystem root).next i s) := by
  cases i with
  | start q call =>
    cases hq : s.calls q with
    | some c =>
      rw [storeSystem_started hq]
      exact h
    | none =>
      rw [storeSystem_start hq]
      refine ⟨h.level, fun p c hp => ?_⟩
      rcases update_cases hp with ⟨-, hnew⟩ | ⟨-, hbefore⟩
      · obtain rfl := Option.some.inj hnew
        exact ⟨hi, (call.begin_cases root).1, fun path hpath => (StoreCall.begin_shaped hi hdepth hpath).1⟩
      · exact h.calls p c hbefore
  | step q =>
    cases hq : s.calls q with
    | none =>
      rw [storeSystem_idle hq]
      exact h
    | some c =>
      obtain ⟨hcall, hfits, hshaped⟩ := h.calls q c hq
      have hstep := CallPhase.next_step root c.call s.tree c.phase
      rw [storeSystem_step hq]
      refine ⟨hstep.level h.level hdepth hcall hshaped, fun p d hp => ?_⟩
      rcases update_cases hp with ⟨-, hnew⟩ | ⟨-, hbefore⟩
      · obtain rfl := Option.some.inj hnew
        exact ⟨hcall, hstep.fits hfits, fun path hpath => hstep.shaped (hshaped path hpath)⟩
      · exact h.calls p d hbefore

/-- A call stays secure, or a directory on the way of a put is removed. -/
theorem Leveled.secure (h : Leveled root depth s) (hdepth : 0 < depth) (hpath : call.path? root = some path)
    (hp : s.calls p = some ⟨call, phase⟩) (hsecure : phase.Secure path s.tree) :
    (∃ phase', ((storeSystem root).next i s).calls p = some ⟨call, phase'⟩ ∧
      phase'.Secure path ((storeSystem root).next i s).tree) ∨ (call.isPut = true ∧ RemovesOnWay root path s i) := by
  obtain ⟨hcall, hfits, hshaped⟩ := h.calls p _ hp
  cases i with
  | start q other =>
    cases hq : s.calls q with
    | some c =>
      rw [storeSystem_started hq]
      exact .inl ⟨phase, hp, hsecure⟩
    | none =>
      rw [storeSystem_start hq]
      have hne : p ≠ q := by
        rintro rfl
        rw [hp] at hq
        cases hq
      exact .inl ⟨phase, by rw [← hp]; exact Function.update_of_ne hne .., hsecure⟩
  | step q =>
    cases hq : s.calls q with
    | none =>
      rw [storeSystem_idle hq]
      exact .inl ⟨phase, hp, hsecure⟩
    | some c =>
      have hstep := CallPhase.next_step root c.call s.tree c.phase
      by_cases hown : p = q
      · subst hown
        obtain rfl := Option.some.inj (hp.symm.trans hq)
        rw [storeSystem_step hq]
        exact .inl ⟨_, Function.update_self .., hstep.secure h.level hdepth hcall hpath (hshaped path hpath) hfits hsecure⟩
      · by_cases hremoves : call.isPut = true ∧ RemovesOnWay root path s (.step q)
        · exact .inr hremoves
        · have hnext : (storeSystem root).next (.step q) s = _ := storeSystem_step hq
          rw [hnext]
          refine .inl ⟨phase, by rw [← hp]; exact Function.update_of_ne hown .., hsecure.mono (hshaped path hpath) hfits ?_⟩
          by_cases hput : call.isPut = true
          · refine .inr fun dir hway hdir => (hstep.keeps_dir (h.calls q c hq).2.1 hdir).resolve_right fun hgone => ?_
            exact hremoves ⟨hput, q, c, dir, rfl, hq, hgone.1, hway, hdir, by rw [hnext]; exact hgone.2⟩
          · exact .inl (Bool.eq_false_iff.mpr hput)

/-- A step takes a call on its way, or another one leaves it where it is. -/
theorem toGo_next (root : List FileName) (i : StoreInput) (hp : s.calls p = some ⟨call, phase⟩) :
    ∃ phase', ((storeSystem root).next i s).calls p = some ⟨call, phase'⟩ ∧
      (phase'.toGo (root.length + (parts call.objectKey).length) = 0 ∨
        phase'.toGo (root.length + (parts call.objectKey).length) + [i].countP (StoreInput.isStepOf p) ≤
          phase.toGo (root.length + (parts call.objectKey).length)) := by
  have hother (h : ((storeSystem root).next i s).calls p = s.calls p) (hi : i.isStepOf p = false) :
      ∃ phase', ((storeSystem root).next i s).calls p = some ⟨call, phase'⟩ ∧
        (phase'.toGo (root.length + (parts call.objectKey).length) = 0 ∨
          phase'.toGo (root.length + (parts call.objectKey).length) + [i].countP (StoreInput.isStepOf p) ≤
            phase.toGo (root.length + (parts call.objectKey).length)) :=
    ⟨phase, h.trans hp, .inr (by simp [hi])⟩
  cases i with
  | start q other =>
    refine hother ?_ rfl
    cases hq : s.calls q with
    | some c => rw [storeSystem_started hq]
    | none =>
      rw [storeSystem_start hq]
      refine Function.update_of_ne (fun heq => ?_) ..
      rw [← heq, hp] at hq
      cases hq
  | step q =>
    by_cases hown : p = q
    · subst hown
      rw [storeSystem_step hp]
      refine ⟨_, Function.update_self .., ?_⟩
      have hcount : [StoreInput.step p].countP (StoreInput.isStepOf p) = 1 := by simp [StoreInput.isStepOf]
      have hstep := CallPhase.next_step root call s.tree phase
      rcases hstep.toGo fun path hpath => StoreCall.path?_length hpath with hless | ⟨hsame, hzero⟩
      · rw [hcount]
        exact .inr hless
      · rw [hsame]
        exact .inl hzero
    · refine hother ?_ (by simpa [StoreInput.isStepOf] using Ne.symm hown)
      cases hq : s.calls q with
      | none => rw [storeSystem_idle hq]
      | some c =>
        rw [storeSystem_step hq]
        exact Function.update_of_ne hown ..

/-- A call has ended, or its steps are paid for. -/
theorem steps_paid (root : List FileName) (hp : s.calls p = some ⟨call, phase⟩) (inputs : List StoreInput) :
    ∃ phase', ((storeSystem root).run s inputs).calls p = some ⟨call, phase'⟩ ∧
      (phase'.toGo (root.length + (parts call.objectKey).length) = 0 ∨
        phase'.toGo (root.length + (parts call.objectKey).length) + inputs.countP (StoreInput.isStepOf p) ≤
          phase.toGo (root.length + (parts call.objectKey).length)) := by
  induction inputs generalizing s phase with
  | nil => exact ⟨phase, hp, .inr (Nat.le_refl _)⟩
  | cons i rest ih =>
    obtain ⟨phase₁, hcalls, hfirst⟩ := toGo_next root i hp
    obtain ⟨phase₂, hlater, hrest⟩ := ih hcalls
    refine ⟨phase₂, hlater, ?_⟩
    have hcount : (i :: rest).countP (StoreInput.isStepOf p) =
        [i].countP (StoreInput.isStepOf p) + rest.countP (StoreInput.isStepOf p) := by
      rw [← List.countP_append, List.singleton_append]
    omega

theorem ran_leveled {t : Tree} {inputs : List StoreInput} (hlevel : Level root depth t) (hdepth : 0 < depth)
    (hinputs : ∀ i ∈ inputs, i.StartsOnLevel depth) : Leveled root depth (ran root t inputs) :=
  Machine.run_invariant (A := fun i => StoreInput.StartsOnLevel depth i) (fun _ _ hi h => Leveled.next h hdepth hi)
    ⟨hlevel, fun _ _ hnone => by cases hnone⟩ inputs hinputs

/-- A call is secure at the end, or a directory on its way was removed meanwhile. -/
theorem secure_run {t : Tree} {path : List FileName} {before after : List StoreInput} (hlevel : Level root depth t) (hdepth : 0 < depth)
    (hinputs : ∀ i ∈ before ++ .start p call :: after, i.StartsOnLevel depth) (hfresh : (ran root t before).calls p = none)
    (hpath : call.path? root = some path) :
    (∃ phase, (ran root t (before ++ .start p call :: after)).calls p = some ⟨call, phase⟩ ∧
      phase.Secure path (ran root t (before ++ .start p call :: after)).tree) ∨
      (call.isPut = true ∧ ∃ between i, between ++ [i] <+: after ∧
        RemovesOnWay root path (ran root t (before ++ .start p call :: between)) i) := by
  induction after using List.reverseRecOn with
  | nil =>
    have hcall : OnLevel depth call := hinputs (.start p call) (by simp)
    obtain ⟨hshaped, hne⟩ := StoreCall.begin_shaped hcall hdepth hpath
    rw [ran, Machine.run_snoc]
    change (∃ phase, ((storeSystem root).next _ (ran root t before)).calls p = _ ∧ _) ∨ _
    rw [storeSystem_start hfresh]
    refine .inl ⟨_, Function.update_self .., ?_⟩
    -- Before its first step a call has found no directory yet.
    cases hbegin : call.begin root with
    | raised => exact absurd hbegin hne
    | checking | descending | opening =>
      unfold StoreCall.begin at hbegin
      split at hbegin <;> split at hbegin <;> cases hbegin
    | _ => trivial
  | append_singleton front i ih =>
    have hfront : ∀ i ∈ before ++ .start p call :: front, i.StartsOnLevel depth := by
      intro i hi
      refine hinputs i ?_
      rw [← List.cons_append, ← List.append_assoc]
      exact List.mem_append_left _ hi
    rcases ih hfront with ⟨phase, hcalls, hsecure⟩ | ⟨hput, between, j, hpre, hremoved⟩
    · rw [← List.cons_append, ← List.append_assoc, ran, Machine.run_snoc]
      rcases (ran_leveled hlevel hdepth hfront).secure hdepth hpath hcalls hsecure with hkept | ⟨hput, hremoved⟩
      · exact .inl hkept
      · exact .inr ⟨hput, front, i, List.prefix_rfl, hremoved⟩
    · exact .inr ⟨hput, between, j, hpre.trans (List.prefix_append ..), hremoved⟩

namespace Sample

def lastPut : StoreCall := .put (.ofString "a/y") [2] 1

/-- The directory of the last put is removed after it was found. -/
def removal : List StoreInput :=
  [.step 1, .step 1, .step 1, .start 2 (.delete (.ofString "a/x")), .step 2, .step 2, .step 2] ++ List.replicate 13 (.step 1)

end Sample

end

end FilesystemStore

end ResearchGateway
