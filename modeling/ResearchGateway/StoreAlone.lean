import ResearchGateway.StoreProgress

/-! A call on the directory without others.

Left alone, the steps of a call end where the call in one step does, on every tree (`call_alone`):
`mkdir(parents=True)` climbs to a directory that is there and makes the missing ones below it. -/
namespace ResearchGateway
open Library ObjectKey

namespace FilesystemStore

/-- Some steps of a call that nothing interrupts. -/
inductive CallRun (root : List FileName) (call : StoreCall) : CallPhase → Tree → CallPhase → Tree → Prop
  | refl {phase t} : CallRun root call phase t phase t
  | step {phase t phase' t'} (h : CallRun root call (phase.next root call t).1 (phase.next root call t).2 phase' t') :
      CallRun root call phase t phase' t'

/-- How a put ends where its directories have been made. -/
def StoreCall.written (root : List FileName) (call : StoreCall) (made : Tree) : CallPhase × Tree :=
  match (call.path? root).bind fun path => call.file?.bind (made.write? path) with
  | none => (.raised, made)
  | some written => (.returned, written)

section
variable {root dir rest : List FileName} {call : StoreCall} {t : Tree} {name : FileName}

theorem makeDirs_below {names : List FileName} (h : t.node (dir ++ names) = some .dir) :
    t.makeDirs dir (names ++ rest) = t.makeDirs (dir ++ names) rest := by
  induction names generalizing dir with
  | nil => rw [List.nil_append, List.append_nil]
  | cons name names ih =>
    rw [List.append_cons] at h
    have hdir : t.node (dir ++ [name]) = some .dir := by
      by_cases hnil : names = []
      · rwa [hnil, List.append_nil] at h
      · exact FileTree.node_above (by rw [h]; rfl) hnil
    rw [List.cons_append, FileTree.makeDirs, hdir]
    dsimp only
    rw [ih h, List.append_assoc, List.singleton_append]

/-- A file in the way. -/
theorem makeDirs_blocked {path : List FileName} {file : StoredFile} (hpath : path <+: rest) (hfile : t.node path = some (.file file)) :
    t.makeDirs [] rest = none := by
  by_contra hsome
  obtain ⟨made, hmade⟩ := Option.ne_none_iff_exists'.mp hsome
  obtain ⟨hdir, hnodes⟩ := FileTree.makeDirs_eq_some FileTree.node_nil hmade
  have hstill : made.node path = some (.file file) := by
    rcases hnodes path with hsame | ⟨hnone, -, -⟩
    · rw [hsame, hfile]
    · rw [hnone] at hfile
      cases hfile
  obtain ⟨more, rfl⟩ := hpath
  rw [List.nil_append] at hdir
  by_cases hmore : more = []
  · rw [hmore, List.append_nil, hstill] at hdir
    cases hdir
  · rw [FileTree.node_above (by rw [hdir]; rfl) hmore] at hstill
    cases hstill

/-- A file that is opened and then written is written at once. -/
theorem opening_alone (root : List FileName) (call : StoreCall) (t : Tree) :
    CallRun root call .opening t (call.written root t).1 (call.written root t).2 := by
  refine .step ?_
  unfold StoreCall.written
  cases hpath : call.path? root with
  | none =>
    simp only [CallPhase.next, hpath, Option.bind_none]
    exact .refl
  | some path =>
    cases hfile : call.file? with
    | none =>
      simp only [CallPhase.next, hpath, hfile, Option.bind_some, Option.bind_none]
      exact .refl
    | some file =>
      cases hopened : t.write? path {file with data := []} with
      | none =>
        simp only [CallPhase.next, hpath, hfile, Option.bind_some, hopened, FileTree.write?_eq_none hopened]
        exact .refl
      | some opened =>
        simp only [CallPhase.next, hpath, hfile, Option.bind_some, hopened, FileTree.fill_write hopened]
        refine .step ?_
        simp only [CallPhase.next, hpath, hfile, Option.bind_some, Option.map_some, Option.getD_some]
        exact .refl

/-- Below a directory that is there, the missing ones are made. -/
theorem descending_alone (root : List FileName) (call : StoreCall) (hdir : t.node dir = some .dir)
    (hrest : ∀ name more, rest = name :: more → t.node (dir ++ [name]) = none) :
    ∃ made, t.makeDirs dir rest = some made ∧
      CallRun root call (.descending dir rest) t (call.written root made).1 (call.written root made).2 := by
  induction rest generalizing dir t with
  | nil =>
    exact ⟨t, rfl, .step (opening_alone root call t)⟩
  | cons name rest ih =>
    have hnone := hrest name rest rfl
    have hplaced : (t.place? (dir ++ [name]) .dir).isSome :=
      FileTree.place?_isSome (by simp) (by rwa [List.dropLast_concat]) (by simp [hnone])
    obtain ⟨made, hmade⟩ := Option.isSome_iff_exists.mp hplaced
    obtain ⟨-, hnodes⟩ := FileTree.place?_eq_some hmade
    have hnext : ∀ next more, rest = next :: more → made.node (dir ++ [name] ++ [next]) = none := by
      intro next more _
      rw [hnodes, if_neg (by simp)]
      by_contra hsome
      rw [FileTree.node_parent (Option.isSome_iff_ne_none.mpr hsome)] at hnone
      cases hnone
    obtain ⟨all, hall, hrun⟩ := ih (by rw [hnodes, if_pos rfl]) hnext
    refine ⟨all, ?_, .step ?_⟩
    · rw [FileTree.makeDirs, hnone]
      dsimp only
      rw [hmade, Option.bind_some, hall]
    · have hmkdir : mkdir t (dir ++ [name]) = .made made := by simp [mkdir, hnone, hmade]
      simpa only [CallPhase.next, hmkdir] using hrun

/-- Upwards, a directory is found to be there, or a file in the way, or it is made. -/
theorem climbing_alone (root : List FileName) (call : StoreCall) {up : List FileName}
    (hrest : ∀ name more, rest = name :: more → t.node (up.reverse ++ [name]) = none) :
    (t.makeDirs [] (up.reverse ++ rest) = none ∧ CallRun root call (.climbing up rest) t .raised t) ∨
      ∃ made, t.makeDirs [] (up.reverse ++ rest) = some made ∧
        CallRun root call (.climbing up rest) t (call.written root made).1 (call.written root made).2 := by
  induction up generalizing rest with
  | nil =>
    obtain ⟨made, hmade, hrun⟩ := descending_alone root call FileTree.node_nil hrest
    exact .inr ⟨made, hmade, .step (.step hrun)⟩
  | cons name above ih =>
    cases hmkdir : mkdir t (name :: above).reverse with
    | made made =>
      obtain ⟨hnode, hplaced⟩ := mkdir_placed hmkdir
      obtain ⟨⟨-, hparent, -⟩, hnodes⟩ := FileTree.place?_eq_some hplaced
      have hnext : ∀ next more, rest = next :: more → made.node ((name :: above).reverse ++ [next]) = none := by
        intro next more heq
        rw [hnodes, if_neg (by simp)]
        exact hrest next more heq
      obtain ⟨all, hall, hrun⟩ := descending_alone root call (by rw [hnodes, if_pos rfl]) hnext
      rw [List.reverse_cons] at hnode hplaced hall hparent
      rw [List.dropLast_concat] at hparent
      refine .inr ⟨all, ?_, .step (by simpa only [CallPhase.next, hmkdir] using hrun)⟩
      rw [List.reverse_cons, List.append_assoc, makeDirs_below (by rw [List.nil_append]; exact FileTree.isDir_iff.mp hparent),
        List.nil_append, List.singleton_append, FileTree.makeDirs, hnode]
      dsimp only
      rw [hplaced, Option.bind_some, hall]
    | refused =>
      rcases mkdir_refused hmkdir with hdir | ⟨hnot, hway⟩
      · obtain ⟨made, hmade, hrun⟩ := descending_alone root call hdir hrest
        refine .inr ⟨made, ?_, .step (.step ?_)⟩
        · rw [makeDirs_below (by rwa [List.nil_append])]
          exact hmade
        · simpa only [CallPhase.next, hmkdir, FileTree.isDir_iff.mpr hdir, if_true] using hrun
      · obtain ⟨path, file, hpath, hfile⟩ := FileTree.isBlocked_iff.mp hway
        refine .inl ⟨makeDirs_blocked (hpath.trans (List.prefix_append ..)) hfile, .step (.step ?_)⟩
        have hisDir : t.isDir (name :: above).reverse = false := Bool.eq_false_iff.mpr (mt FileTree.isDir_iff.mp hnot)
        simp only [CallPhase.next, hmkdir, hisDir]
        exact .refl
    | missing =>
      have hnext : ∀ next more, name :: rest = next :: more → t.node (above.reverse ++ [next]) = none := by
        intro next more heq
        obtain ⟨rfl, -⟩ := List.cons.inj heq
        rw [← List.reverse_cons]
        exact (mkdir_missing hmkdir).1
      have hsame : (name :: above).reverse ++ rest = above.reverse ++ name :: rest := by simp
      rw [hsame]
      refine (ih hnext).imp (fun hnone => ⟨hnone.1, .step ?_⟩) fun hsome => ?_
      · simpa only [CallPhase.next, hmkdir] using hnone.2
      · obtain ⟨made, hmade, hrun⟩ := hsome
        exact ⟨made, hmade, .step (by simpa only [CallPhase.next, hmkdir] using hrun)⟩

theorem pruning_alone (up : List FileName) : CallRun root call (.pruning up) t .returned (t.prune root up) := by
  induction up generalizing t with
  | nil => exact .step .refl
  | cons name above ih =>
    refine .step ?_
    rw [FileTree.prune]
    by_cases hroot : (name :: above).reverse = root
    · simp only [CallPhase.next, if_pos hroot]
      exact .refl
    · cases hremoved : t.rmdir? (name :: above).reverse with
      | none =>
        simp only [CallPhase.next, if_neg hroot, hremoved]
        exact .refl
      | some removed =>
        simp only [CallPhase.next, if_neg hroot, hremoved]
        exact ih

/-- How the call in one step ends. -/
def StoreCall.outcome (root : List FileName) (t : Tree) (call : StoreCall) : CallPhase :=
  if call.returns root t then .returned else .raised

theorem put_alone (root : List FileName) (now : Time) (key : Text) (data : List UInt8) (t : Tree) :
    CallRun root (.put key data now) ((StoreCall.put key data now).begin root) t
      (if (put root now key data t).1.isSome then .returned else .raised) (put root now key data t).2 := by
  cases hsafe : safeObjectKey? key with
  | none =>
    have hput : put root now key data t = (none, t) := by simp only [put, hsafe]
    have hbegin : (StoreCall.put key data now).begin root = .raised := by simp only [StoreCall.begin, hsafe, Option.bind_none]
    rw [hput, hbegin]
    exact .refl
  | some safe =>
    have hpath : (StoreCall.put key data now).path? root = path? root safe := by
      rw [StoreCall.path?, show (StoreCall.put key data now).objectKey = key from rfl, hsafe, Option.bind_some]
    cases hparent : parent? root safe with
    | none =>
      have hput : put root now key data t = (none, t) := by simp only [put, hsafe, hparent, Option.bind_none]
      have hbegin : (StoreCall.put key data now).begin root = .raised := by
        simp only [StoreCall.begin, hsafe, Option.bind_some, hparent]
      rw [hput, hbegin]
      exact .refl
    | some parent =>
      have hbegin : (StoreCall.put key data now).begin root = .climbing parent.reverse [] := by
        simp only [StoreCall.begin, hsafe, Option.bind_some, hparent]
      have hclimbed := @climbing_alone [] t root (.put key data now) parent.reverse fun _ _ h => by cases h
      rw [List.reverse_reverse, List.append_nil] at hclimbed
      rw [hbegin]
      rcases hclimbed with ⟨hnone, hrun⟩ | ⟨made, hmade, hrun⟩
      · have hput : put root now key data t = (none, t) := by simp only [put, hsafe, hparent, Option.bind_some, hnone]
        rw [hput]
        exact hrun
      · cases hwritten : (path? root safe).bind fun path => made.write? path ⟨data, now⟩ with
        | none =>
          have hput : put root now key data t = (none, made) := by
            simp only [put, hsafe, hparent, Option.bind_some, hmade, hwritten]
          have hend : StoreCall.written root (.put key data now) made = (.raised, made) := by
            simp only [StoreCall.written, hpath, StoreCall.file?, Option.bind_some, hwritten]
          rw [hend] at hrun
          rw [hput]
          exact hrun
        | some written =>
          have hput : put root now key data t = (some ⟨safe, data.length⟩, written) := by
            simp only [put, hsafe, hparent, Option.bind_some, hmade, hwritten]
          have hend : StoreCall.written root (.put key data now) made = (.returned, written) := by
            simp only [StoreCall.written, hpath, StoreCall.file?, Option.bind_some, hwritten]
          rw [hend] at hrun
          rw [hput]
          exact hrun

theorem delete_alone (root : List FileName) (key : Text) (t : Tree) :
    CallRun root (.delete key) ((StoreCall.delete key).begin root) t
      (if (delete root key t).1.isSome then .returned else .raised) (delete root key t).2 := by
  have hpath : (StoreCall.delete key).path? root = (safeObjectKey? key).bind (path? root) := rfl
  cases hkey : (safeObjectKey? key).bind (path? root) with
  | none =>
    have hdelete : delete root key t = (none, t) := by simp only [delete, hkey]
    have hbegin : (StoreCall.delete key).begin root = .raised := by
      simp only [StoreCall.begin, hpath, hkey, Option.isNone_none, if_true]
    rw [hdelete, hbegin]
    exact .refl
  | some path =>
    have hbegin : (StoreCall.delete key).begin root = .unlinking := by
      simp only [StoreCall.begin, hpath, hkey, Option.isNone_some, Bool.false_eq_true, if_false]
    rw [hbegin]
    refine .step ?_
    cases hremoved : t.unlink? path with
    | none =>
      have hdelete : delete root key t = (none, t) := by simp only [delete, hkey, hremoved]
      simp only [CallPhase.next, hpath, hkey, hremoved]
      rw [hdelete]
      exact .refl
    | some removed =>
      have hdelete : delete root key t = (some (), removed.prune root path.dropLast.reverse) := by
        simp only [delete, hkey, hremoved]
      simp only [CallPhase.next, hpath, hkey, hremoved]
      rw [hdelete]
      exact pruning_alone _

theorem run_alone (root : List FileName) (call : StoreCall) (t : Tree) :
    CallRun root call (call.begin root) t (call.outcome root t) (call.next root t) := by
  cases call with
  | put key data now => exact put_alone root now key data t
  | delete key => exact delete_alone root key t

/-- Some steps of a call, taken in the system. -/
theorem CallRun.steps {phase phase' : CallPhase} {t' : Tree} (h : CallRun root call phase t phase' t')
    (hend : phase' = .returned ∨ phase' = .raised) (p : Nat) :
    ∃ n, ∀ m, n ≤ m → ∀ s : StoreSystem, s.tree = t → s.calls p = some ⟨call, phase⟩ →
      (storeSystem root).run s (List.replicate m (.step p)) = ⟨t', Function.update s.calls p (some ⟨call, phase'⟩)⟩ := by
  induction h with
  | @refl phase t =>
    refine ⟨0, fun m _ s hs hp => ?_⟩
    have hsame : s = ⟨t, Function.update s.calls p (some ⟨call, phase⟩)⟩ := by
      rw [← hs, ← hp, Function.update_eq_self]
    have hrest : (storeSystem root).next (.step p) s = s := by
      have hnext : phase.next root call s.tree = (phase, s.tree) := by rcases hend with rfl | rfl <;> rfl
      rw [storeSystem_step hp, hnext, hs]
      exact hsame.symm
    induction m with
    | zero => exact hsame
    | succ m ih =>
      rw [List.replicate_succ, Machine.run, hrest]
      exact ih (Nat.zero_le m)
  | @step phase t phase' t' h ih =>
    obtain ⟨n, hn⟩ := ih hend
    refine ⟨n + 1, fun m hm s hs hp => ?_⟩
    obtain ⟨m, rfl⟩ := Nat.exists_eq_add_of_le' (Nat.le_trans (Nat.le_add_left 1 n) hm)
    subst hs
    rw [List.replicate_succ, Machine.run, storeSystem_step hp, hn m (Nat.le_of_succ_le_succ hm) _ rfl (Function.update_self ..),
      Function.update_idem]

/-- A call whose steps are not interrupted ends as the call in one step, and with its tree. -/
theorem call_alone (root : List FileName) (t : Tree) (p : Nat) (call : StoreCall) :
    ∃ n, ∀ m, n ≤ m → ran root t (.start p call :: List.replicate m (.step p)) =
      ⟨call.next root t, Function.update (fun _ => none) p (some ⟨call, call.outcome root t⟩)⟩ := by
  have hend : call.outcome root t = .returned ∨ call.outcome root t = .raised := by
    unfold StoreCall.outcome
    split
    · exact .inl rfl
    · exact .inr rfl
  obtain ⟨n, hn⟩ := (run_alone root call t).steps hend p
  refine ⟨n, fun m hm => ?_⟩
  have hbegun : Function.update (fun _ => none) p (some ⟨call, call.begin root⟩) p = some (⟨call, call.begin root⟩ : RunningCall) :=
    Function.update_self ..
  have hran := hn m hm ⟨t, Function.update (fun _ => none) p (some ⟨call, call.begin root⟩)⟩ rfl hbegun
  rw [Function.update_idem] at hran
  exact hran

end

end FilesystemStore

end ResearchGateway
