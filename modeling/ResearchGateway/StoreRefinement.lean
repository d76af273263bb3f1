import ResearchGateway.ArtifactPrefix
import ResearchGateway.OrphanCollection
import ResearchGateway.S3Store
import ResearchGateway.StoreLayout

/-! The stores behind the artifacts.

Completions and cleaners see a table of objects. Here each of their calls is made on a directory
and on a bucket as well. All keys lie on one level below the prefix of the jobs, so no call
raises, and both stores show what the table has (`stores_refine`). -/
namespace ResearchGateway
open Library ObjectKey ArtifactPrefix

/-- A call of a completion or a cleaner. -/
inductive ArtifactCall where
  | put (objectKey content : String) (now : Time)
  | delete (objectKey : String)

namespace ArtifactCall

def objectKey : ArtifactCall → String
  | .put key .. | .delete key => key

def apply (store : ArtifactStore) : ArtifactCall → ArtifactStore
  | .put key content now => store.put now key content
  | .delete key => store.delete key

/-- The call as the store gets it, with `content.encode()`. -/
def sent : ArtifactCall → FilesystemStore.StoreCall
  | .put key content now => .put (.ofString key) content.toUTF8.data.toList now
  | .delete key => .delete (.ofString key)

end ArtifactCall

/-- The call that the next step of a run makes. -/
def CleanerPhase.calls (settings : RetentionSettings) : CleanerPhase → List ArtifactCall
  | .deletingArtifacts _ (artifact :: _) => [.delete artifact.objectKey]
  | phase => (phase.orphans settings).map .delete

def ArtifactInput.calls (settings : RetentionSettings) (w : ArtifactSystem) : ArtifactInput → List ArtifactCall
  | .upload r .stored =>
    match w.requests r with
    | .uploading u =>
      match u.pending with
      | [] => []
      | file :: _ => [.put (u.key settings file.name) file.content w.clock]
    | _ => []
  | .cleaner c _ => (w.cleaners c).calls settings
  | _ => []

/-- The store does what it is called for. -/
def ArtifactInput.IsFaultless : ArtifactInput → Prop
  | .upload _ outcome => outcome = .stored
  | .cleaner _ answer => answer.deletion = .succeeded
  | _ => True

/-- What the stores have under the key of an object. -/
def ArtifactObject.file (object : ArtifactObject) : FilesystemStore.StoredFile :=
  ⟨object.content.toUTF8.data.toList, object.lastModified⟩

def ArtifactObject.listed (object : ArtifactObject) : FilesystemStore.StoredObject :=
  ⟨.ofString object.objectKey, object.lastModified⟩

/-- The objects of the table, under the parts of their keys. -/
def ArtifactStore.contents (store : ArtifactStore) : FilesystemStore.Contents := fun ps =>
  (store.rows.find? fun object => parts (.ofString object.objectKey) = ps).map ArtifactObject.file

/-- The keys of uploads. -/
def UploadKey (jobsPrefix key : String) : Prop :=
  ∃ jobId attempt uploadId name, IsName (.ofString name) ∧ key = objectKey jobsPrefix jobId attempt uploadId name

/-- The parts of the prefix of the jobs. -/
structure JobsPrefix (jobsPrefix : String) (ps : List Text) : Prop where
  written : Text.ofString jobsPrefix = asPosix ps
  nonempty : ps ≠ []
  names : ∀ part ∈ ps, IsName part

/-- The artifacts whose objects a run is going to delete. -/
def CleanerPhase.expired : CleanerPhase → List ResearchArtifact
  | .deletingArtifacts _ artifacts => artifacts
  | .recording _ artifact rest => artifact :: rest
  | _ => []

/-- Every key in the system is the key of an upload. -/
structure KeysLaid (settings : RetentionSettings) (w : ArtifactSystem) : Prop where
  objects : ∀ object, Seen w object → UploadKey settings.artifactJobsPrefix object.objectKey
  rows : ∀ a ∈ w.db.artifacts.rows, UploadKey settings.artifactJobsPrefix a.objectKey
  expired : ∀ c, ∀ a ∈ (w.cleaners c).expired, UploadKey settings.artifactJobsPrefix a.objectKey
  pending : ∀ r u, w.requests r = .uploading u → ∀ file ∈ u.pending, IsName (.ofString file.name)
  stored : ∀ r u, w.requests r = .uploading u → ∀ s ∈ u.stored, UploadKey settings.artifactJobsPrefix s.objectKey

/-! ### The keys of the system -/

section
variable {H : Hashing} {encoding : Encoding} {settings : RetentionSettings} {w w' : ArtifactSystem} {i : ArtifactInput}
  {answer : StoreAnswer} {db db' : Database} {store store' : ArtifactStore} {phase phase' : CleanerPhase}

/-- A run takes the artifacts from the rows. -/
theorem CleanerStep.expired_sub (h : CleanerStep settings answer db store phase db' store' phase')
    {a : ResearchArtifact} (ha : a ∈ phase'.expired) : a ∈ phase.expired ∨ a ∈ db.artifacts.rows := by
  cases h with
  | listed now => exact .inr (List.mem_filter.mp (List.mem_of_mem_take ha)).1
  | deleted => exact .inl ha
  | kept | recorded => exact .inl (List.mem_cons_of_mem _ ha)
  | _ => cases ha

/-- Whatever only takes away. -/
theorem KeysLaid.less (h : KeysLaid settings w) (hrows : w'.db.artifacts.rows ⊆ w.db.artifacts.rows)
    (hseen : ∀ object, Seen w' object → Seen w object)
    (hexpired : ∀ c, ∀ a ∈ (w'.cleaners c).expired, a ∈ (w.cleaners c).expired ∨ a ∈ w.db.artifacts.rows)
    (hrequests : ∀ r u, w'.requests r = .uploading u → w.requests r = .uploading u) : KeysLaid settings w' where
  objects object ho := h.objects object (hseen object ho)
  rows a ha := h.rows a (hrows ha)
  expired c a ha := (hexpired c a ha).elim (h.expired c a) (h.rows a)
  pending r u hu := h.pending r u (hrequests r u hu)
  stored r u hu := h.stored r u (hrequests r u hu)

/-- A request goes to another phase. -/
theorem KeysLaid.enter (h : KeysLaid settings w) (r : Nat) {phase : CompletionPhase}
    (hphase : ∀ u, phase = .uploading u → (∀ file ∈ u.pending, IsName (.ofString file.name)) ∧
      ∀ s ∈ u.stored, UploadKey settings.artifactJobsPrefix s.objectKey) : KeysLaid settings (w.enter r phase) where
  objects := h.objects
  rows := h.rows
  expired := h.expired
  pending k u hu := by
    rcases update_cases hu with ⟨-, hnew⟩ | ⟨-, hbefore⟩
    · exact (hphase u hnew).1
    · exact h.pending k u hbefore
  stored k u hu := by
    rcases update_cases hu with ⟨-, hnew⟩ | ⟨-, hbefore⟩
    · exact (hphase u hnew).2
    · exact h.stored k u hbefore

theorem KeysLaid.put (h : KeysLaid settings w) {key content : String} {now : Time}
    (hkey : UploadKey settings.artifactJobsPrefix key) :
    KeysLaid settings {w with store := w.store.put now key content} where
  objects object ho := by
    rcases ho with ho | ho
    · rcases ArtifactStore.mem_put ho with hold | rfl
      · exact h.objects object (.inl hold)
      · exact hkey
    · exact h.objects object (.inr ho)
  rows := h.rows
  expired := h.expired
  pending := h.pending
  stored := h.stored

theorem KeysLaid.turn (h : KeysLaid settings w) (c : Nat) (answer : StoreAnswer) :
    KeysLaid settings (w.cleanerTurn settings c answer) := by
  have hstep := CleanerPhase.next_step settings answer w.db w.store (w.cleaners c)
  have hcleaner (k : Nat) : (w.cleanerTurn settings c answer).cleaners k =
        ((w.cleaners c).next settings answer w.db w.store).2.2 ∧ k = c ∨
      (w.cleanerTurn settings c answer).cleaners k = w.cleaners k := by
    rcases update_cases (show (w.cleanerTurn settings c answer).cleaners k = _ from rfl) with ⟨hk, hnew⟩ | ⟨-, hbefore⟩
    · exact .inl ⟨hnew.symm, hk⟩
    · exact .inr hbefore.symm
  refine h.less hstep.artifacts_sub.subset (fun object ho => ?_) (fun k a ha => ?_) fun _ _ hu => hu
  · rcases ho with ho | ⟨k, ho⟩
    · exact .inl (hstep.store_sub.subset ho)
    · rcases hcleaner k with ⟨hnew, -⟩ | hsame
      · rw [hnew] at ho
        rcases hstep.listed_sub ho with hlisted | hstored
        · exact .inr ⟨c, hlisted⟩
        · exact .inl hstored
      · rw [hsame] at ho
        exact .inr ⟨k, ho⟩
  · rcases hcleaner k with ⟨hnew, rfl⟩ | hsame
    · rw [hnew] at ha
      exact hstep.expired_sub ha
    · rw [hsame] at ha
      exact .inl ha

theorem KeysLaid.cleanerAt (h : KeysLaid settings w) (c : Nat) {phase : CleanerPhase} (hlisted : phase.listed = [])
    (hexpired : phase.expired = []) : KeysLaid settings (w.cleanerAt c phase) := by
  refine h.less (List.Subset.refl _) (fun object ho => ?_) (fun k a ha => ?_) fun _ _ hu => hu
  · rcases ho with ho | ⟨k, ho⟩
    · exact .inl ho
    · rcases w.cleanerAt_cases c phase k with hnew | hsame
      · rw [hnew, hlisted] at ho
        cases ho
      · rw [hsame] at ho
        exact .inr ⟨k, ho⟩
  · rcases w.cleanerAt_cases c phase k with hnew | hsame
    · rw [hnew, hexpired] at ha
      cases ha
    · rw [hsame] at ha
      exact .inl ha

theorem KeysLaid.key (h : KeysLaid settings w) {r : Nat} {u : Upload} (hu : w.requests r = .uploading u)
    {file : CompletionFile} (hfile : file ∈ u.pending) : UploadKey settings.artifactJobsPrefix (u.key settings file.name) :=
  ⟨_, _, _, _, h.pending r u hu file hfile, rfl⟩

theorem ArtifactStep.keys_laid {out : List Win} (hstep : ArtifactStep H encoding settings i w out w')
    (h : KeysLaid settings w) : KeysLaid settings w' := by
  cases hstep with
  | idle => exact h
  | ticked n => exact ⟨h.objects, h.rows, h.expired, h.pending, h.stored⟩
  | operated hop =>
    obtain ⟨hret, hcompletion⟩ := Op.stamped_isOther hop w.clock
    have hsame := congrArg Table.rows (step_artifacts (H := H) hcompletion hret w.db).1
    exact h.less (fun _ hmem => hsame ▸ hmem) (fun _ ho => ho) (fun _ _ ha => .inl ha) fun _ _ hu => hu
  | @checked r request uploadId attempt hphase hfresh hcheck =>
    have hdrawn : KeysLaid settings {w with drawn := uploadId :: w.drawn} :=
      ⟨h.objects, h.rows, h.expired, h.pending, h.stored⟩
    refine hdrawn.enter _ fun u hu => ?_
    cases hu
    exact ⟨fun file hfile => isName_completionFiles (List.mem_map_of_mem hfile), nofun⟩
  | put hphase hpending =>
    have hkey := h.key hphase (by rw [hpending]; exact List.mem_cons_self)
    refine (h.put hkey).enter _ fun u hu => ?_
    cases hu
    refine ⟨fun file hfile => h.pending _ _ hphase file (by rw [hpending]; exact List.mem_cons_of_mem _ hfile), fun s hs => ?_⟩
    rcases List.mem_append.mp hs with hs | hs
    · exact h.stored _ _ hphase s hs
    · obtain rfl := List.mem_singleton.mp hs
      exact hkey
  | leftover hphase hpending =>
    exact (h.put (h.key hphase (by rw [hpending]; exact List.mem_cons_self))).enter _ nofun
  | gaveUp => exact h.enter _ nofun
  | @won r u job db hphase hpending hcommit =>
    obtain ⟨_, _, -, -, -, -, -, hrows, -⟩ := completionCommit_ok hcommit
    have hadded : KeysLaid settings {w with db := db} := by
      refine ⟨h.objects, fun a ha => ?_, h.expired, h.pending, h.stored⟩
      rw [hrows] at ha
      rcases List.mem_append.mp ha with hold | hnew
      · exact h.rows a hold
      · obtain ⟨-, s, hs, hkey⟩ := artifactRows_spec hnew
        rw [hkey]
        exact h.stored _ _ hphase s hs
    exact hadded.enter _ nofun
  | crashed c => exact h.cleanerAt c rfl rfl
  | began => exact h.cleanerAt _ rfl rfl
  | cleaned => exact h.turn ..

theorem served_keys (inputs : List ArtifactInput) : KeysLaid settings (served H encoding settings inputs) := by
  induction inputs using List.reverseRecOn with
  | nil =>
    refine ⟨?_, nofun, nofun, nofun, nofun⟩
    rintro object (ho | ⟨c, ho⟩) <;> cases ho
  | append_singleton inputs i ih =>
    rw [served_snoc]
    exact (artifactSystem_step H encoding settings i _).keys_laid ih

/-- The calls of a step are made with keys of uploads. -/
theorem KeysLaid.calls (h : KeysLaid settings w) {call : ArtifactCall} (hcall : call ∈ i.calls settings w) :
    UploadKey settings.artifactJobsPrefix call.objectKey := by
  unfold ArtifactInput.calls at hcall
  split at hcall
  · split at hcall
    · next u hu =>
      split at hcall
      · cases hcall
      · next file rest hpending =>
        obtain rfl := List.mem_singleton.mp hcall
        exact h.key hu (by rw [hpending]; exact List.mem_cons_self)
    · cases hcall
  · next c answer =>
    unfold CleanerPhase.calls at hcall
    split at hcall
    · next artifact rest hphase =>
      obtain rfl := List.mem_singleton.mp hcall
      exact h.expired c artifact (by rw [hphase]; exact List.mem_cons_self)
    · obtain ⟨key, hkey, rfl⟩ := List.mem_map.mp hcall
      show UploadKey settings.artifactJobsPrefix key
      unfold CleanerPhase.orphans at hkey
      split at hkey
      · next object rest deleted hphase =>
        split at hkey
        · cases hkey
        · split at hkey
          · cases hkey
          · obtain rfl := List.mem_singleton.mp hkey
            exact h.objects object (.inr ⟨c, by rw [hphase]; exact List.mem_cons_self⟩)
      · cases hkey
  · cases hcall

/-- Where the store does what it is called for, a step changes it by its calls. -/
theorem store_next (hi : i.IsFaultless) (w : ArtifactSystem) :
    ((artifactSystem H encoding settings).next i w).store = (i.calls settings w).foldl ArtifactCall.apply w.store := by
  cases i with
  | check r request uploadId =>
    show (w.check H encoding r request uploadId).store = w.store
    unfold ArtifactSystem.check
    split
    · split
      · rfl
      · split <;> rfl
    · rfl
  | upload r outcome =>
    obtain rfl : outcome = .stored := hi
    show (w.upload settings r .stored).store = _
    cases hphase : w.requests r with
    | uploading u => cases hpending : u.pending <;> simp only [ArtifactSystem.upload, ArtifactInput.calls, hphase, hpending] <;> rfl
    | _ =>
      simp only [ArtifactSystem.upload, ArtifactInput.calls, hphase]
      rfl
  | commit r =>
    show (w.commit H r).store = w.store
    unfold ArtifactSystem.commit
    split
    · split
      · split <;> rfl
      · rfl
    · rfl
  | abandon r =>
    show (w.abandon r).store = w.store
    unfold ArtifactSystem.abandon
    split <;> rfl
  | clean c =>
    show (w.clean c).store = w.store
    unfold ArtifactSystem.clean
    split <;> rfl
  | cleaner c answer =>
    have hanswer : answer.deletion = .succeeded := hi
    show ((w.cleaners c).next settings answer w.db w.store).2.1 = ((w.cleaners c).calls settings).foldl ArtifactCall.apply w.store
    cases w.cleaners c with
    | deletingArtifacts now artifacts =>
      cases artifacts with
      | nil => rfl
      | cons artifact rest =>
        simp only [CleanerPhase.next, hanswer]
        rfl
    | sweeping now referenced objects deleted =>
      cases objects with
      | nil => rfl
      | cons object rest =>
        simp only [CleanerPhase.next, CleanerPhase.calls, CleanerPhase.orphans]
        split
        · rfl
        · split
          · rfl
          · rw [hanswer]
            rfl
    | _ => rfl
  | _ => rfl

end

/-! ### The table and the stores -/

section
variable {jobsPrefix key : String} {ps qs : List Text} {store : ArtifactStore} {value : Option Text} {pfx : Text}
  {call : ArtifactCall} {root : List FileName} {t : FilesystemStore.Tree}

/-- A prefix that the settings accept. -/
theorem jobsPrefix_accepted (hvalue : normalizeArtifactPrefix? value = some pfx) (hzero : (0 : CodePoint) ∉ pfx)
    (hjobs : Text.ofString jobsPrefix = artifactJobsPrefix pfx) : ∃ ps, JobsPrefix jobsPrefix ps := by
  obtain ⟨ps, hparts, hdots, hsub, hwritten⟩ := artifactJobsPrefix_key hvalue
  have hlast : IsName jobs := ⟨⟨by decide, by decide, by decide⟩, by decide, by decide, isEncodable_ofString _⟩
  have hall : ∀ part ∈ ps ++ [jobs], IsPart part := by
    intro part hpart
    rcases List.mem_append.mp hpart with hpart | hpart
    · exact hparts part hpart
    · obtain rfl := List.mem_singleton.mp hpart
      exact hlast.whole
  refine ⟨ps ++ [jobs], hjobs.trans hwritten, by simp, fun part hpart => ?_⟩
  rcases List.mem_append.mp hpart with hin | hin
  · have hplain : part.isEncodable = true := by
      refine isEncodable_of_mem (isEncodable_ofString jobsPrefix) ?_
      rw [hjobs, hwritten, parts_asPosix hall]
      exact hpart
    exact ⟨hparts part hin, fun heq => hdots (heq ▸ hin), fsencode?_isSome hplain fun hmem => hzero (hsub part hin hmem), hplain⟩
  · obtain rfl := List.mem_singleton.mp hin
    exact hlast

theorem JobsPrefix.isKey (h : JobsPrefix jobsPrefix ps) : IsKey ps :=
  ⟨h.nonempty, fun part hpart => (h.names part hpart).whole, fun hmem => (h.names dots hmem).safe rfl⟩

/-- The key of an upload, as a path. -/
structure Written (key : String) (qs : List Text) : Prop where
  text : Text.ofString key = asPosix qs
  names : ∀ part ∈ qs, IsName part

theorem UploadKey.written (h : UploadKey jobsPrefix key) (hway : JobsPrefix jobsPrefix ps) :
    ∃ rest, rest.length = 5 ∧ Written key (ps ++ rest) := by
  obtain ⟨jobId, attempt, uploadId, name, hname, rfl⟩ := h
  exact ⟨_, rfl, ofString_objectKey hway.written hway.nonempty jobId attempt uploadId name,
    keyParts_names hway.names hname⟩

theorem Written.parts (h : Written key qs) : parts (.ofString key) = qs := by
  rw [h.text, parts_asPosix fun part hpart => (h.names part hpart).whole]

theorem Written.safe (h : Written key qs) : safeParts? (.ofString key) = some qs := by
  rw [h.text]
  exact safeParts?_asPosix (fun part hpart => (h.names part hpart).whole) fun hmem => (h.names dots hmem).safe rfl

theorem Written.unique {key' : String} (h : Written key qs) (h' : Written key' qs) : key = key' :=
  Text.ofString_injective (h.text.trans h'.text.symm)

theorem encoded_names (h : ∀ part ∈ qs, IsName part) : ∃ names, qs.mapM Text.fsencode? = some names := by
  induction qs with
  | nil => exact ⟨[], rfl⟩
  | cons part rest ih =>
    obtain ⟨name, hname⟩ := Option.isSome_iff_exists.mp (h part List.mem_cons_self).encoded
    obtain ⟨names, hnames⟩ := ih fun part hpart => h part (List.mem_cons_of_mem _ hpart)
    exact ⟨name :: names, by rw [List.mapM_cons, hname, hnames]; rfl⟩

@[simp] theorem ArtifactCall.sent_objectKey (call : ArtifactCall) : call.sent.objectKey = .ofString call.objectKey := by
  cases call <;> rfl

theorem UploadKey.onLevel (h : UploadKey jobsPrefix call.objectKey) (hway : JobsPrefix jobsPrefix ps)
    (hshort : FilesystemStore.IsShort call.sent.objectKey) : FilesystemStore.OnLevel (ps.length + 5) call.sent := by
  obtain ⟨rest, hlength, hwritten⟩ := h.written hway
  obtain ⟨names, hnames⟩ := encoded_names hwritten.names
  rw [← hlength, ← List.length_append]
  refine ⟨?_, hshort, _, names, ?_, rfl, hnames⟩
  · rw [ArtifactCall.sent_objectKey]
    exact isEncodable_ofString _
  · rw [ArtifactCall.sent_objectKey]
    exact hwritten.safe

/-- The objects of the table by the parts of their keys. -/
theorem contents_eq_some (hway : JobsPrefix jobsPrefix ps) (hkeys : ∀ object ∈ store.rows, UploadKey jobsPrefix object.objectKey)
    {file : FilesystemStore.StoredFile} : store.contents qs = some file ↔
      ∃ object ∈ store.rows, Written object.objectKey qs ∧ object.file = file := by
  rw [ArtifactStore.contents, Option.map_eq_some_iff]
  constructor
  · rintro ⟨object, hfound, hfile⟩
    have hmem := List.mem_of_find?_eq_some hfound
    obtain ⟨rest, -, hwritten⟩ := (hkeys object hmem).written hway
    have hparts : parts (.ofString object.objectKey) = qs := by simpa using List.find?_some hfound
    rw [hwritten.parts] at hparts
    exact ⟨object, hmem, hparts ▸ hwritten, hfile⟩
  · rintro ⟨object, hmem, hwritten, hfile⟩
    cases hfound : store.rows.find? fun object => parts (.ofString object.objectKey) = qs with
    | none =>
      have hnone := List.find?_eq_none.mp hfound object hmem
      simp [hwritten.parts] at hnone
    | some object' =>
      have hmem' := List.mem_of_find?_eq_some hfound
      obtain ⟨rest, -, hwritten'⟩ := (hkeys object' hmem').written hway
      have hparts : parts (.ofString object'.objectKey) = qs := by simpa using List.find?_some hfound
      rw [hwritten'.parts] at hparts
      rw [hparts] at hwritten'
      have heq := List.inj_on_of_nodup_map store.unique hmem' hmem (hwritten'.unique hwritten)
      exact ⟨object', rfl, heq ▸ hfile⟩

theorem contents_written (hway : JobsPrefix jobsPrefix ps)
    (hkeys : ∀ object ∈ store.rows, UploadKey jobsPrefix object.objectKey) (hwritten : Written key qs) :
    store.contents qs = (store.find? key).map ArtifactObject.file := by
  refine Option.ext fun file => ?_
  rw [contents_eq_some hway hkeys, Option.map_eq_some_iff]
  constructor
  · rintro ⟨object, hmem, hwritten', hfile⟩
    exact ⟨object, Table.find?_eq_some.mpr ⟨hmem, hwritten'.unique hwritten⟩, hfile⟩
  · rintro ⟨object, hfound, hfile⟩
    obtain ⟨hmem, hkey⟩ := Table.find?_eq_some.mp hfound
    exact ⟨object, hmem, hkey.symm ▸ hwritten, hfile⟩

namespace ArtifactCall

theorem find?_apply (store : ArtifactStore) (key : String) :
    ((call.apply store).find? key).map ArtifactObject.file =
      if call.objectKey = key then call.sent.file? else (store.find? key).map ArtifactObject.file := by
  cases call with
  | put objectKey content now =>
    show ((store.put now objectKey content).find? key).map _ = if objectKey = key then _ else _
    rw [ArtifactStore.find?_put]
    split <;> rfl
  | delete objectKey =>
    show ((store.keep _).find? key).map _ = if objectKey = key then none else _
    rw [Table.find?_keep]
    by_cases heq : objectKey = key
    · subst heq
      rw [if_pos rfl]
      cases hfound : store.find? objectKey with
      | none => rfl
      | some object => simp [Table.key_of_find? hfound, Option.filter]
    · rw [if_neg heq]
      cases hfound : store.find? key with
      | none => rfl
      | some object => simp [Table.key_of_find? hfound, Option.filter, Ne.symm heq]

theorem keys_apply (hkeys : ∀ object ∈ store.rows, UploadKey jobsPrefix object.objectKey) (hcall : UploadKey jobsPrefix call.objectKey) :
    ∀ object ∈ (call.apply store).rows, UploadKey jobsPrefix object.objectKey := by
  intro object hobject
  cases call with
  | put objectKey content now =>
    rcases ArtifactStore.mem_put hobject with hold | rfl
    · exact hkeys object hold
    · exact hcall
  | delete objectKey => exact hkeys object (List.mem_filter.mp hobject).1

end ArtifactCall

/-- A call does to the table what it does to the objects. -/
theorem contents_apply (hway : JobsPrefix jobsPrefix ps) (hkeys : ∀ object ∈ store.rows, UploadKey jobsPrefix object.objectKey)
    (hcall : UploadKey jobsPrefix call.objectKey) :
    (call.apply store).contents = call.sent.effect store.contents := by
  have hkeys' := ArtifactCall.keys_apply hkeys hcall
  obtain ⟨rest, -, hwritten⟩ := hcall.written hway
  have heffect : call.sent.effect store.contents = Function.update store.contents (ps ++ rest) call.sent.file? := by
    rw [FilesystemStore.StoreCall.effect, ArtifactCall.sent_objectKey, hwritten.safe]
  rw [heffect]
  funext qs
  by_cases hqs : qs = ps ++ rest
  · subst hqs
    rw [Function.update_self, contents_written hway hkeys' hwritten, ArtifactCall.find?_apply, if_pos rfl]
  · rw [Function.update_of_ne hqs]
    by_cases hkey : ∃ key, Written key qs
    · obtain ⟨key, hkey⟩ := hkey
      have hne : call.objectKey ≠ key := by
        rintro rfl
        exact hqs (hkey.parts.symm.trans hwritten.parts)
      rw [contents_written hway hkeys' hkey, contents_written hway hkeys hkey, ArtifactCall.find?_apply, if_neg hne]
    · -- No object has these parts, before the call or after it.
      have hnone (store' : ArtifactStore) (hlaid : ∀ object ∈ store'.rows, UploadKey jobsPrefix object.objectKey) :
          store'.contents qs = none := by
        by_contra hsome
        obtain ⟨file, hfile⟩ := Option.ne_none_iff_exists'.mp hsome
        obtain ⟨object, -, hobject, -⟩ := (contents_eq_some hway hlaid).mp hfile
        exact hkey ⟨_, hobject⟩
      rw [hnone _ hkeys', hnone _ hkeys]

end

/-! ### Runs -/

section
variable {H : Hashing} {encoding : Encoding} {settings : RetentionSettings} {inputs : List ArtifactInput}

/-- The calls of a run. -/
def artifactCalls (H : Hashing) (encoding : Encoding) (settings : RetentionSettings) (inputs : List ArtifactInput) : List ArtifactCall :=
  ((artifactSystem H encoding settings).observing fun i w => i.calls settings w).trace .initial inputs

def storeCalls (H : Hashing) (encoding : Encoding) (settings : RetentionSettings) (inputs : List ArtifactInput) :
    List FilesystemStore.StoreCall :=
  (artifactCalls H encoding settings inputs).map ArtifactCall.sent

theorem artifactCalls_snoc (i : ArtifactInput) :
    artifactCalls H encoding settings (inputs ++ [i]) =
      artifactCalls H encoding settings inputs ++ i.calls settings (served H encoding settings inputs) :=
  Machine.trace_observing_snoc ..

theorem artifactCalls_keys {call : ArtifactCall} (hcall : call ∈ artifactCalls H encoding settings inputs) :
    UploadKey settings.artifactJobsPrefix call.objectKey := by
  obtain ⟨before, i, -, hcall⟩ := (Machine.mem_trace_observing _).mp hcall
  exact (served_keys before).calls hcall

/-- Many calls do to the table what they do to the objects. -/
theorem contents_calls {jobsPrefix : String} {ps : List Text} {store : ArtifactStore} (hway : JobsPrefix jobsPrefix ps)
    (calls : List ArtifactCall) (hkeys : ∀ object ∈ store.rows, UploadKey jobsPrefix object.objectKey)
    (hcalls : ∀ call ∈ calls, UploadKey jobsPrefix call.objectKey) :
    (calls.foldl ArtifactCall.apply store).contents = FilesystemStore.stored store.contents (calls.map ArtifactCall.sent) := by
  induction calls generalizing store with
  | nil => rfl
  | cons call calls ih =>
    have hcall := hcalls call List.mem_cons_self
    rw [List.foldl_cons, ih (ArtifactCall.keys_apply hkeys hcall) fun call' hcall' => hcalls call' (List.mem_cons_of_mem _ hcall'),
      contents_apply hway hkeys hcall]
    rfl

/-- The table is what the calls have left. -/
theorem served_store (hi : ∀ i ∈ inputs, i.IsFaultless) :
    (served H encoding settings inputs).store = (artifactCalls H encoding settings inputs).foldl ArtifactCall.apply .empty := by
  induction inputs using List.reverseRecOn with
  | nil => rfl
  | append_singleton inputs i ih =>
    rw [served_snoc, artifactCalls_snoc, List.foldl_append, ← ih fun i hi' => hi i (List.mem_append_left _ hi'),
      store_next (hi i (by simp))]

/-- All of the table lies under the prefix. -/
theorem listObjects_all {jobsPrefix : String} {store : ArtifactStore}
    (hkeys : ∀ object ∈ store.rows, UploadKey jobsPrefix object.objectKey) : store.listObjects jobsPrefix = store.rows := by
  refine List.filter_eq_self.mpr fun object hobject => ?_
  obtain ⟨jobId, attempt, uploadId, name, -, hkey⟩ := hkeys object hobject
  rw [hkey, objectKey_toList]
  exact List.isPrefixOf_iff_prefix.mpr (List.prefix_append ..)

/-- What is listed in the prefix of the jobs is the table. -/
theorem listed_perm {jobsPrefix : String} {ps : List Text} {store : ArtifactStore} {objects : List FilesystemStore.StoredObject}
    (hway : JobsPrefix jobsPrefix ps) (hkeys : ∀ object ∈ store.rows, UploadKey jobsPrefix object.objectKey)
    (hnodup : (objects.map FilesystemStore.StoredObject.objectKey).Nodup)
    (hmem : ∀ object, object ∈ objects ↔ ∃ rest file, rest ≠ [] ∧ store.contents (ps ++ rest) = some file ∧
      object = ⟨asPosix (ps ++ rest), file.modified⟩) :
    objects.Perm ((store.listObjects jobsPrefix).map ArtifactObject.listed) := by
  rw [listObjects_all hkeys]
  have hdistinct : (store.rows.map ArtifactObject.listed).Nodup := by
    have hkeyed : (store.rows.map fun object => Text.ofString object.objectKey).Nodup := by
      have hmapped := store.unique.map Text.ofString_injective
      rwa [List.map_map] at hmapped
    refine List.Nodup.of_map FilesystemStore.StoredObject.objectKey ?_
    rw [List.map_map]
    exact hkeyed
  refine (List.perm_ext_iff_of_nodup hnodup.of_map hdistinct).mpr fun listed => ?_
  rw [hmem, List.mem_map]
  constructor
  · rintro ⟨rest, file, -, hfile, rfl⟩
    obtain ⟨object, hobject, hwritten, rfl⟩ := (contents_eq_some hway hkeys).mp hfile
    exact ⟨object, hobject, by rw [ArtifactObject.listed, hwritten.text]; rfl⟩
  · rintro ⟨object, hobject, rfl⟩
    obtain ⟨rest, hlength, hwritten⟩ := (hkeys object hobject).written hway
    refine ⟨rest, object.file, List.ne_nil_of_length_pos (by omega), ?_, by rw [ArtifactObject.listed, hwritten.text]; rfl⟩
    exact (contents_eq_some hway hkeys).mpr ⟨object, hobject, hwritten, rfl⟩

/-- A directory and a bucket that show the table, to readers and to the cleaner. -/
structure Implements (root : List FileName) (jobsPrefix : String) (store : ArtifactStore) (t : FilesystemStore.Tree)
    (bucket : S3Store.Bucket) : Prop where
  shows : FilesystemStore.Shows root store.contents t
  agrees : S3Store.Agrees root t bucket
  get : ∀ object ∈ store.rows, FilesystemStore.get root (.ofString object.objectKey) t = some object.file.data ∧
    S3Store.get (.ofString object.objectKey) bucket = some object.file.data
  list : ∃ objects, FilesystemStore.listObjects root (.ofString jobsPrefix) t = some objects ∧
    objects.Perm ((store.listObjects jobsPrefix).map ArtifactObject.listed)
  scan : ∀ lister, S3Store.Lists lister bucket → ∃ n objects,
    objects.Perm ((store.listObjects jobsPrefix).map ArtifactObject.listed) ∧
      ∀ fuel, n ≤ fuel → S3Store.listObjects lister fuel (.ofString jobsPrefix) = some (.found objects)

theorem implements_of_holds {root : List FileName} {jobsPrefix : String} {ps : List Text} {store : ArtifactStore}
    {t : FilesystemStore.Tree} {bucket : S3Store.Bucket} (hway : JobsPrefix jobsPrefix ps)
    (hshort : FilesystemStore.IsShort (.ofString jobsPrefix)) (hkeys : ∀ object ∈ store.rows, UploadKey jobsPrefix object.objectKey) (hholds : FilesystemStore.Holds root store.contents t)
    (hbucket : S3Store.Mirrors store.contents bucket) : Implements root jobsPrefix store t bucket := by
  have hagrees := S3Store.agrees_of_mirrors hholds hbucket
  have hplain := isEncodable_ofString jobsPrefix
  have hkey := hway.isKey
  have hsafe : safeParts? (.ofString jobsPrefix) = some ps := by
    rw [hway.written]
    exact safeParts?_asPosix hkey.parts hkey.safe
  obtain ⟨objects, hlist, hnodup, hmem⟩ := hholds.listObjects_eq hplain hsafe
  have hperm := listed_perm hway hkeys hnodup hmem
  refine ⟨hholds.shows, hagrees, fun object hobject => ?_, ⟨objects, hlist, hperm⟩, fun lister hlister => ?_⟩
  · obtain ⟨rest, -, hwritten⟩ := (hkeys object hobject).written hway
    have hread : FilesystemStore.get root (.ofString object.objectKey) t = some object.file.data := by
      rw [hholds.get_eq (isEncodable_ofString _) hwritten.safe,
        (contents_eq_some hway hkeys).mpr ⟨object, hobject, hwritten, rfl⟩]
      rfl
    refine ⟨hread, ?_⟩
    rw [hagrees.get _ (isEncodable_ofString _) (by rw [safeObjectKey?, hwritten.safe]; rfl), hread]
  · obtain ⟨n, objects', found, hlist', hfound, hscan⟩ := hagrees.list lister hlister _ ps hplain hshort hsafe hkey.nonempty
    obtain rfl := Option.some.inj (hlist.symm.trans hlist')
    exact ⟨n, found, hfound.trans hperm, hscan⟩

/-- Whatever completions, cleaners and all other transactions do, each call that they make on a
store returns on a directory that was empty, and the directory and the bucket show the table of
the objects, under any prefix that the settings accept and whose keys both stores take. The calls
go one after the other, as in the table, and the stores have no faults of their own. -/
theorem stores_refine (H : Hashing) (encoding : Encoding) (settings : RetentionSettings) (value : Option Text) (pfx : Text)
    (hvalue : normalizeArtifactPrefix? value = some pfx) (hzero : (0 : CodePoint) ∉ pfx)
    (hjobs : Text.ofString settings.artifactJobsPrefix = artifactJobsPrefix pfx) (root : List FileName)
    (t : FilesystemStore.Tree) (hclear : FilesystemStore.Clear root t) (inputs : List ArtifactInput)
    (hi : ∀ i ∈ inputs, i.IsFaultless) (hlength : FilesystemStore.IsShort (.ofString settings.artifactJobsPrefix))
    (hshort : ∀ call ∈ storeCalls H encoding settings inputs, FilesystemStore.IsShort call.objectKey) :
    (FilesystemStore.storeMachine root).trace t (storeCalls H encoding settings inputs) = storeCalls H encoding settings inputs ∧
      Implements root settings.artifactJobsPrefix (served H encoding settings inputs).store
        ((FilesystemStore.storeMachine root).run t (storeCalls H encoding settings inputs))
        ((storeCalls H encoding settings inputs).foldl S3Store.next .empty) := by
  obtain ⟨ps, hway⟩ := jobsPrefix_accepted hvalue hzero hjobs
  have hdepth : 0 < ps.length + 5 := Nat.succ_pos _
  have hcalls : ∀ call ∈ storeCalls H encoding settings inputs, FilesystemStore.OnLevel (ps.length + 5) call := by
    intro call hcall
    obtain ⟨made, hmade, rfl⟩ := List.mem_map.mp hcall
    exact (artifactCalls_keys hmade).onLevel hway (hshort _ hcall)
  have htrace := ((hclear.level hdepth).run hdepth hcalls).2
  have hcontents : (served H encoding settings inputs).store.contents =
      FilesystemStore.stored (fun _ => none) (storeCalls H encoding settings inputs) := by
    rw [served_store hi]
    exact contents_calls hway (artifactCalls H encoding settings inputs) nofun fun call hcall => artifactCalls_keys hcall
  have hholds := hclear.holds.run (fun call hcall => (hcalls call hcall).plain) fun before call hb =>
    (hcalls call (hb.subset (by simp))).rootThere hdepth
  rw [htrace, ← hcontents] at hholds
  have hbucket : S3Store.Mirrors (fun _ => none) .empty := ⟨fun _ _ => rfl, nofun⟩
  have hmirrors := hbucket.run fun call hcall => by
    obtain ⟨-, -, qs, names, hqs, hlength, -⟩ := hcalls call hcall
    exact ⟨qs, hqs, List.ne_nil_of_length_pos (by omega)⟩
  rw [← hcontents] at hmirrors
  refine ⟨htrace, implements_of_holds hway hlength (fun object hobject => ?_) hholds hmirrors⟩
  exact (served_keys inputs).objects object (.inl hobject)

namespace Sample

def sharedSettings : RetentionSettings := {retentionSettings with artifactJobsPrefix := "shared/researcher/jobs"}

end Sample

theorem stores_refine_repeated :
    (storeCalls Sample.hashing Sample.encoding Sample.sharedSettings Sample.repeated).length = 8 ∧
      Implements FilesystemStore.Sample.storeRoot "shared/researcher/jobs"
        (served Sample.hashing Sample.encoding Sample.sharedSettings Sample.repeated).store
        ((FilesystemStore.storeMachine FilesystemStore.Sample.storeRoot).run .empty
          (storeCalls Sample.hashing Sample.encoding Sample.sharedSettings Sample.repeated))
        ((storeCalls Sample.hashing Sample.encoding Sample.sharedSettings Sample.repeated).foldl S3Store.next .empty) := by
  refine ⟨by decide +kernel, ?_⟩
  exact (stores_refine Sample.hashing Sample.encoding Sample.sharedSettings (some (.ofString " shared//researcher/ "))
    (.ofString "shared/researcher") (by decide +kernel) (by decide) (by decide +kernel) FilesystemStore.Sample.storeRoot .empty
    (FilesystemStore.clear_empty _) Sample.repeated (by simp [Sample.repeated, Sample.running, ArtifactInput.IsFaultless])
    (by decide +kernel) (by decide +kernel)).2

end

end ResearchGateway
