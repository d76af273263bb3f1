import ResearchGateway.Completion

/-! The collection of orphans spares what is referenced.

A cleaner takes the referenced keys some time after it fixed its cutoffs, and deletes
objects some time after that. Rows that are missing from what it took were committed
after its start; their objects, put within the grace period before the commit, are
younger than the cutoff. -/
namespace ResearchGateway
open Library

/-- The objects that a run has listed and not yet looked at. -/
def CleanerPhase.listed : CleanerPhase → List ArtifactObject
  | .sweeping _ _ objects _ => objects
  | _ => []

/-- The start of a run, and the keys that it holds for referenced. -/
def CleanerPhase.snapshot : CleanerPhase → Option (Time × List String)
  | .listingObjects now referenced | .sweeping now referenced _ _ => some (now, referenced)
  | _ => none

def CleanerPhase.started : CleanerPhase → Option Time
  | .idle => none
  | .listingArtifacts now | .deletingArtifacts now _ | .recording now _ _ | .expiring now
  | .referencing now | .listingObjects now _ | .sweeping now _ _ _ => some now

/-- The keys that the next step passes to `delete` as orphans. -/
def CleanerPhase.orphans (settings : RetentionSettings) : CleanerPhase → List String
  | .sweeping now referenced (object :: _) deleted =>
    if settings.cleanupBatchSize ≤ deleted then []
    else if object.objectKey ∈ referenced ∨ settings.orphanCutoff now ≤ object.lastModified then []
    else [object.objectKey]
  | _ => []

def CleanerPhase.isSweeping : CleanerPhase → Bool
  | .sweeping .. => true
  | _ => false

/-- The objects that an input deletes as orphans. -/
def orphansOf (settings : RetentionSettings) (i : ArtifactInput) (w : ArtifactSystem) : List String :=
  match i with
  | .cleaner c _ => (w.cleaners c).orphans settings
  | _ => []

/-! ### A run of a cleaner -/

section
variable {settings : RetentionSettings} {answer : StoreAnswer} {db db' : Database}
  {store store' : ArtifactStore} {phase phase' : CleanerPhase}

/-- A run lists what is in the store. -/
theorem CleanerStep.listed_sub (h : CleanerStep settings answer db store phase db' store' phase')
    {object : ArtifactObject} (ho : object ∈ phase'.listed) :
    object ∈ phase.listed ∨ object ∈ store.rows := by
  cases h with
  | objectsListed =>
    have hlisted := (StoreAnswer.listing_perm answer _).mem_iff.mp ho
    exact .inr (List.mem_filter.mp hlisted).1
  | skipped | collected => exact .inl (List.mem_cons_of_mem _ ho)
  | _ => cases ho

/-- A run takes the referenced keys once. -/
theorem CleanerStep.snapshot_eq (h : CleanerStep settings answer db store phase db' store' phase')
    {now : Time} {referenced : List String} (ht : phase'.snapshot = some (now, referenced)) :
    phase.snapshot = some (now, referenced) ∨ (referenced = listArtifactKeys db ∧ db' = db) := by
  cases h with
  | referenced =>
    cases ht
    exact .inr ⟨rfl, rfl⟩
  | objectsListed | skipped | collected => exact .inl ht
  | _ => cases ht

/-- A run keeps its start. -/
theorem CleanerStep.started_eq (h : CleanerStep settings answer db store phase db' store' phase')
    {now : Time} (ht : phase'.started = some now) : phase.started = some now := by
  cases h with
  | rested | finished | stopped => cases ht
  | _ => exact ht

theorem Deletion.apply_sublist (deletion : Deletion) (store : ArtifactStore) (key : String) :
    (deletion.apply store key).rows.Sublist store.rows := by
  unfold Deletion.apply
  split
  · exact List.filter_sublist
  · exact List.filter_sublist
  · exact List.Sublist.refl _

/-- A deletion takes one key away. -/
theorem Deletion.mem_apply (deletion : Deletion) {store : ArtifactStore} {object : ArtifactObject} {key : String}
    (ho : object ∈ store.rows) (hne : object.objectKey ≠ key) : object ∈ (deletion.apply store key).rows := by
  unfold Deletion.apply
  split
  · exact List.mem_filter.mpr ⟨ho, by simpa using hne⟩
  · exact List.mem_filter.mpr ⟨ho, by simpa using hne⟩
  · exact ho

/-- A run puts nothing into the store. -/
theorem CleanerStep.store_sub (h : CleanerStep settings answer db store phase db' store' phase') :
    store'.rows.Sublist store.rows := by
  cases h with
  | deleted => exact List.filter_sublist
  | kept | collected => exact Deletion.apply_sublist ..
  | _ => exact List.Sublist.refl _

/-- What a sweep takes out of the store are its orphans. -/
theorem CleanerStep.swept (h : CleanerStep settings answer db store phase db' store' phase') (hsweep : phase.isSweeping = true)
    {object : ArtifactObject} (ho : object ∈ store.rows) (hkept : object.objectKey ∉ phase.orphans settings) :
    object ∈ store'.rows := by
  cases h with
  | finished | stopped | skipped => exact ho
  | @collected now referenced orphan rest deleted hroom hkey hold =>
    have horphan : CleanerPhase.orphans settings (.sweeping now referenced (orphan :: rest) deleted) = [orphan.objectKey] := by
      simp only [CleanerPhase.orphans, if_neg (Nat.not_le.mpr hroom), if_neg (not_or.mpr ⟨hkey, Int.not_le.mpr hold⟩)]
    exact answer.deletion.mem_apply ho (by simpa [horphan] using hkept)
  | _ => cases hsweep

/-- A run adds no row. -/
theorem CleanerStep.artifacts_sub (h : CleanerStep settings answer db store phase db' store' phase') :
    db'.artifacts.rows.Sublist db.artifacts.rows := by
  cases h with
  | recorded => exact List.filter_sublist
  | expired => exact List.filter_sublist
  | _ => exact List.Sublist.refl _

end

/-! ### The invariant -/

/-- An object in the store, or one that a run may still delete. -/
def Seen (w : ArtifactSystem) (object : ArtifactObject) : Prop :=
  object ∈ w.store.rows ∨ ∃ c, object ∈ (w.cleaners c).listed

/-- A request against the objects of its directory. -/
structure UploadTimed (settings : RetentionSettings) (w : ArtifactSystem) (u : Upload) : Prop where
  clock : ∀ t, u.began = some t → t ≤ w.clock
  objects : ∀ object, Seen w object →
    Directory settings.artifactJobsPrefix u.uploadId object.objectKey →
      ∃ t, u.began = some t ∧ t ≤ object.lastModified
  stored : ∀ s ∈ u.stored, Directory settings.artifactJobsPrefix u.uploadId s.objectKey

/-- The rows and objects of an identifier that has been drawn, and of no request under way. -/
def Settled (settings : RetentionSettings) (w : ArtifactSystem) (key : String) : Prop :=
  ∃ id ∈ w.drawn, Directory settings.artifactJobsPrefix id key ∧
    ∀ r u, w.requests r = .uploading u → u.uploadId ≠ id

structure GraceKept (settings : RetentionSettings) (w : ArtifactSystem) : Prop where
  objects : ∀ object, Seen w object →
    ∃ id ∈ w.drawn, Directory settings.artifactJobsPrefix id object.objectKey
  rows : ∀ a ∈ w.db.artifacts.rows, Settled settings w a.objectKey
  uploads : ∀ r u, w.requests r = .uploading u → UploadTimed settings w u
  grace : ∀ a ∈ w.db.artifacts.rows, ∀ object, Seen w object → object.objectKey = a.objectKey →
    a.createdAt ≤ object.lastModified + seconds settings.orphanGraceSeconds
  started : ∀ c now, (w.cleaners c).started = some now → now ≤ w.clock
  snapshot : ∀ c now referenced, (w.cleaners c).snapshot = some (now, referenced) →
    ∀ a ∈ w.db.artifacts.rows, a.objectKey ∈ referenced ∨ now ≤ a.createdAt

section
variable {settings : RetentionSettings} {w w' : ArtifactSystem}

/-- Whatever only takes away, and lets the clock run. -/
theorem GraceKept.less (h : GraceKept settings w) (hdrawn : w'.drawn = w.drawn)
    (hclock : w.clock ≤ w'.clock) (hrows : w'.db.artifacts.rows ⊆ w.db.artifacts.rows)
    (hseen : ∀ object, Seen w' object → Seen w object)
    (hrequests : ∀ r u, w'.requests r = .uploading u → w.requests r = .uploading u)
    (hstarted : ∀ c now, (w'.cleaners c).started = some now → now ≤ w'.clock)
    (hsnapshot : ∀ c now referenced, (w'.cleaners c).snapshot = some (now, referenced) →
      ∀ a ∈ w'.db.artifacts.rows, a.objectKey ∈ referenced ∨ now ≤ a.createdAt) :
    GraceKept settings w' where
  objects object ho := by
    rw [hdrawn]
    exact h.objects object (hseen object ho)
  rows a ha := by
    obtain ⟨id, hid, hdirectory, hother⟩ := h.rows a (hrows ha)
    exact ⟨id, by rwa [hdrawn], hdirectory, fun r u hu => hother r u (hrequests r u hu)⟩
  uploads r u hu := by
    have hbefore := h.uploads r u (hrequests r u hu)
    exact ⟨fun t ht => Int.le_trans (hbefore.clock t ht) hclock,
      fun object ho => hbefore.objects object (hseen object ho), hbefore.stored⟩
  grace a ha object ho := h.grace a (hrows ha) object (hseen object ho)
  started := hstarted
  snapshot := hsnapshot

/-- Nothing but requests change, and those only end. -/
theorem GraceKept.left (h : GraceKept settings w) (r₀ : Nat) (state : Option JobState) :
    GraceKept settings (w.enter r₀ (.ended state)) := by
  refine h.less rfl (Int.le_refl _) (List.Subset.refl _) (fun _ ho => ho) (fun r u hu => ?_)
    h.started h.snapshot
  rcases update_cases hu with ⟨-, hended⟩ | ⟨-, hbefore⟩
  · cases hended
  · exact hbefore

/-- The key of a request under way is in no row. -/
theorem GraceKept.row_ne (h : GraceKept settings w) {r : Nat} {u : Upload}
    (hu : w.requests r = .uploading u) {key : String}
    (hkey : Directory settings.artifactJobsPrefix u.uploadId key) {a : ResearchArtifact}
    (ha : a ∈ w.db.artifacts.rows) : key ≠ a.objectKey := by
  intro heq
  subst heq
  obtain ⟨id, -, hdirectory, hother⟩ := h.rows a ha
  exact hother r u hu (hkey.unique hdirectory)

/-- An object put by a request, seen from the others. -/
theorem GraceKept.put (h : GraceKept settings w) (ha : UploadsApart w) {r₀ : Nat} {u₀ : Upload}
    (hu₀ : w.requests r₀ = .uploading u₀) {phase : CompletionPhase} {key content : String}
    (hkey : Directory settings.artifactJobsPrefix u₀.uploadId key)
    (hphase : ∀ u, phase = .uploading u → u.uploadId = u₀.uploadId ∧
      UploadTimed settings (({w with store := w.store.put w.clock key content} : ArtifactSystem).enter r₀ phase) u) :
    GraceKept settings
      (({w with store := w.store.put w.clock key content} : ArtifactSystem).enter r₀ phase) := by
  have hseen {object : ArtifactObject}
      (ho : Seen (({w with store := w.store.put w.clock key content} : ArtifactSystem).enter r₀ phase)
        object) : Seen w object ∨ object = ⟨key, content, w.clock⟩ := by
    rcases ho with ho | ho
    · exact (ArtifactStore.mem_put ho).imp_left .inl
    · exact .inl (.inr ho)
  refine ⟨fun object ho => ?_, fun a hrow => ?_, fun r u hu => ?_, fun a hrow object ho hobject => ?_,
    h.started, h.snapshot⟩
  · rcases hseen ho with ho | rfl
    · exact h.objects object ho
    · exact ⟨_, ha.drawn r₀ u₀ hu₀, hkey⟩
  · obtain ⟨id, hid, hdirectory, hother⟩ := h.rows a hrow
    refine ⟨id, hid, hdirectory, fun r u hu => ?_⟩
    rcases update_cases hu with ⟨-, hnew⟩ | ⟨-, hbefore⟩
    · rw [(hphase u hnew).1]
      exact hother r₀ u₀ hu₀
    · exact hother r u hbefore
  · rcases update_cases hu with ⟨-, hnew⟩ | ⟨hr, hbefore⟩
    · exact (hphase u hnew).2
    · have htimed := h.uploads r u hbefore
      refine ⟨htimed.clock, fun object ho hdirectory => ?_, htimed.stored⟩
      rcases hseen ho with ho | rfl
      · exact htimed.objects object ho hdirectory
      · exact absurd (ha.alone r r₀ u u₀ hbefore hu₀ (hdirectory.unique hkey)) hr
  · rcases hseen ho with ho | rfl
    · exact h.grace a hrow object ho hobject
    · exact absurd hobject (h.row_ne hu₀ hkey hrow)

/-- One cleaner changes its phase and the others keep theirs. -/
theorem ArtifactSystem.cleanerAt_cases (w : ArtifactSystem) (c : Nat) (phase : CleanerPhase) (k : Nat) :
    (w.cleanerAt c phase).cleaners k = phase ∨ (w.cleanerAt c phase).cleaners k = w.cleaners k := by
  rcases update_cases (show (w.cleanerAt c phase).cleaners k = _ from rfl) with ⟨-, hnew⟩ | ⟨-, hbefore⟩
  · exact .inl hnew.symm
  · exact .inr hbefore.symm

/-- A cleaner at the beginning or the end of a run. -/
theorem GraceKept.cleanerAt (h : GraceKept settings w) (c : Nat) {phase : CleanerPhase}
    (hlisted : phase.listed = []) (hsnapshot : phase.snapshot = none)
    (hstarted : ∀ now, phase.started = some now → now ≤ w.clock) :
    GraceKept settings (w.cleanerAt c phase) := by
  refine h.less rfl (Int.le_refl _) (List.Subset.refl _) ?_ (fun _ _ hu => hu) ?_ ?_
  · rintro object (ho | ⟨k, ho⟩)
    · exact .inl ho
    · rcases w.cleanerAt_cases c phase k with hnew | hsame
      · rw [hnew, hlisted] at ho
        cases ho
      · rw [hsame] at ho
        exact .inr ⟨k, ho⟩
  · intro k now ht
    rcases w.cleanerAt_cases c phase k with hnew | hsame
    · rw [hnew] at ht
      exact hstarted now ht
    · rw [hsame] at ht
      exact h.started k now ht
  · intro k now referenced ht
    rcases w.cleanerAt_cases c phase k with hnew | hsame
    · rw [hnew, hsnapshot] at ht
      cases ht
    · rw [hsame] at ht
      exact h.snapshot k now referenced ht

/-- A step of a run. -/
theorem GraceKept.turn (h : GraceKept settings w) (c : Nat) (answer : StoreAnswer) :
    GraceKept settings (w.cleanerTurn settings c answer) := by
  have hstep := CleanerPhase.next_step settings answer w.db w.store (w.cleaners c)
  have hcleaner (k : Nat) : (w.cleanerTurn settings c answer).cleaners k =
        ((w.cleaners c).next settings answer w.db w.store).2.2 ∨
      (w.cleanerTurn settings c answer).cleaners k = w.cleaners k :=
    ArtifactSystem.cleanerAt_cases _ c _ k
  refine h.less rfl (Int.le_refl _) hstep.artifacts_sub.subset ?_ (fun _ _ hu => hu) ?_ ?_
  · rintro object (ho | ⟨k, ho⟩)
    · exact .inl (hstep.store_sub.subset ho)
    · rcases hcleaner k with hnew | hsame
      · rw [hnew] at ho
        rcases hstep.listed_sub ho with hlisted | hstored
        · exact .inr ⟨c, hlisted⟩
        · exact .inl hstored
      · rw [hsame] at ho
        exact .inr ⟨k, ho⟩
  · intro k now ht
    rcases hcleaner k with hnew | hsame
    · rw [hnew] at ht
      exact h.started c now (hstep.started_eq ht)
    · rw [hsame] at ht
      exact h.started k now ht
  · intro k now referenced ht a ha
    have hbefore := hstep.artifacts_sub.subset ha
    rcases hcleaner k with hnew | hsame
    · rw [hnew] at ht
      rcases hstep.snapshot_eq ht with hold | ⟨rfl, -⟩
      · exact h.snapshot c now referenced hold a hbefore
      · exact .inl (List.mem_map_of_mem hbefore)
    · rw [hsame] at ht
      exact h.snapshot k now referenced ht a hbefore

theorem CleanerPhase.started_of_snapshot {phase : CleanerPhase} {now : Time} {referenced : List String}
    (h : phase.snapshot = some (now, referenced)) : phase.started = some now := by
  cases phase <;> cases h <;> rfl

theorem artifactRows_spec {now : Time} {j : JobId} {serial : Nat} {stored : List StoredObject}
    {a : ResearchArtifact} (h : a ∈ artifactRows now j serial stored) :
    a.createdAt = now ∧ ∃ s ∈ stored, a.objectKey = s.objectKey := by
  induction stored generalizing serial with
  | nil => cases h
  | cons s rest ih =>
    rcases List.mem_cons.mp h with rfl | h
    · exact ⟨rfl, s, List.mem_cons_self .., rfl⟩
    · obtain ⟨hnow, t, ht, hkey⟩ := ih h
      exact ⟨hnow, t, List.mem_cons_of_mem _ ht, hkey⟩

/-- The rows of a completion that commits within the grace period. -/
theorem GraceKept.won (h : GraceKept settings w) (ha : UploadsApart w) {H : Hashing} {r₀ : Nat}
    {u : Upload} {job : ResearchJob} {db : Database} (hphase : w.requests r₀ = .uploading u)
    (hcommit : u.commit H w.clock w.db = .ok (job, db))
    (hgrace : ∀ t, u.began = some t → w.clock ≤ t + seconds settings.orphanGraceSeconds) :
    GraceKept settings (({w with db := db} : ArtifactSystem).enter r₀ (.ended (some job.state))) := by
  obtain ⟨_, _, -, -, -, -, -, hrows, -⟩ := completionCommit_ok hcommit
  have hrow {a : ResearchArtifact} (hmem : a ∈ db.artifacts.rows) :
      a ∈ w.db.artifacts.rows ∨
        (a.createdAt = w.clock ∧ Directory settings.artifactJobsPrefix u.uploadId a.objectKey) := by
    rw [hrows] at hmem
    refine (List.mem_append.mp hmem).imp_right fun hnew => ?_
    obtain ⟨hnow, s, hs, hkey⟩ := artifactRows_spec hnew
    refine ⟨hnow, ?_⟩
    rw [hkey]
    exact (h.uploads r₀ u hphase).stored s hs
  have hactive {r : Nat} {u' : Upload}
      (hu : (({w with db := db} : ArtifactSystem).enter r₀ (.ended (some job.state))).requests r =
        .uploading u') : r ≠ r₀ ∧ w.requests r = .uploading u' := by
    rcases update_cases hu with ⟨-, hended⟩ | hother
    · cases hended
    · exact hother
  refine ⟨h.objects, fun a hmem => ?_, fun r u' hu => ?_, fun a hmem object ho hkey => ?_, h.started,
    fun c now referenced ht a hmem => ?_⟩
  · rcases hrow hmem with hold | ⟨-, hdirectory⟩
    · obtain ⟨id, hid, hdirectory, hother⟩ := h.rows a hold
      exact ⟨id, hid, hdirectory, fun r u' hu => hother r u' (hactive hu).2⟩
    · refine ⟨u.uploadId, ha.drawn r₀ u hphase, hdirectory, fun r u' hu hid => ?_⟩
      obtain ⟨hr, hbefore⟩ := hactive hu
      exact hr (ha.alone r r₀ u' u hbefore hphase hid)
  · obtain ⟨hclock, hobjects, hstored⟩ := h.uploads r u' (hactive hu).2
    exact ⟨hclock, hobjects, hstored⟩
  · rcases hrow hmem with hold | ⟨hnow, hdirectory⟩
    · exact h.grace a hold object ho hkey
    · rw [← hkey] at hdirectory
      obtain ⟨t, hbegan, hle⟩ := (h.uploads r₀ u hphase).objects object ho hdirectory
      rw [hnow]
      exact Int.le_trans (hgrace t hbegan) (Int.add_le_add_right hle _)
  · rcases hrow hmem with hold | ⟨hnow, -⟩
    · exact h.snapshot c now referenced ht a hold
    · rw [hnow]
      exact .inr (h.started c now (CleanerPhase.started_of_snapshot ht))

/-- A request that draws an identifier which nothing has. -/
theorem GraceKept.checked (h : GraceKept settings w) {r₀ : Nat} {u : Upload}
    (hfresh : u.uploadId ∉ w.drawn) (hstored : u.stored = []) (hbegan : u.began = none) :
    GraceKept settings
      (({w with drawn := u.uploadId :: w.drawn} : ArtifactSystem).enter r₀ (.uploading u)) := by
  refine ⟨fun object ho => ?_, fun a hmem => ?_, fun r u' hu => ?_, h.grace, h.started, h.snapshot⟩
  · obtain ⟨id, hid, hdirectory⟩ := h.objects object ho
    exact ⟨id, List.mem_cons_of_mem _ hid, hdirectory⟩
  · obtain ⟨id, hid, hdirectory, hother⟩ := h.rows a hmem
    refine ⟨id, List.mem_cons_of_mem _ hid, hdirectory, fun r u' hu => ?_⟩
    rcases update_cases hu with ⟨-, hnew⟩ | ⟨-, hbefore⟩
    · cases hnew
      intro heq
      subst heq
      exact hfresh hid
    · exact hother r u' hbefore
  · rcases update_cases hu with ⟨-, hnew⟩ | ⟨-, hbefore⟩
    · cases hnew
      refine ⟨by simp [hbegan], fun object ho hdirectory => ?_, by simp [hstored]⟩
      obtain ⟨id, hid, hdirectory'⟩ := h.objects object ho
      exact absurd (hdirectory'.unique hdirectory ▸ hid) hfresh
    · obtain ⟨hclock, hobjects, hstored⟩ := h.uploads r u' hbefore
      exact ⟨hclock, hobjects, hstored⟩

end

/-! ### Runs -/

/-- The completion commits within the grace period of its first upload. -/
def Win.WithinGrace (settings : RetentionSettings) (win : Win) : Prop :=
  ∀ t ∈ win.upload.began, win.time ≤ t + seconds settings.orphanGraceSeconds

instance (settings : RetentionSettings) (win : Win) : Decidable (win.WithinGrace settings) :=
  inferInstanceAs (Decidable (∀ t ∈ win.upload.began, _))

section
variable {H : Hashing} {encoding : Encoding} {settings : RetentionSettings} {i : ArtifactInput}
  {w w' : ArtifactSystem} {out : List Win}

/-- A request puts its next file. -/
theorem GraceKept.put_next (h : GraceKept settings w) (ha : UploadsApart w) {r : Nat} {u : Upload}
    {file : CompletionFile} {rest : List CompletionFile} (hphase : w.requests r = .uploading u) :
    GraceKept settings
      (({w with store := w.store.put w.clock (u.key settings file.name) file.content} :
        ArtifactSystem).enter r (.uploading {u with
          pending := rest
          stored := u.stored ++ [file.stored (u.key settings file.name)]
          began := some (u.began.getD w.clock)})) := by
  have hkey := u.key_directory settings file.name
  have hbefore := h.uploads r u hphase
  have hbegan : u.began.getD w.clock ≤ w.clock := by
    cases ht : u.began with
    | none => exact Int.le_refl _
    | some t => exact hbefore.clock t ht
  refine h.put ha hphase hkey fun u' hu => ?_
  cases hu
  refine ⟨rfl, fun t ht => ?_, fun object ho hdirectory => ⟨_, rfl, ?_⟩, fun s hs => ?_⟩
  · obtain rfl := Option.some.inj ht
    exact hbegan
  · rcases ho with ho | ho
    · rcases ArtifactStore.mem_put ho with ho | rfl
      · obtain ⟨t, ht, hle⟩ := hbefore.objects object (.inl ho) hdirectory
        simpa [ht] using hle
      · exact hbegan
    · obtain ⟨t, ht, hle⟩ := hbefore.objects object (.inr ho) hdirectory
      simpa [ht] using hle
  · rcases List.mem_append.mp hs with hs | hs
    · exact hbefore.stored s hs
    · obtain rfl := List.mem_singleton.mp hs
      exact hkey

theorem ArtifactStep.grace_kept (hstep : ArtifactStep H encoding settings i w out w')
    (ha : UploadsApart w) (h : GraceKept settings w)
    (hgrace : ∀ win ∈ out, win.WithinGrace settings) : GraceKept settings w' := by
  cases hstep with
  | idle => exact h
  | ticked n =>
    have hclock : w.clock ≤ w.clock + n := Int.le_add_of_nonneg_right (Int.natCast_nonneg _)
    exact h.less rfl hclock (List.Subset.refl _) (fun _ ho => ho) (fun _ _ hu => hu)
      (fun c now ht => Int.le_trans (h.started c now ht) hclock) h.snapshot
  | operated hop =>
    obtain ⟨hret, hcompletion⟩ := Op.stamped_isOther hop w.clock
    have hsame := congrArg Table.rows (step_artifacts (H := H) hcompletion hret w.db).1
    exact h.less rfl (Int.le_refl _) (fun _ hmem => hsame ▸ hmem) (fun _ ho => ho) (fun _ _ hu => hu)
      h.started fun c now referenced ht a hmem => h.snapshot c now referenced ht a (hsame ▸ hmem)
  | checked hphase hfresh hcheck => exact h.checked (u := ⟨_, _, _, _, _, _⟩) hfresh rfl rfl
  | put hphase hpending => exact h.put_next ha hphase
  | leftover hphase hpending => exact h.put ha hphase (Upload.key_directory ..) nofun
  | gaveUp => exact h.left ..
  | won hphase hpending hcommit =>
    exact h.won ha hphase hcommit (hgrace _ (List.mem_singleton_self _))
  | crashed c => exact h.cleanerAt c rfl rfl nofun
  | began => exact h.cleanerAt _ rfl rfl fun now ht => Int.le_of_eq (Option.some.inj ht).symm
  | cleaned => exact h.turn ..

theorem served_grace (inputs : List ArtifactInput)
    (hgrace : ∀ win ∈ wins H encoding settings inputs, win.WithinGrace settings) :
    GraceKept settings (served H encoding settings inputs) := by
  induction inputs using List.reverseRecOn with
  | nil =>
    refine ⟨?_, nofun, nofun, nofun, nofun, nofun⟩
    rintro object (ho | ⟨c, ho⟩) <;> cases ho
  | append_singleton inputs i ih =>
    rw [wins_snoc] at hgrace
    rw [served_snoc]
    refine (artifactSystem_step H encoding settings i _).grace_kept (served_apart inputs) ?_ ?_
    · exact ih fun win hwin => hgrace win (List.mem_append_left _ hwin)
    · exact fun win hwin => hgrace win (List.mem_append_right _ hwin)

/-- What a run takes for an orphan, no row refers to. -/
theorem GraceKept.orphan (h : GraceKept settings w) {c : Nat} {key : String}
    (hkey : key ∈ (w.cleaners c).orphans settings) :
    ∀ a ∈ w.db.artifacts.rows, a.objectKey ≠ key := by
  rintro a ha rfl
  cases hphase : w.cleaners c with
  | sweeping now referenced objects deleted =>
    rw [hphase] at hkey
    cases objects with
    | nil => cases hkey
    | cons object rest =>
      simp only [CleanerPhase.orphans] at hkey
      split at hkey
      · cases hkey
      · split at hkey
        · cases hkey
        · next horphan =>
          obtain ⟨hunreferenced, hold⟩ := not_or.mp horphan
          have hsame : a.objectKey = object.objectKey := List.mem_singleton.mp hkey
          have hseen : Seen w object := .inr ⟨c, by simp [hphase, CleanerPhase.listed]⟩
          have hcommit := h.grace a ha object hseen hsame.symm
          -- A row that the snapshot lacks is from after the start.
          rcases h.snapshot c now referenced (by simp [hphase, CleanerPhase.snapshot]) a ha with
            hreferenced | hlater
          · exact hunreferenced (hsame ▸ hreferenced)
          · have hcutoff : object.lastModified < now - seconds settings.orphanGraceSeconds :=
              Int.lt_of_not_ge hold
            have hyoung : now ≤ object.lastModified + seconds settings.orphanGraceSeconds :=
              Int.le_trans hlater hcommit
            exact absurd (Int.add_lt_of_lt_sub_right hcutoff) (Int.not_lt.mpr hyoung)
  | _ =>
    rw [hphase] at hkey
    cases hkey

end

/-- Whatever cleaners and completions do, an object that a committed row refers to is
never deleted as an orphan, if every completion commits within the grace period of its
first upload: its key is not among those that a sweep deletes, and after each step of the
sweep it is in the store as before. -/
theorem orphans_unreferenced (H : Hashing) (encoding : Encoding) (settings : RetentionSettings)
    (inputs : List ArtifactInput)
    (hgrace : ∀ win ∈ wins H encoding settings inputs, win.WithinGrace settings) :
    ∀ before i, before ++ [i] <+: inputs →
      (∀ key ∈ orphansOf settings i (served H encoding settings before),
        ∀ a ∈ (served H encoding settings before).db.artifacts.rows, a.objectKey ≠ key) ∧
      ∀ c answer, i = .cleaner c answer → ((served H encoding settings before).cleaners c).isSweeping = true →
        ∀ object ∈ (served H encoding settings before).store.rows,
          ∀ a ∈ (served H encoding settings before).db.artifacts.rows, a.objectKey = object.objectKey →
            object ∈ (served H encoding settings (before ++ [i])).store.rows := by
  intro before i hb
  obtain ⟨rest, rfl⟩ := hb
  have hbefore := served_grace before fun win hwin => hgrace win (by
    unfold wins
    rw [Machine.trace_append, Machine.trace_snoc]
    exact List.mem_append_left _ (List.mem_append_left _ hwin))
  refine ⟨fun key hkey => ?_, ?_⟩
  · cases i with
    | cleaner c answer => exact hbefore.orphan hkey
    | _ => cases hkey
  · rintro c answer rfl hsweep object ho a ha hkey
    rw [served_snoc]
    exact CleanerStep.swept (CleanerPhase.next_step ..) hsweep ho fun horphan => hbefore.orphan horphan a ha hkey

/-! ### An orphan next to a completion -/
namespace Sample

/-- One request puts a file and is cut off, the other one completes; a run starts when
the grace period is over, and has come to the first object that it deletes. -/
def upToOrphan : List ArtifactInput :=
  running ++ [.check 0 ⟨1, "token", {reportMarkdown := "report"}⟩ 7,
    .check 1 ⟨1, "token", {reportMarkdown := "report"}⟩ 8, .upload 0 .stored, .abandon 0] ++
    List.replicate 4 (.upload 1 .stored) ++ [.commit 1, .tick 86400000001, .clean 0] ++
    List.replicate 5 (.cleaner 0 {})

end Sample

/-- The file of the request that was cut off is deleted, and no row refers to it. -/
theorem orphans_unreferenced_cut_off :
    orphansOf Sample.retentionSettings (.cleaner 0 {})
        (served Sample.hashing Sample.encoding Sample.retentionSettings Sample.upToOrphan) =
      ["jobs/1/attempts/1/7/report.md"] ∧
    ∀ a ∈ (served Sample.hashing Sample.encoding Sample.retentionSettings
        Sample.upToOrphan).db.artifacts.rows, a.objectKey ≠ "jobs/1/attempts/1/7/report.md" := by
  have horphan : orphansOf Sample.retentionSettings (.cleaner 0 {})
      (served Sample.hashing Sample.encoding Sample.retentionSettings Sample.upToOrphan) =
        ["jobs/1/attempts/1/7/report.md"] := by decide +kernel
  refine ⟨horphan, (orphans_unreferenced Sample.hashing Sample.encoding Sample.retentionSettings
    (Sample.upToOrphan ++ [.cleaner 0 {}]) (by decide +kernel) Sample.upToOrphan (.cleaner 0 {})
    List.prefix_rfl).1 _ ?_⟩
  rw [horphan]
  exact List.mem_singleton_self _

end ResearchGateway
