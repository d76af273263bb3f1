import ResearchGateway.FilesystemStore

/-! The artifact store in a bucket.

A key is the name of its object, and a prefix is a text with which names begin. Whatever pages
the service lists them in, `list_objects` finds the objects in a directory, and the bucket shows
the same objects as the directory when it has taken the calls that returned there
(`stores_agree`). A directory refuses some that a bucket takes: an object cannot be a directory
for others, and the root has no name. -/
namespace ResearchGateway
open Library ObjectKey
open FilesystemStore (StoredArtifact StoredFile StoreCall Contents stored storeMachine)

namespace S3Store

structure BucketObject where
  key : Text
  file : StoredFile
  deriving DecidableEq

abbrev Bucket := Table BucketObject Text BucketObject.key

/-- `put_object`. -/
def putObject (bucket : Bucket) (object : BucketObject) : Bucket :=
  if h : bucket.Fresh object.key then bucket.insert object h else Table.put bucket object

/-- `delete_object`; an object that is not there is no error. -/
def deleteObject (bucket : Bucket) (key : Text) : Bucket := bucket.keep fun object => object.key ≠ key

/-- `put`: what it returns, or `none` where it raises. -/
def put (now : Time) (objectKey : Text) (data : List UInt8) (bucket : Bucket) : Option StoredArtifact × Bucket :=
  match safeObjectKey? objectKey with
  | none => (none, bucket)
  | some key => (some ⟨key, data.length⟩, putObject bucket ⟨key, ⟨data, now⟩⟩)

/-- `get`; `none` where it raises. -/
def get (objectKey : Text) (bucket : Bucket) : Option (List UInt8) :=
  ((safeObjectKey? objectKey).bind bucket.find?).map fun object => object.file.data

/-- `delete`; `none` where it raises. -/
def delete (objectKey : Text) (bucket : Bucket) : Option Unit × Bucket :=
  match safeObjectKey? objectKey with
  | none => (none, bucket)
  | some key => (some (), deleteObject bucket key)

/-! ### Listing -/

/-- A response of `list_objects_v2`. -/
structure ListPage where
  contents : List FilesystemStore.StoredObject
  isTruncated : Bool
  nextContinuationToken : Option Text

/-- The service, from a prefix and a token to a page. -/
abbrev Lister := Text → Option Text → ListPage

inductive Scan where
  | found (objects : List FilesystemStore.StoredObject)
  /-- A truncated page has no token. -/
  | raised
  | unfinished
  deriving DecidableEq

/-- The token that is sent: an empty one is not. -/
def sentToken (token : Option Text) : Option Text := token.filter fun text => !text.isEmpty

/-- The loop of `scan`, with the objects found so far. -/
def scanFrom (pages : Option Text → ListPage) : Nat → Option Text → List FilesystemStore.StoredObject → Scan
  | 0, _, _ => .unfinished
  | fuel + 1, token, found =>
    let page := pages (sentToken token)
    let found := found ++ page.contents
    if page.isTruncated then
      match page.nextContinuationToken with
      | none => .raised
      | some next => scanFrom pages fuel (some next) found
    else .found found

/-- The prefix that is listed. -/
def safePrefix (key : Text) : Text := key.rdropWhile (· = slash) ++ [slash]

/-- `list_objects`, which reads so many pages at most; `none` where the prefix is refused. -/
def listObjects (lister : Lister) (fuel : Nat) (pfx : Text) : Option Scan :=
  (safeObjectKey? pfx).map fun key => scanFrom (lister (safePrefix key)) fuel none []

/-- The pages from a token on have these objects: every page but the last is truncated and has
a token for the next one, which is not empty. -/
inductive Delivers (pages : Option Text → ListPage) : Option Text → List FilesystemStore.StoredObject → Prop
  | last {token : Option Text} (h : (pages token).isTruncated = false) : Delivers pages token (pages token).contents
  | more {token : Option Text} {next : Text} {objects : List FilesystemStore.StoredObject} (h : (pages token).isTruncated = true)
    (hnext : (pages token).nextContinuationToken = some next) (hne : next ≠ []) (rest : Delivers pages (some next) objects) :
    Delivers pages token ((pages token).contents ++ objects)

def BucketObject.listed (object : BucketObject) : FilesystemStore.StoredObject := ⟨object.key, object.file.modified⟩

/-- The service lists the bucket: whatever the pages, each object whose key begins with the prefix
is in one of them. -/
def Lists (lister : Lister) (bucket : Bucket) : Prop :=
  ∀ pfx, ∃ objects, Delivers (lister pfx) none objects ∧
    objects.Perm ((bucket.rows.filter fun object => pfx.isPrefixOf object.key).map BucketObject.listed)

/-- The loop ends, and has the objects of all pages. -/
theorem scanFrom_found {pages : Option Text → ListPage} {token : Option Text} {objects : List FilesystemStore.StoredObject}
    (h : Delivers pages (sentToken token) objects) :
    ∃ n, ∀ fuel, n ≤ fuel → ∀ found, scanFrom pages fuel token found = .found (found ++ objects) := by
  generalize hsent : sentToken token = sent at h
  induction h generalizing token with
  | last hlast =>
    refine ⟨1, fun fuel hfuel found => ?_⟩
    obtain ⟨fuel, rfl⟩ := Nat.exists_eq_add_of_le' hfuel
    simp [scanFrom, hsent, hlast]
  | @more sent next objects hmore hnext hne _ ih =>
    have hresent : sentToken (some next) = some next := by simp [sentToken, Option.filter, hne]
    obtain ⟨n, hn⟩ := ih hresent
    refine ⟨n + 1, fun fuel hfuel found => ?_⟩
    obtain ⟨fuel, rfl⟩ := Nat.exists_eq_add_of_le' hfuel
    rw [← Nat.add_assoc, scanFrom]
    simp only [hsent, hmore, hnext, if_true]
    rw [hn (fuel + n) (Nat.le_add_left ..), List.append_assoc]

/-! ### Calls -/

/-- The bucket after a call. -/
def next (bucket : Bucket) : StoreCall → Bucket
  | .put key data now => (put now key data bucket).2
  | .delete key => (delete key bucket).2

/-- The bucket has these objects and no other. -/
structure Mirrors (contents : Contents) (bucket : Bucket) : Prop where
  find : ∀ ps, IsKey ps → (bucket.find? (asPosix ps)).map BucketObject.file = contents ps
  keys : ∀ object ∈ bucket.rows, ∃ ps, IsKey ps ∧ object.key = asPosix ps

section
variable {bucket : Bucket} {contents : Contents} {call : StoreCall} {ps : List Text} {key : Text}

theorem find?_putObject (bucket : Bucket) (object : BucketObject) (key : Text) :
    (putObject bucket object).find? key = if object.key = key then some object else bucket.find? key := by
  by_cases h : bucket.Fresh object.key
  · rw [putObject, dif_pos h, Table.find?_insert]
  · rw [putObject, dif_neg h, Table.find?_put]
    by_cases hkey : object.key = key
    · subst hkey
      obtain ⟨old, hold⟩ := Option.ne_none_iff_exists'.mp (mt Table.find?_eq_none.mp h)
      simp [hold]
    · rw [if_neg hkey, if_neg hkey]

theorem mem_putObject {object object' : BucketObject} (h : object' ∈ (putObject bucket object).rows) :
    object' ∈ bucket.rows ∨ object' = object := by
  have hfound := Table.find?_eq_some.mpr ⟨h, rfl⟩
  rw [find?_putObject] at hfound
  split at hfound
  · exact .inr (Option.some.inj hfound).symm
  · exact .inl (Table.find?_eq_some.mp hfound).1

/-- What a call with a safe key leaves. -/
theorem find?_next (hps : safeParts? call.objectKey = some ps) (key : Text) :
    ((next bucket call).find? key).map BucketObject.file =
      if asPosix ps = key then call.file? else (bucket.find? key).map BucketObject.file := by
  cases call with
  | put objectKey data now =>
    have hkey : safeObjectKey? objectKey = some (asPosix ps) := (FilesystemStore.safeObjectKey?_parts hps).1
    simp only [next, put, hkey, find?_putObject]
    split <;> rfl
  | delete objectKey =>
    have hkey : safeObjectKey? objectKey = some (asPosix ps) := (FilesystemStore.safeObjectKey?_parts hps).1
    simp only [next, delete, hkey, deleteObject, Table.find?_keep]
    by_cases heq : asPosix ps = key
    · subst heq
      rw [if_pos rfl]
      cases hfound : bucket.find? (asPosix ps) with
      | none => rfl
      | some object => simp [Table.key_of_find? hfound, Option.filter, StoreCall.file?]
    · rw [if_neg heq]
      cases hfound : bucket.find? key with
      | none => rfl
      | some object => simp [Table.key_of_find? hfound, Option.filter, Ne.symm heq]

theorem Mirrors.next (h : Mirrors contents bucket) (hps : safeParts? call.objectKey = some ps) (hne : ps ≠ []) :
    Mirrors (call.effect contents) (next bucket call) := by
  obtain ⟨-, hparts, hdots⟩ := safeParts?_eq_some hps
  refine ⟨fun qs hqs => ?_, fun object hobject => ?_⟩
  · rw [find?_next hps, h.find qs hqs]
    simp only [StoreCall.effect, hps]
    by_cases heq : qs = ps
    · subst heq
      rw [if_pos rfl, Function.update_self]
    · rw [if_neg fun hsame => heq (asPosix_injective hparts hqs.parts hsame).symm, Function.update_of_ne heq]
  · cases call with
    | put objectKey data now =>
      have hkey : safeObjectKey? objectKey = some (asPosix ps) := (FilesystemStore.safeObjectKey?_parts hps).1
      simp only [S3Store.next, put, hkey] at hobject
      rcases mem_putObject hobject with hold | rfl
      · exact h.keys object hold
      · exact ⟨ps, ⟨hne, hparts, hdots⟩, rfl⟩
    | delete objectKey =>
      have hkey : safeObjectKey? objectKey = some (asPosix ps) := (FilesystemStore.safeObjectKey?_parts hps).1
      simp only [S3Store.next, delete, hkey, deleteObject, Table.keep] at hobject
      exact h.keys object (List.mem_filter.mp hobject).1

/-! ### Reading -/

theorem Mirrors.get_eq (h : Mirrors contents bucket) (hps : safeParts? key = some ps) (hroot : ps = [] → contents ps = none) :
    get key bucket = (contents ps).map StoredFile.data := by
  obtain ⟨-, hparts, hdots⟩ := safeParts?_eq_some hps
  rw [get, (FilesystemStore.safeObjectKey?_parts hps).1, Option.bind_some]
  by_cases hne : ps = []
  · rw [hroot hne]
    cases hfound : bucket.find? (asPosix ps) with
    | none => rfl
    | some object =>
      obtain ⟨hmem, hkey⟩ := Table.find?_eq_some.mp hfound
      obtain ⟨qs, hqs, hobject⟩ := h.keys object hmem
      rw [hobject, hne] at hkey
      exact absurd hkey (asPosix_ne_dot hqs)
  · rw [← h.find ps ⟨hne, hparts, hdots⟩, Option.map_map]
    rfl

/-- The last symbol of a key is of its last part. -/
theorem safePrefix_asPosix (h : IsKey ps) : safePrefix (asPosix ps) = directory ps := by
  obtain ⟨front, part, rfl⟩ : ∃ front part, ps = front ++ [part] :=
    ⟨_, _, (List.dropLast_concat_getLast h.nonempty).symm⟩
  obtain ⟨hnonempty, -, hwhole⟩ := h.parts part (by simp)
  obtain ⟨before, hbefore⟩ : ∃ before, asPosix (front ++ [part]) = before ++ part := by
    rw [asPosix, if_neg h.nonempty]
    by_cases hfront : front = []
    · exact ⟨[], by simp [hfront]⟩
    · exact ⟨[slash].intercalate front ++ [slash], by simp [intercalate_append hfront]⟩
  obtain ⟨init, c, rfl⟩ : ∃ init c, part = init ++ [c] := ⟨_, _, (List.dropLast_concat_getLast hnonempty).symm⟩
  have hc : c ≠ slash := fun heq => hwhole (by simp [heq])
  rw [safePrefix, directory, hbefore, ← List.append_assoc, List.rdropWhile_concat_neg]
  simpa using hc

theorem Mirrors.mem_rows (h : Mirrors contents bucket) (hps : IsKey ps) {object : BucketObject} :
    object ∈ bucket.rows ∧ object.key = asPosix ps ↔ contents ps = some object.file ∧ object.key = asPosix ps := by
  rw [and_congr_left_iff]
  intro hkey
  rw [← h.find ps hps, Option.map_eq_some_iff]
  constructor
  · intro hmem
    exact ⟨object, Table.find?_eq_some.mpr ⟨hmem, hkey⟩, rfl⟩
  · rintro ⟨object', hfound, hfile⟩
    obtain ⟨hmem, hkey'⟩ := Table.find?_eq_some.mp hfound
    have heq : object' = object := by
      cases object
      cases object'
      simp_all
    rwa [heq] at hmem

/-- What the bucket lists under the prefix of a directory is what is in it. -/
theorem Mirrors.mem_listed (h : Mirrors contents bucket) (hps : IsKey ps) (hnamed : ∀ qs file, contents qs = some file → IsKey qs)
    {listed : FilesystemStore.StoredObject} :
    listed ∈ (bucket.rows.filter fun object => (directory ps).isPrefixOf object.key).map BucketObject.listed ↔
      ∃ rest file, rest ≠ [] ∧ contents (ps ++ rest) = some file ∧ listed = ⟨asPosix (ps ++ rest), file.modified⟩ := by
  rw [List.mem_map]
  constructor
  · rintro ⟨object, hobject, rfl⟩
    obtain ⟨hrow, hprefix⟩ := List.mem_filter.mp hobject
    obtain ⟨qs, hqs, hkey⟩ := h.keys object hrow
    rw [List.isPrefixOf_iff_prefix, hkey, directory_isPrefix_iff hps hqs] at hprefix
    obtain ⟨rest, hrest, rfl⟩ := hprefix
    exact ⟨rest, object.file, hrest, ((h.mem_rows hqs).mp ⟨hrow, hkey⟩).1, by rw [BucketObject.listed, hkey]⟩
  · rintro ⟨rest, file, hrest, hcontents, rfl⟩
    have hqs := hnamed _ _ hcontents
    refine ⟨⟨asPosix (ps ++ rest), file⟩, List.mem_filter.mpr ⟨((h.mem_rows hqs).mpr ⟨hcontents, rfl⟩).1, ?_⟩, rfl⟩
    rw [List.isPrefixOf_iff_prefix]
    exact (directory_isPrefix_iff hps hqs).mpr ⟨rest, hrest, rfl⟩

theorem listed_nodup (bucket : Bucket) (p : BucketObject → Bool) : ((bucket.rows.filter p).map BucketObject.listed).Nodup := by
  have hkeys : (((bucket.rows.filter p).map BucketObject.listed).map FilesystemStore.StoredObject.objectKey).Nodup := by
    rw [List.map_map]
    exact bucket.unique.sublist (List.filter_sublist.map _)
  exact hkeys.of_map

end

/-! ### Two stores -/

section
variable {root : List FileName} {contents : Contents} {t : FilesystemStore.Tree} {bucket : Bucket}

/-- Calls that have returned on a directory, made on a bucket. -/
theorem Mirrors.run {calls : List StoreCall} (h : Mirrors contents bucket)
    (hcalls : ∀ call ∈ calls, ∃ ps, safeParts? call.objectKey = some ps ∧ ps ≠ []) :
    Mirrors (stored contents calls) (calls.foldl S3Store.next bucket) := by
  induction calls generalizing contents bucket with
  | nil => exact h
  | cons call calls ih =>
    obtain ⟨ps, hps, hne⟩ := hcalls call (List.mem_cons_self ..)
    exact ih (h.next hps hne) fun call' hcall' => hcalls call' (List.mem_cons_of_mem _ hcall')

/-- A call that returns on a directory names an object below the root. -/
theorem returned_named {call : StoreCall} (hroot : call.RootThere root t) (h : call.returns root t = true) :
    ∃ ps, safeParts? call.objectKey = some ps ∧ ps ≠ [] := by
  cases hps : safeParts? call.objectKey with
  | none =>
    rw [(@StoreCall.next_refused root call t hps).1] at h
    cases h
  | some ps =>
    rcases StoreCall.next_cases hps (fun hnil => hroot (by rw [hps, hnil])) with ⟨hraised, -⟩ | ⟨-, hne, -⟩
    · rw [hraised] at h
      cases h
    · exact ⟨ps, rfl, hne⟩

theorem trace_named {calls : List StoreCall}
    (hroot : ∀ before call, before ++ [call] <+: calls → call.RootThere root ((storeMachine root).run t before)) :
    ∀ call ∈ (storeMachine root).trace t calls, ∃ ps, safeParts? call.objectKey = some ps ∧ ps ≠ [] := by
  intro call hcall
  obtain ⟨before, call', hpre, hout⟩ := (storeMachine root).mem_trace.mp hcall
  change call ∈ (if call'.returns root ((storeMachine root).run t before) then [call'] else []) at hout
  split at hout
  · next hreturned =>
    obtain rfl := List.mem_singleton.mp hout
    exact returned_named (hroot before call hpre) hreturned
  · cases hout

/-- Both stores give the same bytes under each key, and the same objects in each directory. -/
structure Agrees (root : List FileName) (t : FilesystemStore.Tree) (bucket : Bucket) : Prop where
  get : ∀ key, key.isEncodable = true → (safeObjectKey? key).isSome →
    get key bucket = FilesystemStore.get root key t
  list : ∀ lister, Lists lister bucket → ∀ pfx ps, pfx.isEncodable = true → FilesystemStore.IsShort pfx →
    safeParts? pfx = some ps → ps ≠ [] →
    ∃ n objects objects', FilesystemStore.listObjects root pfx t = some objects ∧ objects'.Perm objects ∧
      ∀ fuel, n ≤ fuel → listObjects lister fuel pfx = some (.found objects')

theorem agrees_of_mirrors (h : FilesystemStore.Holds root contents t) (hbucket : Mirrors contents bucket) : Agrees root t bucket := by
  have hnamed : ∀ qs file, contents qs = some file → IsKey qs := by
    intro qs file hfile
    obtain ⟨hne, names, hspelled⟩ := h.named qs file hfile
    exact ⟨hne, fun part hpart => (hspelled.parts part hpart).1, hspelled.safe⟩
  refine ⟨fun key hplain hsafe => ?_, fun lister hlister pfx ps hplain _ hps hne => ?_⟩
  · obtain ⟨safe, hsafe⟩ := Option.isSome_iff_exists.mp hsafe
    obtain ⟨ps, hps, -⟩ := Option.map_eq_some_iff.mp hsafe
    rw [h.get_eq hplain hps, hbucket.get_eq hps]
    intro hroot
    by_contra hsome
    obtain ⟨file, hfile⟩ := Option.ne_none_iff_exists'.mp hsome
    exact (hnamed ps file hfile).nonempty hroot
  · obtain ⟨-, hparts, hdots⟩ := safeParts?_eq_some hps
    have hkey : IsKey ps := ⟨hne, hparts, hdots⟩
    obtain ⟨objects, hlist, hnodup, hmem⟩ := h.listObjects_eq hplain hps
    obtain ⟨objects', hdelivers, hperm⟩ := hlister (directory ps)
    have hsent : sentToken none = none := rfl
    obtain ⟨n, hn⟩ := scanFrom_found (hsent.symm ▸ hdelivers)
    refine ⟨n, objects, objects', hlist, ?_, fun fuel hfuel => ?_⟩
    · refine hperm.trans ((List.perm_ext_iff_of_nodup (listed_nodup bucket _) hnodup.of_map).mpr fun object => ?_)
      rw [hbucket.mem_listed hkey hnamed, hmem]
    · rw [listObjects, (FilesystemStore.safeObjectKey?_parts hps).1, Option.map_some, safePrefix_asPosix hkey,
        hn fuel hfuel []]
      rfl

end

/-- Two stores with the same objects take the same calls, those that return on the directory: they
go on showing the same objects, in whatever pages the service lists the bucket. -/
theorem stores_agree (root : List FileName) (contents : Contents) (t : FilesystemStore.Tree) (bucket : Bucket)
    (calls : List StoreCall) (hstart : FilesystemStore.Holds root contents t) (hbucket : Mirrors contents bucket)
    (hkeys : ∀ call ∈ calls, call.objectKey.isEncodable = true ∧ FilesystemStore.IsShort call.objectKey)
    (hroot : ∀ before call, before ++ [call] <+: calls → call.RootThere root ((storeMachine root).run t before)) :
    Agrees root ((storeMachine root).run t calls) (((storeMachine root).trace t calls).foldl next bucket) :=
  agrees_of_mirrors (hstart.run (fun call hcall => (hkeys call hcall).1) hroot) (hbucket.run (trace_named hroot))

theorem stores_agree_empty :
    Agrees FilesystemStore.Sample.storeRoot
      ((storeMachine FilesystemStore.Sample.storeRoot).run .empty FilesystemStore.Sample.storeCalls)
      (((storeMachine FilesystemStore.Sample.storeRoot).trace .empty FilesystemStore.Sample.storeCalls).foldl next ⟨[], by simp⟩) := by
  have hnamed : ∀ call ∈ FilesystemStore.Sample.storeCalls, safeParts? call.objectKey ≠ some [] := by decide
  refine stores_agree FilesystemStore.Sample.storeRoot (fun _ => none) .empty ⟨[], by simp⟩ FilesystemStore.Sample.storeCalls
    ⟨fun names file => ?_, fun _ _ h => by cases h⟩ ⟨fun _ _ => rfl, fun _ h => by cases h⟩ (by decide)
    fun before call hb hroot => absurd hroot (hnamed call (hb.subset (by simp)))
  rw [FileTree.node_empty (by simp [FilesystemStore.Sample.storeRoot])]
  simp

end S3Store
end ResearchGateway
