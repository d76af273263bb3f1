import ResearchGateway.Repository.Runner

/-! The artifact store.

A store holds objects under keys and stamps each with the time at which it was put. A
completion puts its four files into an upload directory of its own,
`{prefix}/{job}/attempts/{attempt}/{upload}/{name}`; the key of an object tells the
directory and the name (`objectKey_inj`, `Directory.unique`). -/
namespace ResearchGateway
open Library

/-- A UUID that an upload draws. -/
abbrev UploadId := Nat

/-- An object in the store; the content is what its bytes decode to. -/
structure ArtifactObject where
  objectKey : String
  content : String
  lastModified : Time
  deriving DecidableEq

abbrev ArtifactStore := Table ArtifactObject String ArtifactObject.objectKey

namespace ArtifactStore

/-- `put`: a new object or another content under the same key. -/
def put (store : ArtifactStore) (now : Time) (objectKey content : String) : ArtifactStore :=
  let object : ArtifactObject := ⟨objectKey, content, now⟩
  if h : store.Fresh object.objectKey then store.insert object h else Table.put store object

/-- `delete`; an object that is not there is no error. -/
def delete (store : ArtifactStore) (objectKey : String) : ArtifactStore :=
  store.keep fun object => object.objectKey ≠ objectKey

/-- `list_objects`: what lies under the prefix. -/
def listObjects (store : ArtifactStore) (pfx : String) : List ArtifactObject :=
  store.rows.filter fun object => (pfx ++ "/").toList.isPrefixOf object.objectKey.toList

theorem find?_put (store : ArtifactStore) (now : Time) (objectKey content k : String) :
    (store.put now objectKey content).find? k =
      if objectKey = k then some ⟨objectKey, content, now⟩ else store.find? k := by
  by_cases h : store.Fresh objectKey
  · have hput : store.put now objectKey content = store.insert ⟨objectKey, content, now⟩ h := dif_pos h
    rw [hput, Table.find?_insert]
  · have hput : store.put now objectKey content = Table.put store ⟨objectKey, content, now⟩ := dif_neg h
    rw [hput, Table.find?_put]
    by_cases hk : objectKey = k
    · subst hk
      obtain ⟨object, hobject⟩ := Option.ne_none_iff_exists'.mp (mt Table.find?_eq_none.mp h)
      simp [hobject]
    · rw [if_neg hk, if_neg hk]

/-- The store has an object with this content. -/
def Keeps (store : ArtifactStore) (key content : String) : Prop :=
  ∃ stamp, store.find? key = some ⟨key, content, stamp⟩

theorem keeps_put (store : ArtifactStore) (now : Time) (key content : String) :
    (store.put now key content).Keeps key content := ⟨now, by rw [find?_put, if_pos rfl]⟩

theorem Keeps.put {store : ArtifactStore} {now : Time} {key content key' content' : String}
    (h : store.Keeps key content) (hne : key' ≠ key) : (store.put now key' content').Keeps key content := by
  obtain ⟨stamp, hfound⟩ := h
  exact ⟨stamp, by rw [find?_put, if_neg hne, hfound]⟩

theorem mem_put {store : ArtifactStore} {now : Time} {objectKey content : String}
    {object : ArtifactObject} (h : object ∈ (store.put now objectKey content).rows) :
    object ∈ store.rows ∨ object = ⟨objectKey, content, now⟩ := by
  have hfound := Table.find?_eq_some.mpr ⟨h, rfl⟩
  rw [find?_put] at hfound
  split at hfound
  · exact .inr (Option.some.inj hfound).symm
  · exact .inl (Table.find?_eq_some.mp hfound).1

end ArtifactStore

/-! ### Object keys -/

def objectKey (jobsPrefix : String) (jobId : JobId) (attempt : Nat) (uploadId : UploadId)
    (name : String) : String :=
  s!"{jobsPrefix}/{jobId}/attempts/{attempt}/{uploadId}/{name}"

/-- The key lies in the directory of the upload. -/
def Directory (jobsPrefix : String) (uploadId : UploadId) (key : String) : Prop :=
  ∃ jobId attempt name, key = objectKey jobsPrefix jobId attempt uploadId name

theorem objectKey_directory (jobsPrefix : String) (jobId : JobId) (attempt : Nat)
    (uploadId : UploadId) (name : String) :
    Directory jobsPrefix uploadId (objectKey jobsPrefix jobId attempt uploadId name) :=
  ⟨jobId, attempt, name, rfl⟩

theorem slash_not_digit (n : Nat) : '/' ∉ (toString n).toList := by
  rw [Nat.toString_eq_ofList_toDigits, String.toList_ofList]
  intro h
  have hdigit := Nat.isDigit_of_mem_toDigits (by decide) (by decide) h
  exact absurd hdigit (by decide)

theorem toString_inj {m n : Nat} (h : (toString m).toList = (toString n).toList) : m = n := by
  rw [Nat.toString_eq_ofList_toDigits, Nat.toString_eq_ofList_toDigits, String.toList_ofList,
    String.toList_ofList] at h
  rw [← @Nat.ofDigitChars_ten_toDigits m, h, Nat.ofDigitChars_ten_toDigits]

/-- What stands before the first separator, and what after it. -/
theorem separated_inj {α : Type} {a : α} {xs ys s t : List α} (hx : a ∉ xs) (hy : a ∉ ys)
    (h : xs ++ a :: s = ys ++ a :: t) : xs = ys ∧ s = t := by
  induction xs generalizing ys with
  | nil =>
    cases ys with
    | nil => exact ⟨rfl, List.tail_eq_of_cons_eq h⟩
    | cons y ys => exact absurd (List.head_eq_of_cons_eq h) fun hhead => hy (by simp [hhead])
  | cons x xs ih =>
    cases ys with
    | nil => exact absurd (List.head_eq_of_cons_eq h) fun hhead => hx (by simp [hhead])
    | cons y ys =>
      obtain ⟨hhead, htail⟩ := List.cons.inj h
      obtain ⟨hxs, hst⟩ := ih (List.not_mem_of_not_mem_cons hx) (List.not_mem_of_not_mem_cons hy) htail
      exact ⟨by rw [hhead, hxs], hst⟩

/-- A number, a slash and a rest are read back. -/
theorem segment_inj {m n : Nat} {s t : List Char}
    (h : (toString m).toList ++ '/' :: s = (toString n).toList ++ '/' :: t) : m = n ∧ s = t := by
  obtain ⟨hdigits, hrest⟩ := separated_inj (slash_not_digit m) (slash_not_digit n) h
  exact ⟨toString_inj hdigits, hrest⟩

theorem objectKey_toList (jobsPrefix : String) (jobId : JobId) (attempt : Nat)
    (uploadId : UploadId) (name : String) :
    (objectKey jobsPrefix jobId attempt uploadId name).toList =
      (jobsPrefix ++ "/").toList ++ ((toString jobId).toList ++ '/' :: ("attempts/".toList ++
        ((toString attempt).toList ++ '/' :: ((toString uploadId).toList ++ '/' :: name.toList)))) := by
  show (jobsPrefix ++ "/" ++ toString jobId ++ "/attempts/" ++ toString attempt ++ "/" ++
    toString uploadId ++ "/" ++ name).toList = _
  simp

/-- A key names its job, attempt, upload and file. -/
theorem objectKey_inj {jobsPrefix : String} {j j' : JobId} {a a' : Nat} {u u' : UploadId}
    {name name' : String} (h : objectKey jobsPrefix j a u name = objectKey jobsPrefix j' a' u' name') :
    j = j' ∧ a = a' ∧ u = u' ∧ name = name' := by
  have hlist := congrArg String.toList h
  rw [objectKey_toList, objectKey_toList] at hlist
  obtain ⟨hjob, hrest⟩ := segment_inj (List.append_cancel_left hlist)
  obtain ⟨hattempt, hrest⟩ := segment_inj (List.append_cancel_left hrest)
  obtain ⟨hupload, hname⟩ := segment_inj hrest
  exact ⟨hjob, hattempt, hupload, String.toList_inj.mp hname⟩

theorem Directory.unique {jobsPrefix : String} {u u' : UploadId} {key : String}
    (h : Directory jobsPrefix u key) (h' : Directory jobsPrefix u' key) : u = u' := by
  obtain ⟨j, a, name, rfl⟩ := h
  obtain ⟨j', a', name', hkey⟩ := h'
  exact (objectKey_inj hkey).2.2.1

/-! ### The files of a completion -/

/-- How `json.dumps` writes the sources and the usage of a completion. -/
structure Encoding where
  dumpsSources : List Dict → String
  dumpsUsage : Dict → String

structure CompletionFile where
  name : String
  content : String
  mediaType : String

/-- The `artifacts` of `runner_complete`. -/
def completionFiles (encoding : Encoding) (completion : RunnerCompletion) : List CompletionFile :=
  [⟨"report.md", completion.reportMarkdown, "text/markdown"⟩,
    ⟨"research-notes.md", completion.researchNotesMarkdown, "text/markdown"⟩,
    ⟨"sources.json", encoding.dumpsSources completion.sources, "application/json"⟩,
    ⟨"run.json", encoding.dumpsUsage completion.usage, "application/json"⟩]

theorem completionFiles_names (encoding : Encoding) (completion : RunnerCompletion) :
    (completionFiles encoding completion).map CompletionFile.name =
      ["report.md", "research-notes.md", "sources.json", "run.json"] := rfl

/-- What a completion records of a file that was put. -/
def CompletionFile.stored (file : CompletionFile) (objectKey : String) : StoredObject :=
  ⟨file.name, objectKey, file.mediaType, file.content.utf8ByteSize⟩

end ResearchGateway
