import ResearchGateway.ArtifactStore
import ResearchGateway.ObjectKey

/-! The prefix of the artifacts, and the keys under it.

A prefix that the settings accept is a path, so the keys of uploads are paths as well: each is
written as `safe_object_key` would write it, and all have equally many parts
(`ofString_objectKey`). -/
namespace ResearchGateway
open Library ObjectKey

namespace ArtifactPrefix

def backslash : CodePoint := ⟨0x5C, by decide⟩

/-- `normalize_artifact_prefix`, of `None` or a text; `none` where it raises. -/
def normalizeArtifactPrefix? : Option Text → Option Text
  | none => some []
  | some value =>
    let candidate := value.strip.rdropWhile (· = slash)
    if value = [] ∨ candidate = [] then some []
    else if isAbsolute candidate ∨ dots ∈ parts candidate ∨ candidate.contains backslash then none
    else
      let normalized := asPosix (parts candidate)
      if normalized = dot then some []
      else if 512 < normalized.length then none
      else some normalized

def jobs : Text := .ofString "jobs"

/-- `artifact_jobs_prefix`. -/
def artifactJobsPrefix (artifactPrefix : Text) : Text :=
  [slash].intercalate ([artifactPrefix, jobs].filter fun part => part ≠ [])

/-- A part that can be a name in a directory. -/
structure IsName (part : Text) : Prop where
  whole : IsPart part
  safe : part ≠ dots
  encoded : part.fsencode?.isSome
  plain : part.isEncodable = true

/-- The parts of an upload's key, below those of the prefix. -/
def keyParts (ps : List Text) (jobId : JobId) (attempt : Nat) (uploadId : UploadId) (name : String) : List Text :=
  ps ++ [.ofString (toString jobId), .ofString "attempts", .ofString (toString attempt), .ofString (toString uploadId),
    .ofString name]

section
variable {value : Option Text} {pfx part : Text} {ps : List Text}

/-- What is accepted is empty or a path below the root. -/
theorem normalized_cases (h : normalizeArtifactPrefix? value = some pfx) :
    pfx = [] ∨ ∃ ps, ps ≠ [] ∧ (∀ part ∈ ps, IsPart part) ∧ dots ∉ ps ∧ pfx = asPosix ps := by
  unfold normalizeArtifactPrefix? at h
  split at h
  · exact .inl (Option.some.inj h).symm
  · dsimp only at h
    split at h
    · exact .inl (Option.some.inj h).symm
    · split at h
      · cases h
      · next hsafe =>
        split at h
        · exact .inl (Option.some.inj h).symm
        · next hnamed =>
          split at h
          · cases h
          · obtain ⟨-, hdots, -⟩ := not_or.mp hsafe |>.imp_right not_or.mp
            refine .inr ⟨_, fun hnil => hnamed ?_, fun part => isPart_of_mem, hdots, (Option.some.inj h).symm⟩
            rw [hnil]
            rfl

/-- The prefix of the jobs is a key, whose last part is `jobs`. -/
theorem artifactJobsPrefix_key (h : normalizeArtifactPrefix? value = some pfx) :
    ∃ ps, (∀ part ∈ ps, IsPart part) ∧ dots ∉ ps ∧ (∀ part ∈ ps, part ⊆ pfx) ∧
      artifactJobsPrefix pfx = asPosix (ps ++ [jobs]) := by
  rcases normalized_cases h with rfl | ⟨ps, hps, hparts, hdots, rfl⟩
  · exact ⟨[], nofun, nofun, nofun, by decide⟩
  · refine ⟨ps, hparts, hdots, fun part hpart => ?_, ?_⟩
    · rw [← parts_asPosix hparts] at hpart
      exact (splitOn_piece (List.mem_filter.mp hpart).1).2
    · have hne : asPosix ps ≠ [] := by
        intro hnil
        have hread := parts_asPosix hparts
        rw [hnil] at hread
        exact hps hread.symm
      have hkept : [asPosix ps, jobs].filter (fun part => part ≠ []) = [asPosix ps, jobs] := by
        rw [List.filter_cons_of_pos (by simpa using hne)]
        rfl
      have hjoined : asPosix (ps ++ [jobs]) = [slash].intercalate ps ++ slash :: [slash].intercalate [jobs] := by
        rw [asPosix, if_neg (by simp), intercalate_append hps (by simp)]
      rw [artifactJobsPrefix, hkept, hjoined, List.intercalate_cons_cons, List.intercalate_singleton, asPosix, if_neg hps,
        List.append_assoc]
      rfl

/-! ### Names -/

theorem isEncodable_ofString (s : String) : (Text.ofString s).isEncodable = true := by
  refine List.all_eq_true.mpr fun c hc => ?_
  obtain ⟨ch, -, rfl⟩ := List.mem_map.mp hc
  have hvalid := ch.valid
  simp only [UInt32.isValidChar, Nat.isValidChar] at hvalid
  have hval : (CodePoint.ofChar ch).val = ch.val.toNat := rfl
  simp only [CodePoint.isSurrogate, hval, Bool.not_eq_true', Bool.and_eq_false_iff, decide_eq_false_iff_not]
  omega

/-- A text with a name in the system: no surrogates, and no zero byte. -/
theorem fsencode?_isSome (hplain : part.isEncodable = true) (hzero : (0 : CodePoint) ∉ part) : part.fsencode?.isSome := by
  induction part with
  | nil => rfl
  | cons c rest ih =>
    obtain ⟨hc, hrest⟩ := Bool.and_eq_true_iff.mp hplain
    obtain ⟨name, hname⟩ := Option.isSome_iff_exists.mp (ih hrest fun hmem => hzero (List.mem_cons_of_mem _ hmem))
    have hne : c.val ≠ 0 := fun heq => hzero (by rw [show c = 0 from Fin.ext heq]; exact List.mem_cons_self)
    have hbytes : (FileName.encodePoint? c.val).isSome := by
      simp [CodePoint.isSurrogate] at hc
      unfold FileName.encodePoint?
      split_ifs <;> first | rfl | omega
    obtain ⟨bytes, hbytes⟩ := Option.isSome_iff_exists.mp hbytes
    rw [FileName.fsencode?_cons.mpr ⟨bytes, name, hbytes, hname, rfl⟩]
    rfl

theorem mem_ofString {s : String} {ch : Char} : CodePoint.ofChar ch ∈ Text.ofString s ↔ ch ∈ s.toList := by
  rw [Text.ofString, List.mem_map]
  constructor
  · intro h
    obtain ⟨ch', hmem, heq⟩ := h
    have hcode : ch'.toNat = ch.toNat := congrArg (fun code : CodePoint => code.val) heq
    rwa [← Char.ext (UInt32.toNat.inj hcode)]
  · intro h
    exact ⟨ch, h, rfl⟩

/-- A number is a name. -/
theorem isName_toString (n : Nat) : IsName (.ofString (toString n)) := by
  have hdigit : ∀ ch ∈ (toString n).toList, ch.isDigit = true := by
    intro ch hch
    rw [Nat.toString_eq_ofList_toDigits, String.toList_ofList] at hch
    exact Nat.isDigit_of_mem_toDigits (by decide) (by decide) hch
  have hother : ∀ ch : Char, ch.isDigit = false → CodePoint.ofChar ch ∉ Text.ofString (toString n) := by
    intro ch hch hmem
    rw [hdigit ch (mem_ofString.mp hmem)] at hch
    cases hch
  have hpoint := hother '.' (by decide)
  refine ⟨⟨fun hnil => ?_, fun heq => hpoint ?_, hother '/' (by decide)⟩, fun heq => hpoint ?_,
    fsencode?_isSome (isEncodable_ofString _) (hother ⟨0, by decide⟩ (by decide)), isEncodable_ofString _⟩
  · have hlength := congrArg List.length hnil
    rw [Text.ofString, List.length_map, Nat.toString_eq_ofList_toDigits, String.toList_ofList] at hlength
    exact absurd (List.eq_nil_of_length_eq_zero hlength) (List.ne_nil_of_length_pos Nat.length_toDigits_pos)
  · rw [heq]
    decide
  · rw [heq]
    decide

theorem isName_completionFiles {encoding : Encoding} {completion : RunnerCompletion} {name : String}
    (h : name ∈ (completionFiles encoding completion).map CompletionFile.name) : IsName (.ofString name) := by
  rw [completionFiles_names] at h
  have hall : ∀ name ∈ ["report.md", "research-notes.md", "sources.json", "run.json"],
      (Text.ofString name ≠ [] ∧ Text.ofString name ≠ dot ∧ slash ∉ Text.ofString name) ∧ Text.ofString name ≠ dots ∧
        (Text.ofString name).fsencode?.isSome := by
    decide
  obtain ⟨⟨hnonempty, hnamed, hwhole⟩, hdots, hencoded⟩ := hall name h
  exact ⟨⟨hnonempty, hnamed, hwhole⟩, hdots, hencoded, isEncodable_ofString name⟩

/-! ### Keys -/

theorem keyParts_names {jobId : JobId} {attempt : Nat} {uploadId : UploadId} {name : String}
    (hps : ∀ part ∈ ps, IsName part) (hname : IsName (.ofString name)) :
    ∀ part ∈ keyParts ps jobId attempt uploadId name, IsName part := by
  have hattempts : IsName (.ofString "attempts") :=
    ⟨⟨by decide, by decide, by decide⟩, by decide, by decide, isEncodable_ofString _⟩
  intro part hpart
  rcases List.mem_append.mp hpart with hpart | hpart
  · exact hps part hpart
  · simp only [List.mem_cons, List.not_mem_nil, or_false] at hpart
    rcases hpart with rfl | rfl | rfl | rfl | rfl
    · exact isName_toString jobId
    · exact hattempts
    · exact isName_toString attempt
    · exact isName_toString uploadId
    · exact hname

/-- A key of an upload is a path in writing. -/
theorem ofString_objectKey {jobsPrefix : String} (hway : Text.ofString jobsPrefix = asPosix ps) (hps : ps ≠ [])
    (jobId : JobId) (attempt : Nat) (uploadId : UploadId) (name : String) :
    Text.ofString (objectKey jobsPrefix jobId attempt uploadId name) = asPosix (keyParts ps jobId attempt uploadId name) := by
  have hslash : CodePoint.ofChar '/' = slash := rfl
  have happend (s t : List Char) : (s ++ t).map CodePoint.ofChar = s.map CodePoint.ofChar ++ t.map CodePoint.ofChar :=
    List.map_append
  rw [asPosix, if_neg (by simp [keyParts]), keyParts, intercalate_append hps (by simp), ← show asPosix ps = [slash].intercalate ps by
    rw [asPosix, if_neg hps], ← hway, Text.ofString, objectKey_toList]
  simp only [Text.ofString, String.toList_append, List.map_append, List.map_cons, hslash, List.intercalate_cons_cons,
    List.intercalate_singleton, List.append_assoc]
  simp [CodePoint.ofChar, slash]

end

end ArtifactPrefix

end ResearchGateway
