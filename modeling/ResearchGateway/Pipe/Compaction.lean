import Mathlib.Algebra.GroupWithZero.Nat
import Mathlib.Data.List.Nodup
import ResearchGateway.Library.Text
import ResearchGateway.Domain

/-! How the Pipe cuts its context documents to the context limit.

A document gets an equal share of the limit, at least 2,000 code points of it, but no
more than what the documents before it have left over. What is longer keeps its end
behind a marker. The marker is counted with 62 code points and has 57, so a text that
is cut leaves 5 over; and where no more than 62 are left, the start of the slice is no
longer negative and almost all of the text is kept. -/
namespace ResearchGateway
open Library

/-- The administrator's limits on the context, within their declared ranges. -/
structure ContextValves where
  contextCharLimit : Nat := 120000
  linkedChatLimit : Nat := 10
  chars_bounds : 4000 ≤ contextCharLimit ∧ contextCharLimit ≤ 500000 := by decide
  chats_bound : linkedChatLimit ≤ 50 := by decide

/-- A context document as the Pipe collects it. -/
structure ContextEntry where
  kind : ContextKind
  id : Text
  chatId : Text
  title : Text
  text : Text

namespace Compaction

def marker : Text := .ofString "[Earlier conversation omitted to fit the context limit]\n\n"

theorem length_marker : marker.length = 57 := by decide

def perDocument (limit n : Nat) : Nat := max 2000 (limit / n)

/-- What is kept of a text that may take `allowance` code points. -/
def cut (allowance : Int) (text : Text) : Text :=
  if allowance < text.length then marker ++ text.sliceFrom (-(allowance - 62)) else text

section
variable {δ : Type} [DecidableEq δ] (digest : Text → δ) (perDocument : Int)

/-- The loop over the documents; `none` where a text cannot be encoded for its digest. -/
def compact (remaining : Int) (seen : List δ) : List ContextEntry → Option (List ContextEntry)
  | [] => some []
  | document :: rest =>
    let text := document.text.strip
    if text.isEncodable = false then none
    else if text = [] ∨ digest text ∈ seen ∨ remaining ≤ 0 then compact remaining seen rest
    else
      let text' := cut (min perDocument remaining) text
      (compact (remaining - text'.length) (digest text :: seen) rest).map fun result =>
        {document with text := text'} :: result

end

/-- `Pipe._compact_documents`. -/
def compactDocuments {δ : Type} [DecidableEq δ] (digest : Text → δ) (limit : Nat)
    (documents : List ContextEntry) : Option (List ContextEntry) :=
  if documents = [] then some []
  else compact digest (perDocument limit documents.length) limit [] documents

/-! ### One text -/

section
variable (allowance : Int) (text : Text)

theorem cut_of_le (h : text.length ≤ allowance) : cut allowance text = text := if_neg (by omega)

/-- With more room than the marker is counted for, a cut text is a proper suffix behind
the marker. -/
theorem cut_of_lt (h : allowance < text.length) (hroom : 62 < allowance) :
    (∃ suffix, suffix <:+ text ∧ suffix ≠ text ∧ cut allowance text = marker ++ suffix) ∧
      ((cut allowance text).length : Int) = allowance - 5 := by
  have hcut : cut allowance text = marker ++ text.sliceFrom (-(allowance - 62)) := if_pos h
  have hlength : (text.sliceFrom (-(allowance - 62))).length = (-(allowance - 62)).natAbs :=
    Text.length_sliceFrom_last (by omega) (by omega)
  refine ⟨⟨_, text.sliceFrom_suffix _, fun heq => ?_, hcut⟩, ?_⟩
  · rw [heq] at hlength
    omega
  · rw [hcut, List.length_append, length_marker, hlength]
    omega

end

/-! ### The lengths -/

/-- The texts that the loop considers: not empty, and under a digest it has not seen. -/
def fresh {δ : Type} [DecidableEq δ] (digest : Text → δ) (seen : List δ) : List ContextEntry → List Text
  | [] => []
  | document :: rest =>
    let text := document.text.strip
    if text = [] ∨ digest text ∈ seen then fresh digest seen rest
    else text :: fresh digest (digest text :: seen) rest

/-- No text longer than its allowance comes up when 62 or fewer code points are left, as
long as any are left at all. A text that is cut leaves 5 of its allowance. -/
def fits (perDocument : Nat) (remaining : Nat) : List Nat → Bool
  | [] => true
  | length :: rest =>
    if remaining = 0 then true
    else
      let allowance := min perDocument remaining
      if length ≤ allowance then fits perDocument (remaining - length) rest
      else 62 < allowance && fits perDocument (remaining - (allowance - 5)) rest

/-- The length of what is kept of a text. -/
def cutLength (allowance : Int) (length : Nat) : Nat :=
  if length ≤ allowance then length
  else if 62 < allowance then (allowance - 5).toNat
  else 57 + (length - (62 - allowance).toNat)

/-- The lengths of what the loop keeps of the texts it considers. -/
def kept (share : Nat) (remaining : Int) : List Nat → List Nat
  | [] => []
  | length :: rest =>
    if remaining ≤ 0 then []
    else
      let taken := cutLength (min share remaining) length
      taken :: kept share (remaining - taken) rest

/-- What is left of the limit after texts that fit; nothing where one does not. -/
def left (share : Nat) (remaining : Nat) : List Nat → Nat
  | [] => remaining
  | length :: rest =>
    let allowance := min share remaining
    if length ≤ allowance then left share (remaining - length) rest
    else if 62 < allowance then left share (remaining - (allowance - 5)) rest
    else 0

theorem length_cut (allowance : Int) (hpos : 0 < allowance) (text : Text) :
    (cut allowance text).length = cutLength allowance text.length := by
  unfold cutLength
  split
  · next hle => rw [cut_of_le _ _ hle]
  · next hlt =>
    split
    · next hroom =>
      have := (cut_of_lt allowance text (by omega) hroom).2
      omega
    · next hroom =>
      have hcut : cut allowance text = marker ++ text.sliceFrom (-(allowance - 62)) := if_pos (by omega)
      rw [hcut, List.length_append, length_marker, Text.length_sliceFrom_of_nonneg (by omega)]
      omega

section
variable {share remaining : Nat} {lengths before rest : List Nat}

theorem kept_of_nonpos {remaining : Int} (h : remaining ≤ 0) : kept share remaining lengths = [] := by
  cases lengths with
  | nil => rfl
  | cons length rest => simp only [kept, if_pos h]

theorem length_kept_le {remaining : Int} : (kept share remaining lengths).length ≤ lengths.length := by
  induction lengths generalizing remaining with
  | nil => exact Nat.le_refl _
  | cons length rest ih =>
    simp only [kept]
    split
    · exact Nat.zero_le _
    · exact Nat.succ_le_succ ih

theorem left_zero : left share 0 lengths = 0 := by
  induction lengths with
  | nil => rfl
  | cons length rest ih =>
    simp only [left]
    split
    · rw [Nat.zero_sub]
      exact ih
    · rw [if_neg (by omega)]

/-- A text that fits, or that is cut with enough room, takes a number of code points, and
the loop goes on with the others. -/
theorem takes {length : Nat} (hpos : 0 < remaining)
    (hfit : length ≤ min share remaining ∨ 62 < min share remaining) :
    ∃ taken, taken ≤ share ∧ taken ≤ remaining ∧ ∀ tail,
      kept share remaining (length :: tail) = taken :: kept share ((remaining - taken : Nat) : Int) tail ∧
      left share remaining (length :: tail) = left share (remaining - taken) tail ∧
      fits share remaining (length :: tail) = fits share (remaining - taken) tail := by
  have hmin : min (share : Int) remaining = (min share remaining : Nat) := by omega
  have hkept {taken : Nat} (hcut : cutLength (min share remaining : Nat) length = taken)
      (hle : taken ≤ remaining) (tail : List Nat) : kept share remaining (length :: tail) =
        taken :: kept share ((remaining - taken : Nat) : Int) tail := by
    simp only [kept, hmin, hcut, if_neg (show ¬ (remaining : Int) ≤ 0 by omega)]
    rw [Int.ofNat_sub hle]
  by_cases hle : length ≤ min share remaining
  · refine ⟨length, by omega, by omega, fun tail => ⟨hkept ?_ (by omega) tail, if_pos hle, ?_⟩⟩
    · exact if_pos (by omega)
    · simp only [fits, if_neg (show remaining ≠ 0 by omega), if_pos hle]
  · have hroom := hfit.resolve_left hle
    refine ⟨min share remaining - 5, by omega, by omega, fun tail => ⟨hkept ?_ (by omega) tail, ?_, ?_⟩⟩
    · unfold cutLength
      rw [if_neg (by omega), if_pos (by omega)]
      omega
    · simp only [left, if_neg hle, if_pos hroom]
    · simp only [fits, if_neg (show remaining ≠ 0 by omega), if_neg hle, hroom, decide_true, Bool.true_and]

theorem fits_cons {length : Nat} (hpos : 0 < remaining) (h : fits share remaining (length :: rest) = true) :
    fits share (remaining - cutLength (min share remaining) length) rest = true := by
  have hfit : length ≤ min share remaining ∨ 62 < min share remaining := by
    by_contra hno
    rw [not_or] at hno
    simp only [fits, if_neg (show remaining ≠ 0 by omega), if_neg hno.1, decide_eq_false hno.2] at h
    cases h
  obtain ⟨taken, -, -, htakes⟩ := takes hpos hfit
  obtain ⟨hkept, -, hfits⟩ := htakes rest
  have htaken : cutLength (min share remaining) length = taken := by
    simp only [kept, if_neg (show ¬ (remaining : Int) ≤ 0 by omega)] at hkept
    exact (List.cons.inj hkept).1
  rw [htaken, ← hfits]
  exact h

variable (rest) in
/-- Texts after which something is left are all kept, within their share and the limit,
and the loop goes on with the others. -/
theorem kept_append (h : 0 < left share remaining before) :
    kept share remaining (before ++ rest) =
        kept share remaining before ++ kept share (left share remaining before) rest ∧
      (kept share remaining before).length = before.length ∧
      (kept share remaining before).sum + left share remaining before = remaining ∧
      (∀ m ∈ kept share remaining before, m ≤ share) ∧
      fits share remaining (before ++ rest) = fits share (left share remaining before) rest := by
  induction before generalizing remaining with
  | nil => simp [kept, left]
  | cons length before ih =>
    have hpos : 0 < remaining := by
      rcases Nat.eq_zero_or_pos remaining with rfl | hpos
      · rw [left_zero] at h
        cases h
      · exact hpos
    have hfit : length ≤ min share remaining ∨ 62 < min share remaining := by
      by_contra hno
      rw [not_or] at hno
      simp only [left, if_neg hno.1, if_neg hno.2] at h
      cases h
    obtain ⟨taken, hshare, hremaining, htakes⟩ := takes hpos hfit
    obtain ⟨hkept, hleft, -⟩ := htakes before
    obtain ⟨hkept', -, hfits⟩ := htakes (before ++ rest)
    rw [hleft] at h ⊢
    obtain ⟨happend, hlength, hsum, hle, hrest⟩ := ih h
    rw [List.cons_append, hkept', hkept, happend]
    refine ⟨rfl, by simpa using hlength, by rw [List.sum_cons]; omega, ?_, hfits.trans hrest⟩
    intro m hm
    rcases List.mem_cons.mp hm with rfl | hm
    · exact hshare
    · exact hle m hm

/-- A text longer than what is left, where that is 62 or less, is the last one kept. -/
theorem kept_overflow {length : Nat} (hpos : 0 < remaining) (hroom : remaining ≤ 62) (hshare : 62 < share)
    (h : remaining < length) :
    kept share remaining (length :: rest) = [57 + (length - (62 - remaining))] := by
  have hmin : min (share : Int) remaining = remaining := by omega
  have hcut : cutLength remaining length = 57 + (length - (62 - remaining)) := by
    unfold cutLength
    rw [if_neg (by omega), if_neg (by omega)]
    omega
  simp only [kept, hmin, hcut, if_neg (show ¬ (remaining : Int) ≤ 0 by omega)]
  rw [kept_of_nonpos (by omega)]

variable (rest) in
/-- Up to the text that is longer than what the ones before have left. -/
theorem kept_append_overflow {length : Nat} (hshare : 62 < share) (hpos : 0 < left share remaining before)
    (hroom : left share remaining before ≤ 62) (h : left share remaining before < length) :
    kept share remaining (before ++ length :: rest) = kept share remaining before ++
        [57 + (length - (62 - left share remaining before))] ∧
      (kept share remaining before).sum + left share remaining before = remaining ∧
      (∀ m ∈ kept share remaining before, m ≤ share) ∧
      fits share remaining (before ++ length :: rest) = false := by
  obtain ⟨happend, -, hsum, hle, hfits⟩ := kept_append (length :: rest) hpos
  refine ⟨?_, hsum, hle, ?_⟩
  · rw [happend, kept_overflow hpos hroom hshare h]
  · have hmin : min share (left share remaining before) ≤ 62 := by omega
    rw [hfits]
    simp only [fits, if_neg (show left share remaining before ≠ 0 by omega),
      if_neg (show ¬ length ≤ min share (left share remaining before) by omega),
      decide_eq_false (Nat.not_lt.mpr hmin), Bool.false_and]

variable (rest) in
/-- Nothing is kept after texts that leave nothing. -/
theorem kept_append_of_left_zero (hshare : 62 < share) (h : left share remaining before = 0) :
    kept share remaining (before ++ rest) = kept share remaining before := by
  induction before generalizing remaining with
  | nil =>
    obtain rfl : remaining = 0 := h
    exact kept_of_nonpos (show ((0 : Nat) : Int) ≤ 0 by omega)
  | cons length before ih =>
    rcases Nat.eq_zero_or_pos remaining with rfl | hpos
    · rw [kept_of_nonpos (show ((0 : Nat) : Int) ≤ 0 by omega),
        kept_of_nonpos (show ((0 : Nat) : Int) ≤ 0 by omega)]
    · rw [List.cons_append]
      by_cases hfit : length ≤ min share remaining ∨ 62 < min share remaining
      · obtain ⟨taken, -, -, htakes⟩ := takes hpos hfit
        rw [(htakes _).1, (htakes _).1, ih ((htakes _).2.1.symm.trans h)]
      · rw [not_or] at hfit
        rw [kept_overflow hpos (by omega) hshare (by omega), kept_overflow hpos (by omega) hshare (by omega)]

theorem kept_pos (h : ∀ length ∈ lengths, 0 < length) {remaining : Int} :
    ∀ m ∈ kept share remaining lengths, 0 < m := by
  induction lengths generalizing remaining with
  | nil => nofun
  | cons length rest ih =>
    have hlength := h length (List.mem_cons_self ..)
    intro m hm
    simp only [kept] at hm
    split at hm
    · cases hm
    · rcases List.mem_cons.mp hm with rfl | hm
      · unfold cutLength
        split
        · exact hlength
        · split
          · omega
          · omega
      · exact ih (fun n hn => h n (List.mem_cons_of_mem _ hn)) m hm

variable (remaining lengths) in
/-- The texts fit and stay within their share and the limit, or one of them is longer
than what the ones before have left. -/
theorem fits_or_overflow (hshare : 62 < share) :
    (fits share remaining lengths = true ∧ (kept share remaining lengths).sum ≤ remaining ∧
      ∀ m ∈ kept share remaining lengths, m ≤ share) ∨
    ∃ before length rest, lengths = before ++ length :: rest ∧ 0 < left share remaining before ∧
      left share remaining before ≤ 62 ∧ left share remaining before < length := by
  induction lengths generalizing remaining with
  | nil => exact .inl ⟨rfl, Nat.zero_le _, nofun⟩
  | cons length rest ih =>
    by_cases hpos : 0 < remaining
    · by_cases hfit : length ≤ min share remaining ∨ 62 < min share remaining
      · obtain ⟨taken, hle, hremaining, htakes⟩ := takes hpos hfit
        obtain ⟨hkept, -, hfits⟩ := htakes rest
        rcases ih (remaining - taken) with
          ⟨hrest, hsum, hall⟩ | ⟨before, length', rest', rfl, hover⟩
        · refine .inl ⟨hfits.trans hrest, ?_, ?_⟩
          · rw [hkept, List.sum_cons]
            omega
          · rw [hkept]
            intro m hm
            rcases List.mem_cons.mp hm with rfl | hm
            · exact hle
            · exact hall m hm
        · refine .inr ⟨length :: before, length', rest', rfl, ?_⟩
          rw [(htakes before).2.1]
          exact hover
      · rw [not_or] at hfit
        exact .inr ⟨[], length, rest, rfl, hpos, by simp only [left]; omega, by simp only [left]; omega⟩
    · obtain rfl : remaining = 0 := by omega
      rw [kept_of_nonpos (show ((0 : Nat) : Int) ≤ 0 by omega)]
      exact .inl ⟨rfl, Nat.zero_le _, nofun⟩

/-- The texts fit exactly when what is kept of them stays within the limit. -/
theorem fits_iff (hshare : 62 < share) :
    fits share remaining lengths = true ↔ (kept share remaining lengths).sum ≤ remaining := by
  rcases fits_or_overflow remaining lengths hshare with
    ⟨hfits, hsum, -⟩ | ⟨before, length, rest, rfl, hpos, hroom, hlong⟩
  · exact ⟨fun _ => hsum, fun _ => hfits⟩
  · obtain ⟨hkept, hsum, -, hfits⟩ := kept_append_overflow rest hshare hpos hroom hlong
    rw [hfits, hkept, List.sum_append, List.sum_singleton]
    simp only [Bool.false_eq_true, false_iff]
    omega

end

/-- Where every text can have a whole share of more than 62, all fit. -/
theorem fits_of_shares {perDocument : Nat} (hshare : 62 < perDocument) {remaining : Nat}
    {lengths : List Nat} (h : lengths.length * perDocument ≤ remaining) :
    fits perDocument remaining lengths = true := by
  induction lengths generalizing remaining with
  | nil => rfl
  | cons length rest ih =>
    rw [List.length_cons, Nat.add_mul, Nat.one_mul] at h
    have hmin : min perDocument remaining = perDocument := by omega
    simp only [fits, hmin]
    split
    · rfl
    · split
      · next hle => exact ih (by omega)
      · rw [ih (by omega)]
        simpa using hshare

/-! ### The loop -/

/-- A document that the compaction returns, from the one it was made of. -/
structure Shortened (bound : Nat) (document result : ContextEntry) : Prop where
  same : result = {document with text := result.text}
  nonempty : result.text ≠ []
  text : result.text = document.text.strip ∨ ∃ suffix, suffix <:+ document.text.strip ∧
    suffix ≠ document.text.strip ∧ result.text = marker ++ suffix
  length : result.text.length ≤ bound

/-- The documents in their order, each shortened to the bound, none twice, and within the limit. -/
structure Compacted (limit bound : Nat) (documents result : List ContextEntry) : Prop where
  kept : ∃ originals, List.Sublist originals documents ∧ (originals.map fun d => d.text.strip).Nodup ∧
    List.Forall₂ (Shortened bound) originals result
  total : (result.map fun d => d.text.length).sum ≤ limit

theorem cut_shortened {perDocument : Nat} {allowance : Int} {document : ContextEntry}
    (hne : document.text.strip ≠ []) (hshare : allowance ≤ perDocument)
    (hfits : (document.text.strip.length : Int) ≤ allowance ∨ 62 < allowance) :
    Shortened perDocument document {document with text := cut allowance document.text.strip} := by
  by_cases hle : (document.text.strip.length : Int) ≤ allowance
  · rw [cut_of_le _ _ hle]
    exact ⟨rfl, hne, .inl rfl, by show document.text.strip.length ≤ _; omega⟩
  · obtain ⟨⟨suffix, hsuffix, hproper, hcut⟩, hlength⟩ :=
      cut_of_lt _ _ (Int.not_le.mp hle) (hfits.resolve_left hle)
    refine ⟨rfl, ?_, .inr ⟨suffix, hsuffix, hproper, hcut⟩, ?_⟩
    · show cut allowance document.text.strip ≠ []
      intro hnil
      rw [hnil] at hlength
      have := hfits.resolve_left hle
      simp only [List.length_nil] at hlength
      omega
    · show (cut allowance document.text.strip).length ≤ _
      omega

section
variable {δ : Type} [DecidableEq δ] {digest : Text → δ} {perDocument : Int} {seen : List δ}
  {documents result : List ContextEntry}

theorem compact_encodable {remaining : Int}
    (h : compact digest perDocument remaining seen documents = some result) :
    ∀ d ∈ documents, d.text.strip.isEncodable = true := by
  induction documents generalizing remaining seen result with
  | nil => exact fun _ hd => by cases hd
  | cons document rest ih =>
    simp only [compact] at h
    split at h
    · cases h
    · next henc =>
      have hrest : ∀ d ∈ rest, d.text.strip.isEncodable = true := by
        split at h
        · exact ih h
        · obtain ⟨result', hresult, -⟩ := Option.map_eq_some_iff.mp h
          exact ih hresult
      intro d hd
      rcases List.mem_cons.mp hd with rfl | hd
      · simpa using henc
      · exact hrest d hd

/-- With nothing left the loop keeps nothing. -/
theorem compact_used_up {remaining : Int} (hleft : remaining ≤ 0)
    (henc : ∀ d ∈ documents, d.text.strip.isEncodable = true) :
    compact digest perDocument remaining seen documents = some [] := by
  induction documents with
  | nil => rfl
  | cons document rest ih =>
    have hdocument := henc document (List.mem_cons_self ..)
    simp only [compact, hdocument, Bool.true_eq_false, if_false]
    rw [if_pos (.inr (.inr hleft))]
    exact ih fun d hd => henc d (List.mem_cons_of_mem _ hd)

variable (digest perDocument) in
theorem compact_some {remaining : Int} (henc : ∀ d ∈ documents, d.text.strip.isEncodable = true) :
    ∃ result, compact digest perDocument remaining seen documents = some result := by
  induction documents generalizing remaining seen with
  | nil => exact ⟨[], rfl⟩
  | cons document rest ih =>
    have hrest : ∀ d ∈ rest, d.text.strip.isEncodable = true := fun d hd =>
      henc d (List.mem_cons_of_mem _ hd)
    simp only [compact, henc document (List.mem_cons_self ..), Bool.true_eq_false, if_false]
    split
    · exact ih hrest
    · obtain ⟨result, hresult⟩ := ih hrest
      exact ⟨_, congrArg (Option.map _) hresult⟩

/-- The loop at a document: skipped as empty or seen, reached with nothing left, or cut
to its allowance. -/
theorem compact_cons {share : Nat} {remaining : Int} {document : ContextEntry} {rest : List ContextEntry}
    (h : compact digest share remaining seen (document :: rest) = some result) :
    (compact digest share remaining seen rest = some result ∧
        fresh digest seen (document :: rest) = fresh digest seen rest) ∨
      (remaining ≤ 0 ∧ result = []) ∨
      (0 < remaining ∧ document.text.strip ≠ [] ∧ digest document.text.strip ∉ seen ∧
        fresh digest seen (document :: rest) =
          document.text.strip :: fresh digest (digest document.text.strip :: seen) rest ∧
        ∃ result', compact digest share
            (remaining - (cut (min share remaining) document.text.strip).length)
            (digest document.text.strip :: seen) rest = some result' ∧
          result = {document with text := cut (min share remaining) document.text.strip} :: result') := by
  have henc := compact_encodable h
  have hrest : ∀ d ∈ rest, d.text.strip.isEncodable = true := fun d hd =>
    henc d (List.mem_cons_of_mem _ hd)
  simp only [compact, henc document (List.mem_cons_self ..), Bool.true_eq_false, if_false] at h
  by_cases hold : document.text.strip = [] ∨ digest document.text.strip ∈ seen
  · rw [if_pos (hold.imp_right .inl)] at h
    exact .inl ⟨h, if_pos hold⟩
  · by_cases hleft : remaining ≤ 0
    · rw [if_pos (.inr (.inr hleft)), compact_used_up hleft hrest] at h
      exact .inr (.inl ⟨hleft, (Option.some.inj h).symm⟩)
    · obtain ⟨hne, hnew⟩ := not_or.mp hold
      rw [if_neg (by
        rw [not_or, not_or]
        exact ⟨hne, hnew, hleft⟩)] at h
      obtain ⟨result', hresult, hcons⟩ := Option.map_eq_some_iff.mp h
      exact .inr (.inr ⟨by omega, hne, hnew, if_neg hold, result', hresult, hcons.symm⟩)

/-- The lengths of what is returned depend on the lengths of the texts considered only. -/
theorem compact_lengths {share : Nat} (hshare : 0 < share) {remaining : Int}
    (h : compact digest share remaining seen documents = some result) :
    (result.map fun d => d.text.length) =
      kept share remaining ((fresh digest seen documents).map List.length) := by
  induction documents generalizing remaining seen result with
  | nil =>
    obtain rfl := Option.some.inj h
    rfl
  | cons document rest ih =>
    rcases compact_cons h with ⟨hskip, hfresh⟩ | ⟨hleft, rfl⟩ |
      ⟨hpos, -, -, hfresh, result', hresult, rfl⟩
    · rw [hfresh]
      exact ih hskip
    · rw [kept_of_nonpos hleft]
      rfl
    · rw [hfresh, List.map_cons, List.map_cons]
      simp only [kept]
      rw [if_neg (by omega), ← length_cut _ (by omega), ih hresult]

/-- A document that is kept, under an allowance that its text fits or that leaves enough
room for the marker, where all the texts fit. -/
def CutFrom (share : Nat) (fit : Prop) (document result : ContextEntry) : Prop :=
  ∃ allowance : Int, allowance ≤ share ∧ document.text.strip ≠ [] ∧
    (fit → (document.text.strip.length : Int) ≤ allowance ∨ 62 < allowance) ∧
    result = {document with text := cut allowance document.text.strip}

/-- The documents returned are some of those given, in their order and under different digests. -/
theorem compact_keeps {share : Nat} (hshare : 0 < share) {remaining : Int}
    (h : compact digest share remaining seen documents = some result) :
    ∃ originals, List.Sublist originals documents ∧
      (originals.map fun d => digest d.text.strip).Nodup ∧
      (∀ d ∈ originals, digest d.text.strip ∉ seen) ∧
      List.Forall₂ (CutFrom share (fits share remaining.toNat
        ((fresh digest seen documents).map List.length) = true)) originals result := by
  induction documents generalizing remaining seen result with
  | nil =>
    obtain rfl := Option.some.inj h
    exact ⟨[], .slnil, .nil, nofun, .nil⟩
  | cons document rest ih =>
    rcases compact_cons h with ⟨hskip, hfresh⟩ | ⟨-, rfl⟩ |
      ⟨hpos, hne, hnew, hfresh, result', hresult, rfl⟩
    · obtain ⟨originals, hsub, hkept⟩ := ih hskip
      rw [hfresh]
      exact ⟨originals, hsub.cons _, hkept⟩
    · exact ⟨[], List.nil_sublist _, .nil, nofun, .nil⟩
    · obtain ⟨originals, hsub, hnodup, hunseen, hall⟩ := ih hresult
      refine ⟨document :: originals, hsub.cons_cons _, ?_, ?_, .cons ?_ (hall.imp ?_)⟩
      · rw [List.map_cons, List.nodup_cons]
        refine ⟨fun hmem => ?_, hnodup⟩
        obtain ⟨d, hd, hsame⟩ := List.mem_map.mp hmem
        exact hunseen d hd (hsame ▸ List.mem_cons_self ..)
      · intro d hd
        rcases List.mem_cons.mp hd with rfl | hd
        · exact hnew
        · exact fun hmem => hunseen d hd (List.mem_cons_of_mem _ hmem)
      · refine ⟨_, Int.min_le_left .., hne, fun hfits => ?_, rfl⟩
        rw [hfresh, List.map_cons] at hfits
        simp only [fits, if_neg (show remaining.toNat ≠ 0 by omega)] at hfits
        split at hfits
        · exact .inl (by omega)
        · simp only [Bool.and_eq_true, decide_eq_true_eq] at hfits
          exact .inr (by omega)
      · rintro d r ⟨allowance, hle, hne', hroom, hcut⟩
        refine ⟨allowance, hle, hne', fun hfits => hroom ?_, hcut⟩
        rw [hfresh, List.map_cons] at hfits
        have hremaining : (remaining.toNat : Int) = remaining := by omega
        have hrest := fits_cons (by omega) hfits
        rw [hremaining, ← length_cut (min share remaining) (by omega)] at hrest
        rw [Int.toNat_sub']
        exact hrest

end

theorem perDocument_gt (limit n : Nat) : 62 < perDocument limit n := by
  unfold perDocument
  omega

end Compaction

open Compaction in
/-- The compaction keeps its limits exactly when every text can be encoded and no text
longer than its allowance comes up when 1 to 62 code points of the limit are left. -/
theorem compaction_respects_limit_iff {δ : Type} [DecidableEq δ] (digest : Text → δ)
    (valves : ContextValves) (documents : List ContextEntry) :
    let limit := valves.contextCharLimit
    let share := perDocument limit documents.length
    (∃ result, compactDocuments digest limit documents = some result ∧
        Compacted limit share documents result) ↔
      (∀ d ∈ documents, d.text.strip.isEncodable = true) ∧
        fits share limit ((fresh digest [] documents).map List.length) = true := by
  intro limit share
  by_cases hempty : documents = []
  · subst hempty
    refine ⟨fun _ => ⟨nofun, rfl⟩, fun _ => ⟨[], rfl, ⟨[], .slnil, .nil, .nil⟩, Nat.zero_le _⟩⟩
  · have hpos : 0 < share := Nat.lt_trans (by decide) (perDocument_gt ..)
    have hcompact : compactDocuments digest limit documents =
        compact digest (share : Int) limit [] documents := if_neg hempty
    rw [hcompact]
    constructor
    · rintro ⟨result, hresult, hgood⟩
      refine ⟨compact_encodable hresult, (fits_iff (perDocument_gt ..)).mpr ?_⟩
      rw [← compact_lengths hpos hresult]
      exact hgood.total
    · rintro ⟨henc, hfits⟩
      obtain ⟨result, hresult⟩ := compact_some digest share henc
      obtain ⟨originals, hsub, hnodup, -, hall⟩ := compact_keeps hpos hresult
      refine ⟨result, hresult, ⟨originals, hsub, ?_, hall.imp ?_⟩, ?_⟩
      · exact List.Nodup.of_map digest (by rwa [List.map_map])
      · rintro d r ⟨allowance, hle, hne, hroom, rfl⟩
        exact cut_shortened hne hle (hroom hfits)
      · rw [compact_lengths hpos hresult]
        exact (fits_iff (perDocument_gt ..)).mp hfits

namespace Sample

/-- A linked chat with a transcript of so many equal letters. -/
def linkedChat (id : String) (letter : Char) (length : Nat) : ContextEntry :=
  ⟨.linkedChat, .ofString id, .ofString id, .ofString "chat", List.replicate length (.ofChar letter)⟩

/-- Two chats leave 10 code points of 4,000 to a third one of 100. -/
def overflowing : List ContextEntry :=
  [linkedChat "1" 'a' 2000, linkedChat "2" 'b' 1990, linkedChat "3" 'c' 100]

end Sample

open Compaction in
/-- What is kept of the third text is longer than the text: 4,095 code points are returned. -/
theorem compaction_exceeds_limit :
    ¬ ∀ (digest : Text → Text) (valves : ContextValves) (documents : List ContextEntry), documents ≠ [] →
      ∃ result, compactDocuments digest valves.contextCharLimit documents = some result ∧
        Compacted valves.contextCharLimit (perDocument valves.contextCharLimit documents.length)
          documents result := by
  intro hall
  obtain ⟨result, hresult, hgood⟩ := hall id {contextCharLimit := 4000} Sample.overflowing nofun
  have htotal : (compactDocuments id 4000 Sample.overflowing).map
      (fun result => (result.map fun d => d.text.length).sum) = some 4095 := by decide +kernel
  simp only [hresult, Option.map_some, Option.some.injEq] at htotal
  have hlimit := hgood.total
  simp only [htotal] at hlimit
  omega

end ResearchGateway
