import ResearchGateway.Pipe.Context
import ResearchGateway.Pipe.RequestChecks

/-! When the gateway accepts the context that the Pipe collects.

The Pipe counts linked chats up to 50 and puts the current chat before them, and it cuts
a document to a share of its own limit, which may be more than the gateway takes of one. -/
namespace ResearchGateway
open Library Pipe Compaction RequestChecks

/-- What the gateway's bounds ask of the transcripts, given the lengths of those that are
considered and how many documents there are. -/
structure Admits (limit documents : Nat) (lengths : List Nat) : Prop where
  /-- A document of its own is not cut to more than the gateway takes of one. -/
  single : documents = 1 → ∀ length ∈ lengths, length ≤ 300000 ∨ (limit < length ∧ limit ≤ 300005)
  /-- Of 51 transcripts the last one finds nothing left. -/
  count : lengths.length = 51 → left (perDocument limit documents) limit (lengths.take 50) = 0
  /-- What is kept of a text that comes up with 62 or fewer code points left does no harm. -/
  overflow : ∀ before length after, lengths = before ++ length :: after →
    let rest := left (perDocument limit documents) limit before
    0 < rest → rest ≤ 62 → rest < length →
      57 + (length - (62 - rest)) ≤ 300000 ∧ limit - rest + (57 + (length - (62 - rest))) ≤ 500000

/-! ### The lengths -/

section
variable {limit n : Nat} {lengths : List Nat}

theorem perDocument_one (h : 4000 ≤ limit) : perDocument limit 1 = limit := by
  rw [perDocument, Nat.div_one]
  omega

/-- Two documents or more have at most half of the limit each. -/
theorem perDocument_le (h : limit ≤ 500000) (hn : 2 ≤ n) : perDocument limit n ≤ 250000 := by
  have hhalf : limit / n ≤ limit / 2 := Nat.div_le_div_left hn (by decide)
  unfold perDocument
  omega

theorem kept_length_le_iff (hlengths : lengths.length ≤ 51) :
    (kept (perDocument limit n) limit lengths).length ≤ 50 ↔
      (lengths.length = 51 → left (perDocument limit n) limit (lengths.take 50) = 0) := by
  by_cases hfull : lengths.length = 51
  · have hsplit := List.take_append_drop 50 lengths
    have htake : (lengths.take 50).length = 50 := by
      rw [List.length_take]
      omega
    obtain ⟨last, hlast⟩ : ∃ last, lengths.drop 50 = [last] := by
      apply List.length_eq_one_iff.mp
      rw [List.length_drop]
      omega
    rw [hlast] at hsplit
    by_cases hleft : left (perDocument limit n) limit (lengths.take 50) = 0
    · have hkept := kept_append_of_left_zero [last] (perDocument_gt ..) hleft
      rw [hsplit] at hkept
      refine ⟨fun _ _ => hleft, fun _ => ?_⟩
      rw [hkept]
      exact Nat.le_trans length_kept_le (Nat.le_of_eq htake)
    · obtain ⟨hkept, hlength, -⟩ := kept_append [last] (Nat.pos_of_ne_zero hleft)
      rw [hsplit] at hkept
      constructor
      · intro h
        rw [hkept, List.length_append, hlength, htake] at h
        simp only [kept, if_neg (show ¬ ((left (perDocument limit n) limit (lengths.take 50) : Nat) : Int) ≤ 0
          by omega), List.length_singleton] at h
        omega
      · exact fun h => absurd (h hfull) hleft
  · exact ⟨fun _ h => absurd h hfull, fun _ => Nat.le_trans length_kept_le (by omega)⟩

/-- A document of its own has the whole limit, which is more than 62. -/
theorem single_accepted_iff (hlow : 4000 ≤ limit) (hhigh : limit ≤ 500000) (length : Nat) :
    ((∀ m ∈ kept (perDocument limit 1) limit [length], m ≤ 300000) ∧
        (kept (perDocument limit 1) limit [length]).sum ≤ 500000) ↔
      length ≤ 300000 ∨ (limit < length ∧ limit ≤ 300005) := by
  have hkept : kept (perDocument limit 1) limit [length] = [cutLength limit length] := by
    rw [perDocument_one hlow]
    simp only [kept, if_neg (show ¬ (limit : Int) ≤ 0 by omega), min_self]
  rw [hkept, List.sum_singleton, List.forall_mem_singleton]
  unfold cutLength
  split
  · omega
  · rw [if_pos (by omega)]
    omega

theorem kept_accepted_iff (hlow : 4000 ≤ limit) (hhigh : limit ≤ 500000) (hn : n ≤ 51)
    (hlengths : lengths.length ≤ n) :
    ((kept (perDocument limit n) limit lengths).length ≤ 50 ∧
        (∀ m ∈ kept (perDocument limit n) limit lengths, m ≤ 300000) ∧
        (kept (perDocument limit n) limit lengths).sum ≤ 500000) ↔ Admits limit n lengths := by
  have hshare := perDocument_gt limit n
  rw [kept_length_le_iff (by omega)]
  constructor
  · rintro ⟨hcount, hall, hsum⟩
    refine ⟨?_, hcount, ?_⟩
    · rintro rfl length hmem
      obtain rfl : lengths = [length] := by
        obtain ⟨only, rfl⟩ := List.length_eq_one_iff.mp
          (Nat.le_antisymm hlengths (List.length_pos_of_mem hmem))
        rw [List.mem_singleton.mp hmem]
      exact (single_accepted_iff hlow hhigh length).mp ⟨hall, hsum⟩
    · rintro before length after rfl rest hpos hroom hlong
      obtain ⟨hkept, hbefore, -, -⟩ := kept_append_overflow after hshare hpos hroom hlong
      rw [hkept] at hall hsum
      rw [List.sum_append, List.sum_singleton] at hsum
      exact ⟨hall _ (List.mem_append_right _ (List.mem_singleton_self _)), by omega⟩
  · rintro ⟨hsingle, hcount, hoverflow⟩
    refine ⟨hcount, ?_⟩
    rcases fits_or_overflow limit lengths hshare with
      ⟨-, hsum, hall⟩ | ⟨before, length, after, rfl, hpos, hroom, hlong⟩
    · by_cases hone : n = 1
      · subst hone
        match lengths, hlengths with
        | [], _ => exact ⟨nofun, Nat.zero_le _⟩
        | [length], _ =>
          exact (single_accepted_iff hlow hhigh length).mpr (hsingle rfl length (List.mem_singleton_self _))
      · by_cases hzero : n = 0
        · obtain rfl : lengths = [] := List.length_eq_zero_iff.mp (by omega)
          exact ⟨nofun, Nat.zero_le _⟩
        · have hhalf := perDocument_le hhigh (show 2 ≤ n by omega)
          exact ⟨fun m hm => Nat.le_trans (hall m hm) (by omega), by omega⟩
    · obtain ⟨hkept, hbefore, hall, -⟩ := kept_append_overflow after hshare hpos hroom hlong
      obtain ⟨hlast, htotal⟩ := hoverflow before length after rfl hpos hroom hlong
      have hmany : 2 ≤ n := by
        by_contra hfew
        rw [List.length_append, List.length_cons] at hlengths
        obtain rfl : before = [] := List.length_eq_zero_iff.mp (by omega)
        have hleft : left (perDocument limit n) limit [] = limit := rfl
        omega
      have hhalf := perDocument_le hhigh hmany
      rw [hkept, List.sum_append, List.sum_singleton]
      refine ⟨fun m hm => ?_, by omega⟩
      rcases List.mem_append.mp hm with hm | hm
      · exact Nat.le_trans (hall m hm) (by omega)
      · rw [List.mem_singleton.mp hm]
        exact hlast

end

/-! ### The documents -/

section
variable {δ : Type} {host : ContextHost δ} {fuel : Nat} {valves : ContextValves} {call : ContextCall}

/-- What two documents of a request must not share. -/
def identity (document : ContextEntry) : ContextKind × Text := (document.kind, document.id)

theorem document?_identity (kind : ContextKind) (id title transcript : Text) :
    List.Sublist ((document? kind id title transcript).toList.map identity) [(kind, id)] := by
  unfold document?
  split
  · exact List.nil_sublist _
  · exact List.Sublist.refl _

theorem readLinked_identities {n : Nat} {ids : List Text} {items : List Fields}
    {documents : List ContextEntry} (h : readLinked host fuel n ids = some (items, documents)) :
    List.Sublist (documents.map identity) (ids.map fun id => (.linkedChat, id)) := by
  induction ids generalizing n items documents with
  | nil =>
    obtain ⟨rfl, rfl⟩ := Prod.mk.inj (Option.some.inj h)
    exact .slnil
  | cons id rest ih =>
    simp only [readLinked, Option.bind_eq_bind, Option.bind_eq_some_iff] at h
    obtain ⟨linked, -, chat, -, found, -, messages, -, ⟨items', documents'⟩, hrest, hdone⟩ := h
    obtain ⟨-, rfl⟩ := Prod.mk.inj (Option.some.inj hdone)
    rw [List.map_append, List.map_cons]
    exact (document?_identity ..).append (ih hrest)

/-- The current chat and at most 50 linked ones. -/
theorem documents_identities {id title transcript : Text} {chats : List Text} (linked : List ContextEntry)
    (hnodup : chats.Nodup) (hfew : chats.length ≤ 50)
    (hlinked : List.Sublist (linked.map identity) (chats.map fun id => (.linkedChat, id))) :
    (((document? .conversation id title transcript).toList ++ linked).map identity).Nodup ∧
      ((document? .conversation id title transcript).toList ++ linked).length ≤ 51 := by
  have hsub := (document?_identity .conversation id title transcript).append hlinked
  rw [← List.map_append] at hsub
  have hlength := hsub.length_le
  simp only [List.length_map, List.length_append, List.length_singleton] at hlength ⊢
  refine ⟨hsub.nodup (List.nodup_cons.mpr ⟨by simp, ?_⟩), by omega⟩
  exact (List.nodup_map_iff fun a b h => (Prod.mk.inj h).2).mpr hnodup

/-- The documents gathered are of different chats, and of 51 at most. -/
theorem gather_identities {documents : List ContextEntry} {items : List Value} {ids : List Text}
    (h : gather host fuel valves call = some (documents, items, ids)) :
    (documents.map identity).Nodup ∧ documents.length ≤ 51 := by
  simp only [gather, Option.bind_eq_bind, Option.bind_eq_some_iff] at h
  obtain ⟨prior, -, h⟩ := h
  split at h
  · obtain ⟨rfl, -⟩ := Prod.mk.inj (Option.some.inj h)
    rw [← List.append_nil (document? ..).toList]
    exact documents_identities [] List.nodup_nil (Nat.zero_le _) .slnil
  · simp only [Option.bind_eq_some_iff] at h
    obtain ⟨current, -, chat, -, found, -, ⟨items', linked⟩, hlinked, hdone⟩ := h
    obtain ⟨rfl, -⟩ := Prod.mk.inj (Option.some.inj hdone)
    exact documents_identities linked ((Text.sorted_nodup _).sublist (List.take_sublist ..))
      (Nat.le_trans (List.length_take_le ..) valves.chats_bound) (readLinked_identities hlinked)

variable [DecidableEq δ]

theorem fresh_pos (digest : Text → δ) {seen : List δ} {documents : List ContextEntry} :
    ∀ length ∈ (fresh digest seen documents).map List.length, 0 < length := by
  induction documents generalizing seen with
  | nil => nofun
  | cons document rest ih =>
    simp only [fresh]
    split
    · exact ih
    · next hnew =>
      intro length hmem
      rcases List.mem_cons.mp hmem with rfl | hmem
      · exact List.length_pos_of_ne_nil fun hnil => hnew (.inl hnil)
      · exact ih length hmem

theorem fresh_length_le (digest : Text → δ) {seen : List δ} {documents : List ContextEntry} :
    (fresh digest seen documents).length ≤ documents.length := by
  induction documents generalizing seen with
  | nil => exact Nat.le_refl _
  | cons document rest ih =>
    simp only [fresh]
    split
    · exact Nat.le_succ_of_le ih
    · exact Nat.succ_le_succ ih

omit [DecidableEq δ] in
/-- Only the text of a document that is kept may change. -/
theorem Compaction.CutFrom.same {share : Nat} {fit : Prop} {document result : ContextEntry}
    (h : CutFrom share fit document result) :
    identity result = identity document ∧ result.fieldsAccepted = document.fieldsAccepted := by
  obtain ⟨allowance, -, -, -, rfl⟩ := h
  exact ⟨rfl, rfl⟩

/-- The compaction changes the texts only, and what it returns has the lengths kept. -/
theorem compactDocuments_spec {limit : Nat} {documents result : List ContextEntry}
    (h : compactDocuments host.digest limit documents = some result) :
    List.Sublist (result.map identity) (documents.map identity) ∧
      ((∀ d ∈ documents, d.fieldsAccepted = true) → ∀ d ∈ result, d.fieldsAccepted = true) ∧
      (result.map fun d => d.text.length) = kept (perDocument limit documents.length) limit
        ((fresh host.digest [] documents).map List.length) := by
  unfold compactDocuments at h
  split at h
  · next hempty =>
    subst hempty
    obtain rfl := Option.some.inj h
    exact ⟨.slnil, fun _ => List.forall_mem_nil _, rfl⟩
  · have hpos : 0 < perDocument limit documents.length := Nat.lt_trans (by decide) (perDocument_gt ..)
    obtain ⟨originals, hsub, -, -, hall⟩ := compact_keeps hpos h
    refine ⟨?_, fun hfields => ?_, compact_lengths hpos h⟩
    · have hsame : result.map identity = originals.map identity := by
        clear hsub h
        induction hall with
        | nil => rfl
        | cons hcut _ ih => rw [List.map_cons, List.map_cons, hcut.same.1, ih]
      rw [hsame]
      exact hsub.map identity
    · have horiginals := fun d hd => hfields d (hsub.subset hd)
      clear hsub h hfields
      induction hall with
      | nil => exact List.forall_mem_nil _
      | cons hcut _ ih =>
        rw [List.forall_mem_cons] at horiginals ⊢
        exact ⟨hcut.same.2.trans horiginals.1, ih horiginals.2⟩

end

/-- The gateway accepts the context that the Pipe collects exactly when its bounds admit
the transcripts. -/
theorem context_accepted_iff {δ : Type} [DecidableEq δ] (host : ContextHost δ) (fuel : Nat)
    (valves : ContextValves) (call : ContextCall) {gathered documents : List ContextEntry}
    {items : List Value} {ids : List Text} {found : List SourceEntry} {count : Nat}
    (hgather : gather host fuel valves call = some (gathered, items, ids))
    (hfields : ∀ d ∈ gathered, d.fieldsAccepted = true)
    (hcollect : collectContext host fuel valves call = some (documents, found, count)) :
    contextAccepted documents = true ↔
      Admits valves.contextCharLimit gathered.length ((fresh host.digest [] gathered).map List.length) := by
  simp only [collectContext, hgather, Option.bind_eq_bind, Option.bind_some, Option.bind_eq_some_iff] at hcollect
  obtain ⟨result, hresult, collected, -, hdone⟩ := hcollect
  obtain ⟨rfl, -⟩ := Prod.mk.inj (Option.some.inj hdone)
  obtain ⟨hnodup, hfew⟩ := gather_identities hgather
  obtain ⟨hsub, hkeep, hlengths⟩ := compactDocuments_spec hresult
  rw [contextAccepted_iff, ← kept_accepted_iff valves.chars_bounds.1 valves.chars_bounds.2 hfew (by
    rw [List.length_map]
    exact fresh_length_le host.digest), ← hlengths, List.length_map]
  have htexts : (∀ d ∈ result, d.fieldsAccepted = true ∧ d.textAccepted = true) ↔
      ∀ m ∈ result.map fun d => d.text.length, m ≤ 300000 := by
    rw [List.forall_mem_map]
    refine forall₂_congr fun d hd => ?_
    have hpos : 0 < d.text.length := by
      apply kept_pos (fresh_pos host.digest)
      rw [← hlengths]
      exact List.mem_map_of_mem hd
    simp only [hkeep hfields d hd, ContextEntry.textAccepted, lengthWithin, Bool.and_eq_true,
      decide_eq_true_eq, true_and]
    omega
  rw [htexts]
  have hdistinct : (result.map fun d => (d.kind, d.id)).Nodup := hsub.nodup hnodup
  simp only [hdistinct, true_and]

namespace Sample

def message (role content : String) : Value :=
  .object [("role", .text role), ("content", .text content)]

/-- The answer for a chat with one message, its id. -/
def oneMessageChat (id : Text) : Value :=
  .object [("chat", .object [("history", .object [("currentId", .text "m"),
    ("messages", .object [("m", .object [("role", .text "user"), ("content", .str id)])])])])]

def oneMessageChats : ContextHost Text where
  repr _ := []
  dumps _ := []
  digest := id
  getChat _ id := (oneMessageChat id).fields?

/-- A chat that goes on, with so many chats attached. -/
def continuedChat (attached : Nat) : ContextCall where
  body := [(.ofString "messages", .list [message "user" "Compare them", message "assistant" "Which ones?",
    message "user" "All of them"])]
  chatId := .ofString "chat"
  files := (List.range attached).map fun n => .object [("type", .text "chat"), ("id", .text (toString (n + 10)))]
  authorization := some []

/-- The documents that the collection returns, if it does. -/
def collected (valves : ContextValves) (call : ContextCall) : List ContextEntry :=
  ((collectContext oneMessageChats 2 valves call).map Prod.fst).getD []

end Sample

theorem context_accepted_continued :
    contextAccepted (Sample.collected {} (Sample.continuedChat 1)) = true ↔ Admits 120000 2 [48, 11] :=
  context_accepted_iff Sample.oneMessageChats 2 {} (Sample.continuedChat 1) rfl (by decide +kernel) rfl

/-- With 50 linked chats, as many as the valves allow, the current chat is a document too many. -/
theorem context_refused :
    ¬ ∀ (host : ContextHost Text) (fuel : Nat) (valves : ContextValves) (call : ContextCall)
      (gathered documents : List ContextEntry) (items : List Value) (ids : List Text)
      (found : List SourceEntry) (count : Nat),
      gather host fuel valves call = some (gathered, items, ids) →
      (∀ d ∈ gathered, d.fieldsAccepted = true) →
      collectContext host fuel valves call = some (documents, found, count) →
        contextAccepted documents = true := by
  intro hall
  have hrun : ((gather Sample.oneMessageChats 2 {linkedChatLimit := 50} (Sample.continuedChat 50)).map
        fun result => result.1.all ContextEntry.fieldsAccepted) = some true ∧
      ((collectContext Sample.oneMessageChats 2 {linkedChatLimit := 50} (Sample.continuedChat 50)).map
        fun result => contextAccepted result.1) = some false := by decide +kernel
  obtain ⟨⟨⟨gathered, items, ids⟩, hgather, hfields⟩, ⟨documents, found, count⟩, hcollect, hrefused⟩ :=
    hrun.imp Option.map_eq_some_iff.mp Option.map_eq_some_iff.mp
  have haccepted := hall _ _ _ _ _ _ _ _ _ _ hgather (List.all_eq_true.mp hfields) hcollect
  rw [haccepted] at hrefused
  cases hrefused

end ResearchGateway
