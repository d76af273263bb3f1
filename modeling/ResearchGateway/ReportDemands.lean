import ResearchGateway.ReportPrompt

/-! What a demand for a minimum length looks like.

A demand is seen here by the kinds of its symbols: the words in lower case, and the count as
zeros and commas. Of its spaces each is a blank with two symbols of the demand behind it with
which no demand begins (`closed`), so no other demand begins within it, and none is a part of
another one at its beginning (`Demand.eq_of_append`). -/
namespace ResearchGateway
open Library Pattern

/-- The kinds of a demand with some verb and count. -/
def demandCodes (verb : String) (count : List Nat) : List Nat :=
  wordCodes (verb ++ " a minimum length of ") ++ count ++ wordCodes " words"

def IsCountCode (code : Nat) : Prop := code = 48 ∨ code = 44

/-- Two kinds behind a space with which no demand begins. -/
def closedPair (y z : Nat) : Bool := !isSpaceCode y && y != 104 && (y != 119 || z == 111) && (y != 97 || z != 110)

/-- Each space is a blank, and two such kinds are behind it. -/
def closed : List Nat → Bool
  | [] => true
  | y :: t => (!isSpaceCode y || y == 32 && closedHead t) && closed t
where
  closedHead : List Nat → Bool
    | z :: z' :: _ => closedPair z z'
    | _ => false

section
variable {verbs' : List String} {verb : String} {ks count rest : List Nat} {a d t x y : Text} {c : CodePoint}

theorem map_kind_of_reads {w : String} (h : ReadsAs w a) (hw : ∀ code ∈ wordCodes w, isDigitCode code = false) :
    a.map CodePoint.kind = wordCodes w := by
  rw [← h] at hw ⊢
  apply List.map_congr_left
  intro c hc
  exact CodePoint.kind_of_lower rfl (hw _ (List.mem_map_of_mem hc))

theorem kind_of_isCount (h : isCount c = true) : IsCountCode c.kind := by
  rw [isCount, Bool.or_eq_true] at h
  rcases h with h | h
  · exact .inl (CodePoint.kind_of_digit h)
  · rw [eq_of_beq h]
    exact .inr (by decide)

/-- The kinds of a phrase with a count. -/
theorem phrase_codes {w : String} {n b : Text} (hw : ∀ code ∈ wordCodes w, isDigitCode code = false) (ha : ReadsAs w a)
    (hne : n ≠ []) (hn : ∀ c ∈ n, isCount c = true) (hb : ReadsAs " words" b) :
    ∃ count, (a ++ n ++ b).map CodePoint.kind = wordCodes w ++ count ++ wordCodes " words" ∧ count ≠ [] ∧
      ∀ code ∈ count, IsCountCode code := by
  refine ⟨n.map CodePoint.kind, ?_, fun hnil => hne (List.map_eq_nil_iff.mp hnil), ?_⟩
  · rw [List.map_append, List.map_append, map_kind_of_reads ha hw, map_kind_of_reads hb (by decide)]
  · intro code hcode
    obtain ⟨c, hc, rfl⟩ := List.mem_map.mp hcode
    exact kind_of_isCount (hn c hc)

/-- Such a phrase is within a line and a sentence. -/
theorem phrase_plain {w : String} (hw : ∀ code ∈ wordCodes w, code ≠ 10 ∧ code ≠ 46)
    (hx : x.map CodePoint.kind = wordCodes w ++ count ++ wordCodes " words") (hcount : ∀ code ∈ count, IsCountCode code) :
    ∀ c ∈ x, c ≠ .newline ∧ c ≠ .dot := by
  intro c hc
  have hwords : ∀ code ∈ wordCodes " words", code ≠ 10 ∧ code ≠ 46 := by decide
  have hmem := hx ▸ List.mem_map_of_mem (f := CodePoint.kind) hc
  have hk : c.kind ≠ 10 ∧ c.kind ≠ 46 := by
    rw [List.mem_append, List.mem_append] at hmem
    rcases hmem with (hk | hk) | hk
    · exact hw _ hk
    · rcases hcount _ hk with hk | hk <;> rw [hk] <;> decide
    · exact hwords _ hk
  exact ⟨fun heq => hk.1 (CodePoint.kind_eq_newline.mpr heq), fun heq => hk.2 (CodePoint.kind_eq_dot.mpr heq)⟩

theorem Demand.codes (hwords : ∀ verb ∈ verbs', ∀ code ∈ wordCodes (verb ++ " a minimum length of "), isDigitCode code = false)
    (h : Demand verbs' x) : ∃ verb ∈ verbs', ∃ count, x.map CodePoint.kind = demandCodes verb count ∧ count ≠ [] ∧
      ∀ code ∈ count, IsCountCode code := by
  obtain ⟨a, n, b, rfl, ⟨verb, hverb, ha⟩, hne, hn, hb⟩ := h
  exact ⟨verb, hverb, phrase_codes (hwords verb hverb) ha hne hn hb⟩

theorem Demand.mono {verbs'' : List String} (h : Demand verbs' x) (hsub : verbs' ⊆ verbs'') : Demand verbs'' x := by
  obtain ⟨a, n, b, rfl, ⟨verb, hverb, ha⟩, hrest⟩ := h
  exact ⟨a, n, b, rfl, ⟨verb, hsub hverb, ha⟩, hrest⟩

theorem wordCodes_words : wordCodes " words" = [32, 119, 111, 114, 100, 115] := by decide

theorem not_space_of_count {k : Nat} (h : IsCountCode k) : isSpaceCode k = false := by
  rcases h with rfl | rfl <;> decide

theorem closedHead_count {k : Nat} (hk : IsCountCode k) : closed.closedHead (k :: (count ++ wordCodes " words")) = true := by
  cases count <;> rcases hk with rfl | rfl <;> rfl

theorem closed_count (h : ∀ k ∈ count, IsCountCode k) : closed (count ++ wordCodes " words") = true := by
  induction count with
  | nil => decide
  | cons k count ih =>
    obtain ⟨hk, hcount⟩ := List.forall_mem_cons.mp h
    rw [List.cons_append, closed, ih hcount, not_space_of_count hk]
    rfl

/-- What is before the count can be checked with any count. -/
theorem closed_append {k : Nat} {l : List Nat} (hl : closed (l ++ [48, 48]) = true) (hk : IsCountCode k)
    (hhead : closed.closedHead (k :: rest) = true) (hrest : closed (k :: rest) = true) :
    closed (l ++ k :: rest) = true := by
  induction l with
  | nil => exact hrest
  | cons y l ih =>
    rw [List.cons_append, closed, Bool.and_eq_true] at hl ⊢
    refine ⟨?_, ih hl.2⟩
    rw [Bool.or_eq_true, Bool.and_eq_true] at hl ⊢
    refine hl.1.imp_right (And.imp_right ?_)
    cases l with
    | nil => exact fun _ => hhead
    | cons z l =>
      cases l with
      | nil => rcases hk with rfl | rfl <;> exact id
      | cons z' l => exact id

theorem closed_phrase {w : String} (hw : closed (wordCodes w ++ [48, 48]) = true) (hne : count ≠ [])
    (h : ∀ k ∈ count, IsCountCode k) : closed (wordCodes w ++ count ++ wordCodes " words") = true := by
  rw [List.append_assoc]
  cases count with
  | nil => exact absurd rfl hne
  | cons k count =>
    have hk := h k (List.mem_cons_self ..)
    exact closed_append hw hk (closedHead_count hk) (closed_count h)

/-- The verbs of the demands that are deleted within a sentence. -/
abbrev allVerbs : List String := "and have" :: verbs

theorem Demand.all_codes (h : Demand allVerbs x) : ∃ verb ∈ allVerbs, ∃ count,
    x.map CodePoint.kind = demandCodes verb count ∧ count ≠ [] ∧ ∀ k ∈ count, IsCountCode k :=
  h.codes (by decide)

theorem Demand.all (h : Demand verbs x) : Demand allVerbs x := h.mono (List.subset_cons_self ..)

/-- A demand is within a line and a sentence. -/
theorem Demand.plain (h : Demand allVerbs x) : ∀ c ∈ x, c ≠ .newline ∧ c ≠ .dot := by
  obtain ⟨verb, hverb, count, hx, -, hcount⟩ := h.all_codes
  have hverbs : ∀ verb ∈ allVerbs, ∀ k ∈ wordCodes (verb ++ " a minimum length of "), k ≠ 10 ∧ k ≠ 46 := by decide
  exact phrase_plain (hverbs verb hverb) hx hcount

theorem closed_split {l r : List Nat} {k : Nat} (h : closed (l ++ k :: r) = true) (hk : isSpaceCode k = true) :
    k = 32 ∧ ∃ z z' r', r = z :: z' :: r' ∧ closedPair z z' = true := by
  induction l with
  | nil =>
    rw [List.nil_append, closed, hk, Bool.and_eq_true, Bool.not_true, Bool.false_or, Bool.and_eq_true,
      beq_iff_eq] at h
    refine ⟨h.1.1, ?_⟩
    cases r with
    | nil => cases h.1.2
    | cons z r =>
      cases r with
      | nil => cases h.1.2
      | cons z' r => exact ⟨z, z', r, rfl, h.1.2⟩
  | cons y l ih =>
    rw [List.cons_append, closed, Bool.and_eq_true] at h
    exact ih h.2

/-- Behind a space of a text with closed kinds are two symbols with which no demand begins. -/
theorem closed_space {r : Text} (h : closed (x.map CodePoint.kind) = true) (hx : x = y ++ c :: r) (hc : c.isSpace = true) :
    ∃ z z' r', r = z :: z' :: r' ∧ closedPair z.kind z'.kind = true := by
  rw [hx, List.map_append, List.map_cons] at h
  obtain ⟨-, z, z', r', hr, hpair⟩ := closed_split h (by rw [CodePoint.isSpaceCode_kind, hc])
  obtain ⟨d, r₁, rfl, rfl, htail⟩ := List.map_eq_cons_iff.mp hr
  obtain ⟨d', r₂, rfl, rfl, -⟩ := List.map_eq_cons_iff.mp htail
  exact ⟨d, d', r₂, rfl, hpair⟩

theorem Demand.closed (h : Demand verbs x) : closed (x.map CodePoint.kind) = true := by
  obtain ⟨verb, hverb, count, hx, hne, hcount⟩ := h.codes (by decide)
  have hverbs : ∀ verb ∈ verbs, ResearchGateway.closed (wordCodes (verb ++ " a minimum length of ") ++ [48, 48]) = true := by
    decide
  rw [hx]
  exact closed_phrase (hverbs verb hverb) hne hcount

/-- `and have` is a word and a demand with `have`. -/
theorem Demand.cases (h : Demand allVerbs x) :
    Demand verbs x ∨ ∃ a c y, x = a ++ c :: y ∧ a ≠ [] ∧ a.map CodePoint.kind = wordCodes "and" ∧
      c.isSpace = true ∧ Demand verbs y := by
  obtain ⟨a, n, b, rfl, ⟨verb, hverb, ha⟩, hrest⟩ := h
  rcases List.mem_cons.mp hverb with rfl | hverb
  · have hcodes : wordCodes ("and have" ++ " a minimum length of ") =
        wordCodes "and" ++ 32 :: wordCodes ("have" ++ " a minimum length of ") := by decide
    rw [ReadsAs, hcodes] at ha
    obtain ⟨u, v, rfl, hu, hv⟩ := List.map_eq_append_iff.mp ha
    obtain ⟨c, v, rfl, hc, hv⟩ := List.map_eq_cons_iff.mp hv
    refine .inr ⟨u, c, v ++ n ++ b, by simp, ?_, map_kind_of_reads hu (by decide), ?_, v, n, b, rfl, ?_, hrest⟩
    · rintro rfl
      exact absurd hu (by decide)
    · rw [← CodePoint.isSpaceCode_kind, CodePoint.kind_of_lower hc (by decide)]
      decide
    · exact ⟨"have", by decide, hv⟩
  · exact .inl ⟨a, n, b, rfl, ⟨verb, hverb, ha⟩, hrest⟩

/-- The first two kinds of a demand. -/
theorem Demand.head (h : Demand verbs x) : ∃ y z r, x = y :: z :: r ∧
    (y.kind = 119 ∧ z.kind = 105 ∨ y.kind = 104 ∧ z.kind = 97) := by
  obtain ⟨verb, hverb, count, hx, -, -⟩ := h.codes (by decide)
  have hverbs : ∀ verb ∈ verbs, ∃ p ∈ [(119, 105), (104, 97)], wordCodes (verb ++ " a minimum length of ") =
      p.1 :: p.2 :: (wordCodes (verb ++ " a minimum length of ")).drop 2 := by decide
  obtain ⟨p, hp, hcodes⟩ := hverbs verb hverb
  rw [demandCodes, hcodes] at hx
  obtain ⟨y, r, rfl, hy, hr⟩ := List.map_eq_cons_iff.mp hx
  obtain ⟨z, r, rfl, hz, -⟩ := List.map_eq_cons_iff.mp hr
  refine ⟨y, z, r, rfl, ?_⟩
  rw [hy, hz]
  simp only [List.mem_cons, List.not_mem_nil, or_false] at hp
  rcases hp with rfl | rfl
  · exact .inl ⟨rfl, rfl⟩
  · exact .inr ⟨rfl, rfl⟩

/-- No demand is the beginning of another one. -/
theorem Demand.eq_of_append (h : Demand allVerbs (x ++ y)) (hx : Demand allVerbs x) : y = [] := by
  obtain ⟨verb, hverb, count, heq, -, hcount⟩ := h.all_codes
  obtain ⟨verb', hverb', count', heq', -, hcount'⟩ := hx.all_codes
  rw [List.map_append, heq'] at heq
  have hlength : ∀ verb ∈ allVerbs, 4 ≤ (wordCodes (verb ++ " a minimum length of ")).length := by decide
  have hverbs : ∀ verb ∈ allVerbs, ∀ verb' ∈ allVerbs, (wordCodes (verb ++ " a minimum length of ")).take 4 =
      (wordCodes (verb' ++ " a minimum length of ")).take 4 → verb = verb' := by decide
  have htake := congrArg (List.take 4) heq
  simp only [demandCodes, List.append_assoc] at heq htake
  rw [List.take_append_of_le_length (hlength verb' hverb'), List.take_append_of_le_length (hlength verb hverb)] at htake
  obtain rfl := hverbs verb' hverb' verb hverb htake
  have hspan := span_unique (p := fun k => !isSpaceCode k) ?_ ?_ ?_ ?_ (List.append_cancel_left heq)
  · have hnil : wordCodes " words" ++ y.map CodePoint.kind = wordCodes " words" := hspan.2
    exact List.map_eq_nil_iff.mp (List.append_right_eq_self.mp hnil)
  · intro k hk
    rw [not_space_of_count (hcount' k hk)]
    rfl
  · intro k hk
    rw [not_space_of_count (hcount k hk)]
    rfl
  · rw [wordCodes_words]
    rintro k ⟨⟩
    decide
  · rw [wordCodes_words]
    rintro k ⟨⟩
    decide

theorem Demand.last (h : Demand allVerbs x) : ∃ y c, x = y ++ [c] ∧ c.kind = 115 := by
  obtain ⟨a, n, b, rfl, -, -, -, hb⟩ := h
  have hcodes : wordCodes " words" = wordCodes " word" ++ [115] := by decide
  rw [ReadsAs, hcodes] at hb
  obtain ⟨u, v, rfl, -, hv⟩ := List.map_eq_append_iff.mp hb
  obtain ⟨c, v, rfl, hc, hv⟩ := List.map_eq_cons_iff.mp hv
  rw [List.map_eq_nil_iff] at hv
  rw [hv]
  exact ⟨a ++ n ++ u, c, (List.append_assoc ..).symm, CodePoint.kind_of_lower hc (by decide)⟩

/-- What is behind a space within a demand: no demand begins there, or the rest is one. -/
theorem Demand.behind_space {r : Text} (h : Demand allVerbs x) (hx : x = y ++ c :: r) (hc : c.isSpace = true) :
    Demand verbs r ∨ ∃ z z' r', r = z :: z' :: r' ∧ closedPair z.kind z'.kind = true := by
  rcases h.cases with h | ⟨a, d, x', rfl, -, ha, hd, hdemand⟩
  · exact .inr (closed_space h.closed hx hc)
  · have hspaces : ∀ b ∈ a, b.isSpace = false := by
      intro b hb
      have hall : ∀ k ∈ wordCodes "and", isSpaceCode k = false := by decide
      rw [← CodePoint.isSpaceCode_kind]
      exact hall _ (ha ▸ List.mem_map_of_mem hb)
    rcases List.append_eq_append_iff.mp hx with ⟨a', rfl, hr⟩ | ⟨a', rfl, hr⟩
    · cases a' with
      | nil => exact .inl ((List.cons.inj hr).2 ▸ hdemand)
      | cons e a' => exact .inr (closed_space hdemand.closed (List.cons.inj hr).2 hc)
    · cases a' with
      | nil => exact .inl ((List.cons.inj hr).2 ▸ hdemand)
      | cons e a' =>
        obtain ⟨rfl, -⟩ := List.cons.inj hr
        rw [hspaces c (by simp)] at hc
        cases hc

/-! ### The matches -/

/-- Some symbols, each of a class. -/
def Run (p : CodePoint → Bool) (t : Text) : Prop := t ≠ [] ∧ ∀ c ∈ t, p c = true

theorem wordCodes_append (v w : String) : wordCodes (v ++ w) = wordCodes v ++ wordCodes w := by
  simp [wordCodes]

variable {prev next : Option CodePoint} {m : Text}

theorem matches_core : minimumLengthCore.Matches prev m next ↔
    ∃ s d, m = s ++ d ∧ Run CodePoint.isSpace s ∧ Demand allVerbs d := by
  simp only [minimumLengthCore, matches_seq, matches_alt, matches_plus, matches_word]
  constructor
  · rintro ⟨_, b, rfl, ⟨_, n, rfl, ⟨_, w, rfl, ⟨s, v, rfl, hs, hv⟩, hw⟩, hn⟩, hb⟩
    refine ⟨s, v ++ w ++ n ++ b, by simp, hs, v ++ w, n, b, rfl, ?_, hn.1, hn.2, hb⟩
    have hreads : ∀ verb, v.map CodePoint.lower = wordCodes verb → ReadsAs (verb ++ " a minimum length of ") (v ++ w) := by
      intro verb hverb
      rw [ReadsAs, List.map_append, hverb, hw, wordCodes_append]
    rcases hv with hv | hv | hv | hv
    · exact ⟨"with", by decide, hreads _ hv⟩
    · exact ⟨"and have", by decide, hreads _ hv⟩
    · exact ⟨"have", by decide, hreads _ hv⟩
    · exact ⟨"has", by decide, hreads _ hv⟩
  · rintro ⟨s, _, rfl, hs, a, n, b, rfl, ⟨verb, hverb, ha⟩, hne, hn, hb⟩
    rw [ReadsAs, wordCodes_append] at ha
    obtain ⟨v, w, rfl, hv, hw⟩ := List.map_eq_append_iff.mp ha
    refine ⟨s ++ v ++ w ++ n, b, by simp, ⟨s ++ v ++ w, n, rfl, ⟨s ++ v, w, rfl, ⟨s, v, rfl, hs, ?_⟩, hw⟩, hne, hn⟩, hb⟩
    simp only [verbs, List.mem_cons, List.not_mem_nil, or_false] at hverb
    rcases hverb with rfl | rfl | rfl | rfl
    · exact .inr (.inl hv)
    · exact .inl hv
    · exact .inr (.inr (.inl hv))
    · exact .inr (.inr (.inr hv))

/-- A full stop, or nothing. -/
def FullStop (t : Text) : Prop := t = [] ∨ t = [.dot]

theorem matches_stop : (opt (· == CodePoint.dot)).Matches prev m next ↔ FullStop m := by
  rw [matches_opt]
  refine or_congr_right ?_
  constructor
  · rintro ⟨c, rfl, hc⟩
    rw [eq_of_beq hc]
  · rintro rfl
    exact ⟨_, rfl, beq_self_eq_true _⟩

theorem matches_minimumLength : minimumLength.Matches prev m next ↔
    ∃ s d stop, m = s ++ d ++ stop ∧ Run CodePoint.isSpace s ∧ Demand allVerbs d ∧ FullStop stop := by
  simp only [minimumLength, matches_seq, matches_core, matches_stop]
  constructor
  · rintro ⟨_, stop, rfl, ⟨s, d, rfl, hs, hd⟩, hstop⟩
    exact ⟨s, d, stop, rfl, hs, hd, hstop⟩
  · rintro ⟨s, d, stop, rfl, hs, hd, hstop⟩
    exact ⟨s ++ d, stop, rfl, ⟨s, d, rfl, hs, hd⟩, hstop⟩

theorem matches_item : numberedMinimumItem.Matches prev m next ↔ Item m := by
  have hcodes : wordCodes "Have a minimum length of " = wordCodes ("have" ++ " a minimum length of ") := by decide
  simp only [numberedMinimumItem, matches_seq, matches_plus, matches_word, matches_one, beq_iff_eq, hcodes]
  constructor
  · rintro ⟨_, b, rfl, ⟨_, n, rfl, ⟨_, a, rfl, ⟨_, r, rfl, ⟨k, _, rfl, hk, _, rfl, rfl⟩, hr⟩, ha⟩, hn⟩, hb⟩
    exact ⟨k, r, a ++ n ++ b, by simp, hk.1, hk.2, hr.1, hr.2, a, n, b, rfl, ⟨"have", List.mem_singleton_self _, ha⟩,
      hn.1, hn.2, hb⟩
  · rintro ⟨k, r, _, rfl, hk, hdigits, hr, hspaces, a, n, b, rfl, ⟨verb, hverb, ha⟩, hn, hcount, hb⟩
    obtain rfl := List.mem_singleton.mp hverb
    refine ⟨k ++ [.dot] ++ r ++ a ++ n, b, by simp, ⟨k ++ [.dot] ++ r ++ a, n, rfl, ?_, hn, hcount⟩, hb⟩
    exact ⟨k ++ [.dot] ++ r, a, rfl, ⟨k ++ [.dot], r, rfl, ⟨k, [.dot], rfl, ⟨hk, hdigits⟩, .dot, rfl, rfl⟩, hr, hspaces⟩, ha⟩

theorem matches_numberedMinimum : numberedMinimum.Matches prev m next ↔
    isLineStart prev = true ∧ isLineEnd next = true ∧ ∃ s i s', m = s ++ i ++ s' ∧
      (∀ c ∈ s, c.isSpace = true) ∧ Item i ∧ ∀ c ∈ s', c.isSpace = true := by
  simp only [numberedMinimum, matches_seq, matches_item, matches_many]
  constructor
  · rintro ⟨_, _, rfl, ⟨_, s', rfl, ⟨_, i, rfl, ⟨_, s, rfl, ⟨rfl, hstart⟩, hs⟩, hi⟩, hs'⟩, rfl, hend⟩
    exact ⟨hstart, hend, s, i, s', List.append_nil _, hs, hi, hs'⟩
  · rintro ⟨hstart, hend, s, i, s', rfl, hs, hi, hs'⟩
    exact ⟨s ++ i ++ s', [], (List.append_nil _).symm, ⟨s ++ i, s', rfl, ⟨s, i, rfl, ⟨[], s, rfl, ⟨rfl, hstart⟩, hs⟩, hi⟩, hs'⟩,
      rfl, hend⟩

theorem matches_atLeast : atLeast.Matches prev m next ↔ ∃ s a n b stop, m = s ++ a ++ n ++ b ++ stop ∧
    Run CodePoint.isSpace s ∧ ReadsAs "and at least " a ∧ Run isCount n ∧ ReadsAs " words" b ∧ FullStop stop := by
  simp only [atLeast, matches_seq, matches_plus, matches_word, matches_stop]
  constructor
  · rintro ⟨_, stop, rfl, ⟨_, b, rfl, ⟨_, n, rfl, ⟨s, a, rfl, hs, ha⟩, hn⟩, hb⟩, hstop⟩
    exact ⟨s, a, n, b, stop, rfl, hs, ha, hn, hb, hstop⟩
  · rintro ⟨s, a, n, b, stop, rfl, hs, ha, hn, hb, hstop⟩
    exact ⟨_, stop, rfl, ⟨_, b, rfl, ⟨_, n, rfl, ⟨s, a, rfl, hs, ha⟩, hn⟩, hb⟩, hstop⟩

/-! ### Where a match begins, and what is behind a space of it -/

/-- The first two kinds of what can be behind the spaces of a match. -/
def openings : List (Nat × Nat) := [(97, 110), (119, 105), (104, 97)]

def Opening (t : Text) : Prop := ∃ y z r, t = y :: z :: r ∧ (y.kind, z.kind) ∈ openings

theorem not_opening_of_closed {z : CodePoint} {t : Text} (h : closedPair c.kind z.kind = true) : ¬ Opening (c :: z :: t) := by
  rintro ⟨y', z', r, heq, hmem⟩
  obtain ⟨rfl, rfl, rfl⟩ : c = y' ∧ z = z' ∧ t = r := by simpa using heq
  simp only [openings, List.mem_cons, Prod.mk.injEq, List.not_mem_nil, or_false] at hmem
  rcases hmem with ⟨hy, hz⟩ | ⟨hy, hz⟩ | ⟨hy, hz⟩ <;> rw [hy, hz] at h <;> revert h <;> decide

theorem not_opening_of_space {z : CodePoint} {t : Text} (h : z.isSpace = true) : ¬ Opening (c :: z :: t) := by
  rintro ⟨y', z', r, heq, hmem⟩
  obtain ⟨rfl, rfl, rfl⟩ : c = y' ∧ z = z' ∧ t = r := by simpa using heq
  have hall : ∀ p ∈ openings, isSpaceCode p.2 = false := by decide
  rw [← CodePoint.isSpaceCode_kind, hall _ hmem] at h
  cases h

theorem Opening.not_space {t : Text} (h : Opening (c :: t)) : c.isSpace = false := by
  obtain ⟨y, z, r, heq, hmem⟩ := h
  obtain ⟨rfl, -⟩ := List.cons.inj heq
  have hall : ∀ p ∈ openings, isSpaceCode p.1 = false := by decide
  have hspace := hall _ hmem
  rw [← CodePoint.isSpaceCode_kind]
  exact hspace

theorem Opening.append {t : Text} (h : Opening t) (r : Text) : Opening (t ++ r) := by
  obtain ⟨y, z, t', rfl, hmem⟩ := h
  exact ⟨y, z, t' ++ r, rfl, hmem⟩

/-- `and at least 5 words`. -/
def AtLeast (t : Text) : Prop :=
  ∃ a n b, t = a ++ n ++ b ∧ ReadsAs "and at least " a ∧ Run isCount n ∧ ReadsAs " words" b

theorem AtLeast.codes (h : AtLeast x) : ∃ count, x.map CodePoint.kind = wordCodes "and at least " ++ count ++ wordCodes " words" ∧
    count ≠ [] ∧ ∀ k ∈ count, IsCountCode k := by
  obtain ⟨a, n, b, rfl, ha, ⟨hne, hn⟩, hb⟩ := h
  exact phrase_codes (by decide) ha hne hn hb

theorem AtLeast.closed (h : AtLeast x) : closed (x.map CodePoint.kind) = true := by
  obtain ⟨count, hx, hne, hcount⟩ := h.codes
  rw [hx]
  exact closed_phrase (by decide) hne hcount

theorem AtLeast.head (h : AtLeast x) : ∃ y z r, x = y :: z :: r ∧ y.kind = 97 ∧ z.kind = 110 := by
  obtain ⟨count, hx, -, -⟩ := h.codes
  have hcodes : wordCodes "and at least " = 97 :: 110 :: (wordCodes "and at least ").drop 2 := by decide
  rw [hcodes] at hx
  obtain ⟨y, r, rfl, hy, hr⟩ := List.map_eq_cons_iff.mp hx
  obtain ⟨z, r, rfl, hz, -⟩ := List.map_eq_cons_iff.mp hr
  exact ⟨y, z, r, rfl, hy, hz⟩

theorem AtLeast.opening (h : AtLeast x) : Opening x := by
  obtain ⟨y, z, r, rfl, hy, hz⟩ := h.head
  exact ⟨y, z, r, rfl, by rw [hy, hz]; decide⟩

theorem Demand.opening (h : Demand allVerbs x) : Opening x := by
  rcases h.cases with h | ⟨a, c, r, rfl, -, ha, -⟩
  · obtain ⟨y, z, r, rfl, ⟨hy, hz⟩ | ⟨hy, hz⟩⟩ := h.head
    · exact ⟨y, z, r, rfl, by rw [hy, hz]; decide⟩
    · exact ⟨y, z, r, rfl, by rw [hy, hz]; decide⟩
  · have hcodes : wordCodes "and" = [97, 110, 100] := by decide
    rw [hcodes] at ha
    obtain ⟨y, b, rfl, hy, hb⟩ := List.map_eq_cons_iff.mp ha
    obtain ⟨z, b, rfl, hz, -⟩ := List.map_eq_cons_iff.mp hb
    exact ⟨y, z, b ++ c :: r, rfl, by rw [hy, hz]; decide⟩

theorem Demand.head_not_space (h : Demand allVerbs x) (r : Text) : ∀ c ∈ (x ++ r).head?, c.isSpace = false := by
  intro c hc
  cases x with
  | nil =>
    obtain ⟨y, z, x, heq, -⟩ := h.opening
    cases heq
  | cons y x =>
    obtain rfl := Option.some.inj hc
    exact h.opening.not_space

/-- A match is spaces with what opens behind them. -/
theorem opening_of_match {r : Pattern CodePoint} (hr : r = minimumLength ∨ r = atLeast) (h : r.Matches prev m next) :
    ∃ s o, m = s ++ o ∧ Run CodePoint.isSpace s ∧ Opening o := by
  rcases hr with rfl | rfl
  · obtain ⟨s, d, stop, rfl, hs, hd, -⟩ := matches_minimumLength.mp h
    exact ⟨s, d ++ stop, List.append_assoc .., hs, hd.opening.append stop⟩
  · obtain ⟨s, a, n, b, stop, rfl, hs, ha, hn, hb, -⟩ := matches_atLeast.mp h
    exact ⟨s, a ++ n ++ b ++ stop, by simp, hs, AtLeast.opening ⟨a, n, b, rfl, ha, hn, hb⟩ |>.append stop⟩

theorem closedPair_not_space {z : CodePoint} (h : closedPair c.kind z.kind = true) : c.isSpace = false := by
  simp only [closedPair, Bool.and_eq_true, Bool.not_eq_true'] at h
  rw [← CodePoint.isSpaceCode_kind]
  exact h.1.1.1

/-- A match begins with a space, and behind it are more or something that opens. -/
theorem begin_of_match {r : Pattern CodePoint} (hr : r = minimumLength ∨ r = atLeast) (h : r.Matches prev m next)
    {rest t : Text} (heq : c :: t = m ++ rest) :
    c.isSpace = true ∧ (Opening t ∨ ∃ z t', t = z :: t' ∧ z.isSpace = true) := by
  obtain ⟨s, o, rfl, ⟨hne, hs⟩, ho⟩ := opening_of_match hr h
  cases s with
  | nil => exact absurd rfl hne
  | cons c' s =>
    obtain ⟨rfl, rfl⟩ : c = c' ∧ t = s ++ o ++ rest := by simpa using heq
    refine ⟨hs c (List.mem_cons_self ..), ?_⟩
    cases s with
    | nil => exact .inl (ho.append rest)
    | cons z s => exact .inr ⟨z, _, rfl, hs z (by simp)⟩

theorem AtLeast.plain (h : AtLeast x) : ∀ c ∈ x, c ≠ .newline ∧ c ≠ .dot := by
  obtain ⟨count, hx, -, hcount⟩ := h.codes
  exact phrase_plain (by decide) hx hcount

/-- A text that begins as a demand, and is perhaps interrupted behind its first symbol. -/
def Begins (t : Text) : Prop := ∃ y z r, t = y :: z :: r ∧
  (y.kind = 119 ∧ (z.kind = 105 ∨ z.isSpace = true) ∨ y.kind = 104 ∧ (z.kind = 97 ∨ z.isSpace = true))

theorem Demand.begins (h : Demand verbs x) (r : Text) : Begins (x ++ r) := by
  obtain ⟨y, z, x', rfl, hkind⟩ := h.head
  exact ⟨y, z, x' ++ r, rfl, hkind.imp (And.imp_right .inl) (And.imp_right .inl)⟩

theorem Begins.kind {t : Text} (h : Begins (c :: t)) : c.kind = 119 ∨ c.kind = 104 := by
  obtain ⟨y, z, r, heq, hkind⟩ := h
  obtain ⟨rfl, -⟩ := List.cons.inj heq
  exact hkind.imp And.left And.left

theorem Begins.not_space {t : Text} (h : Begins (c :: t)) : c.isSpace = false := by
  rcases h.kind with hc | hc <;> exact CodePoint.not_space_of_kind hc (by decide)

theorem not_begins_of_closed {z : CodePoint} {t : Text} (h : closedPair c.kind z.kind = true) : ¬ Begins (c :: z :: t) := by
  rintro ⟨y', z', r, heq, hkind⟩
  obtain ⟨rfl, rfl, rfl⟩ : c = y' ∧ z = z' ∧ t = r := by simpa using heq
  rcases hkind with ⟨hy, hz⟩ | ⟨hy, hz⟩
  · rw [hy] at h
    simp only [closedPair, Bool.and_eq_true, Bool.or_eq_true, bne_self_eq_false, Bool.false_eq_true, false_or,
      beq_iff_eq] at h
    have ho : z.kind = 111 := h.1.2
    rcases hz with hz | hz
    · rw [hz] at ho
      cases ho
    · rw [CodePoint.not_space_of_kind ho (by decide)] at hz
      cases hz
  · rw [hy] at h
    simp only [closedPair, bne_self_eq_false, Bool.and_false, Bool.false_and, Bool.false_eq_true] at h

/-- What is behind a space of a match: something that is a `D`, or nothing that begins as a
demand. -/
def BehindSpace (D : Text → Prop) (t : Text) : Prop := (∃ x r, t = x ++ r ∧ D x) ∨ ¬ Begins t

section
variable {D : Text → Prop}

theorem behindSpace_of_head {t : Text} (h : c.kind ≠ 119 ∧ c.kind ≠ 104) : BehindSpace D (c :: t) :=
  .inr fun hbegins => hbegins.kind.elim h.1 h.2

theorem behindSpace_of_space {t : Text} (h : c.isSpace = true) : BehindSpace D (c :: t) :=
  .inr fun hbegins => by
    rw [hbegins.not_space] at h
    cases h

/-- Behind the last of some spaces is what is behind them all. -/
theorem behindSpace_append {s t : Text} (hs : ∀ c ∈ s, c.isSpace = true) (h : BehindSpace D t) :
    BehindSpace D (s ++ t) := by
  cases s with
  | nil => exact h
  | cons c s => exact behindSpace_of_space (hs c (List.mem_cons_self ..))

/-- Behind a space in some symbols with a full stop or nothing behind them. -/
theorem behindSpace_stop {o m₁ m₂ stop v : Text} (hstop : FullStop stop) (heq : o ++ stop = m₁ ++ c :: m₂)
    (hc : c.isSpace = true) (ho : ∀ r, o = m₁ ++ c :: r → BehindSpace D (r ++ (stop ++ v))) :
    BehindSpace D (m₂ ++ v) := by
  rcases append_cons_cases heq.symm with ⟨r, hr, rfl⟩ | ⟨m', -, hr⟩
  · rw [List.append_assoc]
    exact ho r hr
  · rcases hstop with rfl | rfl
    · simp at hr
    · obtain ⟨-, rfl, -⟩ : m' = [] ∧ CodePoint.dot = c ∧ m₂ = [] := by
        cases m' with
        | nil => simpa [eq_comm] using hr
        | cons d m' => simp at hr
      exact absurd hc (by decide)

end

theorem behindSpace_minimumLength {m₁ m₂ v : Text} (h : minimumLength.Matches prev (m₁ ++ c :: m₂) v.head?)
    (hc : c.isSpace = true) : BehindSpace (Demand verbs) (m₂ ++ v) := by
  obtain ⟨s, d, stop, heq, ⟨-, hs⟩, hd, hstop⟩ := matches_minimumLength.mp h
  rw [List.append_assoc] at heq
  rcases append_cons_cases heq with ⟨s', rfl, rfl⟩ | ⟨m', -, htail⟩
  · rw [List.append_assoc]
    refine behindSpace_append (fun e he => hs e (by simp [he])) ?_
    rcases hd.cases with hd | ⟨a, e, y, rfl, hne, ha, -⟩
    · exact .inl ⟨d, stop ++ v, List.append_assoc .., hd⟩
    · cases a with
      | nil => exact absurd rfl hne
      | cons b a =>
        have hb : b.kind = 97 := (List.cons.inj ha).1
        exact behindSpace_of_head (by rw [hb]; decide)
  · refine behindSpace_stop hstop htail hc fun r hr => ?_
    rcases hd.behind_space hr hc with hdemand | ⟨z, z', r', rfl, hpair⟩
    · exact .inl ⟨r, stop ++ v, rfl, hdemand⟩
    · exact .inr (not_begins_of_closed hpair)

/-- In a match of `atLeast` no demand stands behind a space. -/
theorem behindSpace_atLeast {m₁ m₂ v : Text} (h : atLeast.Matches prev (m₁ ++ c :: m₂) v.head?)
    (hc : c.isSpace = true) : BehindSpace (fun _ => False) (m₂ ++ v) := by
  obtain ⟨s, a, n, b, stop, heq, ⟨-, hs⟩, ha, hn, hb, hstop⟩ := matches_atLeast.mp h
  have hat : AtLeast (a ++ n ++ b) := ⟨a, n, b, rfl, ha, hn, hb⟩
  rw [show s ++ a ++ n ++ b ++ stop = s ++ (a ++ n ++ b ++ stop) by simp] at heq
  rcases append_cons_cases heq with ⟨s', rfl, rfl⟩ | ⟨m', -, htail⟩
  · rw [List.append_assoc]
    refine behindSpace_append (fun e he => hs e (by simp [he])) ?_
    obtain ⟨y, z, r, hr, hy, -⟩ := hat.head
    rw [hr]
    exact behindSpace_of_head (by rw [hy]; decide)
  · refine behindSpace_stop hstop htail hc fun r hr => ?_
    obtain ⟨z, z', r', rfl, hpair⟩ := closed_space hat.closed hr hc
    exact .inr (not_begins_of_closed hpair)

/-- Behind a space of a numbered line is its demand, or nothing that begins as one. -/
theorem behindSpace_numberedMinimum {m₁ m₂ v : Text} (h : numberedMinimum.Matches prev (m₁ ++ c :: m₂) v.head?)
    (hc : c.isSpace = true) : BehindSpace (Demand verbs) (m₂ ++ v) := by
  obtain ⟨-, hend, s, _, s', heq, hs, ⟨n, r, b, rfl, hne, hn, -, hr, hb⟩, hs'⟩ := matches_numberedMinimum.mp h
  rw [show s ++ (n ++ .dot :: (r ++ b)) ++ s' = s ++ (n ++ .dot :: (r ++ (b ++ s'))) by simp] at heq
  rcases append_cons_cases heq with ⟨s₂, rfl, rfl⟩ | ⟨o, -, heq⟩
  -- In the spaces before the number.
  · rw [List.append_assoc]
    refine behindSpace_append (fun e he => hs e (by simp [he])) ?_
    cases n with
    | nil => exact absurd rfl hne
    | cons d n =>
      have hd := CodePoint.kind_of_digit (hn d (List.mem_cons_self ..))
      exact behindSpace_of_head (by rw [hd]; decide)
  · rcases append_cons_cases heq.symm with ⟨n₂, rfl, -⟩ | ⟨o', -, heq⟩
    · have hdigit := isSpaceCode_of_digit (hn c (by simp))
      rw [CodePoint.isSpace, hdigit] at hc
      cases hc
    · cases o' with
      | nil =>
        obtain ⟨rfl, -⟩ := List.cons.inj heq
        exact absurd hc (by decide)
      | cons e o' =>
        obtain ⟨-, heq⟩ := List.cons.inj heq
        rcases append_cons_cases heq.symm with ⟨r₂, rfl, rfl⟩ | ⟨k, -, heq⟩
        -- In the spaces behind the number.
        · rw [List.append_assoc]
          refine behindSpace_append (fun e he => hr e (by simp [he])) ?_
          exact .inl ⟨b, s' ++ v, List.append_assoc .., hb.mono (by decide)⟩
        · rcases append_cons_cases heq.symm with ⟨b₂, hb₂, rfl⟩ | ⟨l, -, rfl⟩
          · have hdemand : Demand verbs b := hb.mono (by decide)
            obtain ⟨z, z', r', rfl, hpair⟩ := closed_space hdemand.closed hb₂ hc
            exact .inr (not_begins_of_closed hpair)
          -- In the spaces at the end of the line.
          · refine behindSpace_append (fun e he => hs' e (by simp [he])) ?_
            cases v with
            | nil => exact .inr fun ⟨_, _, _, heq, _⟩ => by cases heq
            | cons d v =>
              have hd : d = .newline := isLineEnd_some.mp hend
              exact behindSpace_of_space (by rw [hd]; decide)

end
end ResearchGateway
