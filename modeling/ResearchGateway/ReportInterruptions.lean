import ResearchGateway.ReportPasses

/-! Which prompts still ask for a minimum length after the rewriting.

The second substitution takes the blocks out of an interrupted demand and leaves the demand;
conversely a demand in its result was in the text, with blocks in it, or it would have been a
match itself. The first substitution does the same to the items between the spaces before a
block. Together they leave a demand exactly in the prompts that are interrupted
(`shown_iff_interrupted`). -/
namespace ResearchGateway
open Library Pattern

/-- Nothing but spaces. -/
def Blank (t : Text) : Prop := ∀ c ∈ t, c.isSpace = true

section
variable {L L' : Text → Prop} {q : LeadState} {c e z : CodePoint} {d i lead r t v w x y : Text}
  {prev : Option CodePoint}

/-! ### Blocks and threads -/

theorem Lead.uncons (h : Lead q t) : (t = [] ∧ q ≠ .afterItem) ∨
    (∃ c r, t = c :: r ∧ c.isSpace = true ∧ Lead (q.space c) r) ∨
      ∃ i r, t = i ++ r ∧ q = .broken ∧ Item i ∧ Lead .afterItem r := by
  cases h with
  | nil hq => exact .inl ⟨rfl, hq⟩
  | space hc ht => exact .inr (.inl ⟨_, _, rfl, hc, ht⟩)
  | item hi ht => exact .inr (.inr ⟨_, _, rfl, rfl, hi, ht⟩)

theorem lead_of_blank (h : Blank t) (hq : q ≠ .afterItem) : Lead q t := by
  induction t generalizing q with
  | nil => exact .nil hq
  | cons c t ih =>
    obtain ⟨hc, ht⟩ := List.forall_mem_cons.mp h
    refine .space hc (ih ht ?_)
    unfold LeadState.space
    split
    · decide
    · exact hq

/-- Before the first line break there are spaces only. -/
theorem Lead.head_space (h : Lead q (c :: t)) (hq : q ≠ .broken) : c.isSpace = true ∧ Lead (q.space c) t := by
  rcases h.uncons with ⟨hnil, -⟩ | ⟨d, r, heq, hd, hr⟩ | ⟨-, -, -, hbroken, -⟩
  · cases hnil
  · obtain ⟨rfl, rfl⟩ := List.cons.inj heq
    exact ⟨hd, hr⟩
  · exact absurd hbroken hq

theorem Block.mono (h : Block L d) (hsub : ∀ t, L t → L' t) : Block L' d := by
  obtain ⟨lead, demand, stop, rfl, hne, hlead, hrest⟩ := h
  exact ⟨lead, demand, stop, rfl, hne, hsub lead hlead, hrest⟩

theorem Threaded.mono (h : Threaded L c x w) (hsub : ∀ t, L t → L' t) : Threaded L' c x w := by
  induction h with
  | nil => exact .nil
  | symbol _ ih => exact .symbol ih
  | block hc hd hx _ ih => exact .block hc (hd.mono hsub) hx ih

theorem Threaded.sublist (h : Threaded L c x w) : x.Sublist w := by
  induction h with
  | nil => exact List.Sublist.refl _
  | symbol _ ih => exact ih.cons_cons _
  | block _ _ _ _ ih => exact ih.trans (List.sublist_append_right _ _)

theorem block_cons (h : Block (Lead .start) d) : ∃ c r, d = c :: r ∧ c.isSpace = true := by
  obtain ⟨lead, demand, stop, rfl, hne, hlead, -⟩ := h
  cases lead with
  | nil => exact absurd rfl hne
  | cons c lead => exact ⟨c, _, rfl, (hlead.head_space (by decide)).1⟩

/-- A thread begins with the first symbol of its text, or with the space of a block. -/
theorem Threaded.head (h : Threaded (Lead .start) c (z :: x) w) :
    ∃ z' w', w = z' :: w' ∧ (z' = z ∨ z'.isSpace = true) := by
  cases h with
  | symbol _ => exact ⟨z, _, rfl, .inl rfl⟩
  | block _ hd _ _ =>
    obtain ⟨s, r, rfl, hs⟩ := block_cons hd
    exact ⟨s, _, rfl, .inr hs⟩

/-- Behind a space no block stands. -/
theorem Threaded.behind_space (h : Threaded L c (z :: x) w) (hc : c.isSpace = true) :
    ∃ w', w = z :: w' ∧ Threaded L z x w' := by
  cases h with
  | symbol h => exact ⟨_, rfl, h⟩
  | block hc' =>
    rw [hc] at hc'
    cases hc'

/-- An interrupted demand begins as one. -/
theorem Threaded.begins (h : Threaded (Lead .start) c x w) (hc : c.isSpace = true) (hx : Demand verbs x) (v : Text) :
    Begins (w ++ v) := by
  obtain ⟨y, z, r, rfl, hkind⟩ := hx.head
  obtain ⟨w, rfl, hw⟩ := h.behind_space hc
  obtain ⟨z', w, rfl, hz'⟩ := hw.head
  refine ⟨y, z', w ++ v, rfl, ?_⟩
  rcases hz' with rfl | hspace
  · exact hkind.imp (And.imp_right .inl) (And.imp_right .inl)
  · exact hkind.imp (And.imp_right fun _ => .inr hspace) (And.imp_right fun _ => .inr hspace)

/-- The first block of a thread. -/
theorem Threaded.first_block (h : Threaded L c x w) : w = x ∨ ∃ x₁ x₂ d w₂, x = x₁ ++ x₂ ∧ x₂ ≠ [] ∧
    w = x₁ ++ (d ++ w₂) ∧ Block L d := by
  induction h with
  | nil => exact .inl rfl
  | @symbol prev c x w _ ih =>
    rcases ih with rfl | ⟨x₁, x₂, d, w₂, rfl, hne, rfl, hd⟩
    · exact .inl rfl
    · exact .inr ⟨c :: x₁, x₂, d, w₂, rfl, hne, rfl, hd⟩
  | block _ hd hx _ _ => exact .inr ⟨[], _, _, _, rfl, hx, rfl, hd⟩

/-- Where a demand is interrupted, no demand stands uninterrupted. -/
theorem Threaded.not_demand (h : Threaded (Lead .start) c x w) (hx : Demand verbs x) (hne : w ≠ x)
    (hy : Demand verbs y) : w ++ v ≠ y ++ r := by
  intro heq
  rcases h.first_block with rfl | ⟨x₁, x₂, d, w₂, rfl, hx₂, rfl, hd⟩
  · exact hne rfl
  rw [List.append_assoc, List.append_assoc] at heq
  rcases List.append_eq_append_iff.mp heq with ⟨a, rfl, hd'⟩ | ⟨a, rfl, -⟩
  · cases a with
    | nil =>
      rw [List.append_nil] at hy
      exact hx₂ (hx.all.eq_of_append hy.all)
    | cons s a =>
      obtain ⟨lead, demand, stop, rfl, hlead, hstart, hdemand, -⟩ := hd
      cases lead with
      | nil => exact hlead rfl
      | cons s' lead =>
        obtain ⟨rfl, htail⟩ := List.cons.inj hd'
        obtain ⟨hs, hlead'⟩ := hstart.head_space (by decide)
        obtain ⟨z, z', a, rfl, hpair⟩ := closed_space hy.closed rfl hs
        have hplain : s' ≠ .newline := (hy.all.plain s' (by simp)).1
        cases lead with
        | nil =>
          have hopen : demand ++ (stop ++ (w₂ ++ v)) = z :: z' :: (a ++ r) := by simpa using htail
          exact not_opening_of_closed hpair (hopen ▸ hdemand.opening.append _)
        | cons e lead =>
          obtain ⟨rfl, -⟩ := List.cons.inj htail
          rw [LeadState.space, if_neg hplain] at hlead'
          have hspace := (hlead'.head_space (by decide)).1
          rw [closedPair_not_space hpair] at hspace
          cases hspace
  · rw [List.append_assoc] at hx
    have hnil := hx.all.eq_of_append hy.all
    exact hx₂ (List.append_eq_nil_iff.mp hnil).2

/-- An interrupted demand is not what is behind a space of a match. -/
theorem Threaded.not_behindSpace (h : Threaded (Lead .start) c x w) (hc : c.isSpace = true) (hx : Demand verbs x)
    (hne : w ≠ x) (v : Text) : ¬ BehindSpace (Demand verbs) (w ++ v) := by
  rintro (⟨y, r, heq, hy⟩ | hbegins)
  · exact h.not_demand hx hne hy heq
  · exact hbegins (h.begins hc hx v)

/-! ### The second substitution -/

/-- Before a symbol that is no full stop a block is the match that is deleted. -/
theorem first_block (h : Block Blank d) (ht : ∀ c ∈ t.head?, c ≠ .dot) :
    minimumLength.first prev (d ++ t) = some (d, t) := by
  obtain ⟨s, demand, stop, rfl, hne, hs, hdemand, hstop⟩ := h
  rw [List.append_assoc]
  apply first_seq
  · exact matches_core.mpr ⟨s, demand, rfl, ⟨hne, hs⟩, hdemand⟩
  · intro m rest heq hm
    obtain ⟨s', demand', rfl, ⟨-, hs'⟩, hdemand'⟩ := matches_core.mp hm
    rw [List.append_assoc, List.append_assoc] at heq
    obtain ⟨rfl, hrest⟩ := span_unique hs hs' (hdemand.head_not_space _) (hdemand'.head_not_space _) heq
    rcases List.append_eq_append_iff.mp hrest with ⟨a, rfl, -⟩ | ⟨a, rfl, -⟩
    · rw [hdemand'.eq_of_append hdemand, List.append_nil]
    · rw [hdemand.eq_of_append hdemand', List.append_nil]
  · rcases hstop with rfl | rfl
    · exact first_opt_of_head fun c hc => beq_false_of_ne (ht c hc)
    · exact first_opt CodePoint.dot (beq_self_eq_true _)

/-- The second substitution takes the blocks out. -/
theorem scan_threaded (h : Threaded Blank c x w) (hclosed : closed (x.map CodePoint.kind) = true)
    (hdot : CodePoint.dot ∉ x) (prev : Option CodePoint) (v : Text) :
    minimumLengthRule.scan prev (w ++ v) = x ++ minimumLengthRule.scan (lastOr prev w) v := by
  have hblank : ∀ t, Blank t → Lead .start t := fun t ht => lead_of_blank ht (by decide)
  induction h generalizing prev with
  | nil => rfl
  | @symbol prev' c x w hw ih =>
    have hnone : minimumLengthRule.pattern.first prev (c :: (w ++ v)) = none := by
      refine first_eq_none.mpr fun m rest hrest hm => ?_
      obtain ⟨hc, hbehind⟩ := begin_of_match (.inl rfl) hm hrest
      -- Behind a blank of the demand come two symbols, or one and the space of a block.
      obtain ⟨z, z', x, rfl, hpair⟩ := closed_space hclosed (List.nil_append _).symm hc
      obtain ⟨w', rfl, hw'⟩ := hw.behind_space hc
      obtain ⟨z₂, w₂, rfl, hz₂⟩ := (hw'.mono hblank).head
      rcases hbehind with hopen | ⟨y, t, hy, hspace⟩
      · rcases hz₂ with rfl | hz₂
        · exact not_opening_of_closed hpair hopen
        · exact not_opening_of_space hz₂ hopen
      · obtain ⟨rfl, -⟩ := List.cons.inj hy
        rw [closedPair_not_space hpair] at hspace
        cases hspace
    rw [List.map_cons, closed, Bool.and_eq_true] at hclosed
    rw [List.cons_append, Rule.scan_keep hnone, ih hclosed.2 fun hmem => hdot (List.mem_cons_of_mem _ hmem)]
    rfl
  | @block prev' d x w hc hd hx hw ih =>
    have hfirst : minimumLengthRule.pattern.first prev (d ++ (w ++ v)) = some (d, w ++ v) := by
      refine first_block hd fun c hc => ?_
      cases x with
      | nil => exact absurd rfl hx
      | cons z x =>
        obtain ⟨z', w', rfl, hz'⟩ := (hw.mono hblank).head
        obtain rfl := Option.some.inj hc
        rintro rfl
        rcases hz' with rfl | hspace
        · exact hdot (List.mem_cons_self ..)
        · exact absurd hspace (by decide)
    rw [List.append_assoc, Rule.scan_match hfirst, ih hclosed hdot, lastOr_append]
    rfl

/-- What the second substitution deletes is blocks. -/
theorem Threaded.deleted (h : Threaded Blank c x w) (hx : x ≠ []) {g rest : Text}
    (hg : minimumLengthRule.Deleted prev g rest) (hc : g ≠ [] → c.isSpace = false) : Threaded Blank c x (g ++ w) := by
  induction hg with
  | nil => exact h
  | @cons prev m g rest hfirst _ ih =>
    have hm := (first_eq_some hfirst).2
    obtain ⟨s, demand, stop, rfl, hs, hdemand, hstop⟩ := matches_minimumLength.mp hm
    have hcs : c.isSpace = false := hc (by simp [hs.1])
    rw [List.append_assoc]
    exact .block hcs ⟨s, demand, stop, rfl, hs.1, hs.2, hdemand, hstop⟩ hx (ih fun _ => hcs)

/-- A text that the second substitution leaves behind a symbol was there, with blocks in it. -/
theorem threaded_of_scan {o : Text} (hnone : minimumLength.first prev (c :: t) = none)
    (h : minimumLengthRule.scan (some c) t = x ++ o) : ∃ w v, t = w ++ v ∧ Threaded Blank c x w := by
  induction x generalizing c prev t with
  | nil => exact ⟨[], t, rfl, .nil⟩
  | cons y x ih =>
    obtain ⟨g, v, rfl, hdeleted, hnone', hscan⟩ := Rule.of_scan_eq_cons rfl h
    obtain ⟨w, v, rfl, hw⟩ := ih hnone' hscan
    refine ⟨g ++ y :: w, v, by simp, hw.symbol.deleted (List.cons_ne_nil _ _) hdeleted fun hg => ?_⟩
    cases hc : c.isSpace with
    | false => rfl
    | true =>
      -- A space before a match would have been a part of it.
      cases hdeleted with
      | nil => exact absurd rfl hg
      | @cons _ m g _ hfirst _ =>
        obtain ⟨s, demand, stop, rfl, ⟨-, hs⟩, hrest⟩ := matches_minimumLength.mp (first_eq_some hfirst).2
        refine absurd (first_eq_none.mp hnone (c :: (s ++ demand ++ stop)) (g ++ y :: (w ++ v)) (by simp)) (not_not.mpr ?_)
        refine matches_minimumLength.mpr ⟨c :: s, demand, stop, rfl, ⟨List.cons_ne_nil _ _, ?_⟩, hrest⟩
        exact List.forall_mem_cons.mpr ⟨hc, hs⟩

/-- The demands that the second substitution leaves are the uninterrupted ones. -/
theorem shown_minimumLength : Shown (Demand verbs) (minimumLengthRule.sub t) ↔
    ∃ c x w, c :: w <:+: t ∧ c.isSpace = true ∧ Demand verbs x ∧ Threaded Blank c x w ∧ w ≠ x := by
  constructor
  · rintro ⟨c, x, ⟨o, o', heq⟩, hc, hx⟩
    rw [List.append_assoc, List.cons_append] at heq
    obtain ⟨u, v, rfl, hnone, hscan⟩ := Rule.of_scan_eq heq.symm (List.not_mem_nil)
    obtain ⟨w, v, rfl, hw⟩ := threaded_of_scan hnone hscan
    refine ⟨c, x, w, ⟨u, v, by simp⟩, hc, hx, hw, ?_⟩
    rintro rfl
    exact first_eq_none.mp hnone (c :: w) v rfl
      (matches_minimumLength.mpr ⟨[c], w, [], by simp, Run.singleton hc, hx.all, .inl rfl⟩)
  · rintro ⟨c, x, w, ⟨u, v, rfl⟩, hc, hx, hw, hne⟩
    have henter : ∀ prev m₁ m₂ v', minimumLengthRule.pattern.Matches prev (m₁ ++ c :: m₂) v'.head? → w ++ v ≠ m₂ ++ v' := by
      intro prev m₁ m₂ v' hm heq
      apply (hw.mono fun t ht => lead_of_blank ht (by decide)).not_behindSpace hc hx hne v
      rw [heq]
      exact behindSpace_minimumLength hm hc
    obtain ⟨o, ho⟩ := Rule.scan_enter henter none u
    have hkept := scan_threaded hw hx.closed (fun hmem => (hx.all.plain _ hmem).2 rfl) (some c) v
    refine ⟨c, x, ⟨o, minimumLengthRule.scan (lastOr (some c) w) v, ?_⟩, hc, hx⟩
    rw [Rule.sub, List.append_assoc, List.append_assoc, List.cons_append, List.cons_append, ho, hkept]

end
end ResearchGateway
