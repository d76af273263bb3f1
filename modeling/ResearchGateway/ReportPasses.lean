import ResearchGateway.ReportDemands

/-! What the substitutions keep.

A text shows a demand where one stands behind a space, which is where `minimumLength` matches.
The last substitution and the policy change nothing about that: a replaced match leaves a full
stop, no demand has one in it, and nothing of the policy reads as a demand. -/
namespace ResearchGateway
open Library Pattern

/-- Behind a space of the text is something that satisfies `D`. -/
def Shown (D : Text → Prop) (t : Text) : Prop := ∃ c x, c :: x <:+: t ∧ c.isSpace = true ∧ D x

section
variable {D : Text → Prop} {t u v x : Text} {c : CodePoint} {prev next : Option CodePoint}

theorem Shown.mono (h : Shown D t) (hsub : t <:+: u) : Shown D u := by
  obtain ⟨c, x, hx, hrest⟩ := h
  exact ⟨c, x, hx.trans hsub, hrest⟩

theorem Run.last {p : CodePoint → Bool} (h : Run p t) : ∃ s c, t = s ++ [c] ∧ p c = true := by
  obtain ⟨hne, hall⟩ := h
  exact ⟨t.dropLast, t.getLast hne, (List.dropLast_append_getLast hne).symm, hall _ (List.getLast_mem hne)⟩

theorem Run.singleton {p : CodePoint → Bool} (h : p c = true) : Run p [c] :=
  ⟨List.cons_ne_nil _ _, fun d hd => by rw [List.mem_singleton.mp hd, h]⟩

theorem found_minimumLength : minimumLength.found none t = true ↔ Shown (Demand verbs) t := by
  rw [found_iff]
  constructor
  · rintro ⟨u, _, v, rfl, hm⟩
    obtain ⟨s, d, stop, rfl, hs, hd, -⟩ := matches_minimumLength.mp hm
    rcases hd.cases with hd | ⟨a, c, y, rfl, -, -, hc, hy⟩
    · obtain ⟨s, c, rfl, hc⟩ := hs.last
      exact ⟨c, d, ⟨u ++ s, stop ++ v, by simp⟩, hc, hd⟩
    · exact ⟨c, y, ⟨u ++ s ++ a, stop ++ v, by simp⟩, hc, hy⟩
  · rintro ⟨c, x, ⟨u, v, rfl⟩, hc, hx⟩
    exact ⟨u, c :: x, v, rfl, matches_minimumLength.mpr ⟨[c], x, [], by simp, Run.singleton hc, hx.all, .inl rfl⟩⟩

theorem found_atLeast : atLeast.found none t = true ↔ Shown AtLeast t := by
  rw [found_iff]
  constructor
  · rintro ⟨u, _, v, rfl, hm⟩
    obtain ⟨s, a, n, b, stop, rfl, hs, ha, hn, hb, -⟩ := matches_atLeast.mp hm
    obtain ⟨s, c, rfl, hc⟩ := hs.last
    exact ⟨c, a ++ n ++ b, ⟨u ++ s, stop ++ v, by simp⟩, hc, a, n, b, rfl, ha, hn, hb⟩
  · rintro ⟨c, _, ⟨u, v, rfl⟩, hc, a, n, b, rfl, ha, hn, hb⟩
    exact ⟨u, _, v, rfl, matches_atLeast.mpr ⟨[c], a, n, b, [], by simp, Run.singleton hc, ha, hn, hb, .inl rfl⟩⟩

/-- A numbered line has a demand in it. -/
theorem shown_of_numberedMinimum (h : numberedMinimum.found none t = true) : Shown (Demand verbs) t := by
  obtain ⟨u, _, v, rfl, hm⟩ := found_iff.mp h
  obtain ⟨-, -, s, _, s', rfl, -, ⟨n, r, b, rfl, -, -, hr, hspaces, hb⟩, -⟩ := matches_numberedMinimum.mp hm
  obtain ⟨r, c, rfl, hc⟩ := Run.last ⟨hr, hspaces⟩
  exact ⟨c, b, ⟨u ++ s ++ n ++ .dot :: r, s' ++ v, by simp⟩, hc, hb.mono (by decide)⟩

/-! ### The policy -/

/-- Something within a line is on one side of a line break. -/
theorem infix_append_newline (hx : CodePoint.newline ∉ x) (h : c :: x <:+: u ++ .newline :: v) :
    c :: x <:+: u ∨ c :: x <:+: .newline :: v := by
  obtain ⟨a, b, h⟩ := h
  rcases List.append_eq_append_iff.mp h with ⟨d, rfl, -⟩ | ⟨d, hd, h⟩
  · exact .inl ⟨a, d, rfl⟩
  · cases d with
    | nil => exact .inl ⟨a, [], by simpa using hd⟩
    | cons e d =>
      obtain ⟨rfl, rfl⟩ := List.cons.inj h
      rcases List.append_eq_append_iff.mp hd with ⟨e, rfl, hcx⟩ | ⟨e, rfl, hcx⟩
      · cases e with
        | nil => exact .inr ⟨[], b, by rw [hcx]; rfl⟩
        | cons e es =>
          obtain ⟨-, rfl⟩ := List.cons.inj hcx
          simp at hx
      · exact .inr ⟨e, b, by rw [← hcx]; rfl⟩

theorem prefix_rstrip (h : c.isSpace = false) : u ++ [c] <+: rstrip (u ++ [c] ++ v) := by
  induction v using List.reverseRecOn with
  | nil =>
    rw [List.append_nil, rstrip, List.rdropWhile_concat_neg _ _ _ (by rw [h]; exact Bool.false_ne_true)]
  | append_singleton v d ih =>
    rw [rstrip, ← List.append_assoc]
    cases hd : d.isSpace with
    | true =>
      rw [List.rdropWhile_concat_pos _ _ _ hd]
      exact ih
    | false =>
      rw [List.rdropWhile_concat_neg _ _ _ (by rw [hd]; exact Bool.false_ne_true), List.append_assoc]
      exact List.prefix_append ..

theorem policy_mem_appendPolicy (t : Text) : reportCompletenessPolicy <:+: appendPolicy t := by
  unfold appendPolicy
  split
  · assumption
  · exact ⟨_, _, rfl⟩

theorem appendPolicy_of_mem (h : reportCompletenessPolicy <:+: t) : appendPolicy t = t := if_pos h

/-- What the policy shows is nothing, so the whole shows what the text did. -/
theorem of_shown_appendPolicy (hD : ∀ x, D x → CodePoint.newline ∉ x)
    (hpolicy : ¬ Shown D (.ofString "\n\n" ++ reportCompletenessPolicy ++ .ofString "\n"))
    (h : Shown D (appendPolicy t)) : Shown D t := by
  unfold appendPolicy at h
  split at h
  · exact h
  · obtain ⟨c, x, hx, hc, hdx⟩ := h
    rw [List.append_assoc, List.append_assoc, ← List.append_assoc (Text.ofString "\n\n")] at hx
    rcases infix_append_newline (hD x hdx) hx with hx | hx
    · have hstrip := List.rdropWhile_prefix CodePoint.isSpace t
      exact ⟨c, x, hx.trans hstrip.isInfix, hc, hdx⟩
    · exact absurd ⟨c, x, hx, hc, hdx⟩ hpolicy

theorem Demand.newline (h : Demand verbs x) : CodePoint.newline ∉ x := fun hmem => (h.all.plain _ hmem).1 rfl

/-- What is appendedPolicy, symbol by symbol. -/
def appendedPolicy : Text := .ofString "\n\n" ++ reportCompletenessPolicy ++ .ofString "\n"

theorem not_found_appendedPolicy : minimumLength.found none appendedPolicy = false ∧ atLeast.found none appendedPolicy = false := by
  unfold appendedPolicy reportCompletenessPolicy
  simp only [Text.ofString_append]
  repeat rw [Text.ofString_ofList (h := rfl)]
  decide +kernel

theorem shown_appendPolicy : Shown (Demand verbs) (appendPolicy t) ↔ Shown (Demand verbs) t := by
  constructor
  · apply of_shown_appendPolicy
    · exact fun x => Demand.newline
    · rw [← found_minimumLength]
      exact ne_true_of_eq_false not_found_appendedPolicy.1
  · rintro ⟨c, x, ⟨u, v, rfl⟩, hc, hx⟩
    obtain ⟨y, d, rfl, hd⟩ := hx.all.last
    unfold appendPolicy
    split
    · exact ⟨c, _, ⟨u, v, rfl⟩, hc, hx⟩
    · have hpre : u ++ c :: y ++ [d] <+: rstrip (u ++ c :: y ++ [d] ++ v) :=
        prefix_rstrip (CodePoint.not_space_of_kind hd (by decide))
      refine ⟨c, y ++ [d], ?_, hc, hx⟩
      have hsuffix : c :: (y ++ [d]) <:+: u ++ c :: y ++ [d] := ⟨u, [], by simp⟩
      have heq : u ++ c :: (y ++ [d]) ++ v = u ++ c :: y ++ [d] ++ v := by simp
      rw [heq]
      rw [List.append_assoc, List.append_assoc]
      exact (hsuffix.trans hpre.isInfix).trans (List.prefix_append _ _).isInfix

/-! ### The last substitution -/

/-- What is shown behind the last substitution stood in the text, where no match begins. -/
theorem of_atLeast_sub (hD : ∀ x, D x → CodePoint.dot ∉ x) (h : Shown D (atLeastRule.sub t)) :
    ∃ u c x v, t = u ++ c :: (x ++ v) ∧ c.isSpace = true ∧ D x ∧
      atLeast.first (lastOr none u) (c :: (x ++ v)) = none := by
  obtain ⟨c, x, ⟨o, o', heq⟩, hc, hx⟩ := h
  have hdot : c ∉ atLeastRule.replacement := by
    intro hmem
    rw [List.mem_singleton.mp hmem] at hc
    exact absurd hc (by decide)
  rw [List.append_assoc, List.cons_append] at heq
  obtain ⟨u, v, rfl, hnone, hscan⟩ := Rule.of_scan_eq heq.symm hdot
  have hkept : ∀ d ∈ x, d ∉ atLeastRule.replacement := by
    intro d hd hmem
    rw [List.mem_singleton.mp hmem] at hd
    exact hD x hx hd
  obtain ⟨v, rfl, -⟩ := Rule.of_scan_eq_append (List.cons_ne_nil _ _) hkept hscan
  exact ⟨u, c, x, v, rfl, hc, hx, hnone⟩

theorem not_shown_atLeast : ¬ Shown AtLeast (atLeastRule.sub t) := by
  intro h
  obtain ⟨u, c, _, v, rfl, hc, ⟨a, n, b, rfl, ha, hn, hb⟩, hnone⟩ :=
    of_atLeast_sub (fun x hx hmem => (hx.plain _ hmem).2 rfl) h
  exact first_eq_none.mp hnone (c :: (a ++ n ++ b)) v rfl
    (matches_atLeast.mpr ⟨[c], a, n, b, [], by simp, Run.singleton hc, ha, hn, hb, .inl rfl⟩)

/-- No match of the last two begins within a demand. -/
theorem first_eq_none_of_demand {r : Pattern CodePoint} (hr : r = minimumLength ∨ r = atLeast) {x₁ x₂ : Text}
    (hx : Demand verbs x) (heq : x = x₁ ++ c :: x₂) : r.first prev (c :: (x₂ ++ v)) = none := by
  refine first_eq_none.mpr fun m rest hrest hm => ?_
  obtain ⟨hc, hbehind⟩ := begin_of_match hr hm hrest
  obtain ⟨z, z', x', rfl, hpair⟩ := closed_space hx.closed heq hc
  rcases hbehind with hopen | ⟨y, t, hy, hspace⟩
  · exact not_opening_of_closed hpair hopen
  · obtain ⟨rfl, -⟩ := List.cons.inj hy
    rw [closedPair_not_space hpair] at hspace
    cases hspace

/-- The last substitution neither makes a demand nor takes one out. -/
theorem shown_atLeast : Shown (Demand verbs) (atLeastRule.sub t) ↔ Shown (Demand verbs) t := by
  constructor
  · intro h
    obtain ⟨u, c, x, v, rfl, hc, hx, -⟩ := of_atLeast_sub (fun x hx hmem => (hx.all.plain _ hmem).2 rfl) h
    exact ⟨c, x, ⟨u, v, by simp⟩, hc, hx⟩
  · rintro ⟨c, x, ⟨u, v, rfl⟩, hc, hx⟩
    have henter : ∀ prev m₁ m₂ v', atLeastRule.pattern.Matches prev (m₁ ++ c :: m₂) v'.head? → x ++ v ≠ m₂ ++ v' := by
      intro prev m₁ m₂ v' hm heq
      rcases behindSpace_atLeast hm hc with ⟨_, _, -, hfalse⟩ | hbegins
      · exact hfalse
      · exact hbegins (heq ▸ hx.begins v)
    obtain ⟨o, ho⟩ := Rule.scan_enter henter none u
    have hkept : atLeastRule.scan (some c) (x ++ v) = x ++ atLeastRule.scan (lastOr (some c) x) v :=
      Rule.scan_kept fun x₁ d x₂ heq => first_eq_none_of_demand (.inr rfl) hx heq
    refine ⟨c, x, ⟨o, atLeastRule.scan (lastOr (some c) x) v, ?_⟩, hc, hx⟩
    rw [Rule.sub, List.append_assoc, List.append_assoc, List.cons_append, List.cons_append, ho, hkept]

end
end ResearchGateway
