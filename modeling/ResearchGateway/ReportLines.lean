import ResearchGateway.ReportInterruptions

/-! The numbered lines, and the whole rewriting.

The first substitution deletes whole lines. In an interrupted demand there are such lines only
between the spaces before a block, and of these it leaves spaces; what it leaves of the other
symbols is all of them, since no demand goes over a line break. -/
namespace ResearchGateway
open Library Pattern

section
variable {q : LeadState} {c z : CodePoint} {d i m o r s t u v w x y : Text} {prev next : Option CodePoint}

/-! ### Items and line breaks -/

theorem Item.head (h : Item i) : ∃ c r, i = c :: r ∧ c.isDigit = true := by
  obtain ⟨n, s, b, rfl, hne, hn, -⟩ := h
  cases n with
  | nil => exact absurd rfl hne
  | cons c n => exact ⟨c, _, rfl, hn c (List.mem_cons_self ..)⟩

theorem not_space_of_digit (h : c.isDigit = true) : c.isSpace = false := isSpaceCode_of_digit h

theorem Item.head_not_space (h : Item i) (r : Text) : ∀ c ∈ (i ++ r).head?, c.isSpace = false := by
  obtain ⟨d, i, rfl, hd⟩ := h.head
  intro c hc
  obtain rfl := Option.some.inj hc
  exact not_space_of_digit hd

/-- No item is the beginning of another one. -/
theorem Item.eq_of_append (h : Item (i ++ r)) (hi : Item i) : r = [] := by
  obtain ⟨n, s, b, heq, -, hn, -, hs, hb⟩ := h
  obtain ⟨n', s', b', rfl, -, hn', -, hs', hb'⟩ := hi
  have hdemand : Demand allVerbs b := hb.mono (by decide)
  have hdemand' : Demand allVerbs b' := hb'.mono (by decide)
  have hdot : ∀ t : Text, ∀ c ∈ (CodePoint.dot :: t).head?, c.isDigit = false := by
    intro t c hc
    obtain rfl := Option.some.inj hc
    decide
  have hhead := hdemand.head_not_space []
  rw [List.append_nil] at hhead
  rw [List.append_assoc, List.cons_append, List.append_assoc] at heq
  obtain ⟨rfl, hrest⟩ := span_unique hn' hn (hdot _) (hdot _) heq
  obtain ⟨rfl, rfl⟩ := span_unique hs' hs (hdemand'.head_not_space r) hhead (List.cons.inj hrest).2
  exact hdemand.eq_of_append hdemand'

theorem Item.last (h : Item i) : ∃ r c, i = r ++ [c] ∧ c.kind = 115 := by
  obtain ⟨n, s, b, rfl, -, -, -, -, hb⟩ := h
  have hdemand : Demand allVerbs b := hb.mono (by decide)
  obtain ⟨y, c, rfl, hc⟩ := hdemand.last
  exact ⟨n ++ .dot :: (s ++ y), c, by simp, hc⟩

theorem isLineStart_lastOr (hx : CodePoint.newline ∉ x) (h : isLineStart prev = false) :
    isLineStart (lastOr prev x) = false := by
  by_cases hnil : x = []
  · rw [hnil]
    exact h
  · obtain ⟨c, hc, hlast⟩ := lastOr_mem hnil prev
    rw [hlast]
    exact isLineStart_of_ne fun heq => hx (heq ▸ hc)

/-! ### What is left of a lead -/

/-- A space is one, whatever could begin there. -/
theorem Lead.of_space (h : Lead q (c :: t)) (hc : c.isSpace = true) : Lead (q.space c) t := by
  rcases h.uncons with ⟨hnil, -⟩ | ⟨d, r, heq, -, hr⟩ | ⟨i, r, heq, -, hi, -⟩
  · cases hnil
  · obtain ⟨rfl, rfl⟩ := List.cons.inj heq
    exact hr
  · have hspace := hi.head_not_space r c (by rw [← heq]; rfl)
    rw [hc] at hspace
    cases hspace

theorem space_newline (q : LeadState) : q.space .newline = .broken := if_pos rfl

theorem Lead.newline (h : Lead .broken t) (q : LeadState) : Lead q (.newline :: t) :=
  .space CodePoint.isSpace_newline (by rwa [space_newline])

/-- Behind spaces and a line break a line is broken. -/
theorem Lead.broken (h : Lead q (s ++ .newline :: t)) (hs : Blank s) : Lead .broken t := by
  induction s generalizing q with
  | nil => exact space_newline q ▸ h.of_space CodePoint.isSpace_newline
  | cons c s ih =>
    obtain ⟨hc, hs⟩ := List.forall_mem_cons.mp hs
    exact ih (h.of_space hc) hs

/-- Behind an item there are spaces up to a line break. -/
theorem Lead.after_item (h : Lead .afterItem t) : ∃ s r, t = s ++ .newline :: r ∧ Blank s := by
  generalize hq : LeadState.afterItem = q at h
  induction h with
  | nil hne => exact absurd hq.symm hne
  | @space q c t hc _ ih =>
    by_cases hnewline : c = .newline
    · rw [hnewline]
      exact ⟨[], t, rfl, List.forall_mem_nil _⟩
    · obtain ⟨s, r, rfl, hs⟩ := ih (by rw [LeadState.space, if_neg hnewline, hq])
      exact ⟨c :: s, r, rfl, List.forall_mem_cons.mpr ⟨hc, hs⟩⟩
  | item => cases hq

/-- The first item of a lead. -/
theorem Lead.first_item (h : Lead q t) (ht : ¬ Blank t) :
    ∃ s i r, t = s ++ (i ++ r) ∧ Blank s ∧ Item i ∧ Lead .afterItem r := by
  induction h with
  | nil => exact absurd (List.forall_mem_nil _) ht
  | @space q c t hc _ ih =>
    obtain ⟨s, i, r, rfl, hs, hrest⟩ := ih fun hblank => ht (List.forall_mem_cons.mpr ⟨hc, hblank⟩)
    exact ⟨c :: s, i, r, rfl, List.forall_mem_cons.mpr ⟨hc, hs⟩, hrest⟩
  | @item i t hi hlead _ => exact ⟨[], i, t, rfl, List.forall_mem_nil _, hi, hlead⟩

/-- Neither a space nor a digit is first. -/
def Lettered (t : Text) : Prop := ∃ c r, t = c :: r ∧ c.isSpace = false ∧ c.isDigit = false

theorem first_eq_none_of_lineStart (h : isLineStart prev = false) : numberedMinimumRule.pattern.first prev t = none := by
  refine first_eq_none.mpr fun m rest _ hm => ?_
  rw [(matches_numberedMinimum.mp hm).1] at h
  cases h

theorem first_eq_none_of_blank (hs : Blank s) (hy : Lettered y) : numberedMinimumRule.pattern.first prev (s ++ y) = none := by
  refine first_eq_none.mpr fun m rest heq hm => ?_
  obtain ⟨-, -, s', i, s'', rfl, hs', hi, -⟩ := matches_numberedMinimum.mp hm
  obtain ⟨c, r, rfl, hspace, hdigit⟩ := hy
  have hc : ∀ d ∈ (c :: r).head?, d.isSpace = false := by
    intro d hd
    obtain rfl := Option.some.inj hd
    exact hspace
  rw [List.append_assoc, List.append_assoc] at heq
  obtain ⟨-, hrest⟩ := span_unique hs hs' hc (hi.head_not_space _) heq
  obtain ⟨d, i, rfl, hd⟩ := hi.head
  obtain ⟨rfl, -⟩ := List.cons.inj hrest
  rw [hd] at hdigit
  cases hdigit

/-- From the beginning of a line an item is deleted, with the spaces around it up to some
later line break. -/
theorem first_numbered (hprev : isLineStart prev = true) (hs : Blank s) (hi : Item i) (hr : Lead .afterItem r)
    (hy : Lettered y) : ∃ m r', numberedMinimumRule.pattern.first prev (s ++ (i ++ (r ++ y))) = some (m, .newline :: (r' ++ y)) ∧
      Lead .broken r' ∧ r'.length < r.length := by
  obtain ⟨c, y, rfl, hspace, -⟩ := hy
  obtain ⟨s₂, r₂, rfl, hs₂⟩ := hr.after_item
  have hmatch : numberedMinimum.Matches prev (s ++ i ++ s₂) (CodePoint.newline :: (r₂ ++ c :: y)).head? :=
    matches_numberedMinimum.mpr ⟨hprev, isLineEnd_some.mpr rfl, s, i, s₂, rfl, hs, hi, hs₂⟩
  obtain ⟨m, rest, hfirst⟩ := first_isSome hmatch
  have htext : s ++ i ++ s₂ ++ .newline :: (r₂ ++ c :: y) = s ++ (i ++ (s₂ ++ .newline :: r₂ ++ c :: y)) := by simp
  rw [htext] at hfirst
  obtain ⟨heq, hm⟩ := first_eq_some hfirst
  obtain ⟨-, hend, s', i', s'', rfl, hs', hi', hs''⟩ := matches_numberedMinimum.mp hm
  -- Any match reads the same spaces and the same item, and stops somewhere in the spaces behind it.
  have heq' : s ++ (i ++ (s₂ ++ .newline :: r₂ ++ c :: y)) = s' ++ (i' ++ (s'' ++ rest)) := by
    rw [heq, List.append_assoc, List.append_assoc]
  obtain ⟨rfl, hitem⟩ := span_unique hs hs' (hi.head_not_space _) (hi'.head_not_space _) heq'
  have hbehind : s₂ ++ .newline :: r₂ ++ c :: y = s'' ++ rest := by
    rcases List.append_eq_append_iff.mp hitem with ⟨a, rfl, ha⟩ | ⟨a, rfl, ha⟩
    · rw [hi'.eq_of_append hi] at ha
      exact ha
    · rw [hi.eq_of_append hi'] at ha
      exact ha.symm
  rcases append_cons_cases hbehind with ⟨b, rfl, -⟩ | ⟨a, hr₂, rfl⟩
  · rw [hs'' c (by simp)] at hspace
    cases hspace
  · cases a with
    | nil =>
      have hc : c = .newline := isLineEnd_some.mp hend
      rw [hc] at hspace
      exact absurd hspace (by decide)
    | cons d a =>
      have hd : d = .newline := isLineEnd_some.mp hend
      rw [hd] at hr₂ hfirst
      rw [hr₂] at hr
      refine ⟨s ++ i' ++ s'', a, hfirst, hr.broken hs'', ?_⟩
      rw [hr₂, List.length_append, List.length_cons]
      omega

/-- A scan leaves spaces of a lead, if it comes to a broken line at its beginning. -/
theorem scan_lead (h : Lead q t) (hprev : q = .broken → isLineStart prev = true ∨ Blank t) (hy : Lettered y) :
    ∃ s prev', Blank s ∧ numberedMinimumRule.scan prev (t ++ y) = s ++ numberedMinimumRule.scan prev' y := by
  induction hlength : t.length using Nat.strong_induction_on generalizing q prev t with
  | _ n ih =>
    by_cases hblank : Blank t
    · refine ⟨t, lastOr prev t, hblank, Rule.scan_kept fun t₁ c t₂ heq => ?_⟩
      refine first_eq_none_of_blank (s := c :: t₂) ?_ hy
      exact fun d hd => hblank d (by rw [heq]; exact List.mem_append_right _ hd)
    · cases hstart : isLineStart prev with
      | true =>
        obtain ⟨s, i, r, rfl, hs, hi, hr⟩ := h.first_item hblank
        obtain ⟨m, r', hfirst, hbroken, hlt⟩ := first_numbered hstart hs hi hr hy
        have hshort : (CodePoint.newline :: r').length < n := by
          rw [← hlength, List.length_append, List.length_append, List.length_cons]
          have hpos : 0 < i.length := by
            obtain ⟨c, i, rfl, -⟩ := hi.head
            exact Nat.succ_pos _
          omega
        have hrest : ∃ s' prev', Blank s' ∧ numberedMinimumRule.scan (lastOr prev m) (.newline :: r' ++ y) =
            s' ++ numberedMinimumRule.scan prev' y :=
          ih _ hshort (hbroken.newline .afterItem) (fun hq => by cases hq) rfl
        obtain ⟨s', prev', hs', hscan⟩ := hrest
        refine ⟨s', prev', hs', ?_⟩
        rw [List.append_assoc, List.append_assoc, Rule.scan_match hfirst, ← hscan]
        rfl
      | false =>
        have hq : q ≠ .broken := by
          intro hq
          rcases hprev hq with hprev | hprev
          · rw [hstart] at hprev
            cases hprev
          · exact hblank hprev
        cases t with
        | nil => exact absurd (List.forall_mem_nil _) hblank
        | cons c t =>
          obtain ⟨hc, ht⟩ := h.head_space hq
          have hbroken : q.space c = .broken → isLineStart (some c) = true ∨ Blank t := by
            intro hspace
            by_cases hnewline : c = .newline
            · exact .inl (isLineStart_some.mpr hnewline)
            · rw [LeadState.space, if_neg hnewline] at hspace
              exact absurd hspace hq
          obtain ⟨s, prev', hs, hscan⟩ := ih t.length (by rw [← hlength]; exact Nat.lt_succ_self _) ht hbroken rfl
          refine ⟨c :: s, prev', List.forall_mem_cons.mpr ⟨hc, hs⟩, ?_⟩
          rw [List.cons_append, Rule.scan_keep (first_eq_none_of_lineStart hstart), hscan]
          rfl

/-- Within a line nothing is deleted. -/
theorem scan_line (h : isLineStart prev = false) (hx : CodePoint.newline ∉ x) (v : Text) :
    numberedMinimumRule.scan prev (x ++ v) = x ++ numberedMinimumRule.scan (lastOr prev x) v := by
  refine Rule.scan_kept fun x₁ c x₂ heq => first_eq_none_of_lineStart (isLineStart_lastOr ?_ h)
  intro hmem
  exact hx (by rw [heq]; exact List.mem_append_left _ hmem)

theorem Demand.lettered (h : Demand allVerbs x) (r : Text) : Lettered (x ++ r) := by
  obtain ⟨y, z, x, rfl, hkind⟩ := id h.opening
  refine ⟨y, z :: (x ++ r), rfl, h.head_not_space r y rfl, ?_⟩
  cases hdigit : y.isDigit with
  | false => rfl
  | true =>
    have hall : ∀ p ∈ openings, p.1 ≠ 48 := by decide
    exact absurd (CodePoint.kind_of_digit hdigit) (hall _ hkind)

theorem first_eq_none_of_lettered (hy : Lettered y) : numberedMinimumRule.pattern.first prev y = none := by
  rw [← List.nil_append y]
  exact first_eq_none_of_blank (List.forall_mem_nil _) hy

/-- A demand with a full stop or without one is within a line. -/
theorem Demand.in_line (h : Demand allVerbs x) {stop : Text} (hstop : FullStop stop) :
    CodePoint.newline ∉ x ++ stop := by
  rw [List.mem_append, not_or]
  refine ⟨fun hmem => (h.plain _ hmem).1 rfl, ?_⟩
  rcases hstop with rfl | rfl
  · exact List.not_mem_nil
  · decide

theorem scan_demand (h : Demand allVerbs x) {stop : Text} (hstop : FullStop stop) (prev : Option CodePoint) (v : Text) :
    isLineStart (lastOr prev (x ++ stop)) = false ∧ numberedMinimumRule.scan prev (x ++ stop ++ v) =
      x ++ stop ++ numberedMinimumRule.scan (lastOr prev (x ++ stop)) v := by
  have hline := h.in_line hstop
  have hfirst : numberedMinimumRule.pattern.first prev (x ++ stop ++ v) = none := by
    rw [List.append_assoc]
    exact first_eq_none_of_lettered (h.lettered (stop ++ v))
  generalize hxs : x ++ stop = xs at *
  cases xs with
  | nil =>
    obtain ⟨y, z, r, rfl, -⟩ := h.opening
    cases hxs
  | cons c xs =>
    rw [List.mem_cons, not_or] at hline
    have hc : isLineStart (some c) = false := isLineStart_of_ne (Ne.symm hline.1)
    rw [lastOr_cons]
    refine ⟨isLineStart_lastOr hline.2 hc, ?_⟩
    rw [List.cons_append] at hfirst ⊢
    rw [Rule.scan_keep hfirst, scan_line hc hline.2]
    rfl

/-- Of a block the first substitution leaves one that has only spaces before its demand. -/
theorem scan_block (h : Block (Lead .start) d) (hprev : isLineStart prev = false) (v : Text) :
    ∃ d' prev', Block Blank d' ∧ isLineStart prev' = false ∧
      numberedMinimumRule.scan prev (d ++ v) = d' ++ numberedMinimumRule.scan prev' v := by
  obtain ⟨lead, demand, stop, rfl, hne, hlead, hdemand, hstop⟩ := h
  cases lead with
  | nil => exact absurd rfl hne
  | cons c lead =>
    obtain ⟨hc, hlead⟩ := hlead.head_space (by decide)
    have hbroken : LeadState.start.space c = .broken → isLineStart (some c) = true ∨ Blank lead := by
      intro hspace
      by_cases hnewline : c = .newline
      · exact .inl (isLineStart_some.mpr hnewline)
      · rw [LeadState.space, if_neg hnewline] at hspace
        cases hspace
    obtain ⟨s, prev', hs, hscan⟩ := scan_lead hlead hbroken (hdemand.lettered (stop ++ v))
    obtain ⟨hprev', hrest⟩ := scan_demand hdemand hstop prev' v
    refine ⟨c :: s ++ demand ++ stop, _, ⟨c :: s, demand, stop, rfl, List.cons_ne_nil _ _,
      List.forall_mem_cons.mpr ⟨hc, hs⟩, hdemand, hstop⟩, hprev', ?_⟩
    have htext : c :: lead ++ demand ++ stop ++ v = c :: (lead ++ (demand ++ (stop ++ v))) := by simp
    rw [htext, Rule.scan_keep (first_eq_none_of_lineStart hprev), hscan, ← List.append_assoc demand, hrest]
    simp

/-- The first substitution leaves the symbols of an interrupted demand, and its blocks without
their items. -/
theorem scan_thread (h : Threaded (Lead .start) c x w) (hx : CodePoint.newline ∉ x) (hprev : isLineStart prev = false)
    (v : Text) : ∃ w' prev', Threaded Blank c x w' ∧ (w' = x → w = x) ∧
      numberedMinimumRule.scan prev (w ++ v) = w' ++ numberedMinimumRule.scan prev' v := by
  induction h generalizing prev with
  | nil => exact ⟨[], prev, .nil, fun _ => rfl, rfl⟩
  | @symbol _ c x w _ ih =>
    rw [List.mem_cons, not_or] at hx
    have hc : isLineStart (some c) = false := isLineStart_of_ne (Ne.symm hx.1)
    obtain ⟨w', prev', hw', hsame, hscan⟩ := ih hx.2 hc
    refine ⟨c :: w', prev', hw'.symbol, fun heq => by rw [hsame (List.cons.inj heq).2], ?_⟩
    rw [List.cons_append, Rule.scan_keep (first_eq_none_of_lineStart hprev), hscan]
    rfl
  | @block _ d x w hc hd hne _ ih =>
    obtain ⟨d', prev', hd', hprev', hscan⟩ := scan_block hd hprev (w ++ v)
    obtain ⟨w', prev'', hw', -, hrest⟩ := ih hx hprev'
    refine ⟨d' ++ w', prev'', .block hc hd' hne hw', fun heq => ?_, ?_⟩
    · have hlength := hw'.sublist.length_le
      obtain ⟨s, demand, stop, rfl, hs, -⟩ := hd'
      have hpos := List.length_pos_iff.mpr hs
      rw [← heq] at hlength
      simp only [List.length_append] at hlength
      omega
    · rw [List.append_assoc, hscan, hrest, List.append_assoc]

/-! ### Where what is left comes from -/

/-- What the first substitution deletes is between a line break and another one. -/
theorem lines_of_deleted {g rest : Text} (h : numberedMinimumRule.Deleted prev g rest) (hg : g ≠ []) :
    isLineStart prev = true ∧ isLineEnd rest.head? = true := by
  induction h with
  | nil => exact absurd rfl hg
  | @cons prev m g rest hfirst _ ih =>
    obtain ⟨hstart, hend, -⟩ := matches_numberedMinimum.mp (first_eq_some hfirst).2
    refine ⟨hstart, ?_⟩
    by_cases hnil : g = []
    · rw [hnil] at hend
      exact hend
    · exact (ih hnil).2

/-- A symbol of the result follows directly, within a line or if it breaks none. -/
theorem of_scan_symbol (h : numberedMinimumRule.scan prev t = c :: o)
    (hline : isLineStart prev = false ∨ c ≠ .newline) : ∃ v, t = c :: v ∧ numberedMinimumRule.scan (some c) v = o := by
  obtain ⟨g, v, rfl, hdeleted, -, hscan⟩ := Rule.of_scan_eq_cons rfl h
  by_cases hg : g = []
  · exact ⟨v, by rw [hg]; rfl, hscan⟩
  · obtain ⟨hstart, hend⟩ := lines_of_deleted hdeleted hg
    rcases hline with hline | hline
    · rw [hstart] at hline
      cases hline
    · exact absurd (isLineEnd_some.mp hend) hline

theorem of_scan_line (h : numberedMinimumRule.scan prev t = x ++ o) (hx : CodePoint.newline ∉ x) :
    ∃ v, t = x ++ v ∧ numberedMinimumRule.scan (lastOr prev x) v = o := by
  induction x generalizing prev t with
  | nil => exact ⟨t, rfl, h⟩
  | cons c x ih =>
    rw [List.mem_cons, not_or] at hx
    obtain ⟨t, rfl, hscan⟩ := of_scan_symbol h (.inr (Ne.symm hx.1))
    obtain ⟨v, rfl, hrest⟩ := ih hscan hx.2
    exact ⟨v, rfl, hrest⟩

theorem Lead.blank_append (h : Lead .broken t) (hs : Blank s) : Lead .broken (s ++ t) := by
  induction s with
  | nil => exact h
  | cons c s ih =>
    obtain ⟨hc, hs⟩ := List.forall_mem_cons.mp hs
    have hbroken : LeadState.broken.space c = .broken := ite_self _
    exact .space hc (by rw [hbroken]; exact ih hs)

/-- Spaces with a line break break the line, whatever was before. -/
theorem Lead.line_break (h : Lead .broken t) (hs : Blank s) (q : LeadState) : Lead q (s ++ .newline :: t) := by
  induction s generalizing q with
  | nil => exact h.newline q
  | cons c s ih =>
    obtain ⟨hc, hs⟩ := List.forall_mem_cons.mp hs
    exact .space hc (ih hs _)

/-- Deleted lines are items with spaces around them. -/
theorem lead_of_deleted {g rest : Text} (h : numberedMinimumRule.Deleted prev g rest) (ht : Lead .broken t) :
    Lead .broken (g ++ .newline :: t) := by
  induction h with
  | nil => exact ht.newline _
  | @cons prev m g rest hfirst hdeleted ih =>
    obtain ⟨-, -, s, i, s', rfl, hs, hi, hs'⟩ := matches_numberedMinimum.mp (first_eq_some hfirst).2
    have hbehind : Lead .afterItem (s' ++ (g ++ .newline :: t)) := by
      by_cases hg : g = []
      · rw [hg]
        exact ht.line_break hs' _
      · -- The next match is at the beginning of a line, so this one ended with a line break.
        have hstart := (lines_of_deleted hdeleted hg).1
        rcases List.eq_nil_or_concat s' with rfl | ⟨s'', c, rfl⟩
        · obtain ⟨r, c, rfl, hc⟩ := hi.last
          rw [List.append_nil, ← List.append_assoc, lastOr_append] at hstart
          have hnewline : c = .newline := isLineStart_some.mp hstart
          rw [hnewline] at hc
          exact absurd hc (by decide)
        · rw [List.concat_eq_append] at *
          rw [← List.append_assoc (s ++ i), lastOr_append] at hstart
          have hnewline : c = .newline := isLineStart_some.mp hstart
          rw [hnewline, List.append_assoc]
          exact ih.line_break (fun d hd => hs' d (List.mem_append_left _ hd)) _
    have htext : s ++ i ++ s' ++ g ++ .newline :: t = s ++ (i ++ (s' ++ (g ++ .newline :: t))) := by simp
    rw [htext]
    exact (Lead.item hi hbehind).blank_append hs

/-- Spaces that are left behind a symbol of a line were a lead. -/
theorem of_scan_lead (h : numberedMinimumRule.scan prev t = s ++ o) (hs : Blank s)
    (hprev : isLineStart prev = true → q = .broken) (hq : q ≠ .afterItem) :
    ∃ r v, t = r ++ v ∧ Lead q r ∧ numberedMinimumRule.scan (lastOr prev s) v = o ∧ s.length ≤ r.length := by
  induction s generalizing q prev t with
  | nil => exact ⟨[], t, rfl, .nil hq, h, Nat.le_refl _⟩
  | cons c s ih =>
    obtain ⟨hc, hs⟩ := List.forall_mem_cons.mp hs
    obtain ⟨g, v, rfl, hdeleted, -, hscan⟩ := Rule.of_scan_eq_cons rfl h
    have hspace : q.space c ≠ .afterItem := by
      unfold LeadState.space
      split
      · decide
      · exact hq
    have hbroken : isLineStart (some c) = true → q.space c = .broken := fun hstart => if_pos (isLineStart_some.mp hstart)
    obtain ⟨r, v, rfl, hr, hrest, hle⟩ := ih hscan hs hbroken hspace
    refine ⟨g ++ c :: r, v, by simp, ?_, hrest, ?_⟩
    · by_cases hg : g = []
      · rw [hg]
        exact .space hc hr
      · obtain ⟨hstart, hend⟩ := lines_of_deleted hdeleted hg
        have hnewline : c = .newline := isLineEnd_some.mp hend
        rw [hprev hstart, hnewline]
        rw [hnewline, space_newline] at hr
        exact lead_of_deleted hdeleted hr
    · rw [List.length_append, List.length_cons, List.length_cons]
      omega

theorem of_scan_block (h : numberedMinimumRule.scan prev t = d ++ o) (hd : Block Blank d) (hprev : isLineStart prev = false) :
    ∃ d' v prev', t = d' ++ v ∧ Block (Lead .start) d' ∧ isLineStart prev' = false ∧
      numberedMinimumRule.scan prev' v = o ∧ d.length ≤ d'.length := by
  obtain ⟨s, demand, stop, rfl, hne, hs, hdemand, hstop⟩ := hd
  rw [List.append_assoc, List.append_assoc] at h
  have hstart : isLineStart prev = true → LeadState.start = .broken := by
    rw [hprev]
    intro hstart
    cases hstart
  obtain ⟨r, v, rfl, hr, hrest, hle⟩ := of_scan_lead h hs hstart (by decide)
  rw [← List.append_assoc] at hrest
  obtain ⟨v, rfl, hscan⟩ := of_scan_line hrest (hdemand.in_line hstop)
  refine ⟨r ++ demand ++ stop, v, _, by simp, ⟨r, demand, stop, rfl, ?_, hr, hdemand, hstop⟩,
    (scan_demand hdemand hstop _ []).1, hscan, ?_⟩
  · rintro rfl
    exact hne (List.length_eq_zero_iff.mp (Nat.le_zero.mp hle))
  · simp only [List.length_append]
    omega

/-- Blocks that are left were blocks, with items perhaps. -/
theorem of_scan_thread (hw : Threaded Blank c x w) (h : numberedMinimumRule.scan prev t = w ++ o)
    (hx : CodePoint.newline ∉ x) (hprev : c.isSpace = false → isLineStart prev = false) :
    ∃ w' v, t = w' ++ v ∧ Threaded (Lead .start) c x w' ∧ w.length ≤ w'.length := by
  induction hw generalizing prev t with
  | nil => exact ⟨[], t, rfl, .nil, Nat.le_refl _⟩
  | @symbol _ c x w _ ih =>
    rw [List.mem_cons, not_or] at hx
    obtain ⟨t, rfl, hscan⟩ := of_scan_symbol h (.inr (Ne.symm hx.1))
    obtain ⟨w', v, rfl, hw', hle⟩ := ih hscan hx.2 fun _ => isLineStart_of_ne (Ne.symm hx.1)
    exact ⟨c :: w', v, rfl, hw'.symbol, Nat.succ_le_succ hle⟩
  | @block _ d x w hc hd hne _ ih =>
    rw [List.append_assoc] at h
    obtain ⟨d', v, prev', rfl, hd', hprev', hscan, hle⟩ := of_scan_block h hd (hprev hc)
    obtain ⟨w', v, rfl, hw', hle'⟩ := ih hscan hx fun _ => hprev'
    refine ⟨d' ++ w', v, by simp, .block hc hd' hne hw', ?_⟩
    rw [List.length_append, List.length_append]
    omega

/-! ### The rewriting -/

/-- The first two substitutions leave a demand exactly where one was interrupted. -/
theorem shown_iff_interrupted :
    Shown (Demand verbs) (minimumLengthRule.sub (numberedMinimumRule.sub t)) ↔ Interrupted t := by
  rw [shown_minimumLength]
  constructor
  · rintro ⟨c, x, w, ⟨o, o', heq⟩, hc, hx, hw, hne⟩
    rw [List.append_assoc, List.cons_append] at heq
    obtain ⟨u, v, rfl, -, hscan⟩ := Rule.of_scan_eq heq.symm List.not_mem_nil
    have hspace : c.isSpace = false → isLineStart (some c) = false := by
      rw [hc]
      intro hfalse
      cases hfalse
    obtain ⟨w', v, rfl, hw', hle⟩ := of_scan_thread hw hscan hx.newline hspace
    refine ⟨c, x, w', ⟨u, v, by simp⟩, hc, hx, hw', ?_⟩
    rintro rfl
    exact hne (hw.sublist.eq_of_length_le hle).symm
  · rintro ⟨c, x, w, ⟨u, v, rfl⟩, hc, hx, hw, hne⟩
    have henter : ∀ prev m₁ m₂ v', numberedMinimumRule.pattern.Matches prev (m₁ ++ c :: m₂) v'.head? →
        w ++ v ≠ m₂ ++ v' := by
      intro prev m₁ m₂ v' hm heq
      apply hw.not_behindSpace hc hx hne v
      rw [heq]
      exact behindSpace_numberedMinimum hm hc
    obtain ⟨o, ho⟩ := Rule.scan_enter henter none u
    -- The first symbol is a letter, so nothing is deleted before it though a line may begin there.
    obtain ⟨z, y, x, rfl, hkind⟩ := id hx.head
    obtain ⟨w, rfl, hw₁⟩ := hw.behind_space hc
    have hletter : Lettered (z :: (w ++ v)) := by
      obtain ⟨z', r, heq, hz⟩ := hx.all.lettered []
      obtain ⟨rfl, -⟩ := List.cons.inj heq
      exact ⟨z, w ++ v, rfl, hz⟩
    have hline := hx.newline
    rw [List.mem_cons, not_or] at hline
    have hz : isLineStart (some z) = false := isLineStart_of_ne (Ne.symm hline.1)
    obtain ⟨w', prev', hw', hsame, hscan⟩ := scan_thread hw₁ hline.2 hz v
    refine ⟨c, z :: y :: x, z :: w', ⟨o, numberedMinimumRule.scan prev' v, ?_⟩, hc, hx, hw'.symbol, fun heq => ?_⟩
    · have htext : u ++ c :: z :: w ++ v = u ++ c :: (z :: w ++ v) := by simp
      have hkept : numberedMinimumRule.scan (some c) (z :: w ++ v) = z :: (w' ++ numberedMinimumRule.scan prev' v) := by
        rw [List.cons_append, Rule.scan_keep (first_eq_none_of_lettered hletter), hscan]
      rw [Rule.sub, htext, ho, hkept]
      simp
    · exact hne (by rw [hsame (List.cons.inj heq).2])

/-- A rewritten prompt has a match of none of the patterns exactly if it shows no demand. -/
theorem rewritten_not_found : (∀ rule ∈ [numberedMinimumRule, minimumLengthRule, atLeastRule],
    rule.pattern.found none (addReportCompletenessPolicy t) = false) ↔ ¬ Interrupted t := by
  rw [← shown_iff_interrupted, ← shown_atLeast, ← shown_appendPolicy]
  show _ ↔ ¬ Shown (Demand verbs) (addReportCompletenessPolicy t)
  constructor
  · intro h hshown
    have hfound := h minimumLengthRule (by simp)
    rw [show minimumLengthRule.pattern = minimumLength from rfl, found_minimumLength.mpr hshown] at hfound
    cases hfound
  · intro hshown rule hrule
    simp only [List.mem_cons, List.not_mem_nil, or_false] at hrule
    rcases hrule with rfl | rfl | rfl
    · exact Bool.eq_false_iff.mpr fun hfound => hshown (shown_of_numberedMinimum hfound)
    · exact Bool.eq_false_iff.mpr fun hfound => hshown (found_minimumLength.mp hfound)
    · refine Bool.eq_false_iff.mpr fun hfound => not_shown_atLeast (t := minimumLengthRule.sub (numberedMinimumRule.sub t)) ?_
      apply of_shown_appendPolicy (fun x hx hmem => (hx.plain _ hmem).1 rfl) ?_ (found_atLeast.mp hfound)
      rw [← found_atLeast]
      exact ne_true_of_eq_false not_found_appendedPolicy.2

end

/-- Rewriting a prompt twice is rewriting it once, with the policy in the result and no match
of any of the three patterns, exactly if in the prompt no demand is interrupted by others. -/
theorem addReportCompletenessPolicy_settles_iff (prompt : Text) :
    (addReportCompletenessPolicy (addReportCompletenessPolicy prompt) = addReportCompletenessPolicy prompt ∧
      reportCompletenessPolicy <:+: addReportCompletenessPolicy prompt ∧
      ∀ rule ∈ [numberedMinimumRule, minimumLengthRule, atLeastRule],
        rule.pattern.found none (addReportCompletenessPolicy prompt) = false) ↔
      ¬ Interrupted prompt := by
  rw [← rewritten_not_found]
  constructor
  · exact fun h => h.2.2
  · intro h
    refine ⟨?_, policy_mem_appendPolicy _, h⟩
    have hsub : ∀ rule ∈ [numberedMinimumRule, minimumLengthRule, atLeastRule],
        rule.sub (addReportCompletenessPolicy prompt) = addReportCompletenessPolicy prompt :=
      fun rule hrule => Rule.scan_of_not_found (h rule hrule)
    rw [addReportCompletenessPolicy, hsub numberedMinimumRule (by simp), hsub minimumLengthRule (by simp),
      hsub atLeastRule (by simp)]
    exact appendPolicy_of_mem (policy_mem_appendPolicy _)

namespace Sample

/-- A demand within a demand. -/
def nestedDemand : Text := .ofString " with a minimum length with a minimum length of 5 words of 5 words"

end Sample

/-- The inner demand is deleted, and what was around it is a demand. -/
theorem addReportCompletenessPolicy_nested :
    ¬ (addReportCompletenessPolicy (addReportCompletenessPolicy Sample.nestedDemand) =
        addReportCompletenessPolicy Sample.nestedDemand ∧
      reportCompletenessPolicy <:+: addReportCompletenessPolicy Sample.nestedDemand ∧
      ∀ rule ∈ [numberedMinimumRule, minimumLengthRule, atLeastRule],
        rule.pattern.found none (addReportCompletenessPolicy Sample.nestedDemand) = false) := by
  rintro ⟨-, -, h⟩
  have hfound : minimumLength.found none
      (minimumLengthRule.sub (numberedMinimumRule.sub Sample.nestedDemand)) = true := by decide +kernel
  rw [found_minimumLength, ← shown_atLeast, ← shown_appendPolicy, ← found_minimumLength] at hfound
  have hnone := h minimumLengthRule (by simp)
  exact Bool.false_ne_true (hnone.symm.trans hfound)

end ResearchGateway
