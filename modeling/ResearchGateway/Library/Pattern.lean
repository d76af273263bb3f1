import Mathlib.Data.List.Basic
import Mathlib.Data.List.Infix

/-! Regular expressions with backtracking, and substitution.

`ends` lists the matches at a position in the order in which a backtracking matcher comes to
them, and `Matches` says what they are without the order. A test of zero width sees the
symbol before it and the one behind it. `scan` replaces the first match at each position, from
left to right, and goes on behind it; its lemmas say what one step does, how a symbol of the
result lies in the text, and how the scan enters the rest of a text. -/
namespace Library

inductive Pattern (α : Type) where
  | empty
  | one (p : α → Bool)
  /-- As many as there are, and then fewer. -/
  | many (p : α → Bool)
  | behind (p : Option α → Bool)
  | ahead (p : Option α → Bool)
  | seq (r s : Pattern α)
  | alt (r s : Pattern α)

section
variable {α : Type}

/-- The symbol before a position: the last of what was read, or the one before that. -/
def lastOr (prev : Option α) : List α → Option α
  | [] => prev
  | c :: m => lastOr (some c) m

@[simp] theorem lastOr_cons (prev : Option α) (c : α) (m : List α) : lastOr prev (c :: m) = lastOr (some c) m := rfl

@[simp] theorem lastOr_append (prev : Option α) (a b : List α) : lastOr prev (a ++ b) = lastOr (lastOr prev a) b := by
  induction a generalizing prev with
  | nil => rfl
  | cons c a ih => exact ih _

/-- What stands before a position in a text that is not empty is a symbol of it. -/
theorem lastOr_mem {m : List α} (h : m ≠ []) (prev : Option α) : ∃ c ∈ m, lastOr prev m = some c := by
  induction m generalizing prev with
  | nil => exact absurd rfl h
  | cons c m ih =>
    by_cases hm : m = []
    · exact ⟨c, List.mem_cons_self .., by rw [hm]; rfl⟩
    · obtain ⟨d, hd, hlast⟩ := ih hm (some c)
      exact ⟨d, List.mem_cons_of_mem _ hd, hlast⟩

/-- The symbols of a class at the beginning of a text, up to one that is not of it. -/
theorem span_unique {p : α → Bool} {m m' t t' : List α} (hm : ∀ c ∈ m, p c = true) (hm' : ∀ c ∈ m', p c = true)
    (ht : ∀ c ∈ t.head?, p c = false) (ht' : ∀ c ∈ t'.head?, p c = false) (h : m ++ t = m' ++ t') :
    m = m' ∧ t = t' := by
  have hspan : ∀ {m t : List α}, (∀ c ∈ m, p c = true) → (∀ c ∈ t.head?, p c = false) → (m ++ t).takeWhile p = m := by
    intro m t hm ht
    rw [List.takeWhile_append_of_pos hm]
    cases t with
    | nil => exact List.append_nil _
    | cons c t => rw [List.takeWhile_cons_of_neg (by rw [ht c rfl]; exact Bool.false_ne_true), List.append_nil]
  have heq : m = m' := by rw [← hspan hm ht, h, hspan hm' ht']
  exact ⟨heq, List.append_cancel_left (by rw [h, heq])⟩

/-- A symbol of two texts together is in one of them. -/
theorem append_cons_cases {a b s t : List α} {c : α} (h : a ++ c :: b = s ++ t) :
    (∃ b', s = a ++ c :: b' ∧ b = b' ++ t) ∨ ∃ a', a = s ++ a' ∧ t = a' ++ c :: b := by
  rcases List.append_eq_append_iff.mp h with ⟨d, rfl, hd⟩ | ⟨d, rfl, ht⟩
  · cases d with
    | nil => exact .inr ⟨[], by simp, by rw [hd]; rfl⟩
    | cons e d =>
      obtain ⟨rfl, rfl⟩ := List.cons.inj hd
      exact .inl ⟨d, rfl, rfl⟩
  · exact .inr ⟨d, rfl, ht⟩

end

namespace Pattern

section
variable {α β : Type}

instance : Append (Pattern α) := ⟨.seq⟩

/-- `[...]+`. -/
def plus (p : α → Bool) : Pattern α := .one p ++ .many p

/-- `[...]?`. -/
def opt (p : α → Bool) : Pattern α := .alt (.one p) .empty

/-- A word, where symbols with the same value under `f` are taken for the same. -/
def literal [BEq β] (f : α → β) : List β → Pattern α
  | [] => .empty
  | b :: word => .one (fun c => f c == b) ++ literal f word

def greedy (p : α → Bool) : List α → List (List α × List α)
  | [] => [([], [])]
  | c :: t => if p c then (greedy p t).map (fun e => (c :: e.1, e.2)) ++ [([], c :: t)] else [([], c :: t)]

/-- The matches at a position, each with what is behind it. -/
def ends : Pattern α → Option α → List α → List (List α × List α)
  | .empty, _, t => [([], t)]
  | .one _, _, [] => []
  | .one p, _, c :: t => if p c then [([c], t)] else []
  | .many p, _, t => greedy p t
  | .behind p, prev, t => if p prev then [([], t)] else []
  | .ahead p, _, t => if p t.head? then [([], t)] else []
  | .seq r s, prev, t =>
    (r.ends prev t).flatMap fun e => (s.ends (lastOr prev e.1) e.2).map fun e' => (e.1 ++ e'.1, e'.2)
  | .alt r s, prev, t => r.ends prev t ++ s.ends prev t

def first (r : Pattern α) (prev : Option α) (t : List α) : Option (List α × List α) := (r.ends prev t).head?

/-- A text matches between the symbol before it and the symbol behind it. -/
def Matches : Pattern α → Option α → List α → Option α → Prop
  | .empty, _, m, _ => m = []
  | .one p, _, m, _ => ∃ c, m = [c] ∧ p c = true
  | .many p, _, m, _ => ∀ c ∈ m, p c = true
  | .behind p, prev, m, _ => m = [] ∧ p prev = true
  | .ahead p, _, m, next => m = [] ∧ p next = true
  | .seq r s, prev, m, next =>
    ∃ a b, m = a ++ b ∧ r.Matches prev a (b.head?.or next) ∧ s.Matches (lastOr prev a) b next
  | .alt r s, prev, m, next => r.Matches prev m next ∨ s.Matches prev m next

variable {r s : Pattern α} {p : α → Bool} {prev next : Option α} {m rest t : List α}

theorem mem_greedy : (m, rest) ∈ greedy p t ↔ t = m ++ rest ∧ ∀ c ∈ m, p c = true := by
  induction t generalizing m with
  | nil =>
    simp only [greedy, List.mem_singleton, Prod.mk.injEq, List.nil_eq_append_iff]
    constructor
    · rintro ⟨rfl, rfl⟩
      exact ⟨⟨rfl, rfl⟩, List.forall_mem_nil _⟩
    · exact And.left
  | cons d t ih =>
    cases m with
    | nil =>
      have hrest : ([], rest) ∈ greedy p (d :: t) ↔ rest = d :: t := by
        simp only [greedy]
        split <;> simp
      rw [hrest, List.nil_append, eq_comm]
      exact (and_iff_left (List.forall_mem_nil _)).symm
    | cons c m =>
      simp only [greedy]
      split
      · next hd =>
        simp only [List.mem_append, List.mem_map, List.mem_singleton, Prod.mk.injEq, List.cons.injEq, reduceCtorEq,
          false_and, or_false, Prod.exists, List.cons_append, List.forall_mem_cons]
        constructor
        · rintro ⟨m', rest', hmem, ⟨rfl, rfl⟩, rfl⟩
          obtain ⟨ht, hall⟩ := ih.mp hmem
          exact ⟨⟨rfl, ht⟩, hd, hall⟩
        · rintro ⟨⟨rfl, ht⟩, -, hall⟩
          exact ⟨m, rest, ih.mpr ⟨ht, hall⟩, ⟨rfl, rfl⟩, rfl⟩
      · next hd =>
        simp only [List.mem_singleton, Prod.mk.injEq, reduceCtorEq, false_and, false_iff, List.cons_append,
          List.cons.injEq, List.forall_mem_cons, not_and]
        rintro ⟨rfl, -⟩ hc
        exact absurd hc hd

theorem mem_ends : (m, rest) ∈ r.ends prev t ↔ t = m ++ rest ∧ r.Matches prev m rest.head? := by
  induction r generalizing prev m rest t with
  | empty => simp only [ends, Matches, List.mem_singleton, Prod.mk.injEq]; grind
  | one p =>
    cases t with
    | nil =>
      simp only [ends, Matches, List.not_mem_nil, false_iff, not_and, not_exists]
      rintro h c rfl
      cases h
    | cons d t =>
      simp only [ends, Matches]
      split <;> grind
  | many p => exact mem_greedy
  | behind p =>
    simp only [ends, Matches]
    split <;> grind
  | ahead p =>
    simp only [ends, Matches]
    split <;> grind
  | alt r s ihr ihs =>
    simp only [ends, Matches, List.mem_append, ihr, ihs]
    exact and_or_left.symm
  | seq r s ihr ihs =>
    simp only [ends, Matches, List.mem_flatMap, List.mem_map, Prod.exists, Prod.mk.injEq]
    constructor
    · rintro ⟨a, t', ha, b, rest', hb, rfl, rfl⟩
      obtain ⟨rfl, hr⟩ := ihr.mp ha
      obtain ⟨rfl, hs⟩ := ihs.mp hb
      rw [List.head?_append] at hr
      exact ⟨(List.append_assoc ..).symm, a, b, rfl, hr, hs⟩
    · rintro ⟨rfl, a, b, rfl, hr, hs⟩
      rw [← List.head?_append] at hr
      exact ⟨a, b ++ rest, ihr.mpr ⟨List.append_assoc .., hr⟩, b, rest, ihs.mpr ⟨rfl, hs⟩, rfl, rfl⟩

theorem first_eq_none : r.first prev t = none ↔ ∀ m rest, t = m ++ rest → ¬ r.Matches prev m rest.head? := by
  rw [first, List.head?_eq_none_iff, List.eq_nil_iff_forall_not_mem]
  simp only [Prod.forall, mem_ends, not_and]

theorem first_eq_some (h : r.first prev t = some (m, rest)) : t = m ++ rest ∧ r.Matches prev m rest.head? :=
  mem_ends.mp (List.mem_of_head? h)

/-- A match at a position is found, though it may be another one. -/
theorem first_isSome (h : r.Matches prev m rest.head?) :
    ∃ m' rest', r.first prev (m ++ rest) = some (m', rest') := by
  cases hfirst : r.first prev (m ++ rest) with
  | none => exact absurd h (first_eq_none.mp hfirst m rest rfl)
  | some e => exact ⟨e.1, e.2, rfl⟩

/-- Behind a part that can be read in one way only, the first match is the first of the rest. -/
theorem first_seq {a b m' rest' : List α} (ha : r.Matches prev a b.head?)
    (hunique : ∀ m rest, a ++ b = m ++ rest → r.Matches prev m rest.head? → m = a)
    (hs : s.first (lastOr prev a) b = some (m', rest')) :
    (r ++ s).first prev (a ++ b) = some (a ++ m', rest') := by
  show (((r.ends prev (a ++ b)).flatMap _).head?) = _
  cases hends : r.ends prev (a ++ b) with
  | nil =>
    have hmem := mem_ends.mpr ⟨rfl, ha⟩
    rw [hends] at hmem
    cases hmem
  | cons e es =>
    obtain ⟨heq, he⟩ := mem_ends.mp (show (e.1, e.2) ∈ r.ends prev (a ++ b) by rw [hends]; exact List.mem_cons_self ..)
    have hfst := hunique _ _ heq he
    rw [hfst] at heq
    rw [List.flatMap_cons, List.head?_append, hfst, ← List.append_cancel_left heq, List.head?_map]
    rw [show (s.ends (lastOr prev a) b).head? = some (m', rest') from hs]
    rfl

theorem first_opt (c : α) (h : p c = true) : (opt p).first prev (c :: t) = some ([c], t) := by
  simp [opt, first, ends, h]

theorem first_opt_of_head (h : ∀ c ∈ t.head?, p c = false) : (opt p).first prev t = some ([], t) := by
  cases t with
  | nil => rfl
  | cons c t => simp [opt, first, ends, h c rfl]

/-! ### The parts of a match -/

theorem matches_seq : (r ++ s).Matches prev m next ↔
    ∃ a b, m = a ++ b ∧ r.Matches prev a (b.head?.or next) ∧ s.Matches (lastOr prev a) b next := Iff.rfl

theorem matches_alt : (alt r s).Matches prev m next ↔ r.Matches prev m next ∨ s.Matches prev m next := Iff.rfl

theorem matches_one : (one p).Matches prev m next ↔ ∃ c, m = [c] ∧ p c = true := Iff.rfl

theorem matches_many : (many p).Matches prev m next ↔ ∀ c ∈ m, p c = true := Iff.rfl

theorem matches_plus : (plus p).Matches prev m next ↔ m ≠ [] ∧ ∀ c ∈ m, p c = true := by
  constructor
  · rintro ⟨_, b, rfl, ⟨c, rfl, hc⟩, hb⟩
    exact ⟨by simp, List.forall_mem_cons.mpr ⟨hc, hb⟩⟩
  · rintro ⟨hne, hall⟩
    cases m with
    | nil => exact absurd rfl hne
    | cons c m => exact ⟨[c], m, rfl, ⟨c, rfl, hall c (List.mem_cons_self ..)⟩, fun d hd => hall d (List.mem_cons_of_mem _ hd)⟩

theorem matches_opt : (opt p).Matches prev m next ↔ m = [] ∨ ∃ c, m = [c] ∧ p c = true := or_comm

theorem matches_literal [BEq β] [LawfulBEq β] {f : α → β} {word : List β} :
    (literal f word).Matches prev m next ↔ m.map f = word := by
  induction word generalizing prev m with
  | nil => exact List.map_eq_nil_iff.symm
  | cons b word ih =>
    rw [literal, matches_seq, List.map_eq_cons_iff]
    constructor
    · rintro ⟨_, m', rfl, ⟨c, rfl, hc⟩, hm'⟩
      exact ⟨c, m', rfl, eq_of_beq hc, ih.mp hm'⟩
    · rintro ⟨c, m', rfl, rfl, hm'⟩
      exact ⟨[c], m', rfl, ⟨c, rfl, beq_self_eq_true _⟩, ih.mpr hm'⟩

/-! ### Search -/

/-- There is a match somewhere in the text. -/
def found (r : Pattern α) : Option α → List α → Bool
  | prev, [] => (r.first prev []).isSome
  | prev, c :: t => (r.first prev (c :: t)).isSome || r.found (some c) t

theorem found_iff : r.found prev t = true ↔
    ∃ u m v, t = u ++ m ++ v ∧ r.Matches (lastOr prev u) m v.head? := by
  induction t generalizing prev with
  | nil =>
    rw [found, Option.isSome_iff_exists]
    constructor
    · rintro ⟨⟨m, rest⟩, hfirst⟩
      obtain ⟨heq, hm⟩ := first_eq_some hfirst
      exact ⟨[], m, rest, heq, hm⟩
    · rintro ⟨u, m, v, heq, hm⟩
      obtain ⟨⟨rfl, rfl⟩, rfl⟩ : (u = [] ∧ m = []) ∧ v = [] := by simpa [and_assoc] using heq.symm
      obtain ⟨m', rest', h⟩ := first_isSome hm
      exact ⟨_, h⟩
  | cons c t ih =>
    rw [found, Bool.or_eq_true, ih, Option.isSome_iff_exists]
    constructor
    · rintro (⟨⟨m, rest⟩, hfirst⟩ | ⟨u, m, v, rfl, hm⟩)
      · obtain ⟨heq, hm⟩ := first_eq_some hfirst
        exact ⟨[], m, rest, heq, hm⟩
      · exact ⟨c :: u, m, v, rfl, hm⟩
    · rintro ⟨u, m, v, heq, hm⟩
      cases u with
      | nil =>
        obtain ⟨m', rest', h⟩ := first_isSome hm
        rw [show m ++ v = c :: t from heq.symm] at h
        exact .inl ⟨_, h⟩
      | cons d u =>
        obtain ⟨rfl, rfl⟩ := List.cons.inj heq
        exact .inr ⟨u, m, v, rfl, hm⟩

end

end Pattern

/-- A substitution, of a pattern that never matches the empty text. -/
structure Rule (α : Type) where
  pattern : Pattern α
  replacement : List α
  nonempty : ∀ prev m next, pattern.Matches prev m next → m ≠ []

namespace Rule

section
variable {α : Type} (rule : Rule α)

/-- The rest of a text after the substitution, of which the first symbols belong to a match. -/
def subFrom : Nat → Option α → List α → List α
  | _, _, [] => []
  | skip + 1, _, c :: t => subFrom skip (some c) t
  | 0, prev, c :: t =>
    match rule.pattern.first prev (c :: t) with
    | some e => rule.replacement ++ subFrom (e.1.length - 1) (some c) t
    | none => c :: subFrom 0 (some c) t

/-- The rest of a text after the substitution, from a position between matches. -/
def scan (prev : Option α) (t : List α) : List α := rule.subFrom 0 prev t

/-- `re.sub(pattern, replacement, text)`. -/
def sub (t : List α) : List α := rule.scan none t

/-- Matches that a scan deletes one after the other, before some rest. -/
inductive Deleted : Option α → List α → List α → Prop where
  | nil (prev rest) : Deleted prev [] rest
  | cons {prev m g rest} : rule.pattern.first prev (m ++ (g ++ rest)) = some (m, g ++ rest) →
    Deleted (lastOr prev m) g rest → Deleted prev (m ++ g) rest

variable {rule} {prev : Option α} {c d : α} {m rest t o x : List α}

theorem subFrom_skip : rule.subFrom m.length prev (m ++ t) = rule.scan (lastOr prev m) t := by
  induction m generalizing prev with
  | nil => rfl
  | cons c m ih => exact ih

theorem scan_keep (h : rule.pattern.first prev (c :: t) = none) :
    rule.scan prev (c :: t) = c :: rule.scan (some c) t := by
  rw [scan, subFrom, h]
  rfl

theorem scan_match (h : rule.pattern.first prev t = some (m, rest)) :
    rule.scan prev t = rule.replacement ++ rule.scan (lastOr prev m) rest := by
  obtain ⟨rfl, hm⟩ := Pattern.first_eq_some h
  cases m with
  | nil => exact absurd rfl (rule.nonempty _ _ _ hm)
  | cons c m =>
    rw [List.cons_append] at h ⊢
    rw [scan, subFrom, h]
    show rule.replacement ++ rule.subFrom m.length (some c) (m ++ rest) = _
    rw [subFrom_skip]
    rfl

/-- A scan ends, keeps a symbol, or goes on behind a match. -/
theorem scan_induction {motive : Option α → List α → Prop} (nil : ∀ prev, motive prev [])
    (keep : ∀ prev c t, rule.pattern.first prev (c :: t) = none → motive (some c) t → motive prev (c :: t))
    (replace : ∀ prev m rest, rule.pattern.first prev (m ++ rest) = some (m, rest) →
      motive (lastOr prev m) rest → motive prev (m ++ rest)) (prev : Option α) (t : List α) :
    motive prev t := by
  induction hlength : t.length using Nat.strong_induction_on generalizing prev t with
  | _ n ih =>
    cases t with
    | nil => exact nil prev
    | cons c t =>
      cases hfirst : rule.pattern.first prev (c :: t) with
      | none => exact keep prev c t hfirst (ih t.length (by rw [← hlength]; exact Nat.lt_succ_self _) _ _ rfl)
      | some e =>
        obtain ⟨heq, hm⟩ := Pattern.first_eq_some hfirst
        have hne := List.length_pos_iff.mpr (rule.nonempty _ _ _ hm)
        have hlt : e.2.length < n := by
          rw [← hlength, heq, List.length_append]
          omega
        rw [heq]
        exact replace prev e.1 e.2 (by rw [← heq]; exact hfirst) (ih _ hlt _ _ rfl)

/-- Where no match begins, a scan keeps what it reads. -/
theorem scan_kept {v : List α} (h : ∀ x₁ c x₂, x = x₁ ++ c :: x₂ →
    rule.pattern.first (lastOr prev x₁) (c :: (x₂ ++ v)) = none) :
    rule.scan prev (x ++ v) = x ++ rule.scan (lastOr prev x) v := by
  induction x generalizing prev with
  | nil => rfl
  | cons c x ih =>
    have hfirst : rule.pattern.first prev (c :: (x ++ v)) = none := h [] c x rfl
    rw [List.cons_append, scan_keep hfirst, ih]
    · rfl
    · intro x₁ d x₂ hx
      exact h (c :: x₁) d x₂ (by rw [hx]; rfl)

theorem scan_of_not_found (h : rule.pattern.found prev t = false) : rule.scan prev t = t := by
  induction t generalizing prev with
  | nil => rfl
  | cons c t ih =>
    rw [Pattern.found, Bool.or_eq_false_iff, Option.isSome_eq_false_iff, Option.isNone_iff_eq_none] at h
    rw [scan_keep h.1, ih h.2]

/-- A symbol of the result that is not of a replacement is one of the text, at a position
between matches and without one. -/
theorem of_scan_eq {o' : List α} (h : rule.scan prev t = o ++ c :: o') (hc : c ∉ rule.replacement) :
    ∃ u v, t = u ++ c :: v ∧ rule.pattern.first (lastOr prev u) (c :: v) = none ∧ rule.scan (some c) v = o' := by
  induction prev, t using rule.scan_induction generalizing o with
  | nil prev => simp [scan, subFrom] at h
  | keep prev d t hfirst ih =>
    rw [scan_keep hfirst] at h
    cases o with
    | nil =>
      obtain ⟨rfl, rfl⟩ := List.cons.inj h
      exact ⟨[], t, rfl, hfirst, rfl⟩
    | cons d' o =>
      obtain ⟨-, htail⟩ := List.cons.inj h
      obtain ⟨u, v, rfl, hnone, hscan⟩ := ih htail
      exact ⟨d :: u, v, rfl, hnone, hscan⟩
  | replace prev m rest hfirst ih =>
    rw [scan_match hfirst] at h
    have hrest : ∃ o₂, rule.scan (lastOr prev m) rest = o₂ ++ c :: o' := by
      rcases List.append_eq_append_iff.mp h with ⟨o₂, -, hrest⟩ | ⟨a, ha, hrest⟩
      · exact ⟨o₂, hrest⟩
      · cases a with
        | nil => exact ⟨[], hrest.symm⟩
        | cons d a =>
          obtain ⟨rfl, -⟩ := List.cons.inj hrest
          exact absurd (by rw [ha]; simp) hc
    obtain ⟨o₂, hrest⟩ := hrest
    obtain ⟨u, v, rfl, hnone, hscan⟩ := ih hrest
    exact ⟨m ++ u, v, (List.append_assoc ..).symm, by rwa [lastOr_append], hscan⟩

/-- Symbols that no replacement has stand in the text as they do in the result, if a
replacement is never empty. -/
theorem of_scan_eq_append (hrepl : rule.replacement ≠ []) (hx : ∀ c ∈ x, c ∉ rule.replacement)
    (h : rule.scan prev t = x ++ o) : ∃ v, t = x ++ v ∧ rule.scan (lastOr prev x) v = o := by
  induction x generalizing prev t with
  | nil => exact ⟨t, rfl, h⟩
  | cons c x ih =>
    obtain ⟨hc, htail⟩ := List.forall_mem_cons.mp hx
    cases t with
    | nil => cases h
    | cons d t =>
      cases hfirst : rule.pattern.first prev (d :: t) with
      | none =>
        rw [scan_keep hfirst] at h
        obtain ⟨rfl, hrest⟩ := List.cons.inj h
        obtain ⟨v, rfl, hscan⟩ := ih htail hrest
        exact ⟨v, rfl, hscan⟩
      | some e =>
        rw [scan_match hfirst] at h
        cases hr : rule.replacement with
        | nil => exact absurd hr hrepl
        | cons b bs =>
          rw [hr] at h
          obtain ⟨rfl, -⟩ := List.cons.inj h
          exact absurd (by rw [hr]; exact List.mem_cons_self ..) hc

/-- Before the first symbol of the result only matches were deleted. -/
theorem of_scan_eq_cons (hrepl : rule.replacement = []) (h : rule.scan prev t = c :: o) :
    ∃ g v, t = g ++ c :: v ∧ rule.Deleted prev g (c :: v) ∧
      rule.pattern.first (lastOr prev g) (c :: v) = none ∧ rule.scan (some c) v = o := by
  induction prev, t using rule.scan_induction with
  | nil prev => cases h
  | keep prev d t hfirst =>
    rw [scan_keep hfirst] at h
    obtain ⟨rfl, rfl⟩ := List.cons.inj h
    exact ⟨[], t, rfl, .nil _ _, hfirst, rfl⟩
  | replace prev m rest hfirst ih =>
    rw [scan_match hfirst, hrepl, List.nil_append] at h
    obtain ⟨g, v, rfl, hdeleted, hnone, hscan⟩ := ih h
    exact ⟨m ++ g, v, (List.append_assoc ..).symm, .cons hfirst hdeleted, by rwa [lastOr_append], hscan⟩

/-- A scan comes to the rest of a text between matches, or within one. -/
theorem scan_append (prev : Option α) (u v : List α) :
    (∃ o, rule.scan prev (u ++ v) = o ++ rule.scan (lastOr prev u) v) ∨
      ∃ u' m₁ m₂ v', u = u' ++ m₁ ∧ v = m₂ ++ v' ∧ m₁ ≠ [] ∧ m₂ ≠ [] ∧
        rule.pattern.Matches (lastOr prev u') (m₁ ++ m₂) v'.head? := by
  induction hlength : u.length using Nat.strong_induction_on generalizing prev u with
  | _ n ih =>
    cases u with
    | nil => exact .inl ⟨[], rfl⟩
    | cons c u =>
      cases hfirst : rule.pattern.first prev (c :: u ++ v) with
      | none =>
        rw [List.cons_append] at hfirst ⊢
        rw [scan_keep hfirst]
        rcases ih u.length (by rw [← hlength]; exact Nat.lt_succ_self _) (some c) u rfl with
          ⟨o, ho⟩ | ⟨u', m₁, m₂, v', rfl, hrest⟩
        · exact .inl ⟨c :: o, by rw [ho]; rfl⟩
        · exact .inr ⟨c :: u', m₁, m₂, v', rfl, hrest⟩
      | some e =>
        obtain ⟨heq, hm⟩ := Pattern.first_eq_some hfirst
        have hne := rule.nonempty _ _ _ hm
        rw [scan_match hfirst]
        rcases List.append_eq_append_iff.mp heq with ⟨a, ha, hv⟩ | ⟨a, ha, hrest⟩
        · cases a with
          | nil =>
            rw [List.append_nil] at ha
            exact .inl ⟨rule.replacement, by rw [hv, ha]; rfl⟩
          | cons b a =>
            exact .inr ⟨[], c :: u, b :: a, e.2, rfl, hv, List.cons_ne_nil _ _, List.cons_ne_nil _ _, by rwa [← ha]⟩
        · have hlt : a.length < n := by
            have := List.length_pos_iff.mpr hne
            rw [← hlength, ha, List.length_append]
            omega
          rw [hrest, ha, lastOr_append]
          rcases ih a.length hlt (lastOr prev e.1) a rfl with ⟨o, ho⟩ | ⟨u', m₁, m₂, v', rfl, hv, h₁, h₂, hmatch⟩
          · exact .inl ⟨rule.replacement ++ o, by rw [ho, List.append_assoc]⟩
          · exact .inr ⟨e.1 ++ u', m₁, m₂, v', (List.append_assoc ..).symm, hv, h₁, h₂, by rwa [lastOr_append]⟩

/-- Where no match has a symbol before some rest, a scan comes to the symbol, and keeps it. -/
theorem scan_enter (h : ∀ prev m₁ m₂ v, rule.pattern.Matches prev (m₁ ++ c :: m₂) v.head? → t ≠ m₂ ++ v)
    (prev : Option α) (u : List α) : ∃ o, rule.scan prev (u ++ c :: t) = o ++ c :: rule.scan (some c) t := by
  rcases rule.scan_append prev u (c :: t) with ⟨o, ho⟩ | ⟨u', m₁, m₂, v, -, heq, -, hne, hm⟩
  · refine ⟨o, ?_⟩
    rw [ho, scan_keep]
    refine Pattern.first_eq_none.mpr fun m v heq hm => ?_
    cases m with
    | nil => exact rule.nonempty _ _ _ hm rfl
    | cons d m =>
      obtain ⟨rfl, htail⟩ := List.cons.inj heq
      exact h _ [] m v hm htail
  · cases m₂ with
    | nil => exact absurd rfl hne
    | cons d m₂ =>
      obtain ⟨rfl, htail⟩ := List.cons.inj heq
      exact absurd htail (h _ m₁ m₂ v hm)

end

end Rule

end Library
