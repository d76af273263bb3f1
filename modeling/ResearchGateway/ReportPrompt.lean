import ResearchGateway.Library.TextPattern

/-! The report prompt.

The upstream prompt asks for a minimum length in three ways. `add_report_completeness_policy`
takes each of them out, one after the other, and appends its own rule of when to stop. What a
deletion leaves on its two sides comes together, and may ask for a minimum length again: then
the rewritten prompt still does, and a second rewriting takes out more. `Interrupted` says of
which prompts this is so. -/
namespace ResearchGateway
open Library Pattern

def reportCompletenessPolicy : Text := .ofString
  ("Use as many words as necessary to fully cover every part of the user's research request " ++
    "that is supported by the gathered evidence, and no more. Do not pad the report, repeat " ++
    "points, or add generic background merely to increase its length. Once all requested aspects " ++
    "have been addressed with appropriate evidence, conclude the report.")

/-! ### The substitutions -/

/-- `[\d,]`. -/
def isCount (c : CodePoint) : Bool := c.isDigit || c == .ofChar ','

/-- `\d+\.\s+Have a minimum length of [\d,]+ words`. -/
def numberedMinimumItem : Pattern CodePoint :=
  plus CodePoint.isDigit ++ .one (· == .dot) ++ plus CodePoint.isSpace ++ word "Have a minimum length of " ++
    plus isCount ++ word " words"

/-- The pattern of a numbered line of its own. -/
def numberedMinimum : Pattern CodePoint :=
  .behind isLineStart ++ .many CodePoint.isSpace ++ numberedMinimumItem ++
    .many CodePoint.isSpace ++ .ahead isLineEnd

/-- The pattern of a minimum within a sentence, up to the full stop. -/
def minimumLengthCore : Pattern CodePoint :=
  plus CodePoint.isSpace ++ .alt (word "with") (.alt (word "and have") (.alt (word "have") (word "has"))) ++
    word " a minimum length of " ++ plus isCount ++ word " words"

def minimumLength : Pattern CodePoint := minimumLengthCore ++ opt (· == .dot)

def atLeast : Pattern CodePoint :=
  plus CodePoint.isSpace ++ word "and at least " ++ plus isCount ++ word " words" ++ opt (· == .dot)

/-- A pattern that always reads something. -/
def Consumes (r : Pattern CodePoint) : Prop := ∀ prev m next, r.Matches prev m next → m ≠ []

theorem consumes_plus (p : CodePoint → Bool) : Consumes (plus p) := fun _ _ _ h => (matches_plus.mp h).1

theorem Consumes.before {r : Pattern CodePoint} (h : Consumes r) (s : Pattern CodePoint) : Consumes (r ++ s) := by
  rintro prev _ next ⟨a, b, rfl, ha, -⟩ hnil
  exact h _ _ _ ha (List.append_eq_nil_iff.mp hnil).1

theorem Consumes.behind {s : Pattern CodePoint} (h : Consumes s) (r : Pattern CodePoint) : Consumes (r ++ s) := by
  rintro prev _ next ⟨a, b, rfl, -, hb⟩ hnil
  exact h _ _ _ hb (List.append_eq_nil_iff.mp hnil).2

def numberedMinimumRule : Rule CodePoint where
  pattern := numberedMinimum
  replacement := []
  nonempty :=
    have hitem : Consumes numberedMinimumItem := (((((consumes_plus _).before _).before _).before _).before _).before _
    ((hitem.behind _).before _).before _

def minimumLengthRule : Rule CodePoint where
  pattern := minimumLength
  replacement := []
  nonempty := (((((consumes_plus _).before _).before _).before _).before _).before _

def atLeastRule : Rule CodePoint where
  pattern := atLeast
  replacement := [.dot]
  nonempty := ((((consumes_plus _).before _).before _).before _).before _

/-- `prompt.rstrip()`. -/
def rstrip (prompt : Text) : Text := prompt.rdropWhile CodePoint.isSpace

/-- The policy at the end of a prompt that does not have it. -/
def appendPolicy (prompt : Text) : Text :=
  if reportCompletenessPolicy <:+: prompt then prompt
  else rstrip prompt ++ .ofString "\n\n" ++ reportCompletenessPolicy ++ .ofString "\n"

def addReportCompletenessPolicy (prompt : Text) : Text :=
  appendPolicy (atLeastRule.sub (minimumLengthRule.sub (numberedMinimumRule.sub prompt)))

/-! ### What is deleted -/

/-- The word, in any case. -/
def ReadsAs (word : String) (t : Text) : Prop := t.map CodePoint.lower = wordCodes word

/-- A demand for a minimum length that begins with one of some verbs. -/
def Demand (verbs : List String) (t : Text) : Prop :=
  ∃ a n b, t = a ++ n ++ b ∧ (∃ verb ∈ verbs, ReadsAs (verb ++ " a minimum length of ") a) ∧
    n ≠ [] ∧ (∀ c ∈ n, isCount c = true) ∧ ReadsAs " words" b

def verbs : List String := ["with", "have", "has"]

/-- A numbered item, without the spaces around it. -/
def Item (t : Text) : Prop :=
  ∃ n s b, t = n ++ .dot :: (s ++ b) ∧ n ≠ [] ∧ (∀ c ∈ n, c.isDigit = true) ∧
    s ≠ [] ∧ (∀ c ∈ s, c.isSpace = true) ∧ Demand ["have"] b

/-- Where one is in the spaces before a demand. -/
inductive LeadState where
  | start
  /-- A line was broken since the last item. -/
  | broken
  | afterItem
  deriving DecidableEq

def LeadState.space (q : LeadState) (c : CodePoint) : LeadState := if c = .newline then .broken else q

/-- Spaces, and among them items, with a line break before and behind each. -/
inductive Lead : LeadState → Text → Prop where
  | nil {q} : q ≠ .afterItem → Lead q []
  | space {q c t} : c.isSpace = true → Lead (q.space c) t → Lead q (c :: t)
  | item {i t} : Item i → Lead .afterItem t → Lead .broken (i ++ t)

/-- A demand with what stands before it, and a full stop behind it or not. -/
def Block (IsLead : Text → Prop) (t : Text) : Prop :=
  ∃ lead demand stop, t = lead ++ demand ++ stop ∧ lead ≠ [] ∧ IsLead lead ∧
    Demand ("and have" :: verbs) demand ∧ (stop = [] ∨ stop = [.dot])

/-- A text with blocks put into it, each of them directly behind a symbol that is no space,
and none at its end; `prev` is the symbol before the text. -/
inductive Threaded (IsLead : Text → Prop) : CodePoint → Text → Text → Prop where
  | nil {prev} : Threaded IsLead prev [] []
  | symbol {prev c x w} : Threaded IsLead c x w → Threaded IsLead prev (c :: x) (c :: w)
  | block {prev d x w} : prev.isSpace = false → Block IsLead d → x ≠ [] → Threaded IsLead prev x w →
    Threaded IsLead prev x (d ++ w)

/-- Behind a space there is a demand that other demands interrupt. -/
def Interrupted (prompt : Text) : Prop :=
  ∃ c x w, c :: w <:+: prompt ∧ c.isSpace = true ∧ Demand verbs x ∧
    Threaded (Lead .start) c x w ∧ w ≠ x

end ResearchGateway
