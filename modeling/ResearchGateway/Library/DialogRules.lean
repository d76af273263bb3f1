import ResearchGateway.Library.Dialog

/-! Rules for what a dialog asks.

`Keeps` says that each question has its reason in what was said before it, and that the end is
as it should be; it is proved along the program, with one rule for each of its constructs, and
holds of every run (`Keeps.runs`). -/
namespace Library

namespace Dialog
variable {Q A ε Q' A' ε' α β : Type}

/-- What follows a dialog, however that ends. -/
def handle : Dialog Q A ε α → (Except ε α → Dialog Q A ε' β) → Dialog Q A ε' β
  | .done result, f => f result
  | .ask question next, f => .ask question fun answer => (next answer).handle f

/-- A dialog whose questions are put another way. -/
def via (put : Q → Dialog Q' A' ε' A) (raise : ε → ε') : Dialog Q A ε α → Dialog Q' A' ε' α
  | .done (.ok a) => .done (.ok a)
  | .done (.error e) => .done (.error (raise e))
  | .ask question next => put question >>= fun answer => (next answer).via put raise

/-- After what was said, the dialog asks what `J` allows and ends as `P` says. -/
def Keeps (J : List (Q × A) → Q → Prop) (P : List (Q × A) → Except ε α → Prop) (said : List (Q × A)) :
    Dialog Q A ε α → Prop
  | .done result => P said result
  | .ask question next => J said question ∧ ∀ answer, Keeps J P (said ++ [(question, answer)]) (next answer)

variable {J : List (Q × A) → Q → Prop} {P : List (Q × A) → Except ε α → Prop} {said : List (Q × A)}
  {d : Dialog Q A ε α}

theorem keeps_ask {question : Q} {next : A → Dialog Q A ε α} : Keeps J P said (.ask question next) ↔
    J said question ∧ ∀ answer, Keeps J P (said ++ [(question, answer)]) (next answer) := Iff.rfl

/-- Nothing that was said is forgotten. -/
theorem Keeps.extended (h : Keeps J P said d) :
    Keeps J (fun said' result => said <+: said' ∧ P said' result) said d := by
  suffices hall : ∀ start, start <+: said → Keeps J (fun said' result => start <+: said' ∧ P said' result) said d from
    hall said (List.prefix_refl said)
  induction d generalizing said with
  | done result => exact fun start hstart => ⟨hstart, h⟩
  | ask question next ih =>
    intro start hstart
    exact ⟨h.1, fun answer => ih answer (h.2 answer) start (hstart.trans (List.prefix_append ..))⟩

theorem Keeps.mono {P' : List (Q × A) → Except ε α → Prop} (h : Keeps J P said d)
    (hpost : ∀ said' result, said <+: said' → P said' result → P' said' result) : Keeps J P' said d := by
  replace h := h.extended
  suffices hall : ∀ start, (∀ said' result, start <+: said' → P said' result → P' said' result) →
      Keeps J (fun said' result => start <+: said' ∧ P said' result) said d → Keeps J P' said d from
    hall said hpost h
  clear h hpost
  intro start hpost h
  induction d generalizing said with
  | done result => exact hpost _ _ h.1 h.2
  | ask question next ih => exact ⟨h.1, fun answer => ih answer (h.2 answer)⟩

/-- The rule of handlers. -/
theorem Keeps.handle {P' : List (Q × A) → Except ε' β → Prop} {f : Except ε α → Dialog Q A ε' β} (h : Keeps J P said d)
    (hf : ∀ said' result, said <+: said' → P said' result → Keeps J P' said' (f result)) :
    Keeps J P' said (d.handle f) := by
  replace h := h.extended
  suffices hall : ∀ start, (∀ said' result, start <+: said' → P said' result → Keeps J P' said' (f result)) →
      Keeps J (fun said' result => start <+: said' ∧ P said' result) said d → Keeps J P' said (d.handle f) from
    hall said hf h
  clear h hf
  intro start hf h
  induction d generalizing said with
  | done result => exact hf _ _ h.1 h.2
  | ask question next ih => exact ⟨h.1, fun answer => ih answer (h.2 answer)⟩

theorem bind_eq_handle (f : α → Dialog Q A ε β) :
    d >>= f = d.handle fun result => match result with
      | .ok a => f a
      | .error e => .done (.error e) := by
  induction d with
  | done result => cases result <;> rfl
  | ask question next ih => exact congrArg (Dialog.ask question) (funext ih)

/-- The rule of sequences. -/
theorem Keeps.bind {P' : List (Q × A) → Except ε β → Prop} {f : α → Dialog Q A ε β} (h : Keeps J P said d)
    (hok : ∀ said' a, said <+: said' → P said' (.ok a) → Keeps J P' said' (f a))
    (herror : ∀ said' e, said <+: said' → P said' (.error e) → P' said' (.error e)) :
    Keeps J P' said (d >>= f) := by
  rw [bind_eq_handle]
  refine h.handle fun said' result hsaid hresult => ?_
  cases result with
  | ok a => exact hok said' a hsaid hresult
  | error e => exact herror said' e hsaid hresult

/-- An end with one condition for the values and one for the exceptions. -/
def Ends (E : List (Q × A) → Prop) (F : List (Q × A) → α → Prop) (said : List (Q × A)) : Except ε α → Prop
  | .ok a => F said a
  | .error _ => E said

section
variable {E : List (Q × A) → Prop} {F : List (Q × A) → α → Prop} {F' : List (Q × A) → β → Prop}

theorem Keeps.andThen {f : α → Dialog Q A ε β} (h : Keeps J (Ends E F) said d)
    (hf : ∀ said' a, said <+: said' → F said' a → Keeps J (Ends E F') said' (f a)) :
    Keeps J (Ends E F') said (d >>= f) :=
  h.bind (fun said' a hsaid ha => hf said' a hsaid ha) fun _ _ _ he => he

theorem Keeps.weaken {F' : List (Q × A) → α → Prop} (h : Keeps J (Ends E F) said d)
    (hpost : ∀ said' a, said <+: said' → F said' a → F' said' a) : Keeps J (Ends E F') said d := by
  refine h.mono fun said' result hsaid hresult => ?_
  cases result with
  | ok a => exact hpost said' a hsaid hresult
  | error e => exact hresult

end

/-- What is kept along the program is kept in every run. -/
theorem Keeps.runs {exchanges : List (Q × A)} {result : Except ε α} (h : Keeps J P said d) (hrun : Runs d exchanges result) :
    (∀ before question answer after, exchanges = before ++ (question, answer) :: after → J (said ++ before) question) ∧
      P (said ++ exchanges) result := by
  induction hrun generalizing said with
  | done =>
    rw [List.append_nil]
    exact ⟨fun before question answer after heq => by simp at heq, h⟩
  | @ask question next answer exchanges result hrest ih =>
    obtain ⟨hreasons, hend⟩ := ih (h.2 answer)
    rw [List.append_assoc, List.singleton_append] at hend
    refine ⟨fun before question' answer' after heq => ?_, hend⟩
    cases before with
    | nil =>
      obtain ⟨heq, -⟩ := List.cons.inj heq
      obtain ⟨rfl, -⟩ := Prod.mk.inj heq
      rw [List.append_nil]
      exact h.1
    | cons first before =>
      obtain ⟨rfl, hafter⟩ := List.cons.inj heq
      have hreason := hreasons before question' answer' after hafter
      rwa [List.append_assoc, List.singleton_append] at hreason

/-! ### Parts that ask only some questions -/

/-- Whatever the answers are, the dialog asks questions of one kind. -/
def Only (φ : Q → Prop) : Dialog Q A ε α → Prop
  | .done _ => True
  | .ask question next => φ question ∧ ∀ answer, Only φ (next answer)

section
variable {φ : Q → Prop}

theorem only_pure {a : α} : Only φ (pure a : Dialog Q A ε α) := trivial

theorem Only.bind {f : α → Dialog Q A ε β} (h : Only φ d) (hf : ∀ a, Only φ (f a)) : Only φ (d >>= f) := by
  induction d with
  | done result =>
    cases result with
    | ok a => exact hf a
    | error e => trivial
  | ask question next ih => exact ⟨h.1, fun answer => ih answer (h.2 answer)⟩

theorem Only.via {d : Dialog Q' A' ε' α} {put : Q' → Dialog Q A ε A'} {raise : ε' → ε} (h : ∀ question, Only φ (put question)) :
    Only φ (d.via put raise) := by
  induction d with
  | done result => cases result <;> trivial
  | ask question next ih => exact (h question).bind ih

/-- Such a part of a dialog keeps what the other questions rest on, and runs as it runs by itself. -/
theorem Only.keeps (h : Only φ d)
    (hJ : ∀ exchanges question, (∀ e ∈ exchanges, φ e.1) → φ question → J (said ++ exchanges) question) :
    Keeps J (fun said' result => ∃ exchanges, said' = said ++ exchanges ∧ (∀ e ∈ exchanges, φ e.1) ∧ Runs d exchanges result)
      said d := by
  suffices hall : ∀ (d' : Dialog Q A ε α) (before : List (Q × A)), (∀ e ∈ before, φ e.1) → Only φ d' →
      (∀ exchanges result, Runs d' exchanges result → Runs d (before ++ exchanges) result) →
      Keeps J (fun said' result => ∃ exchanges, said' = said ++ exchanges ∧ (∀ e ∈ exchanges, φ e.1) ∧ Runs d exchanges result)
        (said ++ before) d' by
    have hstart := hall d [] (fun _ he => absurd he List.not_mem_nil) h fun exchanges result hruns => hruns
    rwa [List.append_nil] at hstart
  intro d'
  induction d' with
  | done result => exact fun before hbefore _ hruns => ⟨before, rfl, hbefore, by simpa using hruns [] result .done⟩
  | ask question next ih =>
    intro before hbefore honly hruns
    refine ⟨hJ before question hbefore honly.1, fun answer => ?_⟩
    rw [List.append_assoc]
    refine ih answer (before ++ [(question, answer)]) (fun e he => ?_) (honly.2 answer) fun exchanges result hrest => ?_
    · rcases List.mem_append.mp he with hold | hnew
      · exact hbefore e hold
      · rw [List.mem_singleton.mp hnew]
        exact honly.1
    · rw [List.append_assoc]
      exact hruns _ _ (.ask hrest)

end

/-- A sequence that has come to its end. -/
theorem runs_bind_ok {f : α → Dialog Q A ε β} {exchanges : List (Q × A)} {b : β} (h : Runs (d >>= f) exchanges (.ok b)) :
    ∃ before after a, exchanges = before ++ after ∧ Runs d before (.ok a) ∧ Runs (f a) after (.ok b) := by
  rcases runs_bind h with ⟨e, -, hsame⟩ | hok
  · cases hsame
  · exact hok

/-- A run of a dialog whose questions were put another way is one of the dialog. -/
theorem runs_via {d : Dialog Q A ε α} {put : Q → Dialog Q' A' ε' A} {raise : ε → ε'} {exchanges : List (Q' × A')} {a : α}
    (h : Runs (d.via put raise) exchanges (.ok a)) :
    ∃ asked, Runs d asked (.ok a) ∧ ∀ e ∈ asked, ∃ part, part ⊆ exchanges ∧ Runs (put e.1) part (.ok e.2) := by
  induction d generalizing exchanges with
  | done result =>
    cases result with
    | ok a' =>
      obtain ⟨-, hsame⟩ := runs_done.mp h
      obtain rfl := Except.ok.inj hsame
      exact ⟨[], .done, fun _ he => absurd he List.not_mem_nil⟩
    | error e =>
      obtain ⟨-, hsame⟩ := runs_done.mp h
      cases hsame
  | ask question next ih =>
    rcases runs_bind h with ⟨e, -, hsame⟩ | ⟨before, after, answer, rfl, hput, hrest⟩
    · cases hsame
    · obtain ⟨asked, hasked, hparts⟩ := ih answer hrest
      refine ⟨(question, answer) :: asked, .ask hasked, fun e he => ?_⟩
      rcases List.mem_cons.mp he with rfl | he
      · exact ⟨before, List.subset_append_left .., hput⟩
      · obtain ⟨part, hpart, hruns⟩ := hparts e he
        exact ⟨part, fun e he => List.mem_append_right _ (hpart he), hruns⟩

end Dialog

end Library
