import Mathlib.Data.List.Basic
import ResearchGateway.Library.Machine

/-! Messages that are sent one at a time, and each of them once.

Callers come with their messages at any moment. One at a time is sent, behind a lock that
passes from caller to caller in the order in which they came, and a message under whose key
another one has been sent is dropped. `Sent` says what was sent along any run: the first
message under each key, in the order of the calls, of those that were not given up. -/
namespace Library

/-! ### The first of each key -/

section
variable {κ μ : Type} [DecidableEq κ] (key : μ → κ)

/-- The first message under each key that has not been seen. -/
def firsts (seen : List κ) : List μ → List μ
  | [] => []
  | m :: ms => if key m ∈ seen then firsts seen ms else m :: firsts (seen ++ [key m]) ms

variable {key} {seen : List κ} {m : μ} {ms ms' : List μ}

theorem firsts_cons_of_mem (h : key m ∈ seen) : firsts key seen (m :: ms) = firsts key seen ms := if_pos h

theorem firsts_cons_of_not_mem (h : key m ∉ seen) :
    firsts key seen (m :: ms) = m :: firsts key (seen ++ [key m]) ms := if_neg h

theorem firsts_append (seen : List κ) (ms ms' : List μ) :
    firsts key seen (ms ++ ms') = firsts key seen ms ++ firsts key (seen ++ (firsts key seen ms).map key) ms' := by
  induction ms generalizing seen with
  | nil => simp [firsts]
  | cons m ms ih =>
    by_cases h : key m ∈ seen
    · rw [List.cons_append, firsts_cons_of_mem h, firsts_cons_of_mem h, ih]
    · rw [List.cons_append, firsts_cons_of_not_mem h, firsts_cons_of_not_mem h, ih]
      simp

theorem firsts_sublist (seen : List κ) (ms : List μ) : (firsts key seen ms).Sublist ms := by
  induction ms generalizing seen with
  | nil => exact .slnil
  | cons m ms ih =>
    by_cases h : key m ∈ seen
    · rw [firsts_cons_of_mem h]
      exact (ih seen).cons m
    · rw [firsts_cons_of_not_mem h]
      exact (ih _).cons_cons m

theorem firsts_unseen (h : m ∈ firsts key seen ms) : key m ∉ seen := by
  induction ms generalizing seen with
  | nil => cases h
  | cons m' ms ih =>
    by_cases hm' : key m' ∈ seen
    · rw [firsts_cons_of_mem hm'] at h
      exact ih h
    · rw [firsts_cons_of_not_mem hm'] at h
      rcases List.mem_cons.mp h with rfl | h
      · exact hm'
      · exact fun hseen => ih h (List.mem_append_left _ hseen)

theorem firsts_nodup (seen : List κ) (ms : List μ) : ((firsts key seen ms).map key).Nodup := by
  induction ms generalizing seen with
  | nil => exact List.nodup_nil
  | cons m ms ih =>
    by_cases h : key m ∈ seen
    · rw [firsts_cons_of_mem h]
      exact ih seen
    · rw [firsts_cons_of_not_mem h, List.map_cons, List.nodup_cons]
      refine ⟨fun hmem => ?_, ih _⟩
      obtain ⟨m', hm', hkey⟩ := List.mem_map.mp hmem
      exact firsts_unseen hm' (by simp [hkey])

/-- No key is left out. -/
theorem key_mem_firsts (h : m ∈ ms) : key m ∈ seen ∨ key m ∈ (firsts key seen ms).map key := by
  induction ms generalizing seen with
  | nil => cases h
  | cons m' ms ih =>
    by_cases hm' : key m' ∈ seen
    · rw [firsts_cons_of_mem hm']
      rcases List.mem_cons.mp h with rfl | h
      · exact .inl hm'
      · exact ih h
    · rw [firsts_cons_of_not_mem hm', List.map_cons, List.mem_cons]
      rcases List.mem_cons.mp h with rfl | h
      · exact .inr (.inl rfl)
      · have hlater : key m ∈ seen ++ [key m'] ∨ _ := ih h
        rcases hlater with hseen | hlater
        · rcases List.mem_append.mp hseen with hseen | hsame
          · exact .inl hseen
          · exact .inr (.inl (List.mem_singleton.mp hsame))
        · exact .inr (.inr hlater)

variable (key) in
/-- What is kept is what stands at the places that no message with the same key comes before. -/
theorem firsts_places (ms : List μ) : ∃ places : List Nat, places.Pairwise (· < ·) ∧
    (∀ place, place ∈ places ↔ place < ms.length ∧ ∀ m ∈ ms.take place, ∀ m' ∈ ms[place]?, key m ≠ key m') ∧
      firsts key [] ms = places.filterMap fun place => ms[place]? := by
  induction ms using List.reverseRecOn with
  | nil => exact ⟨[], List.Pairwise.nil, by simp, rfl⟩
  | append_singleton ms last ih =>
    obtain ⟨places, hincreasing, hplaces, hfirsts⟩ := ih
    have hbound (place : Nat) (h : place ∈ places) : place < ms.length := ((hplaces place).mp h).1
    have hold : places.filterMap (fun place => (ms ++ [last])[place]?) = firsts key [] ms := by
      rw [hfirsts]
      exact List.filterMap_congr fun place hplace => List.getElem?_append_left (hbound place hplace)
    have hsame {place : Nat} (h : place < ms.length) : (ms ++ [last])[place]? = ms[place]? ∧
        (ms ++ [last]).take place = ms.take place :=
      ⟨List.getElem?_append_left h, List.take_append_of_le_length (Nat.le_of_lt h)⟩
    have hkeys : key last ∈ (firsts key [] ms).map key ↔ ∃ m ∈ ms, key m = key last := by
      constructor
      · intro h
        obtain ⟨m, hm, hkey⟩ := List.mem_map.mp h
        exact ⟨m, (firsts_sublist [] ms).subset hm, hkey⟩
      · rintro ⟨m, hm, hkey⟩
        have hmem : key m ∈ [] ∨ key m ∈ (firsts key [] ms).map key := key_mem_firsts hm
        exact hkey ▸ hmem.resolve_left List.not_mem_nil
    rw [firsts_append, List.nil_append]
    by_cases hknown : key last ∈ (firsts key [] ms).map key
    · refine ⟨places, hincreasing, fun place => ?_, by rw [firsts_cons_of_mem hknown, hold]; simp [firsts]⟩
      rw [hplaces place, List.length_append, List.length_singleton]
      constructor
      · rintro ⟨hlt, hfirst⟩
        refine ⟨by omega, ?_⟩
        rwa [(hsame hlt).1, (hsame hlt).2]
      · rintro ⟨hlt, hfirst⟩
        have hlt' : place < ms.length := by
          by_contra hge
          obtain rfl : place = ms.length := by omega
          obtain ⟨m, hm, hkey⟩ := hkeys.mp hknown
          exact hfirst m (by simpa using hm) last (by simp) hkey
        rw [(hsame hlt').1, (hsame hlt').2] at hfirst
        exact ⟨hlt', hfirst⟩
    · refine ⟨places ++ [ms.length], ?_, fun place => ?_, ?_⟩
      · refine List.pairwise_append.mpr ⟨hincreasing, List.pairwise_singleton .., fun place hplace n hn => ?_⟩
        rw [List.mem_singleton.mp hn]
        exact hbound place hplace
      · rw [List.mem_append, List.mem_singleton, hplaces place, List.length_append, List.length_singleton]
        constructor
        · rintro (⟨hlt, hfirst⟩ | rfl)
          · refine ⟨by omega, ?_⟩
            rwa [(hsame hlt).1, (hsame hlt).2]
          · refine ⟨by omega, fun m hm m' hm' hkey => hknown (hkeys.mpr ⟨m, by simpa using hm, ?_⟩)⟩
            rw [hkey]
            simpa [eq_comm] using congrArg key (show last = m' by simpa using hm')
        · rintro ⟨hlt, hfirst⟩
          rcases Nat.lt_or_eq_of_le (Nat.le_of_lt_succ hlt) with hlt | rfl
          · rw [(hsame hlt).1, (hsame hlt).2] at hfirst
            exact .inl ⟨hlt, hfirst⟩
          · exact .inr rfl
      · rw [firsts_cons_of_not_mem hknown, List.filterMap_append, hold]
        simp [firsts]

end

/-! ### The sender -/

structure Sender (κ μ : Type) where
  seen : List κ := []
  /-- The holder of the lock, with the message that is being sent. -/
  busy : Option (Nat × μ) := none
  /-- The callers that wait for the lock, in order, with their messages. -/
  waiting : List (Nat × μ) := []

namespace Sender
variable {κ μ : Type} [DecidableEq κ]

inductive Input (μ : Type) where
  | arrive (caller : Nat) (message : μ)
  /-- The first of the callers that wait goes on. -/
  | resume
  /-- The message that is being sent has been sent, or its caller has been cancelled. -/
  | settle
  /-- A caller that waits is cancelled. -/
  | leave (caller : Nat)

def Input.call? : Input μ → Option (Nat × μ)
  | arrive caller message => some (caller, message)
  | _ => none

/-- The calls of a run. -/
def calls (inputs : List (Input μ)) : List (Nat × μ) := inputs.filterMap Input.call?

variable (key : μ → κ)

/-- A caller with the lock, which sends its message or returns. -/
def enter (call : Nat × μ) (s : Sender κ μ) : Sender κ μ :=
  if key call.2 ∈ s.seen then s else {s with seen := s.seen ++ [key call.2], busy := some call}

def entered (message : μ) (s : Sender κ μ) : List μ := if key message ∈ s.seen then [] else [message]

/-- The lock is free, and nobody waits for it. -/
def free (s : Sender κ μ) : Bool := s.busy.isNone && s.waiting.isEmpty

def machine : Machine (Sender κ μ) (Input μ) μ where
  next
    | .arrive caller message, s =>
      if s.free then enter key (caller, message) s else {s with waiting := s.waiting ++ [(caller, message)]}
    | .resume, s =>
      match s.busy, s.waiting with
      | none, call :: rest => enter key call {s with waiting := rest}
      | _, _ => s
    | .settle, s => {s with busy := none}
    | .leave caller, s => {s with waiting := s.waiting.filter fun call => call.1 ≠ caller}
  out
    | .arrive _ message, s => if s.free then entered key message s else []
    | .resume, s =>
      match s.busy, s.waiting with
      | none, (_, message) :: _ => entered key message s
      | _, _ => []
    | _, _ => []

/-- What was sent of the calls of a run. -/
structure Sent (inputs : List (Input μ)) (s : Sender κ μ) (sent : List μ) : Prop where
  seen : s.seen = sent.map key
  /-- The calls that had the lock are sent but for the repetitions; the others wait, or they were
  given up. -/
  calls : ∃ through, sent = firsts key [] (through.map Prod.snd) ∧
    (through ++ s.waiting).Sublist (calls inputs) ∧
    (∀ call ∈ calls inputs, call ∈ through ++ s.waiting ∨ ∃ i ∈ inputs, i = .leave call.1) ∧
    ((∀ caller, .leave caller ∉ inputs) → through ++ s.waiting = calls inputs)

section
variable {key} {s : Sender κ μ} {inputs : List (Input μ)} {sent : List μ} {message : μ}

theorem enter_seen {call : Nat × μ} (h : s.seen = sent.map key) :
    (enter key call s).seen = (sent ++ entered key call.2 s).map key := by
  by_cases hmem : key call.2 ∈ s.seen
  · rw [enter, if_pos hmem, entered, if_pos hmem, List.append_nil, h]
  · rw [enter, if_neg hmem, entered, if_neg hmem, List.map_append, h]
    rfl

theorem entered_eq (h : s.seen = sent.map key) : entered key message s = firsts key (sent.map key) [message] := by
  by_cases hmem : key message ∈ s.seen
  · rw [entered, if_pos hmem, firsts_cons_of_mem (h ▸ hmem), firsts]
  · rw [entered, if_neg hmem, firsts_cons_of_not_mem (h ▸ hmem), firsts]

@[simp] theorem enter_waiting {call : Nat × μ} : (enter key call s).waiting = s.waiting := by
  unfold enter
  split <;> rfl

/-- A caller gets the lock. -/
theorem firsts_entered {through : List (Nat × μ)} (hseen : s.seen = sent.map key)
    (hsent : sent = firsts key [] (through.map Prod.snd)) (caller : Nat) :
    sent ++ entered key message s = firsts key [] ((through ++ [(caller, message)]).map Prod.snd) := by
  rw [List.map_append, firsts_append, ← hsent, entered_eq hseen]
  rfl

@[simp] theorem calls_snoc (inputs : List (Input μ)) (i : Input μ) :
    Sender.calls (inputs ++ [i]) = Sender.calls inputs ++ i.call?.toList := by
  rw [Sender.calls, List.filterMap_append]
  cases i <;> rfl

theorem mem_calls_or_left {through waiting : List (Nat × μ)}
    (h : ∀ call ∈ Sender.calls inputs, call ∈ through ++ waiting ∨ ∃ i ∈ inputs, i = .leave call.1) (i : Input μ) :
    ∀ call ∈ Sender.calls inputs, call ∈ through ++ waiting ∨ ∃ i' ∈ inputs ++ [i], i' = .leave call.1 := by
  intro call hcall
  rcases h call hcall with hhere | ⟨i', hi', hleave⟩
  · exact .inl hhere
  · exact .inr ⟨i', List.mem_append_left _ hi', hleave⟩

theorem Sent.arrive (h : Sent key inputs s sent) (caller : Nat) (message : μ) :
    Sent key (inputs ++ [.arrive caller message]) ((machine key).next (.arrive caller message) s)
      (sent ++ (machine key).out (.arrive caller message) s) := by
  obtain ⟨hseen, through, hsent, hsub, hall, heq⟩ := h
  have hcalls : Sender.calls (inputs ++ [.arrive caller message]) = Sender.calls inputs ++ [(caller, message)] := calls_snoc ..
  have hnoleave (hno : ∀ c, Input.leave c ∉ inputs ++ [.arrive caller message]) : ∀ c, Input.leave c ∉ inputs :=
    fun c hc => hno c (List.mem_append_left _ hc)
  have hcovered (now : List (Nat × μ)) (hnow : ∀ call, call ∈ now ↔ call ∈ through ++ s.waiting ∨ call = (caller, message)) :
      ∀ call ∈ Sender.calls inputs ++ [(caller, message)],
        call ∈ now ∨ ∃ i ∈ inputs ++ [.arrive caller message], i = .leave call.1 := by
    intro call hcall
    rcases List.mem_append.mp hcall with hold | hnew
    · rcases mem_calls_or_left hall (.arrive caller message) call hold with hhere | hleft
      · exact .inl ((hnow call).mpr (.inl hhere))
      · exact .inr hleft
    · exact .inl ((hnow call).mpr (.inr (List.mem_singleton.mp hnew)))
  by_cases hfree : s.free = true
  · have hwaiting : s.waiting = [] := by simpa using (Bool.and_eq_true_iff.mp hfree).2
    simp only [machine, hfree, if_true]
    refine ⟨enter_seen hseen, through ++ [(caller, message)], firsts_entered hseen hsent caller, ?_, ?_, fun hno => ?_⟩
    · rw [hwaiting, List.append_nil] at hsub
      rw [enter_waiting, hwaiting, List.append_nil, hcalls]
      exact hsub.append (.refl _)
    · rw [hcalls]
      exact hcovered _ fun call => by simp [hwaiting]
    · rw [enter_waiting, hwaiting, List.append_nil, hcalls, ← heq (hnoleave hno), hwaiting, List.append_nil]
  · simp only [machine, hfree, Bool.false_eq_true, if_false, List.append_nil]
    refine ⟨hseen, through, hsent, ?_, ?_, fun hno => ?_⟩
    · rw [hcalls, ← List.append_assoc]
      exact hsub.append (.refl _)
    · rw [hcalls]
      exact hcovered _ fun call => by simp [or_assoc]
    · rw [hcalls, ← heq (hnoleave hno), List.append_assoc]

theorem Sent.resume (h : Sent key inputs s sent) :
    Sent key (inputs ++ [.resume]) ((machine key).next .resume s) (sent ++ (machine key).out .resume s) := by
  obtain ⟨hseen, through, hsent, hsub, hall, heq⟩ := h
  have hcalls : Sender.calls (inputs ++ [.resume]) = Sender.calls inputs := by simp [Input.call?]
  have hnoleave (hno : ∀ c, Input.leave c ∉ inputs ++ [.resume]) : ∀ c, Input.leave c ∉ inputs :=
    fun c hc => hno c (List.mem_append_left _ hc)
  have hkept : Sent key (inputs ++ [.resume]) s (sent ++ []) := by
    rw [List.append_nil]
    refine ⟨hseen, through, hsent, hcalls ▸ hsub, ?_, fun hno => ?_⟩
    · rw [hcalls]
      exact mem_calls_or_left hall _
    · rw [hcalls, heq (hnoleave hno)]
  cases hbusy : s.busy with
  | some m => simpa only [machine, hbusy] using hkept
  | none =>
    cases hwaiting : s.waiting with
    | nil => simpa only [machine, hbusy, hwaiting] using hkept
    | cons call rest =>
      obtain ⟨caller, message⟩ := call
      rw [hwaiting] at hsub hall heq
      simp only [machine, hbusy, hwaiting]
      have hmoved : (through ++ [(caller, message)]) ++ rest = through ++ (caller, message) :: rest := by simp
      have hsame : entered key message s = entered key message {s with waiting := rest} := rfl
      rw [hsame]
      refine ⟨enter_seen hseen, through ++ [(caller, message)], firsts_entered hseen hsent caller, ?_, ?_, fun hno => ?_⟩
      · rw [enter_waiting, hcalls, hmoved]
        exact hsub
      · rw [enter_waiting, hcalls, hmoved]
        exact mem_calls_or_left hall _
      · rw [enter_waiting, hcalls, hmoved, heq (hnoleave hno)]

theorem Sent.leave (h : Sent key inputs s sent) (caller : Nat) :
    Sent key (inputs ++ [.leave caller]) ((machine key).next (.leave caller) s)
      (sent ++ (machine key).out (.leave caller) s) := by
  obtain ⟨hseen, through, hsent, hsub, hall, -⟩ := h
  have hcalls : Sender.calls (inputs ++ [.leave caller]) = Sender.calls inputs := by simp [Input.call?]
  simp only [machine, List.append_nil]
  refine ⟨hseen, through, hsent, ?_, ?_, fun hno => absurd (by simp) (hno caller)⟩
  · rw [hcalls]
    exact ((List.Sublist.refl through).append List.filter_sublist).trans hsub
  · rw [hcalls]
    intro call hcall
    rcases hall call hcall with hhere | ⟨i, hi, hleave⟩
    · by_cases hsame : call.1 = caller
      · exact .inr ⟨.leave caller, by simp, by rw [hsame]⟩
      · left
        rcases List.mem_append.mp hhere with hthrough | hwaits
        · exact List.mem_append_left _ hthrough
        · exact List.mem_append_right _ (List.mem_filter.mpr ⟨hwaits, by simpa using hsame⟩)
    · exact .inr ⟨i, List.mem_append_left _ hi, hleave⟩

theorem Sent.settle (h : Sent key inputs s sent) :
    Sent key (inputs ++ [.settle]) ((machine key).next .settle s) (sent ++ (machine key).out .settle s) := by
  obtain ⟨hseen, through, hsent, hsub, hall, heq⟩ := h
  have hcalls : Sender.calls (inputs ++ [.settle]) = Sender.calls inputs := by simp [Input.call?]
  simp only [machine, List.append_nil]
  refine ⟨hseen, through, hsent, hcalls ▸ hsub, ?_, fun hno => ?_⟩
  · rw [hcalls]
    exact mem_calls_or_left hall _
  · rw [hcalls]
    exact heq fun c hc => hno c (List.mem_append_left _ hc)

theorem Sent.step (h : Sent key inputs s sent) (i : Input μ) :
    Sent key (inputs ++ [i]) ((machine key).next i s) (sent ++ (machine key).out i s) := by
  cases i with
  | arrive caller message => exact h.arrive caller message
  | resume => exact h.resume
  | settle => exact h.settle
  | leave caller => exact h.leave caller

theorem Sent.run (h : Sent key inputs s sent) (more : List (Input μ)) :
    Sent key (inputs ++ more) ((machine key).run s more) (sent ++ (machine key).trace s more) := by
  induction more generalizing inputs s sent with
  | nil => simpa using h
  | cons i more ih => simpa [Machine.run, Machine.trace] using ih (h.step i)

theorem sent_empty : Sent key [] ({} : Sender κ μ) [] :=
  ⟨rfl, [], rfl, .slnil, fun _ h => absurd h List.not_mem_nil, fun _ => rfl⟩

end

/-! ### What follows -/

section
variable {key} {s : Sender κ μ} {inputs : List (Input μ)} {sent : List μ}

theorem Sent.nodup (h : Sent key inputs s sent) : (sent.map key).Nodup := by
  obtain ⟨-, through, rfl, -⟩ := h
  exact firsts_nodup ..

theorem Sent.sublist (h : Sent key inputs s sent) : sent.Sublist ((Sender.calls inputs).map Prod.snd) := by
  obtain ⟨-, through, rfl, hsub, -⟩ := h
  exact (firsts_sublist ..).trans (((List.sublist_append_left ..).trans hsub).map Prod.snd)

/-- A message that nobody waits with and nobody gave up has been sent, or one of the same key. -/
theorem Sent.complete (h : Sent key inputs s sent) {call : Nat × μ} (hcall : call ∈ Sender.calls inputs)
    (hwaits : call ∉ s.waiting) (hleft : .leave call.1 ∉ inputs) : key call.2 ∈ sent.map key := by
  obtain ⟨-, through, rfl, -, hall, -⟩ := h
  rcases hall call hcall with hhere | ⟨i, hi, rfl⟩
  · rcases List.mem_append.mp hhere with hthrough | hwaiting
    · have hmem : call.2 ∈ through.map Prod.snd := List.mem_map.mpr ⟨call, hthrough, rfl⟩
      have hfirst : key call.2 ∈ [] ∨ _ := key_mem_firsts hmem
      rcases hfirst with hseen | hkey
      · cases hseen
      · exact hkey
    · exact absurd hwaiting hwaits
  · exact absurd hi hleft

end

end Sender

end Library
