import ResearchGateway.Library.Links
import ResearchGateway.Pipe.Context

/-! The walk over the active branch of a chat.

The walk puts the text of every identifier into its set and looks the identifier itself up
there. A string is found again; a number or `True` never is, so where such an identifier
leads back to an entry the walk goes round for another time, or for ever. It returns the
branch exactly if the identifier that first leads back, if there is one, is a string
(`active_branch_iff`). -/
namespace ResearchGateway
open Library

namespace Pipe

/-! ### The links of a chat -/

/-- A string, a number, `true`, `false` or `null`. -/
def IsScalar : Value → Prop
  | .list _ | .dict _ => False
  | _ => True

def IsString : Value → Prop
  | .str _ => True
  | _ => False

/-- What the walk starts from: the entries and `currentId`. -/
def branchStart? (chat : Fields) : Option (Fields × Value) := do
  let history ← ((chat.get "history").orElse (.dict [])).fields?
  let messages ← ((history.get "messages").orElse (.dict [])).fields?
  return (messages, history.get "currentId")

section
variable (repr : Value → Text) (messages : Fields)

/-- The entry that an identifier designates, with its key. -/
def designated? (id : Value) : Option (Text × Fields) :=
  if id.truthy then
    match messages.get? (id.toText repr) with
    | some (.dict message) => some (id.toText repr, message)
    | _ => none
  else none

theorem designated?_some {id : Value} {entry : Text × Fields} (h : designated? repr messages id = some entry) :
    id.truthy = true ∧ entry.1 = id.toText repr ∧ messages.get? entry.1 = some (.dict entry.2) := by
  unfold designated? at h
  cases htruthy : id.truthy with
  | false =>
    rw [htruthy] at h
    cases h
  | true =>
    rw [htruthy, if_pos rfl] at h
    cases hfound : messages.get? (id.toText repr) with
    | none =>
      rw [hfound] at h
      cases h
    | some value =>
      rw [hfound] at h
      cases value with
      | dict message =>
        obtain rfl := Option.some.inj h
        exact ⟨rfl, rfl, hfound⟩
      | _ => cases h

/-- The links from each message to its parent. -/
def parentLinks : Links Value Text Fields where
  entry? := designated? repr messages
  next message := message.get "parentId"
  keyed i j a b hi hj hkey := by
    obtain ⟨-, -, ha⟩ := designated?_some repr messages hi
    obtain ⟨-, -, hb⟩ := designated?_some repr messages hj
    rw [hkey, hb] at ha
    injection ha with hvalue
    injection hvalue with hmessage
    exact Prod.ext hkey hmessage.symm

/-- `currentId` and the `parentId` of every entry are scalars. -/
structure ScalarLinks (current : Value) : Prop where
  current : IsScalar current
  parent : ∀ key message, messages.get? key = some (.dict message) → IsScalar (Fields.get message "parentId")

/-- If the walk along the links comes back to an entry, it is by a string that it first does. -/
def ReturnsByString (current : Value) : Prop :=
  ∀ path id entry, (parentLinks repr messages).Walk current path id →
    designated? repr messages id = some entry → entry.1 ∈ path.map Prod.fst → IsString id

end

section
variable {repr : Value → Text} {messages : Fields} {current id : Value} {path : List (Text × Fields)}
  {seen : List Text} {result : List Fields} {entry : Text × Fields}

theorem ScalarLinks.at (h : ScalarLinks messages current)
    (hwalk : (parentLinks repr messages).Walk current path id) : IsScalar id := by
  cases hwalk with
  | start => exact h.current
  | back _ hentry =>
    obtain ⟨-, -, hfound⟩ := designated?_some repr messages hentry
    exact h.parent _ _ hfound

/-! ### One turn -/

theorem memberOf?_string (repr : Value → Text) (h : IsString id) :
    id.memberOf? seen = some (decide (id.toText repr ∈ seen)) := by
  cases id with
  | str => rfl
  | _ => cases h

/-- Of what is in the set, nothing but a string is equal to it. -/
theorem memberOf?_scalar (h : IsScalar id) (hstring : ¬ IsString id) : id.memberOf? seen = some false := by
  cases id with
  | str => exact absurd trivial hstring
  | list | dict => cases h
  | _ => rfl

theorem memberOf?_isSome (h : IsScalar id) : ∃ found, id.memberOf? seen = some found := by
  cases id with
  | list | dict => cases h
  | _ => exact ⟨_, rfl⟩

/-- An identifier that designates nothing ends the walk. -/
theorem activeTurn_none (h : IsScalar id) (hnone : designated? repr messages id = none) :
    activeTurn repr messages seen id = .ended := by
  unfold designated? at hnone
  unfold activeTurn
  cases htruthy : id.truthy with
  | false => rfl
  | true =>
    rw [htruthy, if_pos rfl] at hnone
    obtain ⟨found, hmember⟩ := @memberOf?_isSome id seen h
    rw [if_neg (by decide), hmember]
    cases found with
    | true => rfl
    | false =>
      dsimp only
      cases hget : messages.get? (id.toText repr) with
      | none => rfl
      | some message =>
        cases message with
        | dict message =>
          rw [hget] at hnone
          cases hnone
        | _ => rfl

theorem activeTurn_seen (hentry : designated? repr messages id = some entry) (hstring : IsString id)
    (hseen : entry.1 ∈ seen) : activeTurn repr messages seen id = .ended := by
  obtain ⟨htruthy, hkey, -⟩ := designated?_some repr messages hentry
  unfold activeTurn
  rw [if_neg (by rw [htruthy]; decide), memberOf?_string repr hstring, ← hkey, decide_eq_true hseen]

theorem activeTurn_next (hentry : designated? repr messages id = some entry) (hscalar : IsScalar id)
    (hnew : entry.1 ∉ seen ∨ ¬ IsString id) :
    activeTurn repr messages seen id = .next entry.2 (entry.2.get "parentId") := by
  obtain ⟨htruthy, hkey, hfound⟩ := designated?_some repr messages hentry
  have hmember : id.memberOf? seen = some false := by
    by_cases hstring : IsString id
    · rw [memberOf?_string repr hstring, ← hkey]
      exact congrArg some (decide_eq_false (hnew.resolve_right (not_not_intro hstring)))
    · exact memberOf?_scalar hscalar hstring
  unfold activeTurn
  rw [if_neg (by rw [htruthy]; decide), hmember]
  dsimp only
  rw [← hkey, hfound]

/-! ### The loop -/

theorem activeLoop_ended {fuel : Nat} (h : activeTurn repr messages seen id = .ended) :
    activeLoop repr messages (fuel + 1) seen result id = some result := by
  rw [activeLoop, h]

theorem activeLoop_next {fuel : Nat} {message : Fields} {parent : Value}
    (h : activeTurn repr messages seen id = .next message parent) :
    activeLoop repr messages (fuel + 1) seen result id =
      activeLoop repr messages fuel (id.toText repr :: seen) (message :: result) parent := by
  rw [activeLoop, h]

/-- What the loop has collected stays at the end of its result. -/
theorem activeLoop_suffix {fuel : Nat} {final : List Fields}
    (h : activeLoop repr messages fuel seen result id = some final) : result <:+ final := by
  induction fuel generalizing seen result id with
  | zero => cases h
  | succ fuel ih =>
    rw [activeLoop] at h
    split at h
    · cases h
    · obtain rfl := Option.some.inj h
      exact List.suffix_refl _
    · exact (List.suffix_cons _ _).trans (ih h)

/-- A loop that ends does so with more turns as well. -/
theorem activeLoop_more {fuel more : Nat} {final : List Fields} (hle : fuel ≤ more)
    (h : activeLoop repr messages fuel seen result id = some final) :
    activeLoop repr messages more seen result id = some final := by
  induction fuel generalizing more seen result id with
  | zero => cases h
  | succ fuel ih =>
    obtain ⟨more, rfl⟩ : ∃ k, more = k + 1 := ⟨more - 1, by omega⟩
    rw [activeLoop] at h ⊢
    cases hturn : activeTurn repr messages seen id with
    | raised =>
      rw [hturn] at h
      cases h
    | ended =>
      rw [hturn] at h
      exact h
    | next message parent =>
      rw [hturn] at h
      exact ih (Nat.le_of_succ_le_succ hle) h

/-- A walk passes each entry once, so it is no longer than the entries are many. -/
theorem walk_length_le (h : (parentLinks repr messages).Walk current path id) :
    path.length ≤ messages.length := by
  have hkeys : path.map Prod.fst ⊆ messages.map Prod.fst := by
    intro key hkey
    obtain ⟨seen, hseen, rfl⟩ := List.mem_map.mp hkey
    obtain ⟨i, hi⟩ := h.named seen hseen
    obtain ⟨-, -, hfound⟩ := designated?_some repr messages hi
    obtain ⟨front, rest, hsplit, -⟩ := List.lookup_eq_some_iff.mp hfound
    rw [hsplit, List.map_append]
    exact List.mem_append_right _ (List.mem_cons_self ..)
  have hle := (List.subperm_of_subset h.distinct hkeys).length_le
  rwa [List.length_map, List.length_map] at hle

/-- Where the first return is by a string, the loop goes on to the end of the branch. -/
theorem activeLoop_branch (hscalar : ScalarLinks messages current)
    (hreturn : ReturnsByString repr messages current) {fuel : Nat}
    (hwalk : (parentLinks repr messages).Walk current path id)
    (hfuel : messages.length < fuel + path.length) :
    ∃ branch, activeLoop repr messages fuel (path.map Prod.fst) (path.map Prod.snd) id =
        some (branch.map Prod.snd) ∧ (parentLinks repr messages).IsBranch current branch := by
  induction fuel generalizing path id with
  | zero =>
    have hle := walk_length_le hwalk
    omega
  | succ fuel ih =>
    have hid := hscalar.at hwalk
    cases hentry : designated? repr messages id with
    | none =>
      refine ⟨path, activeLoop_ended (activeTurn_none hid hentry), hwalk.isBranch fun entry h => ?_⟩
      have hsome : designated? repr messages id = some entry := h
      rw [hentry] at hsome
      cases hsome
    | some entry =>
      by_cases hseen : entry.1 ∈ path.map Prod.fst
      · have hstring := hreturn path id entry hwalk hentry hseen
        refine ⟨path, activeLoop_ended (activeTurn_seen hentry hstring hseen), hwalk.isBranch fun e h => ?_⟩
        have hsame : designated? repr messages id = some e := h
        rw [hentry] at hsame
        rw [← Option.some.inj hsame]
        exact hseen
      · obtain ⟨-, hkey, -⟩ := designated?_some repr messages hentry
        have hnext : (parentLinks repr messages).Walk current (entry :: path) (entry.2.get "parentId") :=
          hwalk.back hentry hseen
        rw [activeLoop_next (activeTurn_next hentry hid (.inl hseen)), ← hkey]
        exact ih hnext (by rw [List.length_cons]; omega)

/-- A loop that ends has passed every entry of a walk. -/
theorem activeLoop_walk (hscalar : ScalarLinks messages current) {fuel : Nat} {final : List Fields}
    (h : activeLoop repr messages fuel [] [] current = some final)
    (hwalk : (parentLinks repr messages).Walk current path id) :
    ∃ fuel', activeLoop repr messages fuel' (path.map Prod.fst) (path.map Prod.snd) id = some final := by
  induction hwalk with
  | start => exact ⟨fuel, h⟩
  | @back path id entry hwalk hentry hnew ih =>
    obtain ⟨fuel', hloop⟩ := ih
    cases fuel' with
    | zero => cases hloop
    | succ fuel' =>
      obtain ⟨-, hkey, -⟩ := designated?_some repr messages hentry
      rw [activeLoop_next (activeTurn_next hentry (hscalar.at hwalk) (.inl hnew)), ← hkey] at hloop
      exact ⟨fuel', hloop⟩

/-- A loop that returns a branch did not come back by anything but a string: it would have
passed an entry for the second time. -/
theorem returnsByString_of_branch (hscalar : ScalarLinks messages current) {fuel : Nat}
    {branch : List (Text × Fields)}
    (h : activeLoop repr messages fuel [] [] current = some (branch.map Prod.snd))
    (hbranch : (parentLinks repr messages).IsBranch current branch) :
    ReturnsByString repr messages current := by
  intro path id entry hwalk hentry hseen
  apply Classical.byContradiction
  intro hstring
  obtain ⟨fuel', hloop⟩ := activeLoop_walk hscalar h hwalk
  cases fuel' with
  | zero => cases hloop
  | succ fuel' =>
    rw [activeLoop_next (activeTurn_next hentry (hscalar.at hwalk) (.inr hstring))] at hloop
    have hlength := (activeLoop_suffix hloop).length_le
    rw [List.length_cons, List.length_map, List.length_map] at hlength
    have hsuffix := hwalk.suffix hbranch.toIsPath (Nat.le_of_lt hlength)
    obtain ⟨entry', hentry', hagain⟩ := hwalk.front hbranch.toIsPath hsuffix hlength
    obtain rfl := Option.some.inj (hentry.symm.trans hentry')
    have hdistinct := hbranch.distinct.sublist (hagain.sublist.map _)
    exact (List.nodup_cons.mp hdistinct).1 hseen

/-- A chat whose identifiers are strings. -/
theorem returnsByString_of_strings (hcurrent : IsString current)
    (hparent : ∀ key message, messages.get? key = some (.dict message) →
      IsString (Fields.get message "parentId")) : ReturnsByString repr messages current := by
  intro path id entry hwalk _ _
  cases hwalk with
  | start => exact hcurrent
  | back _ hentry =>
    obtain ⟨-, -, hfound⟩ := designated?_some repr messages hentry
    exact hparent _ _ hfound

theorem activeMessages_eq (fuel : Nat) (chat : Fields) :
    activeMessages repr fuel chat =
      (branchStart? chat).bind fun start => activeLoop repr start.1 fuel [] [] start.2 := by
  unfold activeMessages branchStart?
  cases ((chat.get "history").orElse (.dict [])).fields? with
  | none => rfl
  | some history =>
    cases hmessages : ((history.get "messages").orElse (.dict [])).fields? with
    | none => simp [hmessages]
    | some messages => simp [hmessages]

end

end Pipe

open Pipe

/-- The walk ends and returns the active branch, each entry once and each one linked to the
one before it, exactly if the chat has a history of entries and the identifier by which
the links first lead back to an entry, if they do, is a string. -/
theorem active_branch_iff (repr : Value → Text) (chat : Fields)
    (hscalar : ∀ messages current, branchStart? chat = some (messages, current) →
      ScalarLinks messages current) :
    (∃ messages current branch enough, branchStart? chat = some (messages, current) ∧
        (∀ fuel, enough ≤ fuel → activeMessages repr fuel chat = some (branch.map Prod.snd)) ∧
        (parentLinks repr messages).IsBranch current branch) ↔
      ∃ messages current, branchStart? chat = some (messages, current) ∧
        ReturnsByString repr messages current := by
  constructor
  · rintro ⟨messages, current, branch, enough, hstart, hreturns, hbranch⟩
    have hloop := hreturns enough (Nat.le_refl _)
    rw [activeMessages_eq, hstart] at hloop
    exact ⟨messages, current, hstart, returnsByString_of_branch (hscalar _ _ hstart) hloop hbranch⟩
  · rintro ⟨messages, current, hstart, hreturn⟩
    have hlinks := hscalar messages current hstart
    obtain ⟨branch, hloop, hbranch⟩ := @activeLoop_branch repr messages current current [] hlinks hreturn
      (messages.length + 1) .start (Nat.lt_succ_self _)
    refine ⟨messages, current, branch, messages.length + 1, hstart, fun fuel hfuel => ?_, hbranch⟩
    rw [activeMessages_eq, hstart]
    exact activeLoop_more hfuel hloop

/-! ### A cycle of one message -/
namespace Sample

/-- A message that is its own parent, by this identifier. -/
def ownParent (id : Value) : Fields :=
  [(.ofString "history", .object [("currentId", id),
    ("messages", .object [("1", .object [("parentId", id)])])])]

theorem ownParent_start (id : Value) : branchStart? (ownParent id) =
    some ([(.ofString "1", .object [("parentId", id)])], id) := rfl

theorem ownParent_entry {id : Value} {key : Text} {message : Fields}
    (h : Fields.get? [(.ofString "1", .object [("parentId", id)])] key = some (.dict message)) :
    message.get "parentId" = id := by
  unfold Fields.get? at h
  rw [List.lookup_cons] at h
  split at h
  · injection h with hvalue
    injection hvalue with hmessage
    rw [← hmessage]
    rfl
  · cases h

theorem ownParent_scalar {id : Value} (h : IsScalar id) {messages : Fields} {current : Value}
    (hstart : branchStart? (ownParent id) = some (messages, current)) : ScalarLinks messages current := by
  rw [ownParent_start] at hstart
  obtain ⟨rfl, rfl⟩ := Prod.mk.inj (Option.some.inj hstart)
  refine ⟨h, fun key message hfound => ?_⟩
  rw [ownParent_entry hfound]
  exact h

/-- The number is looked up and not found, again and again. -/
theorem ownParent_loop (repr : Value → Text) (fuel : Nat) (seen : List Text) (result : List Fields) :
    activeLoop repr [(.ofString "1", .object [("parentId", .int 1)])] fuel seen result (.int 1) = none := by
  induction fuel generalizing seen result with
  | zero => rfl
  | succ fuel ih => exact ih _ _

end Sample

/-- The string comes back to the message, and the walk ends. -/
theorem active_branch_ownParent :
    ∃ messages current branch enough,
      branchStart? (Sample.ownParent (.text "1")) = some (messages, current) ∧
        (∀ fuel, enough ≤ fuel → activeMessages (fun _ => []) fuel (Sample.ownParent (.text "1")) =
          some (branch.map Prod.snd)) ∧
        (parentLinks (fun _ => []) messages).IsBranch current branch := by
  apply (active_branch_iff (fun _ => []) (Sample.ownParent (.text "1"))
    fun _ _ => @Sample.ownParent_scalar (.text "1") trivial _ _).mpr
  refine ⟨_, _, Sample.ownParent_start _, returnsByString_of_strings trivial fun key message hfound => ?_⟩
  rw [Sample.ownParent_entry hfound]
  trivial

/-- With the number 1 for the string, the walk does not end. -/
theorem active_branch_endless :
    (∀ messages current, branchStart? (Sample.ownParent (.int 1)) = some (messages, current) →
        ScalarLinks messages current) ∧
      ∀ repr fuel, activeMessages repr fuel (Sample.ownParent (.int 1)) = none := by
  refine ⟨fun _ _ => @Sample.ownParent_scalar (.int 1) trivial _ _, fun repr fuel => ?_⟩
  rw [activeMessages_eq, Sample.ownParent_start]
  exact Sample.ownParent_loop repr fuel [] []

end ResearchGateway
