import ResearchGateway.Domain
import ResearchGateway.Library.Value

/-! Private retrieval from Open WebUI.

A response is a group or a list of groups; a group has its documents and their metadata
under two keys, as lists or as lists in a list. What the parser reads goes to the runner with
the metadata beside it, which is where the text came from. A text is never given another's
metadata, but the parser looks for a list in a list before it knows that there is a list:
it raises at a number, at `true` and at an object (`parseRetrievalResponse_attributes_iff`). -/
namespace ResearchGateway
open Library

structure RetrievedPassage where
  text : Text
  metadata : Fields

/-- `value[0]`, where `none` is an exception: an object of a response has no key but texts. -/
def firstOf? : Value → Option Value
  | .list items => items.head?
  | .str t => t.head?.map fun c => .str [c]
  | _ => none

/-- A value that is a list in a list is replaced by the inner one. -/
def unnest (value : Value) : Option Value :=
  if value.truthy then
    match firstOf? value with
    | some (.list items) => some (.list items)
    | some _ => some value
    | none => none
  else some value

/-- What `isinstance(value, list)` lets through. -/
def itemsOf : Value → List Value
  | .list items => items
  | _ => []

def metadataAt (metadatas : List Value) (index : Nat) : Fields :=
  match metadatas[index]? with
  | some (.dict candidate) => candidate
  | _ => []

/-- The loop over the documents of a group. -/
def passagesFrom (metadatas : List Value) (index : Nat) : List Value → List RetrievedPassage
  | [] => []
  | .str text :: documents => ⟨text, metadataAt metadatas index⟩ :: passagesFrom metadatas (index + 1) documents
  | _ :: documents => passagesFrom metadatas (index + 1) documents

def parseGroup : Value → Option (List RetrievedPassage)
  | .dict group => do
    let documents ← unnest (Fields.getOr group "documents" (.list []))
    let metadatas ← unnest (Fields.getOr group "metadatas" (.list []))
    return passagesFrom (itemsOf metadatas) 0 (itemsOf documents)
  | _ => some []

def parseGroups : List Value → Option (List RetrievedPassage)
  | [] => some []
  | group :: groups => do
    let passages ← parseGroup group
    return passages ++ (← parseGroups groups)

/-- The groups of a response: an object is its only one. -/
def responseGroups : Value → List Value
  | .dict group => [.dict group]
  | .list groups => groups
  | _ => []

/-- `OpenWebUIClient._parse_retrieval_response`; `none` is an exception. -/
def parseRetrievalResponse (payload : Value) : Option (List RetrievedPassage) :=
  parseGroups (responseGroups payload)

/-! ### What a response says

The documents of a group are the list under `documents`, or the list that is first in it;
the metadata is read in the same way. -/

/-- A list, without a list around it. -/
def innerList : Value → List Value
  | .list (.list items :: _) => items
  | .list items => items
  | _ => []

def listUnder (key : String) : Value → List Value
  | .dict group => innerList (Fields.getOr group key (.list []))
  | _ => []

/-- The passages of a group are its texts, all of them and in order, each with the object at
its own place in the metadata of the group. -/
structure OfGroup (group : Value) (passages : List RetrievedPassage) (indices : List Nat) : Prop where
  ordered : indices.Pairwise (· < ·)
  paired : List.Forall₂ (fun index passage =>
    (listUnder "documents" group)[index]? = some (.str passage.text) ∧
      passage.metadata = metadataAt (listUnder "metadatas" group) index) indices passages
  complete : ∀ index text, (listUnder "documents" group)[index]? = some (.str text) → index ∈ indices

/-- The passages are those of the groups, one group after the other. -/
def Attributed (payload : Value) (passages : List RetrievedPassage) : Prop :=
  ∃ parts : List (List RetrievedPassage), passages = parts.flatten ∧
    List.Forall₂ (fun group part => ∃ indices, OfGroup group part indices) (responseGroups payload) parts

/-- A value that has a first entry to look at, or is taken to be empty. -/
def Subscriptable : Value → Prop
  | .bool b => b = false
  | .int n => n = 0
  | .float bits => bits.setWidth 63 = 0
  | .dict fields => fields = []
  | _ => True

/-- Both entries of a group can be subscripted. -/
def SubscriptableGroup : Value → Prop
  | .dict group => ∀ key ∈ ["documents", "metadatas"], Subscriptable (Fields.getOr group key (.list []))
  | _ => True

/-! ### One group -/

section
variable {value group : Value} {groups : List Value} {passages : List RetrievedPassage}

theorem unnest_isSome : (unnest value).isSome = true ↔ Subscriptable value := by
  cases value with
  | none => simp [unnest, Subscriptable, Value.truthy]
  | bool b => cases b <;> simp [unnest, Subscriptable, Value.truthy, firstOf?]
  | int n => by_cases hn : n = 0 <;> simp [unnest, Subscriptable, Value.truthy, firstOf?, hn]
  | float bits => by_cases hbits : bits.setWidth 63 = 0 <;> simp [unnest, Subscriptable, Value.truthy, firstOf?, hbits]
  | str t => cases t <;> simp [unnest, Subscriptable, Value.truthy, firstOf?]
  | list items =>
    cases items with
    | nil => simp [unnest, Subscriptable, Value.truthy]
    | cons item items => cases item <;> simp [unnest, Subscriptable, Value.truthy, firstOf?]
  | dict entries => cases entries <;> simp [unnest, Subscriptable, Value.truthy, firstOf?]

/-- Where the step returns, what is iterated over is the list that the response says. -/
theorem itemsOf_unnest {value' : Value} (h : unnest value = some value') :
    itemsOf value' = innerList value := by
  cases value with
  | list items =>
    cases items with
    | nil =>
      obtain rfl := Option.some.inj h
      rfl
    | cons item items => cases item <;> obtain rfl := Option.some.inj h <;> rfl
  | str t => cases t <;> obtain rfl := Option.some.inj h <;> rfl
  | none =>
    obtain rfl := Option.some.inj h
    rfl
  | _ =>
    unfold unnest at h
    split at h
    · cases h
    · obtain rfl := Option.some.inj h
      rfl

/-- The loop pairs each text with the metadata at its own place: other entries are passed
over, and counted. -/
theorem passagesFrom_paired (metadatas before documents : List Value) :
    ∃ indices : List Nat, indices.Pairwise (· < ·) ∧ (∀ index ∈ indices, before.length ≤ index) ∧
      List.Forall₂ (fun index passage => (before ++ documents)[index]? = some (.str passage.text) ∧
        passage.metadata = metadataAt metadatas index) indices
        (passagesFrom metadatas before.length documents) ∧
      ∀ index text, before.length ≤ index → (before ++ documents)[index]? = some (.str text) →
        index ∈ indices := by
  induction documents generalizing before with
  | nil =>
    refine ⟨[], .nil, ?_, .nil, ?_⟩
    · simp
    · intro index text hindex htext
      rw [List.append_nil, List.getElem?_eq_none hindex] at htext
      cases htext
  | cons document documents ih =>
    have hhere : (before ++ document :: documents)[before.length]? = some document := by simp
    have happend : before ++ [document] ++ documents = before ++ document :: documents :=
      List.append_assoc ..
    obtain ⟨indices, hordered, hafter, hpaired, hcomplete⟩ := ih (before ++ [document])
    rw [List.length_append, List.length_singleton] at hafter hpaired hcomplete
    rw [happend] at hpaired hcomplete
    -- An index of a text is this one or a later one.
    have hlater : ∀ index text, before.length ≤ index → (before ++ document :: documents)[index]? = some (.str text) →
        document = .str text ∧ index = before.length ∨ index ∈ indices := by
      intro index text hindex htext
      rcases Nat.eq_or_lt_of_le hindex with rfl | hlt
      · rw [hhere] at htext
        exact .inl ⟨Option.some.inj htext, rfl⟩
      · exact .inr (hcomplete index text hlt htext)
    cases document with
    | str text =>
      refine ⟨before.length :: indices, .cons hafter hordered, ?_, .cons ⟨hhere, rfl⟩ hpaired, ?_⟩
      · intro index hindex
        rcases List.mem_cons.mp hindex with rfl | hindex
        · exact Nat.le_refl _
        · exact Nat.le_of_succ_le (hafter index hindex)
      · intro index text' hindex htext
        rcases hlater index text' hindex htext with ⟨-, rfl⟩ | hmem
        · exact List.mem_cons_self ..
        · exact List.mem_cons_of_mem _ hmem
    | _ =>
      refine ⟨indices, hordered, fun index hindex => Nat.le_of_succ_le (hafter index hindex), hpaired, ?_⟩
      intro index text hindex htext
      rcases hlater index text hindex htext with ⟨heq, -⟩ | hmem
      · cases heq
      · exact hmem

theorem parseGroup_attributed (h : parseGroup group = some passages) : ∃ indices, OfGroup group passages indices := by
  cases group with
  | dict fields =>
    simp only [parseGroup, Option.bind_eq_bind, Option.bind_eq_some_iff, Option.pure_def, Option.some.injEq] at h
    obtain ⟨documents, hdocuments, metadatas, hmetadatas, rfl⟩ := h
    rw [itemsOf_unnest hdocuments, itemsOf_unnest hmetadatas]
    obtain ⟨indices, hordered, -, hpaired, hcomplete⟩ :=
      passagesFrom_paired (innerList (Fields.getOr fields "metadatas" (.list []))) []
        (innerList (Fields.getOr fields "documents" (.list [])))
    exact ⟨indices, hordered, hpaired, fun index text => hcomplete index text (Nat.zero_le _)⟩
  | _ =>
    obtain rfl := Option.some.inj h
    exact ⟨[], .nil, .nil, fun index text htext => by cases htext⟩

theorem parseGroup_isSome : (parseGroup group).isSome = true ↔ SubscriptableGroup group := by
  cases group with
  | dict fields =>
    unfold SubscriptableGroup parseGroup
    simp only [List.mem_cons, List.not_mem_nil, or_false, forall_eq_or_imp, forall_eq, ← unnest_isSome]
    cases unnest (Fields.getOr fields "documents" (.list [])) with
    | none => simp
    | some documents => cases unnest (Fields.getOr fields "metadatas" (.list [])) <;> simp
  | _ => exact ⟨fun _ => trivial, fun _ => rfl⟩

/-! ### The response -/

theorem parseGroups_attributed (h : parseGroups groups = some passages) :
    ∃ parts : List (List RetrievedPassage), passages = parts.flatten ∧
      List.Forall₂ (fun group part => ∃ indices, OfGroup group part indices) groups parts := by
  induction groups generalizing passages with
  | nil =>
    obtain rfl := Option.some.inj h
    exact ⟨[], rfl, .nil⟩
  | cons group groups ih =>
    simp only [parseGroups, Option.bind_eq_bind, Option.bind_eq_some_iff, Option.pure_def, Option.some.injEq] at h
    obtain ⟨part, hpart, others, hothers, rfl⟩ := h
    obtain ⟨parts, rfl, hparts⟩ := ih hothers
    exact ⟨part :: parts, rfl, .cons (parseGroup_attributed hpart) hparts⟩

/-- One group that cannot be read leaves nothing of the others. -/
theorem parseGroups_isSome : (parseGroups groups).isSome = true ↔ ∀ group ∈ groups, SubscriptableGroup group := by
  induction groups with
  | nil => simp [parseGroups]
  | cons group groups ih =>
    rw [List.forall_mem_cons, ← ih, ← parseGroup_isSome, parseGroups]
    cases parseGroup group with
    | none => simp
    | some part => cases parseGroups groups <;> simp

end

/-- The parser returns the passages of a response, each with its own metadata, exactly if no
group has a number, `true` or an object where its documents or its metadata should be: what
is empty or zero is taken for no list, and there the parser raises. -/
theorem parseRetrievalResponse_attributes_iff (payload : Value) :
    (∃ passages, parseRetrievalResponse payload = some passages ∧ Attributed payload passages) ↔
      ∀ group ∈ responseGroups payload, SubscriptableGroup group := by
  rw [← parseGroups_isSome, Option.isSome_iff_exists]
  constructor
  · rintro ⟨passages, hpassages, -⟩
    exact ⟨passages, hpassages⟩
  · rintro ⟨passages, hpassages⟩
    exact ⟨passages, hpassages, parseGroups_attributed hpassages⟩

namespace Sample

/-- Two groups, the second with a count where its documents should be. -/
def countedResponse : Value :=
  .list [.object [("documents", .list [.text "first"])], .object [("documents", .int 5)]]

end Sample

theorem parseRetrievalResponse_counted :
    ¬ ∃ passages, parseRetrievalResponse Sample.countedResponse = some passages ∧
      Attributed Sample.countedResponse passages := by
  rintro ⟨passages, hpassages, -⟩
  cases hpassages

/-! ### A search

`retrieve` asks for all collections at once and for the files one by one. -/

inductive RetrievalRequest where
  | collection (collectionNames : List String) (query : String) (k : Nat)
  | doc (collectionName : String) (query : String) (k : Nat)

inductive RetrievalError where
  /-- An `OpenWebUIError`, which `runner_search` answers with a bad gateway. -/
  | openWebUI (message : String)
  /-- An exception that nothing catches. -/
  | raised

def retrievalRequests (query : String) (sources : List SourceRef) (k : Nat) : List RetrievalRequest :=
  let collections := (sources.filter fun source => source.kind = .collection).map (·.id)
  (if collections.isEmpty then [] else [.collection collections query k]) ++
    (sources.filter fun source => source.kind = .file).map fun source => .doc ("file-" ++ source.id) query k

section
variable (answer : RetrievalRequest → Except RetrievalError Value)

/-- The requests, one after the other; `answer` is `_request` with `_checked_json`. -/
def retrieveAll : List RetrievalRequest → Except RetrievalError (List RetrievedPassage)
  | [] => .ok []
  | request :: requests => do
    let payload ← answer request
    let passages ← (parseRetrievalResponse payload).elim (.error .raised) .ok
    return passages ++ (← retrieveAll requests)

def retrieve (query : String) (sources : List SourceRef) (k : Nat) :
    Except RetrievalError (List RetrievedPassage) :=
  retrieveAll answer (retrievalRequests query sources k)

variable {answer} {request : RetrievalRequest} {requests : List RetrievalRequest} {passages : List RetrievedPassage}

theorem retrieveAll_cons {payload : Value} (h : answer request = .ok payload) :
    retrieveAll answer (request :: requests) = match parseRetrievalResponse payload with
      | none => .error .raised
      | some part => (retrieveAll answer requests).map (part ++ ·) := by
  simp only [retrieveAll, h, bind, Except.bind]
  cases parseRetrievalResponse payload with
  | none => rfl
  | some part => cases retrieveAll answer requests <;> rfl

theorem retrieveAll_cons_error {e : RetrievalError} (h : answer request = .error e) :
    retrieveAll answer (request :: requests) = .error e := by
  simp only [retrieveAll, h, bind, Except.bind]

/-- The passages are those of the responses, one response after the other. -/
theorem retrieveAll_attributed (h : retrieveAll answer requests = .ok passages) :
    ∃ parts : List (List RetrievedPassage), passages = parts.flatten ∧
      List.Forall₂ (fun request part => ∃ payload, answer request = .ok payload ∧ Attributed payload part)
        requests parts := by
  induction requests generalizing passages with
  | nil =>
    cases h
    exact ⟨[], rfl, .nil⟩
  | cons request requests ih =>
    cases hanswer : answer request with
    | error e =>
      rw [retrieveAll_cons_error hanswer] at h
      cases h
    | ok payload =>
      rw [retrieveAll_cons hanswer] at h
      cases hpart : parseRetrievalResponse payload with
      | none =>
        rw [hpart] at h
        cases h
      | some part =>
        rw [hpart] at h
        cases hothers : retrieveAll answer requests with
        | error e =>
          rw [hothers] at h
          cases h
        | ok others =>
          rw [hothers] at h
          cases h
          obtain ⟨parts, rfl, hparts⟩ := ih hothers
          exact ⟨part :: parts, rfl, .cons ⟨payload, hanswer, parseGroups_attributed hpart⟩ hparts⟩

/-- Where every answer is a payload or an `OpenWebUIError`, a search fails with another
exception only at a response with a group that cannot be read. -/
theorem retrieveAll_raised (h : retrieveAll answer requests = .error .raised) :
    ∃ request ∈ requests, answer request = .error .raised ∨ ∃ payload, answer request = .ok payload ∧
      ∃ group ∈ responseGroups payload, ¬ SubscriptableGroup group := by
  induction requests with
  | nil => cases h
  | cons request requests ih =>
    cases hanswer : answer request with
    | error e =>
      rw [retrieveAll_cons_error hanswer] at h
      cases h
      exact ⟨request, List.mem_cons_self .., .inl hanswer⟩
    | ok payload =>
      rw [retrieveAll_cons hanswer] at h
      cases hpart : parseRetrievalResponse payload with
      | none =>
        have hgroups : ¬ ∀ group ∈ responseGroups payload, SubscriptableGroup group := by
          rw [← parseGroups_isSome, show parseGroups (responseGroups payload) = none from hpart]
          exact Bool.false_ne_true
        refine ⟨request, List.mem_cons_self .., .inr ⟨payload, hanswer, ?_⟩⟩
        simpa only [not_forall, exists_prop] using hgroups
      | some part =>
        rw [hpart] at h
        cases hothers : retrieveAll answer requests with
        | ok others =>
          rw [hothers] at h
          cases h
        | error e =>
          rw [hothers] at h
          cases h
          obtain ⟨failed, hfailed, hrest⟩ := ih hothers
          exact ⟨failed, List.mem_cons_of_mem _ hfailed, hrest⟩

/-- Each source is asked for, in the request of its kind, and nothing else is. -/
theorem mem_retrievalRequests {query : String} {sources : List SourceRef} {k : Nat} :
    request ∈ retrievalRequests query sources k ↔
      (∃ source ∈ sources, source.kind = .file ∧ request = .doc ("file-" ++ source.id) query k) ∨
        ∃ names, request = .collection names query k ∧ names ≠ [] ∧
          names = (sources.filter fun source => source.kind = .collection).map (·.id) := by
  unfold retrievalRequests
  rw [List.mem_append, or_comm]
  refine or_congr ?_ ?_
  · simp only [List.mem_map, List.mem_filter, decide_eq_true_eq, and_assoc]
    exact exists_congr fun source => and_congr_right fun _ => and_congr_right fun _ => eq_comm
  · simp only [List.isEmpty_iff]
    split
    · next hnone =>
      simp only [List.not_mem_nil, false_iff]
      rintro ⟨names, -, hne, rfl⟩
      exact hne hnone
    · next hsome =>
      rw [List.mem_singleton]
      constructor
      · rintro rfl
        exact ⟨_, rfl, hsome, rfl⟩
      · rintro ⟨names, rfl, -, rfl⟩
        rfl

/-- What a search returns is from the responses about the sources of the job. -/
theorem retrieve_attributed {query : String} {sources : List SourceRef} {k : Nat}
    (h : retrieve answer query sources k = .ok passages) :
    ∀ passage ∈ passages, ∃ request ∈ retrievalRequests query sources k, ∃ payload part,
      answer request = .ok payload ∧ Attributed payload part ∧ passage ∈ part := by
  obtain ⟨parts, rfl, hparts⟩ := retrieveAll_attributed h
  intro passage hpassage
  obtain ⟨part, hpart, hmem⟩ := List.mem_flatten.mp hpassage
  obtain ⟨i, hi, rfl⟩ := List.mem_iff_getElem.mp hpart
  obtain ⟨payload, hanswer, hattributed⟩ := hparts.get (by rw [hparts.length_eq]; exact hi) hi
  exact ⟨_, List.getElem_mem _, payload, _, hanswer, hattributed, hmem⟩

end
end ResearchGateway
