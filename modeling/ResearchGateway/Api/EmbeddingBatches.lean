import ResearchGateway.Api.Embeddings

/-! When the batched embeddings are the plain ones.

The batched path gives the k-th item that arrives the index k. What it returns is
therefore a permutation of the right assignment only if it is that assignment: every
batch must arrive in the order of its inputs. -/
namespace ResearchGateway
open Library Embeddings

namespace Embeddings

/-! ### Lists -/

/-- Two lists with the same distinct keys in the same order are permutations of each
other only where they are equal. -/
theorem eq_of_perm_of_keys {α β : Type} {l l' : List (α × β)} (hkeys : l.map Prod.fst = l'.map Prod.fst)
    (hnodup : (l'.map Prod.fst).Nodup) (h : List.Perm l l') : l = l' := by
  induction l generalizing l' with
  | nil => exact h.nil_eq
  | cons a rest ih =>
    cases l' with
    | nil => exact absurd h.symm.nil_eq (List.cons_ne_nil _ _).symm
    | cons b rest' =>
      obtain ⟨hkey, hrest⟩ := List.cons.inj hkeys
      obtain ⟨hfresh, hdistinct⟩ := List.nodup_cons.mp hnodup
      have hsame : a = b := by
        refine (List.mem_cons.mp (h.subset (List.mem_cons_self ..))).resolve_right fun hmem => hfresh ?_
        rw [← hkey]
        exact List.mem_map_of_mem hmem
      subst hsame
      rw [ih hrest hdistinct ((List.perm_cons a).mp h)]

theorem flatMap_eq_iff {α β : Type} {l : List α} {f g : α → List β}
    (hlength : ∀ a ∈ l, (f a).length = (g a).length) :
    l.flatMap f = l.flatMap g ↔ ∀ a ∈ l, f a = g a := by
  induction l with
  | nil => simp
  | cons a rest ih =>
    rw [List.forall_mem_cons] at hlength
    rw [List.flatMap_cons, List.flatMap_cons, List.forall_mem_cons, ← ih hlength.2]
    constructor
    · exact fun h => List.append_inj h hlength.1
    · rintro ⟨hhead, hrest⟩
      rw [hhead, hrest]

/-- The slices of a list, one after the other, are the list. -/
theorem flatMap_slice {α : Type} (inputs : List α) {batchSize : Nat} (hpos : 0 < batchSize) :
    (offsets inputs.length batchSize).flatMap (slice inputs batchSize) = inputs := by
  have hrange (n : Nat) : ((List.range n).map (· * batchSize)).flatMap (slice inputs batchSize) =
      inputs.take (n * batchSize) := by
    induction n with
    | zero => simp
    | succ n ih =>
      rw [List.range_succ, List.map_append, List.flatMap_append, ih, List.map_singleton,
        List.flatMap_singleton, slice, Nat.succ_mul, List.take_add]
  rw [offsets, hrange]
  apply List.take_of_length_le
  have hdiv := Nat.div_add_mod (inputs.length + batchSize - 1) batchSize
  have hmod := Nat.mod_lt (inputs.length + batchSize - 1) hpos
  rw [Nat.mul_comm] at hdiv
  omega

/-! ### Numbered items -/

def pair (item : Fields) : Value × Value := (item.get "index", item.get "embedding")

theorem numbered_append (n : Nat) (a b : List Value) :
    numbered n (a ++ b) = numbered n a ++ numbered (n + a.length) b := by
  simp only [numbered, List.zipIdx_append, List.map_append]

theorem numbered_keys (n : Nat) (values : List Value) :
    (numbered n values).map Prod.fst = (List.range' n values.length).map fun i : Nat => Value.int i := by
  rw [numbered, List.map_map, ← List.zipIdx_map_snd n values, List.map_map]
  rfl

theorem numbered_keys_nodup (n : Nat) (values : List Value) : ((numbered n values).map Prod.fst).Nodup := by
  rw [numbered_keys]
  refine List.Nodup.map (fun i j h => ?_) List.nodup_range'
  exact Int.ofNat.inj (Value.int.inj h)

/-- Numbered alike, only equal values are the same assignment. -/
theorem numbered_perm_iff {a b : List Value} (hlength : a.length = b.length) :
    List.Perm (numbered 0 a) (numbered 0 b) ↔ a = b := by
  constructor
  · intro h
    have heq := eq_of_perm_of_keys (by rw [numbered_keys, numbered_keys, hlength]) (numbered_keys_nodup 0 b) h
    have hvalues := congrArg (List.map Prod.snd) heq
    have hsnd (values : List Value) : (numbered 0 values).map Prod.snd = values := by
      rw [numbered, List.map_map]
      exact List.zipIdx_map_fst 0 values
    rwa [hsnd, hsnd] at hvalues
  · rintro rfl
    exact List.Perm.refl _

/-- The items of a batch are numbered on from those before. -/
theorem appendItems_dicts (batch data : List Fields) :
    ∃ data', appendItems data (batch.map .dict) = .ok data' ∧ data'.length = data.length + batch.length ∧
      data'.map pair = data.map pair ++ numbered data.length (batch.map fun item => item.get "embedding") := by
  induction batch generalizing data with
  | nil => exact ⟨data, rfl, rfl, (List.append_nil _).symm⟩
  | cons item rest ih =>
    obtain ⟨data', happend, hlength, hpairs⟩ :=
      ih (data ++ [assign item (.ofString "index") (.int data.length)])
    refine ⟨data', happend, ?_, ?_⟩
    · rw [hlength, List.length_append, List.length_singleton, List.length_cons]
      omega
    · have hpair : pair (assign item (.ofString "index") (.int data.length)) =
          (.int data.length, item.get "embedding") := by
        simp only [pair, Fields.get, Fields.get?, lookup_assign]
        rfl
      rw [hpairs, List.map_append, List.map_singleton, hpair, List.append_assoc, List.length_append]
      rfl

/-! ### Usage -/

/-- The counters of a batch are added to those before. -/
theorem lookup_addUsage {batch : Fields} (hnodup : (batch.map Prod.fst).Nodup)
    (hints : ∀ field ∈ batch, ∃ n, field.2 = .int n) (usage : List (Text × Int)) (key : Text) :
    (addUsage usage batch).lookup key = match batch.lookup key with
      | some (.int n) => some ((usage.lookup key).getD 0 + n)
      | _ => usage.lookup key := by
  induction batch generalizing usage with
  | nil => rfl
  | cons field rest ih =>
    obtain ⟨key', value⟩ := field
    obtain ⟨hfresh, hdistinct⟩ := List.nodup_cons.mp hnodup
    rw [List.forall_mem_cons] at hints
    obtain ⟨⟨n, hn⟩, hints⟩ := hints
    obtain rfl : value = .int n := hn
    simp only [addUsage, Value.int?]
    rw [ih hdistinct hints, lookup_assigned, lookup_assign]
    by_cases hsame : key = key'
    · have hnone : rest.lookup key' = none := by
        rw [List.lookup_eq_none_iff]
        intro field hfield
        rw [bne_iff_ne]
        intro hsame
        have hmem : field.1 ∈ rest.map Prod.fst := List.mem_map_of_mem hfield
        exact hfresh (hsame ▸ hmem)
      rw [if_pos hsame, if_pos hsame, hsame, hnone]
    · rw [if_neg hsame, if_neg hsame]

variable {service : Service}

/-- All entries of the usage of a response are the sums of counters. -/
theorem Agrees.ints {texts : List Text} {response : Fields} (h : Agrees service texts response)
    (hnodup : ((usageOf response).map Prod.fst).Nodup) : ∀ field ∈ usageOf response, ∃ n, field.2 = .int n := by
  intro field hfield
  have hfound : (usageOf response).get? field.1 = some field.2 := by
    unfold Fields.get?
    generalize usageOf response = usage at hnodup hfield
    induction usage with
    | nil => cases hfield
    | cons first rest ih =>
      obtain ⟨hfresh, hdistinct⟩ := List.nodup_cons.mp hnodup
      rw [show first :: rest = (first.1, first.2) :: rest from rfl, lookup_assigned]
      rcases List.mem_cons.mp hfield with rfl | hfield
      · exact if_pos rfl
      · rw [if_neg, ih hdistinct hfield]
        intro hsame
        exact hfresh (hsame ▸ List.mem_map_of_mem hfield)
  rw [h.usage] at hfound
  split at hfound
  · exact ⟨_, (Option.some.inj hfound).symm⟩
  · cases hfound

/-- The counters after texts, where some were counted before or not. -/
def counted (service : Service) (before : Option Int) (texts : List Text) (key : Text) : Option Int :=
  if key ∈ service.counters then some (before.getD 0 + (texts.map (service.cost key)).sum) else before

/-! ### The batches -/

/-- The head of the response is taken without the usage. -/
def Combined.Headed (combined : Combined) : Prop :=
  (combined.head.getD []).lookup (.ofString "usage") = none

theorem headed_or {head : Option Fields} {batch : Fields}
    (h : (head.getD []).lookup (.ofString "usage") = none) :
    ((head.or (some (batch.filter fun field => field.1 ∉ ["data", "usage"].map Text.ofString))).getD []).lookup
      (.ofString "usage") = none := by
  cases head with
  | some fields => exact h
  | none =>
    simp only [Option.none_or, Option.getD_some]
    rw [List.lookup_eq_none_iff]
    intro field hfield
    rw [bne_iff_ne]
    intro hsame
    have hkept := of_decide_eq_true (List.mem_filter.mp hfield).2
    exact hkept (hsame ▸ by decide)

/-- A proper answer is combined with what the batches have given before it. -/
theorem combine_agrees {texts : List Text} {response : Fields} (h : Agrees service texts response)
    (hnodup : ((usageOf response).map Prod.fst).Nodup) (combined : Combined) :
    ∃ combined', combine combined (.dict response) = .ok combined' ∧ (combined.Headed → combined'.Headed) ∧
      combined'.data.length = combined.data.length + (items response).length ∧
      combined'.data.map pair = combined.data.map pair ++ numbered combined.data.length (embeddings response) ∧
      ∀ key, combined'.usage.lookup key = counted service (combined.usage.lookup key) texts key := by
  obtain ⟨data, happend, hlength, hpairs⟩ := appendItems_dicts (items response) combined.data
  simp only [combine, Value.fields?_dict, h.data, happend, bind, Except.bind, pure, Except.pure]
  refine ⟨_, rfl, headed_or, hlength, hpairs, fun key => ?_⟩
  have hcounters := h.usage key
  have hints := h.ints hnodup
  unfold Fields.get? at hcounters
  unfold counted
  cases husage : (response.get "usage").fields? with
  | none =>
    simp only [usageOf, husage] at hcounters
    by_cases hkey : key ∈ service.counters
    · rw [if_pos hkey] at hcounters
      cases hcounters
    · rw [if_neg hkey]
  | some usage =>
    simp only [usageOf, husage, Option.getD_some] at hcounters hints hnodup
    simp only [lookup_addUsage hnodup hints, hcounters]
    by_cases hkey : key ∈ service.counters
    · rw [if_pos hkey, if_pos hkey]
    · rw [if_neg hkey, if_neg hkey]

variable {payload : Fields} {model : Text} {batchSize : Nat} {texts : List Text}

theorem requested_of_input (h : payload.get "input" = .list (texts.map .str)) : requested payload = texts := by
  rw [requested, h]
  simp [List.filterMap_map]

/-- A call is one exchange, with the body that names the model. -/
theorem proxyEmbeddings_runs {β : Type} {f : Value → Asking β} {exchanges : List (Fields × Except String Value)}
    {result : Except String β} (h : (proxyEmbeddings payload model >>= f).Runs exchanges result) :
    ∃ answer rest, exchanges = (assign payload (.ofString "model") (.str model), answer) :: rest ∧
      (Dialog.done answer >>= f : Asking β).Runs rest result := by
  obtain ⟨answer, rest, rfl, hrest⟩ := Dialog.runs_ask.mp h
  refine ⟨answer, rest, rfl, ?_⟩
  cases answer with
  | error message => exact hrest
  | ok response => exact hrest

/-- What a response is used for, where there is one. -/
def received : Except String Value → List Value
  | .ok (.dict response) => embeddings response
  | _ => []

/-- The batches in order: the embeddings they bring are numbered on, the texts they ask
for are the slices, and their counters are added. -/
theorem collect_runs {offsets : List Nat} {combined : Combined} {exchanges : List (Fields × Except String Value)}
    {result : Except String Combined}
    (hserves : ∀ exchange ∈ exchanges, Serves service exchange.1 exchange.2)
    (h : (collect payload model batchSize (texts.map .str) offsets combined).Runs exchanges result) :
    ∃ combined', result = .ok combined' ∧ (combined.Headed → combined'.Headed) ∧
      exchanges.map (fun exchange => requested exchange.1) = offsets.map (slice texts batchSize) ∧
      combined'.data.map pair = combined.data.map pair ++
        numbered combined.data.length (exchanges.flatMap fun exchange => received exchange.2) ∧
      ∀ key, combined'.usage.lookup key = if offsets = [] then combined.usage.lookup key else
        counted service (combined.usage.lookup key) (offsets.flatMap (slice texts batchSize)) key := by
  induction offsets generalizing combined exchanges with
  | nil =>
    obtain ⟨rfl, rfl⟩ := Dialog.runs_pure.mp h
    exact ⟨combined, rfl, id, rfl, (List.append_nil _).symm, fun _ => (if_pos rfl).symm⟩
  | cons offset rest ih =>
    obtain ⟨answer, tail, rfl, hrest⟩ := proxyEmbeddings_runs h
    rw [List.forall_mem_cons] at hserves
    obtain ⟨⟨response, rfl, hagrees, hnodup⟩, htail⟩ := hserves
    have hrequested : requested (assign (assign payload (.ofString "input")
        (.list (slice (texts.map Value.str) batchSize offset))) (.ofString "model") (.str model)) =
          slice texts batchSize offset := by
      apply requested_of_input
      simp only [Fields.get, Fields.get?, lookup_assign]
      rw [if_neg (by decide), if_pos trivial, slice, slice, List.map_take, List.map_drop]
      rfl
    rw [hrequested] at hagrees
    obtain ⟨next, hcombine, hheaded, hlength, hpairs, husage⟩ := combine_agrees hagrees hnodup combined
    rw [Dialog.ok_bind, hcombine, Dialog.ok_bind] at hrest
    obtain ⟨combined', hdone, hheaded', hasked, hnumbered, hcounted⟩ := ih htail hrest
    refine ⟨combined', hdone, hheaded' ∘ hheaded, ?_, ?_, fun key => ?_⟩
    · rw [List.map_cons, List.map_cons, hrequested, hasked]
    · rw [hnumbered, hpairs, hlength, List.append_assoc, List.flatMap_cons, numbered_append]
      simp only [received, embeddings, List.length_map]
    · rw [hcounted, husage, if_neg (List.cons_ne_nil _ _), List.flatMap_cons]
      unfold counted
      by_cases hkey : key ∈ service.counters
      · simp only [if_pos hkey, List.map_append, List.sum_append, Option.getD_some]
        split
        · next hempty => simp [hempty]
        · rw [Int.add_assoc]
      · simp only [if_neg hkey, ite_self]

/-! ### The response -/

theorem Combined.items_response (combined : Combined) :
    combined.response.get "data" = .list (combined.data.map .dict) ∧ items combined.response = combined.data := by
  have hdata : combined.response.get "data" = .list (combined.data.map .dict) := by
    unfold Combined.response
    split
    · simp only [Fields.get, Fields.get?, lookup_assign]
      rfl
    · simp only [Fields.get, Fields.get?, lookup_assign]
      rw [if_neg (by decide)]
      rfl
  refine ⟨hdata, ?_⟩
  rw [items, hdata]
  simp [List.filterMap_map, Function.comp_def]

theorem Combined.usage_response {combined : Combined} (h : combined.Headed) (key : Text) :
    (usageOf combined.response).get? key = (combined.usage.lookup key).map Value.int := by
  unfold Combined.response
  split
  · next hempty =>
    simp only [usageOf, Fields.get, Fields.get?, lookup_assign]
    rw [if_neg (by decide), h, hempty]
    rfl
  · simp only [usageOf, Fields.get, Fields.get?, lookup_assign, if_true, Option.getD_some, Value.fields?_dict]
    induction combined.usage with
    | nil => rfl
    | cons field rest ih =>
      rw [List.map_cons, lookup_assigned, ih, show field :: rest = (field.1, field.2) :: rest from rfl,
        lookup_assigned]
      split <;> rfl

end Embeddings

/-- A proper answer has an item for each text of its request. -/
theorem Embeddings.length_received {service : Service} {payload : Fields} {answer : Except String Value}
    (h : Serves service payload answer) :
    (received answer).length = ((requested payload).map service.embed).length := by
  obtain ⟨response, rfl, hagrees, -⟩ := h
  have hlength := hagrees.assigned.length_eq
  simp only [numbered, List.length_map, List.length_zipIdx] at hlength
  simp only [received, embeddings, List.length_map, hlength]

section
open Embeddings
variable {service : Service} {payload : Fields} {model : Text} {batchSize : Nat} {texts : List Text}
  {exchanges : List (Fields × Except String Value)} {result : Except String Fields}

/-- A request that fits is passed on. -/
theorem Embeddings.proxyBatched_few (hfew : texts.length ≤ batchSize)
    (hinput : payload.get "input" = .list (texts.map .str))
    (hserves : ∀ exchange ∈ exchanges, Serves service exchange.1 exchange.2)
    (h : (proxyBatched payload model batchSize).Runs exchanges result) :
    ∃ response, result = .ok response ∧ Agrees service texts response := by
  simp only [proxyBatched, hinput, List.length_map, hfew, if_true] at h
  obtain ⟨answer, rest, rfl, hrest⟩ := proxyEmbeddings_runs h
  obtain ⟨response, rfl, hagrees, -⟩ := hserves _ (List.mem_cons_self ..)
  have hrequested : requested (assign payload (.ofString "model") (.str model)) = texts := by
    apply requested_of_input
    simp only [Fields.get, Fields.get?, lookup_assign]
    rw [if_neg (by decide)]
    exact hinput
  rw [hrequested] at hagrees
  obtain ⟨-, rfl⟩ := Dialog.runs_done.mp hrest
  exact ⟨response, rfl, hagrees⟩

/-- The batches ask for all texts; their items are numbered as they arrive, and their usage is
added up. -/
theorem Embeddings.proxyBatched_many (hpos : 0 < batchSize) (hmany : ¬ texts.length ≤ batchSize)
    (hinput : payload.get "input" = .list (texts.map .str))
    (hserves : ∀ exchange ∈ exchanges, Serves service exchange.1 exchange.2)
    (h : (proxyBatched payload model batchSize).Runs exchanges result) :
    (exchanges.flatMap fun exchange => requested exchange.1) = texts ∧
      ∃ response, result = .ok response ∧ response.get "data" = .list ((items response).map .dict) ∧
        ((items response).map fun item => (item.get "index", item.get "embedding")) =
          numbered 0 (exchanges.flatMap fun exchange => received exchange.2) ∧
        ∀ key, (usageOf response).get? key =
          if key ∈ service.counters then some (.int (texts.map (service.cost key)).sum) else none := by
  simp only [proxyBatched, hinput, List.length_map, hmany, if_false] at h
  rcases Dialog.runs_bind h with ⟨e, hraised, -⟩ | ⟨before, after, combined, rfl, hcollect, hafter⟩
  · obtain ⟨combined', hok, -⟩ := collect_runs hserves hraised
    cases hok
  · obtain ⟨rfl, rfl⟩ := Dialog.runs_pure.mp hafter
    rw [List.append_nil] at hserves ⊢
    obtain ⟨_, hsame, hheaded, hasked, hnumbered, hcounted⟩ := collect_runs hserves hcollect
    obtain rfl := Except.ok.inj hsame
    have htexts := flatMap_slice texts hpos
    have hsome : offsets texts.length batchSize ≠ [] := by
      intro hempty
      rw [hempty] at htexts
      rw [← htexts] at hmany
      exact hmany (Nat.zero_le _)
    obtain ⟨hdata, hitems⟩ := combined.items_response
    refine ⟨?_, _, rfl, by rw [hitems, hdata], ?_, fun key => ?_⟩
    · rw [List.flatMap_def, hasked, ← List.flatMap_def, htexts]
    · rw [hitems]
      exact hnumbered
    · rw [Combined.usage_response (hheaded rfl), hcounted, if_neg hsome, htexts]
      unfold counted
      by_cases hkey : key ∈ service.counters
      · rw [if_pos hkey, if_pos hkey]
        exact congrArg (some ∘ Value.int) (Int.zero_add _)
      · rw [if_neg hkey, if_neg hkey]
        rfl

/-- The items that arrive, numbered, are the right ones exactly where every batch is in order. -/
theorem Embeddings.numbered_received_iff
    (hserves : ∀ exchange ∈ exchanges, Serves service exchange.1 exchange.2)
    (hrequested : (exchanges.flatMap fun exchange => requested exchange.1) = texts) :
    List.Perm (numbered 0 (exchanges.flatMap fun exchange => received exchange.2))
        (numbered 0 (texts.map service.embed)) ↔
      ∀ exchange ∈ exchanges, received exchange.2 = (requested exchange.1).map service.embed := by
  have hlengths : ∀ exchange ∈ exchanges, (received exchange.2).length =
      ((requested exchange.1).map service.embed).length := fun exchange hexchange =>
    length_received (hserves exchange hexchange)
  rw [← hrequested, List.map_flatMap, ← flatMap_eq_iff hlengths]
  apply numbered_perm_iff
  rw [List.length_flatMap, List.length_flatMap, List.map_congr_left hlengths]

end

/-- The response of the proxy assigns to every index the embedding of its text exactly
where there is one batch, or every batch arrives in the order of its texts. -/
theorem batched_embeddings_iff (service : Service) (payload : Fields) (model : Text) (batchSize : Nat)
    (texts : List Text) (hpos : 0 < batchSize) (hinput : payload.get "input" = .list (texts.map .str))
    (exchanges : List (Fields × Except String Value)) (result : Except String Fields)
    (hserves : ∀ exchange ∈ exchanges, Serves service exchange.1 exchange.2)
    (h : (proxyBatched payload model batchSize).Runs exchanges result) :
    (∃ response, result = .ok response ∧ Agrees service texts response) ↔
      texts.length ≤ batchSize ∨
        ∀ exchange ∈ exchanges, received exchange.2 = (requested exchange.1).map service.embed := by
  by_cases hfew : texts.length ≤ batchSize
  · exact ⟨fun _ => .inl hfew, fun _ => proxyBatched_few hfew hinput hserves h⟩
  · obtain ⟨hrequested, response, rfl, hdata, hpairs, husage⟩ := proxyBatched_many hpos hfew hinput hserves h
    rw [← numbered_received_iff hserves hrequested, ← hpairs]
    constructor
    · rintro ⟨response', hresponse, hagrees⟩
      obtain rfl := Except.ok.inj hresponse
      exact .inr hagrees.assigned
    · intro hperm
      exact ⟨response, rfl, hdata, hperm.resolve_left hfew, husage⟩

namespace Sample

/-- A service whose embedding of a text is its length, with one counter. -/
def lengths : Service where
  embed text := .int text.length
  counters := [.ofString "prompt_tokens"]
  cost _ _ := 1

def embedding (text : Text) (index : Nat) : Fields :=
  [(.ofString "index", .int index), (.ofString "embedding", .int text.length)]

/-- The service answers with its items in order or the other way round. -/
def answer (reversed : Bool) (texts : List Text) : Fields :=
  let items := texts.zipIdx.map fun (text, i) => Value.dict (embedding text i)
  [(.ofString "data", .list (if reversed then items.reverse else items)),
    (.ofString "usage", .dict [(.ofString "prompt_tokens", .int texts.length)])]

theorem answer_serves (reversed : Bool) (payload : Fields) :
    Serves lengths payload (.ok (.dict (answer reversed (requested payload)))) := by
  refine ⟨_, rfl, ?_, List.nodup_singleton _⟩
  generalize requested payload = texts
  have hdata : (answer reversed texts).get "data" = .list (if reversed then
      (texts.zipIdx.map fun (text, i) => Value.dict (embedding text i)).reverse
      else texts.zipIdx.map fun (text, i) => Value.dict (embedding text i)) := rfl
  have hitems : items (answer reversed texts) = if reversed then
      (texts.zipIdx.map fun (text, i) => embedding text i).reverse
      else texts.zipIdx.map fun (text, i) => embedding text i := by
    rw [items, hdata]
    cases reversed <;> simp [List.filterMap_map, Function.comp_def]
  refine ⟨?_, ?_, fun key => ?_⟩
  · rw [hdata, hitems]
    cases reversed <;> simp [Function.comp_def]
  · have hpairs : (texts.zipIdx.map fun (text, i) => embedding text i).map pair =
        numbered 0 (texts.map lengths.embed) := by
      rw [numbered, List.zipIdx_map, List.map_map, List.map_map]
      rfl
    rw [hitems, ← hpairs]
    cases reversed
    · exact List.Perm.refl _
    · exact (List.reverse_perm _).map pair
  · show List.lookup key [(Text.ofString "prompt_tokens", Value.int texts.length)] = _
    rw [lookup_assigned]
    simp [lengths]

def embeddingRequest : Fields := [(.ofString "input", .list [.text "a", .text "bb", .text "ccc"])]

def batchedTexts : List Text := [.ofString "a", .ofString "bb", .ofString "ccc"]

/-- The two requests of batches of two, with their answers. -/
def exchanges (reversed : Bool) : List (Fields × Except String Value) :=
  [[.text "a", .text "bb"], [.text "ccc"]].map fun inputs =>
    let request := assign (assign embeddingRequest (.ofString "input") (.list inputs)) (.ofString "model") (.str [])
    (request, .ok (.dict (answer reversed (requested request))))

theorem exchanges_serve (reversed : Bool) :
    ∀ exchange ∈ exchanges reversed, Serves lengths exchange.1 exchange.2 := by
  intro exchange hexchange
  obtain ⟨inputs, -, rfl⟩ := List.mem_map.mp hexchange
  exact answer_serves ..

theorem exchanges_run (reversed : Bool) : ∃ result, (proxyBatched embeddingRequest [] 2).Runs
    (exchanges reversed) result := by
  obtain ⟨result, hrun⟩ : ∃ result, (proxyBatched embeddingRequest [] 2).run
      ((exchanges reversed).map Prod.snd) = some (exchanges reversed, result) := by
    cases reversed
    · exact ⟨_, rfl⟩
    · exact ⟨_, rfl⟩
  exact ⟨result, Dialog.runs_of_run hrun⟩

end Sample

theorem batched_embeddings_in_order : ∃ result, (proxyBatched Sample.embeddingRequest [] 2).Runs
      (Sample.exchanges false) result ∧
    ∃ response, result = .ok response ∧ Agrees Sample.lengths Sample.batchedTexts response := by
  obtain ⟨result, hrun⟩ := Sample.exchanges_run false
  refine ⟨result, hrun, (batched_embeddings_iff Sample.lengths Sample.embeddingRequest [] 2 Sample.batchedTexts
    (by decide) rfl _ result (Sample.exchanges_serve false) hrun).mpr (.inr ?_)⟩
  simp only [Sample.exchanges, List.map_cons, List.map_nil, List.forall_mem_cons]
  exact ⟨rfl, rfl, List.forall_mem_nil _⟩

/-- With the items of each batch the other way round, index 0 gets the embedding of the
second text. -/
theorem batched_embeddings_misassigned :
    ¬ ∀ (service : Service) (payload : Fields) (model : Text) (batchSize : Nat) (texts : List Text),
      0 < batchSize → payload.get "input" = .list (texts.map .str) →
      ∀ (exchanges : List (Fields × Except String Value)) (result : Except String Fields),
        (∀ exchange ∈ exchanges, Serves service exchange.1 exchange.2) →
        (proxyBatched payload model batchSize).Runs exchanges result →
          ∃ response, result = .ok response ∧ Agrees service texts response := by
  intro hall
  obtain ⟨response, hrun, hpairs⟩ : ∃ response, (proxyBatched Sample.embeddingRequest [] 2).run
        ((Sample.exchanges true).map Prod.snd) = some (Sample.exchanges true, .ok response) ∧
      (items response).map pair = [(.int 0, .int 2), (.int 1, .int 1), (.int 2, .int 3)] := ⟨_, rfl, rfl⟩
  obtain ⟨_, hresponse, hagrees⟩ := hall Sample.lengths Sample.embeddingRequest [] 2 Sample.batchedTexts
    (by decide) rfl _ _ (Sample.exchanges_serve true) (Dialog.runs_of_run hrun)
  obtain rfl := Except.ok.inj hresponse
  have hassigned : List.Perm ((items response).map pair) (numbered 0 [.int 1, .int 2, .int 3]) := hagrees.assigned
  rw [hpairs] at hassigned
  have hmem := hassigned.subset (List.mem_cons_self ..)
  simp [numbered] at hmem

end ResearchGateway
