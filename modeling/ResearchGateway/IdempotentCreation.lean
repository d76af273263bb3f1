import ResearchGateway.CreationSteps

/-! Concurrent creations under one key.

Before the first insert no request has been answered; from then on the row decides every
answer (`Unmade`, `Made`). A request that finds no row and does not fit one is answered
with an error, whatever the others do (`Doomed`). -/
namespace ResearchGateway
open Library

/-! ### One statement of a request -/

/-- A request that has not been answered, and whose insert has not failed. -/
def CreationRequest.Open (c : CreationRequest) : Prop := c.reply? = none ∧ c.phase ≠ .conflicting

/-- A request that has looked the key up in vain and will insert a row. -/
def CreationRequest.Passed (c : CreationRequest) : Prop :=
  c.phase = .absent ∨ ∃ parent, c.phase = .parented parent

/-- A request that has looked the key up in vain fits a row. -/
def CreationRequest.Fits (userId key : String) (c : CreationRequest) : Prop :=
  c.Passed → fitsRow userId key c.request = true

/-- The answer to a request that did not create the job. -/
def Repeated (H : Hashing) (j : JobId) (digest : String) (request : CreateJobRequest)
    (reply : UserReply) : Prop :=
  (H.requestDigest request = digest ∧ ∃ view, reply = .job 200 view ∧ view.id = j) ∨
    (H.requestDigest request ≠ digest ∧ reply = .error 409 "idempotency key reused")

section
variable {H : Hashing} {userId key : String} {db : Database} {c : CreationRequest} {now : Time} {id : JobId}

theorem reply?_answered {c : CreationRequest} {reply : UserReply} :
    c.reply? = some reply ↔ c.phase = .answered reply := by
  unfold CreationRequest.reply?
  cases c.phase <;> simp

theorem advance_answered {reply : UserReply} (h : c.reply? = some reply) :
    c.advance H userId key now id db = (c, db) := by
  obtain ⟨request, phase⟩ := c
  obtain rfl := reply?_answered.mp h
  rfl

theorem fits_answered {reply : UserReply} (h : c.phase = .answered reply) : c.Fits userId key := by
  rintro (hphase | ⟨_, hphase⟩) <;> rw [h] at hphase <;> cases hphase

theorem fits_conflicting (h : c.phase = .conflicting) : c.Fits userId key := by
  rintro (hphase | ⟨_, hphase⟩) <;> rw [h] at hphase <;> cases hphase

/-- A request that looks the key up again answers as one that finds it at once. -/
theorem KeyTaken.concurrentReply {j : JobId} {digest : String} (h : KeyTaken userId key j digest db)
    (request : CreateJobRequest) :
    Repeated H j digest request (ResearchGateway.concurrentReply H userId key request db) := by
  obtain ⟨job, hfound, hid, hdigest⟩ := h.found
  unfold ResearchGateway.concurrentReply
  rw [hfound]
  by_cases hsame : job.requestHash = H.requestDigest request
  · exact .inl ⟨hsame.symm.trans hdigest, toJobView job, if_neg (not_not_intro hsame), hid⟩
  · exact .inr ⟨fun heq => hsame (hdigest.trans heq.symm), if_pos hsame⟩

/-- Once the key is taken, a request changes nothing and is answered by the row. -/
theorem KeyTaken.advance {j : JobId} {digest : String} (h : KeyTaken userId key j digest db)
    (hfits : c.Fits userId key) :
    (c.advance H userId key now id db).2 = db ∧ c.inserts H userId key now id db = false ∧
      (c.advance H userId key now id db).1.request = c.request ∧
      (c.advance H userId key now id db).1.Fits userId key ∧
        ∀ reply, (c.advance H userId key now id db).1.reply? = some reply →
          c.reply? = some reply ∨ Repeated H j digest c.request reply := by
  obtain ⟨job, hfound, hid, hdigest⟩ := h.found
  obtain ⟨request, phase⟩ := c
  cases phase with
  | received =>
    by_cases hsame : job.requestHash = H.requestDigest request
    · have hadvance : CreationRequest.advance H userId key now id ⟨request, .received⟩ db =
          (⟨request, .answered (.job 200 (toJobView job))⟩, db) := by
        simp only [CreationRequest.advance, commit_ok (creationLookup_found hfound hsame)]
      rw [hadvance]
      refine ⟨rfl, rfl, rfl, fits_answered rfl, fun reply hreply =>
        .inr (.inl ⟨hsame.symm.trans hdigest, toJobView job, ?_, hid⟩)⟩
      exact (Option.some.inj hreply).symm
    · have hadvance : CreationRequest.advance H userId key now id ⟨request, .received⟩ db =
          (⟨request, .answered (.error 409 "idempotency key reused")⟩, db) := by
        simp only [CreationRequest.advance, commit_error (creationLookup_conflict hfound hsame), creationFailed]
      rw [hadvance]
      refine ⟨rfl, rfl, rfl, fits_answered rfl, fun reply hreply =>
        .inr (.inr ⟨fun heq => hsame (hdigest.trans heq.symm), ?_⟩)⟩
      exact (Option.some.inj hreply).symm
  | absent => exact ⟨rfl, rfl, rfl, fun _ => hfits (.inl rfl), fun reply hreply => by cases hreply⟩
  | parented parent =>
    have htaken : commit (creationInsert H now id userId key request parent) db = (.error .integrity, db) :=
      commit_error (creationInsert_taken (hfits (.inr ⟨parent, rfl⟩)) hfound)
    have hinserts : CreationRequest.inserts H userId key now id ⟨request, .parented parent⟩ db = false := by
      simp only [CreationRequest.inserts, htaken]
      exact Bool.and_false _
    refine ⟨?_, hinserts, ?_⟩
    · simp only [CreationRequest.advance, htaken]
      split <;> rfl
    · simp only [CreationRequest.advance, htaken]
      split
      · exact ⟨rfl, fits_conflicting rfl, fun reply hreply => by cases hreply⟩
      · exact ⟨rfl, hfits, fun reply hreply => by cases hreply⟩
  | conflicting =>
    refine ⟨rfl, rfl, rfl, fits_answered rfl, fun reply hreply => .inr ?_⟩
    obtain rfl := Option.some.inj hreply
    exact h.concurrentReply request
  | answered reply => exact ⟨rfl, rfl, rfl, hfits, fun _ hreply => .inl hreply⟩

/-- The insert takes the key. -/
theorem KeyFree.insert (h : KeyFree userId key db) {request : CreateJobRequest}
    {parent : Option ResearchJob}
    (hfresh : db.jobs.Fresh (creationRow H now id userId key request parent).id) {t : String} {d : Dict} :
    KeyTaken userId key id (H.requestDigest request)
      ((db.addJob (creationRow H now id userId key request parent) hfresh).appendEvent now id t d) := by
  have hrow (k : JobId) : ((db.addJob (creationRow H now id userId key request parent) hfresh).appendEvent
      now id t d).job? k = if id = k then some (creationRow H now id userId key request parent)
        else db.job? k := Database.job?_addJob db _ hfresh k
  refine ⟨⟨creationRow H now id userId key request parent, (hrow id).trans (if_pos rfl), ⟨rfl, rfl⟩, rfl⟩,
    fun k job hk hkey => ?_⟩
  rw [hrow] at hk
  split at hk
  · next hid => exact hid.symm
  · exact absurd hkey (h k job hk)

/-- As long as the key is free, a request that fits a row goes on, or it takes the key. -/
theorem KeyFree.advance (h : KeyFree userId key db) (hopen : c.Open) (hfits : c.Fits userId key)
    (hlookup : c.phase = .received → fitsRow userId key c.request = true) :
    (c.inserts H userId key now id db = false ∧ (c.advance H userId key now id db).2 = db ∧
        (c.advance H userId key now id db).1.Open ∧ (c.advance H userId key now id db).1.Fits userId key) ∨
      (c.inserts H userId key now id db = true ∧
        KeyTaken userId key id (H.requestDigest c.request) (c.advance H userId key now id db).2 ∧
        (c.advance H userId key now id db).1.request = c.request ∧
        ∃ view, (c.advance H userId key now id db).1.reply? = some (.job 202 view) ∧ view.id = id) := by
  have hfree := byIdempotency?_none.mpr h
  obtain ⟨request, phase⟩ := c
  cases phase with
  | received =>
    left
    have hadvance : CreationRequest.advance H userId key now id ⟨request, .received⟩ db =
        (⟨request, .absent⟩, db) := by
      simp only [CreationRequest.advance, commit_ok (creationLookup_absent hfree)]
    rw [hadvance]
    exact ⟨rfl, rfl, ⟨rfl, fun hphase => by cases hphase⟩, fun _ => hlookup rfl⟩
  | absent => exact .inl ⟨rfl, rfl, ⟨rfl, fun hphase => by cases hphase⟩, fun _ => hfits (.inl rfl)⟩
  | parented parent =>
    by_cases hfresh : db.jobs.Fresh id
    · right
      have hinsert := commit_ok (@creationInsert_ok H userId key request db now id parent
        (hfits (.inr ⟨parent, rfl⟩)) hfresh hfree)
      have hadvance : CreationRequest.advance H userId key now id ⟨request, .parented parent⟩ db =
          (⟨request, .answered (.job 202 (toJobView (creationRow H now id userId key request parent)))⟩,
            (db.addJob (creationRow H now id userId key request parent) hfresh).appendEvent now id
              "job.created" (record [("state", .str "pending")])) := by
        simp only [CreationRequest.advance, hinsert, if_pos hfresh]
      have hinserts : CreationRequest.inserts H userId key now id ⟨request, .parented parent⟩ db = true := by
        simp [CreationRequest.inserts, hinsert, hfresh, Except.isOk, Except.toBool]
      rw [hadvance]
      exact ⟨hinserts, h.insert hfresh, rfl, _, rfl, rfl⟩
    · left
      have hadvance : CreationRequest.advance H userId key now id ⟨request, .parented parent⟩ db =
          (⟨request, .parented parent⟩, db) := by
        simp only [CreationRequest.advance, if_neg hfresh]
      rw [hadvance]
      exact ⟨by simp [CreationRequest.inserts, hfresh], rfl, hopen, hfits⟩
  | conflicting => exact absurd rfl hopen.2
  | answered reply => cases hopen.1

end

/-! ### The system -/

section
variable (H : Hashing) (userId key : String)

/-- Nobody has created the job. -/
structure Unmade (s : CreationSystem) : Prop where
  free : KeyFree userId key s.db
  waiting : ∀ r c, s.requests r = some c → c.Open
  fits : ∀ r c, s.requests r = some c → c.Fits userId key

/-- One request has created the job, and its row decides every other answer. -/
structure Made (r₀ : Nat) (j : JobId) (digest : String) (s : CreationSystem) : Prop where
  taken : KeyTaken userId key j digest s.db
  winner : ∃ c view, s.requests r₀ = some c ∧ c.reply? = some (.job 202 view) ∧ view.id = j ∧
    H.requestDigest c.request = digest
  others : ∀ r c, s.requests r = some c → r ≠ r₀ → ∀ reply, c.reply? = some reply →
    Repeated H j digest c.request reply
  fits : ∀ r c, s.requests r = some c → c.Fits userId key

/-- The state of the key, with the requests that inserted a row so far. -/
def Decided (s : CreationSystem) (inserted : List Nat) : Prop :=
  (Unmade userId key s ∧ inserted = []) ∨ ∃ r₀ j digest, Made H userId key r₀ j digest s ∧ inserted = [r₀]

end

section
variable {H : Hashing} {limits : AdminLimits} {userId key : String} {s : CreationSystem} {r₀ : Nat}
  {j : JobId} {digest : String}

theorem Unmade.enter (h : Unmade userId key s) (r : Nat) {c : CreationRequest} (hc : c.Open)
    (hfits : c.Fits userId key) :
    Unmade userId key {s with requests := Function.update s.requests r (some c)} where
  free := h.free
  waiting k c' hk := by
    rcases update_cases hk with ⟨-, hnew⟩ | ⟨-, hbefore⟩
    · cases hnew
      exact hc
    · exact h.waiting k c' hbefore
  fits k c' hk := by
    rcases update_cases hk with ⟨-, hnew⟩ | ⟨-, hbefore⟩
    · cases hnew
      exact hfits
    · exact h.fits k c' hbefore

/-- Another request goes on. -/
theorem Made.enter (h : Made H userId key r₀ j digest s) {r : Nat} {c : CreationRequest}
    (hwinner : r = r₀ → s.requests r₀ = some c)
    (hreply : r ≠ r₀ → ∀ reply, c.reply? = some reply → Repeated H j digest c.request reply)
    (hfits : c.Fits userId key) :
    Made H userId key r₀ j digest {s with requests := Function.update s.requests r (some c)} where
  taken := h.taken
  winner := by
    obtain ⟨c₀, view, hc₀, hanswer⟩ := h.winner
    refine ⟨c₀, view, ?_, hanswer⟩
    show Function.update s.requests r (some c) r₀ = some c₀
    by_cases hr : r = r₀
    · obtain rfl := Option.some.inj (hc₀.symm.trans (hwinner hr))
      rw [hr, Function.update_self]
    · rw [Function.update_of_ne (Ne.symm hr), hc₀]
  others k c' hk hne reply hanswer := by
    rcases update_cases hk with ⟨rfl, hnew⟩ | ⟨-, hbefore⟩
    · cases hnew
      exact hreply hne reply hanswer
    · exact h.others k c' hbefore hne reply hanswer
  fits k c' hk := by
    rcases update_cases hk with ⟨-, hnew⟩ | ⟨-, hbefore⟩
    · cases hnew
      exact hfits
    · exact h.fits k c' hbefore

theorem receive_fits {request : CreateJobRequest} : (CreationRequest.receive limits request).Fits userId key := by
  unfold CreationRequest.receive
  split
  · rintro (hphase | ⟨_, hphase⟩) <;> cases hphase
  · exact fits_answered rfl

theorem receive_open {request : CreateJobRequest} (h : limits.validate request = .ok ()) :
    (CreationRequest.receive limits request).Open := by
  unfold CreationRequest.receive
  rw [h]
  exact ⟨rfl, fun hphase => by cases hphase⟩

/-- An input of which the request body is admissible. -/
def CreationInput.Admissible (limits : AdminLimits) : CreationInput userId key → Prop
  | .receive _ request => limits.validate request = .ok ()
  | _ => True

/-- A request that looks the key up in vain fits a row. -/
def CreationInput.Fits (i : CreationInput userId key) (s : CreationSystem) : Prop :=
  ∀ r now id c, i = .advance r now id → s.requests r = some c → c.phase = .received →
    byIdempotency? s.db userId key = none → fitsRow userId key c.request = true

theorem Unmade.step (h : Unmade userId key s) {i : CreationInput userId key} (hi : i.Admissible limits)
    (hfits : i.Fits s) :
    Decided H userId key ((creationSystem H limits userId key).next i s)
      ((creationSystem H limits userId key).out i s) := by
  cases i with
  | other op hop => exact .inl ⟨⟨h.free.step hop, h.waiting, h.fits⟩, rfl⟩
  | receive r request =>
    cases hr : s.requests r with
    | none =>
      simp only [creationSystem, hr]
      exact .inl ⟨h.enter r (receive_open hi) receive_fits, rfl⟩
    | some c =>
      simp only [creationSystem, hr]
      exact .inl ⟨h, rfl⟩
  | advance r now id =>
    cases hr : s.requests r with
    | none =>
      simp only [creationSystem, hr]
      exact .inl ⟨h, rfl⟩
    | some c =>
      simp only [creationSystem, hr]
      rcases @KeyFree.advance H userId key s.db c now id h.free (h.waiting r c hr) (h.fits r c hr)
          (fun hphase => hfits r now id c rfl hr hphase (byIdempotency?_none.mpr h.free)) with
        ⟨hinserts, hdb, hopen, hfits'⟩ | ⟨hinserts, htaken, hrequest, view, hreply, hview⟩
      · rw [hinserts, hdb]
        exact .inl ⟨h.enter r hopen hfits', rfl⟩
      · rw [hinserts]
        refine .inr ⟨r, id, _, ⟨htaken, ⟨_, view, Function.update_self .., hreply, hview, ?_⟩,
          fun k c' hk hne reply hanswer => ?_, fun k c' hk => ?_⟩, rfl⟩
        · rw [hrequest]
        · rcases update_cases hk with ⟨rfl, -⟩ | ⟨-, hbefore⟩
          · exact absurd rfl hne
          · rw [(h.waiting k c' hbefore).1] at hanswer
            cases hanswer
        · rcases update_cases hk with ⟨-, hnew⟩ | ⟨-, hbefore⟩
          · cases hnew
            exact fits_answered (reply?_answered.mp hreply)
          · exact h.fits k c' hbefore

theorem Made.step (h : Made H userId key r₀ j digest s) {i : CreationInput userId key}
    (hi : i.Admissible limits) :
    Made H userId key r₀ j digest ((creationSystem H limits userId key).next i s) ∧
      (creationSystem H limits userId key).out i s = [] := by
  cases i with
  | other op hop => exact ⟨⟨h.taken.step hop, h.winner, h.others, h.fits⟩, rfl⟩
  | receive r request =>
    cases hr : s.requests r with
    | none =>
      simp only [creationSystem, hr]
      refine ⟨h.enter (fun heq => ?_) (fun _ reply hreply => ?_) receive_fits, trivial⟩
      · obtain ⟨c₀, _, hc₀, -⟩ := h.winner
        rw [heq, hc₀] at hr
        cases hr
      · rw [(receive_open hi).1] at hreply
        cases hreply
    | some c =>
      simp only [creationSystem, hr]
      exact ⟨h, trivial⟩
  | advance r now id =>
    cases hr : s.requests r with
    | none =>
      simp only [creationSystem, hr]
      exact ⟨h, trivial⟩
    | some c =>
      obtain ⟨hdb, hinserts, hrequest, hfits, hreplies⟩ :=
        @KeyTaken.advance H userId key s.db c now id j digest h.taken (h.fits r c hr)
      simp only [creationSystem, hr]
      rw [hdb, hinserts]
      refine ⟨h.enter (fun heq => ?_) (fun hne reply hreply => ?_) hfits, rfl⟩
      · obtain ⟨c₀, _, hc₀, hanswer, -⟩ := h.winner
        rw [heq, hc₀] at hr
        obtain rfl := Option.some.inj hr
        rw [advance_answered hanswer, hc₀]
      · rw [hrequest]
        rcases hreplies reply hreply with hbefore | hrepeated
        · exact h.others r c hr hne reply hbefore
        · exact hrepeated

theorem Decided.step {inserted : List Nat} (h : Decided H userId key s inserted)
    {i : CreationInput userId key} (hi : i.Admissible limits) (hfits : i.Fits s) :
    Decided H userId key ((creationSystem H limits userId key).next i s)
      (inserted ++ (creationSystem H limits userId key).out i s) := by
  rcases h with ⟨h, rfl⟩ | ⟨r₀, j, digest, h, rfl⟩
  · exact h.step hi hfits
  · obtain ⟨hmade, hquiet⟩ := h.step hi
    rw [hquiet, List.append_nil]
    exact .inr ⟨r₀, j, digest, hmade, rfl⟩

/-- A statement that changes the tables is an insert. -/
theorem advance_db {c : CreationRequest} {now : Time} {id : JobId} {db : Database}
    (h : c.inserts H userId key now id db = false) : (c.advance H userId key now id db).2 = db := by
  obtain ⟨request, phase⟩ := c
  cases phase with
  | received =>
    cases hfound : byIdempotency? db userId key with
    | none => simp only [CreationRequest.advance, commit_ok (creationLookup_absent hfound)]
    | some job =>
      by_cases hsame : job.requestHash = H.requestDigest request
      · simp only [CreationRequest.advance, commit_ok (creationLookup_found hfound hsame)]
      · simp only [CreationRequest.advance, commit_error (creationLookup_conflict hfound hsame)]
  | parented parent =>
    cases hinsert : creationInsert H now id userId key request parent db with
    | ok p =>
      have hfresh : ¬ db.jobs.Fresh id := by
        simpa [CreationRequest.inserts, commit_ok hinsert, Except.isOk, Except.toBool] using h
      simp only [CreationRequest.advance, if_neg hfresh]
    | error e =>
      simp only [CreationRequest.advance, commit_error hinsert]
      cases e <;> split <;> rfl
  | _ => rfl

/-- A statement of a request leaves the tables alone, unless it inserts. -/
theorem advance_keeps {r : Nat} {now : Time} {id : JobId} {s : CreationSystem} :
    ((creationSystem H limits userId key).next (.advance r now id) s).db = s.db ∨
      (creationSystem H limits userId key).out (.advance r now id) s = [r] := by
  cases hr : s.requests r with
  | none =>
    simp only [creationSystem, hr]
    exact .inl trivial
  | some c =>
    cases hinserts : c.inserts H userId key now id s.db with
    | false =>
      left
      simp only [creationSystem, hr]
      exact advance_db hinserts
    | true =>
      right
      simp only [creationSystem, hr, hinserts, if_true]

end

/-! ### Every interleaving -/

/-- The requests and the tables after a list of inputs. -/
def createdUnder (H : Hashing) (limits : AdminLimits) (userId key : String) (db : Database)
    (inputs : List (CreationInput userId key)) : CreationSystem :=
  (creationSystem H limits userId key).run ⟨db, fun _ => none⟩ inputs

/-- One request has created the job. The others were answered with that job or, if their
body is another one, refused; none of these changed the tables. -/
def CreatedOnce (H : Hashing) (limits : AdminLimits) (userId key : String) (db : Database)
    (inputs : List (CreationInput userId key)) : Prop :=
  ∃ r₀ c₀ view₀ job, (createdUnder H limits userId key db inputs).requests r₀ = some c₀ ∧
    c₀.reply? = some (.job 202 view₀) ∧ job ∈ (createdUnder H limits userId key db inputs).db.jobs.rows ∧
    HasKey userId key job ∧ view₀.id = job.id ∧ H.requestDigest c₀.request = job.requestHash ∧
    (∀ r c, (createdUnder H limits userId key db inputs).requests r = some c → r ≠ r₀ →
      if H.requestDigest c.request = job.requestHash then
        ∃ view, c.reply? = some (.job 200 view) ∧ view.id = job.id
      else c.reply? = some (.error 409 "idempotency key reused")) ∧
    ∀ before r now id, before ++ [.advance r now id] <+: inputs → r ≠ r₀ →
      (createdUnder H limits userId key db (before ++ [.advance r now id])).db =
        (createdUnder H limits userId key db before).db

section
variable {H : Hashing} {limits : AdminLimits} {userId key : String} {db : Database}
  {inputs : List (CreationInput userId key)} {s : CreationSystem} {r₀ : Nat} {j : JobId} {digest : String}

/-- Every request that looked the key up in vain has fitted a row: one of them decides the others. -/
theorem createdUnder_decided (hfree : byIdempotency? db userId key = none)
    (hadmissible : ∀ r request, .receive r request ∈ inputs → limits.validate request = .ok ())
    (hfits : ∀ before i, before ++ [i] <+: inputs → i.Fits (createdUnder H limits userId key db before)) :
    Decided H userId key (createdUnder H limits userId key db inputs)
      ((creationSystem H limits userId key).trace ⟨db, fun _ => none⟩ inputs) := by
  have hstart : Decided H userId key ⟨db, fun _ => none⟩ [] :=
    .inl ⟨⟨byIdempotency?_none.mp hfree, fun _ _ hr => (by cases hr), fun _ _ hr => (by cases hr)⟩, rfl⟩
  refine Machine.history_allowed (A := fun i s => i.Admissible limits ∧ i.Fits s)
    (P := fun s _ inserted => Decided H userId key s inserted)
    (fun _ _ _ _ hi h => h.step hi.1 hi.2) hstart inputs fun before i hpre => ⟨?_, hfits before i hpre⟩
  cases i with
  | receive r request =>
    exact hadmissible r request (hpre.subset (List.mem_append_right _ (List.mem_singleton_self _)))
  | _ => trivial

/-- The answer to a request that did not create the job. -/
theorem Made.loser_reply (h : Made H userId key r₀ j digest s) {r : Nat} {c : CreationRequest}
    (hr : s.requests r = some c) (hne : r ≠ r₀) (hanswered : c.reply?.isSome) :
    if H.requestDigest c.request = digest then
      ∃ view, c.reply? = some (.job 200 view) ∧ view.id = j
    else c.reply? = some (.error 409 "idempotency key reused") := by
  obtain ⟨reply, hreply⟩ := Option.isSome_iff_exists.mp hanswered
  rw [hreply]
  rcases h.others r c hr hne reply hreply with ⟨hsame, view, rfl, hview⟩ | ⟨hother, rfl⟩
  · rw [if_pos hsame]
    exact ⟨view, rfl, hview⟩
  · rw [if_neg hother]

/-- No statement of it changed the tables. -/
theorem loser_keeps (htrace : (creationSystem H limits userId key).trace ⟨db, fun _ => none⟩ inputs = [r₀])
    {before : List (CreationInput userId key)} {r : Nat} {now : Time} {id : JobId}
    (hbefore : before ++ [.advance r now id] <+: inputs) (hne : r ≠ r₀) :
    (createdUnder H limits userId key db (before ++ [.advance r now id])).db =
      (createdUnder H limits userId key db before).db := by
  unfold createdUnder
  rw [Machine.run_snoc]
  rcases @advance_keeps H limits userId key r now id
    ((creationSystem H limits userId key).run ⟨db, fun _ => none⟩ before) with hkept | hinserted
  · exact hkept
  · have hmem : r ∈ [r₀] := by
      rw [← htrace, Machine.mem_trace]
      refine ⟨before, _, hbefore, ?_⟩
      rw [hinserted]
      exact List.mem_singleton_self r
    exact absurd (List.mem_singleton.mp hmem) hne

/-! ### One row at most -/

/-- The insert of a key that is taken fails. -/
theorem KeyTaken.not_inserts {c : CreationRequest} {now : Time} {id : JobId} {db : Database}
    (h : KeyTaken userId key j digest db) : c.inserts H userId key now id db = false := by
  obtain ⟨job, hfound, -⟩ := h.found
  obtain ⟨request, phase⟩ := c
  cases phase with
  | parented parent =>
    have hrefused : ∃ e, creationInsert H now id userId key request parent db = .error e := by
      cases hfits : fitsRow userId key request with
      | true => exact ⟨_, creationInsert_taken hfits hfound⟩
      | false => exact ⟨_, creationInsert_unfit hfits⟩
    obtain ⟨e, hrefused⟩ := hrefused
    simp only [CreationRequest.inserts, commit_error hrefused]
    exact Bool.and_false _
  | _ => rfl

/-- An insert takes the key. -/
theorem KeyFree.inserts {c : CreationRequest} {now : Time} {id : JobId} {db : Database}
    (h : KeyFree userId key db) (hinserts : c.inserts H userId key now id db = true) :
    KeyTaken userId key id (H.requestDigest c.request) (c.advance H userId key now id db).2 := by
  obtain ⟨request, phase⟩ := c
  cases phase with
  | parented parent =>
    have hfits : fitsRow userId key request = true := by
      by_contra hunfit
      have hrefused := @creationInsert_unfit H userId key request db now id parent
        (Bool.eq_false_of_not_eq_true hunfit)
      simp [CreationRequest.inserts, commit_error hrefused, Except.isOk, Except.toBool] at hinserts
    have hpassed : CreationRequest.Fits userId key ⟨request, .parented parent⟩ := fun _ => hfits
    have hopen : CreationRequest.Open ⟨request, .parented parent⟩ := ⟨rfl, fun hphase => by cases hphase⟩
    rcases @KeyFree.advance H _ _ _ _ now id h hopen hpassed (fun hphase => by cases hphase) with
      ⟨hno, -⟩ | ⟨-, htaken, -⟩
    · rw [hno] at hinserts
      cases hinserts
    · exact htaken
  | received | absent | conflicting | answered => cases hinserts

/-- The key is free, or one row has it. -/
def Keyed (userId key : String) (db : Database) : Prop :=
  KeyFree userId key db ∨ ∃ j digest, KeyTaken userId key j digest db

theorem Keyed.next (h : Keyed userId key s.db) (i : CreationInput userId key) :
    Keyed userId key ((creationSystem H limits userId key).next i s).db := by
  cases i with
  | other op hop => exact h.imp (·.step hop) fun ⟨j, digest, htaken⟩ => ⟨j, digest, htaken.step hop⟩
  | receive r request =>
    simp only [creationSystem]
    split <;> exact h
  | advance r now id =>
    cases hr : s.requests r with
    | none => simpa only [creationSystem, hr] using h
    | some c =>
      simp only [creationSystem, hr]
      cases hinserts : c.inserts H userId key now id s.db with
      | false =>
        rw [advance_db hinserts]
        exact h
      | true =>
        rcases h with hfree | ⟨j, digest, htaken⟩
        · exact .inr ⟨_, _, hfree.inserts hinserts⟩
        · rw [htaken.not_inserts] at hinserts
          cases hinserts

theorem Keyed.unique (h : Keyed userId key db) {job job' : ResearchJob} (hrow : job ∈ db.jobs.rows)
    (hrow' : job' ∈ db.jobs.rows) (hkey : HasKey userId key job) (hkey' : HasKey userId key job') :
    job = job' := by
  have hfound := Database.job?_iff.mpr ⟨hrow, rfl⟩
  have hfound' := Database.job?_iff.mpr ⟨hrow', rfl⟩
  rcases h with hfree | ⟨j, digest, htaken⟩
  · exact absurd hkey (hfree job.id job hfound)
  · rw [htaken.unique job.id job hfound hkey] at hfound
    rw [htaken.unique job'.id job' hfound' hkey'] at hfound'
    exact Option.some.inj (hfound.symm.trans hfound')

theorem createdUnder_keyed (hfree : byIdempotency? db userId key = none) :
    Keyed userId key (createdUnder H limits userId key db inputs).db :=
  Machine.run_invariant (M := creationSystem H limits userId key) (A := fun _ => True)
    (P := fun s => Keyed userId key s.db) (fun i _ _ h => h.next i)
    (s := ⟨db, fun _ => none⟩) (.inl (byIdempotency?_none.mp hfree)) inputs fun _ _ => trivial

/-! ### A request that does not fit -/

/-- It has looked the key up in vain, and will be answered with an error. -/
def CreationRequest.Doomed (userId key : String) (c : CreationRequest) : Prop :=
  fitsRow userId key c.request = false ∧ (c.Passed ∨ c.phase = .answered internalError)

theorem CreationRequest.Doomed.advance {c : CreationRequest} (h : c.Doomed userId key) (now : Time)
    (id : JobId) (db : Database) : (c.advance H userId key now id db).1.Doomed userId key := by
  obtain ⟨hunfit, hpassed | hanswered⟩ := h
  · obtain ⟨request, phase⟩ := c
    rcases hpassed with hphase | ⟨parent, hphase⟩
    · obtain rfl : phase = .absent := hphase
      exact ⟨hunfit, .inl (.inr ⟨_, rfl⟩)⟩
    · obtain rfl : phase = .parented parent := hphase
      simp only [CreationRequest.advance, commit_error (creationInsert_unfit hunfit)]
      split
      · exact ⟨hunfit, .inr rfl⟩
      · exact ⟨hunfit, .inl (.inr ⟨parent, rfl⟩)⟩
  · rw [advance_answered (reply?_answered.mpr hanswered)]
    exact ⟨hunfit, .inr hanswered⟩

theorem doomed_next {r : Nat} (h : ∃ c, s.requests r = some c ∧ c.Doomed userId key)
    (i : CreationInput userId key) :
    ∃ c, ((creationSystem H limits userId key).next i s).requests r = some c ∧ c.Doomed userId key := by
  obtain ⟨c, hr, hdoomed⟩ := h
  cases i with
  | other op hop => exact ⟨c, hr, hdoomed⟩
  | receive k request =>
    cases hk : s.requests k with
    | none =>
      have hne : r ≠ k := by
        rintro rfl
        rw [hr] at hk
        cases hk
      simp only [creationSystem, hk]
      exact ⟨c, by rw [Function.update_of_ne hne, hr], hdoomed⟩
    | some _ =>
      simp only [creationSystem, hk]
      exact ⟨c, hr, hdoomed⟩
  | advance k now id =>
    cases hk : s.requests k with
    | none =>
      simp only [creationSystem, hk]
      exact ⟨c, hr, hdoomed⟩
    | some other =>
      simp only [creationSystem, hk]
      by_cases hne : r = k
      · subst hne
        obtain rfl := Option.some.inj (hr.symm.trans hk)
        exact ⟨_, Function.update_self .., hdoomed.advance now id s.db⟩
      · exact ⟨c, by rw [Function.update_of_ne hne, hr], hdoomed⟩

/-- A lookup in vain without a fit dooms the request. -/
theorem doomed_of_unfit {i : CreationInput userId key} (h : ¬ i.Fits s) :
    ∃ r c, ((creationSystem H limits userId key).next i s).requests r = some c ∧ c.Doomed userId key := by
  unfold CreationInput.Fits at h
  push Not at h
  obtain ⟨r, now, id, c, rfl, hr, hphase, habsent, hunfit⟩ := h
  obtain ⟨request, phase⟩ := c
  obtain rfl : phase = .received := hphase
  refine ⟨r, ⟨request, .absent⟩, ?_, Bool.eq_false_of_not_eq_true hunfit, .inl (.inl rfl)⟩
  simp only [creationSystem, hr, CreationRequest.advance, commit_ok (creationLookup_absent habsent)]
  exact Function.update_self ..

/-- Where all were answered well, no request was doomed. -/
theorem CreatedOnce.fits (h : CreatedOnce H limits userId key db inputs) :
    ∀ before i, before ++ [i] <+: inputs → i.Fits (createdUnder H limits userId key db before) := by
  rintro before i ⟨rest, rfl⟩
  by_contra hunfit
  obtain ⟨r, hdoomed⟩ := @doomed_of_unfit H limits _ _ _ _ hunfit
  have hend : ∃ c, (createdUnder H limits userId key db (before ++ [i] ++ rest)).requests r = some c ∧
      c.Doomed userId key := by
    unfold createdUnder at hdoomed ⊢
    rw [Machine.run_append, Machine.run_snoc]
    exact Machine.run_invariant (M := creationSystem H limits userId key) (A := fun _ => True)
      (P := fun s => ∃ c, s.requests r = some c ∧ c.Doomed userId key)
      (fun i _ _ h => doomed_next h i) hdoomed rest fun _ _ => trivial
  obtain ⟨c, hr, -, hphase⟩ := hend
  have hreply : ∀ reply, c.reply? = some reply → reply = internalError := by
    intro reply hreply
    rw [reply?_answered] at hreply
    rcases hphase with (hphase | ⟨_, hphase⟩) | hphase <;> rw [hphase] at hreply <;> cases hreply
    rfl
  obtain ⟨r₀, c₀, view₀, job, hr₀, hcreated, -, -, -, -, hothers, -⟩ := h
  by_cases hwinner : r = r₀
  · subst hwinner
    obtain rfl := Option.some.inj (hr.symm.trans hr₀)
    cases hreply _ hcreated
  · have hother := hothers r c hr hwinner
    split at hother
    · obtain ⟨view, hview, -⟩ := hother
      cases hreply _ hview
    · have hwrong := hreply _ hother
      simp [internalError] at hwrong

end

/-- Whatever goes on besides, at most one row has the key. When every request has been
answered, one of them has created the job and the others have met it, exactly if every
request that looked the key up in vain fits a row. -/
theorem creation_idempotent_iff (H : Hashing) (limits : AdminLimits) (userId key : String) (db : Database)
    (hfree : byIdempotency? db userId key = none) (inputs : List (CreationInput userId key))
    (hadmissible : ∀ r request, .receive r request ∈ inputs → limits.validate request = .ok ()) :
    let s := createdUnder H limits userId key db inputs
    (∀ job ∈ s.db.jobs.rows, ∀ job' ∈ s.db.jobs.rows,
        HasKey userId key job → HasKey userId key job' → job = job') ∧
      ((∃ r, (s.requests r).isSome) → (∀ r c, s.requests r = some c → c.reply?.isSome) →
        (CreatedOnce H limits userId key db inputs ↔
          ∀ before i, before ++ [i] <+: inputs → i.Fits (createdUnder H limits userId key db before))) := by
  intro s
  refine ⟨fun job hrow job' hrow' => (createdUnder_keyed hfree).unique hrow hrow', fun ⟨r, hr⟩ hall =>
    ⟨CreatedOnce.fits, fun hfits => ?_⟩⟩
  have hrun : Decided H userId key s ((creationSystem H limits userId key).trace ⟨db, fun _ => none⟩ inputs) :=
    createdUnder_decided hfree hadmissible hfits
  rcases hrun with ⟨hunmade, -⟩ | ⟨r₀, j, digest, hmade, htrace⟩
  · obtain ⟨c, hc⟩ := Option.isSome_iff_exists.mp hr
    have hanswered := hall r c hc
    rw [(hunmade.waiting r c hc).1] at hanswered
    cases hanswered
  · obtain ⟨job, hj, hkey, hdigest⟩ := hmade.taken.row
    obtain ⟨hrow, hid⟩ := Database.job?_iff.mp hj
    obtain ⟨c₀, view₀, hc₀, hanswer, hview, hbody⟩ := hmade.winner
    refine ⟨r₀, c₀, view₀, job, hc₀, hanswer, hrow, hkey, hview.trans hid.symm, hbody.trans hdigest.symm,
      fun r c hr hne => ?_, fun before r now id hbefore hne => loser_keeps htrace hbefore hne⟩
    rw [hdigest, hid]
    exact hmade.loser_reply hr hne (hall r c hr)

/-! ### A race -/
namespace Sample

/-- Three requests look the key up before the second one inserts; the third one asks for
something else. The fourth one comes late. -/
def race : List (CreationInput "user" "idempotency") :=
  [.receive 0 request, .receive 1 request, .receive 2 {request with query := "other"}] ++
    [0, 1, 2, 0, 1, 2].map (fun r => .advance r 0 1) ++
    [.advance 1 1 1, .other (.claimNext 2 "token" 4 60 []) rfl, .receive 3 request] ++
    [0, 2, 0, 2, 3].map fun r => .advance r 3 2

end Sample

/-- The second request creates the job, and the others meet it in both ways. -/
theorem creation_idempotent_iff_race :
    let s := createdUnder Sample.hashing {} "user" "idempotency" .empty Sample.race
    ([0, 1, 2, 3].map fun r => ((s.requests r).bind CreationRequest.reply?).map UserReply.status) =
        [some 200, some 202, some 409, some 200] ∧
      ∀ job ∈ s.db.jobs.rows, ∀ job' ∈ s.db.jobs.rows,
        HasKey "user" "idempotency" job → HasKey "user" "idempotency" job' → job = job' := by
  intro s
  refine ⟨by decide +kernel, (creation_idempotent_iff Sample.hashing {} "user" "idempotency" .empty rfl Sample.race
    fun r request hmem => ?_).1⟩
  simp only [Sample.race, List.cons_append, List.nil_append, List.map_cons, List.map_nil, List.mem_cons,
    CreationInput.receive.injEq, reduceCtorEq, List.not_mem_nil, or_false, false_or] at hmem
  rcases hmem with ⟨-, rfl⟩ | ⟨-, rfl⟩ | ⟨-, rfl⟩ | ⟨-, rfl⟩
  · rfl
  · rfl
  · rfl
  · rfl

namespace Sample

/-- One request under a key, up to its insert. -/
def refused (key : String) : List (CreationInput "user" key) :=
  [.receive 0 request, .advance 0 0 1, .advance 0 0 1]

/-- If it fits no row, it is answered with an error. -/
theorem refused_requests {key : String} (hunfit : fitsRow "user" key request = false) :
    (createdUnder hashing {} "user" key .empty (refused key ++ [.advance 0 0 1])).requests =
      Function.update (fun _ => none) 0 (some ⟨request, .answered internalError⟩) := by
  have hrefused := @creationInsert_unfit hashing "user" key request .empty 0 1 none hunfit
  have hinsert : createdUnder hashing {} "user" key .empty (refused key) =
      ⟨.empty, Function.update (fun _ => none) 0 (some ⟨request, .parented none⟩)⟩ := by
    simp only [createdUnder, refused, Machine.run, creationSystem, Function.update_self]
    congr 1
    funext r
    cases r <;> rfl
  have hsnoc : createdUnder hashing {} "user" key .empty (refused key ++ [.advance 0 0 1]) =
      (creationSystem hashing {} "user" key).next (.advance 0 0 1)
        (createdUnder hashing {} "user" key .empty (refused key)) := Machine.run_snoc ..
  rw [hsnoc, hinsert]
  simp only [creationSystem, Function.update_self, CreationRequest.advance, commit_error hrefused, creationFailed]
  rw [if_pos (by decide), Function.update_idem]

/-- A key for which the endpoint has no bound and the column has. -/
def longKey : String := String.ofList (List.replicate 256 'k')

theorem longKey_unfit (request : CreateJobRequest) : fitsRow "user" longKey request = false := by
  have hlength : longKey.length = 256 := String.length_ofList.trans List.length_replicate
  have hlong : ¬ longKey.length ≤ 255 := by omega
  simp only [fitsRow, fitsColumn, decide_eq_false hlong, Bool.false_and, Bool.and_false]

end Sample

/-- The only request is answered with an error, and there is no job. -/
theorem creation_refused :
    ¬ ∀ (H : Hashing) (limits : AdminLimits) (userId key : String) (db : Database),
      byIdempotency? db userId key = none → ∀ inputs : List (CreationInput userId key),
      (∀ r request, .receive r request ∈ inputs → limits.validate request = .ok ()) →
      let s := createdUnder H limits userId key db inputs
      (∃ r, (s.requests r).isSome) → (∀ r c, s.requests r = some c → c.reply?.isSome) →
        CreatedOnce H limits userId key db inputs := by
  intro hall
  have hend := Sample.refused_requests (Sample.longKey_unfit Sample.request)
  have honce := hall Sample.hashing {} "user" Sample.longKey .empty rfl
    (Sample.refused Sample.longKey ++ [.advance 0 0 1])
    (fun r request hmem => ?_) ⟨0, ?_⟩ fun r c hr => ?_
  · obtain ⟨r₀, c₀, view₀, job, hr₀, hcreated, -⟩ := honce
    rw [hend] at hr₀
    rcases update_cases hr₀ with ⟨-, hanswer⟩ | ⟨-, hnone⟩
    · cases hanswer
      cases hcreated
    · cases hnone
  · simp only [Sample.refused, List.cons_append, List.nil_append, List.mem_cons, CreationInput.receive.injEq,
      reduceCtorEq, List.not_mem_nil, or_false] at hmem
    obtain ⟨-, rfl⟩ := hmem
    rfl
  · rw [hend, Function.update_self]
    rfl
  · rw [hend] at hr
    rcases update_cases hr with ⟨-, hanswer⟩ | ⟨-, hnone⟩
    · cases hanswer
      rfl
    · cases hnone

end ResearchGateway
