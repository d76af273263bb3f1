import ResearchGateway.Api.UserEndpoints

/-! Creations under one key, one statement at a time.

`create_job` reads the key, then the parent, and then inserts; between these, and before
it looks the key up again when the insert failed on `uq_job_user_idempotency`, any other
transaction may commit. `CreationSystem` runs any number of such requests of one user
under one key over the tables. -/
namespace ResearchGateway
open Library

/-! ### The parts of a creation -/

/-- The first select of `create_job` and its verdict. -/
def creationLookup (H : Hashing) (userId idempotencyKey : String) (request : CreateJobRequest) :
    Transaction (Option ResearchJob) := do
  match byIdempotency? (← get) userId idempotencyKey with
  | some existing =>
    if existing.requestHash ≠ H.requestDigest request then throw .idempotencyConflict
    else return some existing
  | none => return none

/-- The insert of `create_job` and the first event, up to the commit. -/
def creationInsert (H : Hashing) (now : Time) (id : JobId) (userId idempotencyKey : String)
    (request : CreateJobRequest) (parent : Option ResearchJob) : Transaction ResearchJob := do
  let job := newJob id now userId idempotencyKey (H.requestDigest request) request parent
  insertJob job
  let _ ← appendEventLocked now job "job.created" (record [("state", .str job.state.value)])
  return job

section
variable {H : Hashing} {userId key : String} {request : CreateJobRequest} {db : Database}

theorem creationLookup_found {existing : ResearchJob} (h : byIdempotency? db userId key = some existing)
    (hdigest : existing.requestHash = H.requestDigest request) :
    creationLookup H userId key request db = .ok (some existing, db) := by
  show (match byIdempotency? db userId key with
    | some existing => if existing.requestHash ≠ H.requestDigest request then throw .idempotencyConflict
      else pure (some existing)
    | none => pure none : Transaction (Option ResearchJob)) db = _
  rw [h]
  dsimp only
  rw [if_neg (not_not_intro hdigest)]
  rfl

theorem creationLookup_conflict {existing : ResearchJob} (h : byIdempotency? db userId key = some existing)
    (hdigest : existing.requestHash ≠ H.requestDigest request) :
    creationLookup H userId key request db = .error .idempotencyConflict := by
  show (match byIdempotency? db userId key with
    | some existing => if existing.requestHash ≠ H.requestDigest request then throw .idempotencyConflict
      else pure (some existing)
    | none => pure none : Transaction (Option ResearchJob)) db = _
  rw [h]
  dsimp only
  rw [if_pos hdigest]
  rfl

theorem creationLookup_absent (h : byIdempotency? db userId key = none) :
    creationLookup H userId key request db = .ok (none, db) := by
  show (match byIdempotency? db userId key with
    | some existing => if existing.requestHash ≠ H.requestDigest request then throw .idempotencyConflict
      else pure (some existing)
    | none => pure none : Transaction (Option ResearchJob)) db = _
  rw [h]
  rfl

/-- With nothing between them, the parts are `create_job`. -/
theorem createJob_eq (now : Time) (id : JobId) :
    createJob H now id userId key request db = (do
      match ← creationLookup H userId key request with
      | some existing => return (existing, false)
      | none =>
        let parent := latestSucceeded? (← get) userId request.chatId
        let job ← creationInsert H now id userId key request parent
        return (job, true) : Transaction (ResearchJob × Bool)) db := by
  have hcreate : createJob H now id userId key request db =
      (match byIdempotency? db userId key with
      | some existing =>
        if existing.requestHash ≠ H.requestDigest request then throw .idempotencyConflict
        else pure (existing, false)
      | none => do
        let job ← creationInsert H now id userId key request (latestSucceeded? db userId request.chatId)
        return (job, true) : Transaction (ResearchJob × Bool)) db := by
    cases hfound : byIdempotency? db userId key with
    | some existing =>
      show (match byIdempotency? db userId key with | some existing => _ | none => _ : Transaction _) db = _
      rw [hfound]
    | none =>
      show (match byIdempotency? db userId key with | some existing => _ | none => _ : Transaction _) db = _
      rw [hfound]
      simp only [creationInsert, bind_assoc, pure_bind]
  rw [hcreate]
  cases hfound : byIdempotency? db userId key with
  | some existing =>
    by_cases hdigest : existing.requestHash = H.requestDigest request
    · rw [bind_ok (creationLookup_found hfound hdigest)]
      dsimp only
      rw [if_neg (not_not_intro hdigest)]
    · rw [bind_error (creationLookup_conflict hfound hdigest)]
      dsimp only
      rw [if_pos hdigest]
      rfl
  | none =>
    rw [bind_ok (creationLookup_absent hfound)]
    rfl

/-- The row of a creation. -/
abbrev creationRow (H : Hashing) (now : Time) (id : JobId) (userId key : String)
    (request : CreateJobRequest) (parent : Option ResearchJob) : ResearchJob :=
  newJob id now userId key (H.requestDigest request) request parent

/-- The texts of a request and of its headers fit the columns of the row. -/
def fitsRow (userId key : String) (request : CreateJobRequest) : Bool :=
  fitsColumn userId && fitsColumn key && isStorable request.query &&
    fitsColumn request.chatId && fitsColumn request.messageId

theorem creationInsert_ok {now : Time} {id : JobId} {parent : Option ResearchJob}
    (hfits : fitsRow userId key request = true) (hfresh : db.jobs.Fresh id)
    (hfree : byIdempotency? db userId key = none) :
    creationInsert H now id userId key request parent db =
      .ok (creationRow H now id userId key request parent,
        (db.addJob (creationRow H now id userId key request parent) hfresh).appendEvent now id
          "job.created" (record [("state", .str "pending")])) := by
  have hinsert : insertJob (creationRow H now id userId key request parent) db =
      .ok ((), db.addJob (creationRow H now id userId key request parent) hfresh) := by
    show (if ¬ fitsRow userId key request then throw .database
      else if h : db.jobs.Fresh id then
        if (byIdempotency? db userId key).isSome then throw .integrity
        else set (db.addJob (creationRow H now id userId key request parent) h)
      else throw .integrity : Transaction Unit) db = _
    rw [if_neg (not_not.mpr hfits), dif_pos hfresh, hfree]
    rfl
  exact bind_ok hinsert

/-- `uq_job_user_idempotency`. -/
theorem creationInsert_taken {now : Time} {id : JobId} {parent : Option ResearchJob} {job : ResearchJob}
    (hfits : fitsRow userId key request = true) (htaken : byIdempotency? db userId key = some job) :
    creationInsert H now id userId key request parent db = .error .integrity := by
  refine bind_error ?_
  show (if ¬ fitsRow userId key request then throw .database
    else if h : db.jobs.Fresh id then
      if (byIdempotency? db userId key).isSome then throw .integrity
      else set (db.addJob (creationRow H now id userId key request parent) h)
    else throw .integrity : Transaction Unit) db = _
  rw [if_neg (not_not.mpr hfits), htaken]
  split <;> rfl

/-- PostgreSQL refuses the row, whether or not there is one under the key. -/
theorem creationInsert_unfit {now : Time} {id : JobId} {parent : Option ResearchJob}
    (hfits : fitsRow userId key request = false) :
    creationInsert H now id userId key request parent db = .error .database := by
  refine bind_error ?_
  show (if ¬ fitsRow userId key request then throw .database
    else if h : db.jobs.Fresh id then
      if (byIdempotency? db userId key).isSome then throw .integrity
      else set (db.addJob (creationRow H now id userId key request parent) h)
    else throw .integrity : Transaction Unit) db = _
  rw [if_pos (by simp [hfits])]
  rfl

end

/-! ### Requests under one key -/

inductive CreationPhase where
  | received
  /-- No row was found; the parent is read next. -/
  | absent
  | parented (parent : Option ResearchJob)
  /-- The insert failed and was rolled back. -/
  | conflicting
  | answered (reply : UserReply)

structure CreationRequest where
  request : CreateJobRequest
  phase : CreationPhase

def CreationRequest.reply? (c : CreationRequest) : Option UserReply :=
  match c.phase with
  | .answered reply => some reply
  | _ => none

structure CreationSystem where
  db : Database
  requests : Nat → Option CreationRequest

/-- What goes on besides: no request of this user with this key, and no retention. -/
def Op.isElsewhere (userId key : String) : Op → Bool
  | .createJob _ _ user idempotencyKey _ => !(user = userId && idempotencyKey = key)
  | op => !op.isRetention

inductive CreationInput (userId key : String) where
  | other (op : Op) (h : op.isElsewhere userId key = true)
  | receive (r : Nat) (request : CreateJobRequest)
  /-- The next statement of a request, with the clock and the identifier that it draws. -/
  | advance (r : Nat) (now : Time) (id : JobId)

section
variable (H : Hashing) (limits : AdminLimits) (userId key : String)

/-- The checks of a request that comes in. -/
def CreationRequest.receive (request : CreateJobRequest) : CreationRequest :=
  match limits.validate request with
  | .ok () => ⟨request, .received⟩
  | .error detail => ⟨request, .answered (.error 422 detail)⟩

/-- The next statement of a request. An identifier that is in use is not drawn. -/
def CreationRequest.advance (now : Time) (id : JobId) (c : CreationRequest) (db : Database) :
    CreationRequest × Database :=
  match c.phase with
  | .received =>
    match commit (creationLookup H userId key c.request) db with
    | (.ok none, db') => ({c with phase := .absent}, db')
    | (.ok (some job), db') => ({c with phase := .answered (.job 200 (toJobView job))}, db')
    | (.error e, db') => ({c with phase := .answered (creationFailed e)}, db')
  | .absent => ({c with phase := .parented (latestSucceeded? db userId c.request.chatId)}, db)
  | .parented parent =>
    if db.jobs.Fresh id then
      match commit (creationInsert H now id userId key c.request parent) db with
      | (.ok job, db') => ({c with phase := .answered (.job 202 (toJobView job))}, db')
      | (.error .integrity, db') => ({c with phase := .conflicting}, db')
      | (.error e, db') => ({c with phase := .answered (creationFailed e)}, db')
    else (c, db)
  | .conflicting => ({c with phase := .answered (concurrentReply H userId key c.request db)}, db)
  | .answered _ => (c, db)

/-- The request inserts a row with its next statement. -/
def CreationRequest.inserts (now : Time) (id : JobId) (c : CreationRequest) (db : Database) : Bool :=
  match c.phase with
  | .parented parent =>
    db.jobs.Fresh id && (commit (creationInsert H now id userId key c.request parent) db).1.isOk
  | _ => false

/-- The outputs are the requests that inserted a row. -/
def creationSystem : Machine CreationSystem (CreationInput userId key) Nat where
  next
    | .other op _, s => {s with db := step H op s.db}
    | .receive r request, s =>
      match s.requests r with
      | none => {s with requests := Function.update s.requests r (some (.receive limits request))}
      | some _ => s
    | .advance r now id, s =>
      match s.requests r with
      | none => s
      | some c =>
        let (c', db) := c.advance H userId key now id s.db
        ⟨db, Function.update s.requests r (some c')⟩
  out
    | .advance r now id, s =>
      match s.requests r with
      | none => []
      | some c => if c.inserts H userId key now id s.db then [r] else []
    | _, _ => []

end

/-! ### The row under the key -/

def HasKey (userId key : String) (job : ResearchJob) : Prop :=
  job.userId = userId ∧ job.idempotencyKey = key

/-- What a row keeps for good. -/
structure SameOrigin (job job' : ResearchJob) : Prop where
  userId : job'.userId = job.userId
  idempotencyKey : job'.idempotencyKey = job.idempotencyKey
  requestHash : job'.requestHash = job.requestHash

theorem SameOrigin.hasKey {userId key : String} {job job' : ResearchJob} (h : SameOrigin job job') :
    HasKey userId key job' ↔ HasKey userId key job := by
  unfold HasKey
  rw [h.userId, h.idempotencyKey]

theorem Effect.sameOrigin {H : Hashing} {op : Op} {acct : Account} {job : ResearchJob} {w : Write}
    (h : Effect H op acct job w) : SameOrigin job w.job := by
  cases h with
  | revoked => exact revokeToken_rule (P := SameOrigin job) ⟨rfl, rfl, rfl⟩ ⟨rfl, rfl, rfl⟩
  | _ => exact ⟨rfl, rfl, rfl⟩

section
variable {H : Hashing} {op : Op} {acct : Account} {j : JobId} {s s' : Slice} {job job' : ResearchJob}
  {userId key : String} {db : Database}

/-- A row is as it was, or it was created. -/
theorem JobStep.sameOrigin (h : JobStep H op j acct s s') (hj' : s'.job = some job') :
    (∃ job, s.job = some job ∧ SameOrigin job job') ∨
      ∃ now request, op = .createJob now j job'.userId job'.idempotencyKey request := by
  cases h with
  | kept => exact .inl ⟨job', hj', rfl, rfl, rfl⟩
  | created hop =>
    cases hj'
    exact .inr ⟨_, _, hop⟩
  | written _ heffect =>
    cases hj'
    exact .inl ⟨_, rfl, heffect.sameOrigin⟩
  | pruned | artifactDeleted => exact .inl ⟨job', hj', rfl, rfl, rfl⟩
  | orphaned =>
    cases hj'
    exact .inl ⟨_, rfl, rfl, rfl, rfl⟩
  | removed => cases hj'

/-- Without retention a row stays. -/
theorem JobStep.origin_kept (h : JobStep H op j acct s s') (hret : op.isRetention = false)
    (hj : s.job = some job) : ∃ job', s'.job = some job' ∧ SameOrigin job job' := by
  cases h with
  | kept => exact ⟨job, hj, rfl, rfl, rfl⟩
  | created => cases hj
  | written _ heffect =>
    cases hj
    exact ⟨_, rfl, heffect.sameOrigin⟩
  | pruned hop | artifactDeleted hop | orphaned hop | removed hop =>
    rw [hret] at hop
    cases hop

theorem Op.isElsewhere_retention (h : op.isElsewhere userId key = true) : op.isRetention = false := by
  cases op <;> first | rfl | cases h

/-- No other transaction makes a row under the key. -/
theorem elsewhere_row (hop : op.isElsewhere userId key = true) (hj : (step H op db).job? j = some job')
    (hkey : HasKey userId key job') : ∃ job, db.job? j = some job ∧ SameOrigin job job' := by
  rcases (job_step H op db j).sameOrigin hj with hbefore | ⟨now, request, rfl⟩
  · exact hbefore
  · simp [Op.isElsewhere, hkey.1, hkey.2] at hop

/-- No other transaction takes a row away. -/
theorem elsewhere_kept (hop : op.isElsewhere userId key = true) (hj : db.job? j = some job) :
    ∃ job', (step H op db).job? j = some job' ∧ SameOrigin job job' :=
  (job_step H op db j).origin_kept (Op.isElsewhere_retention hop) hj

/-- No row has the key. -/
def KeyFree (userId key : String) (db : Database) : Prop := ∀ j job, db.job? j = some job → ¬ HasKey userId key job

/-- One row has the key, and it was created from a request with the digest. -/
structure KeyTaken (userId key : String) (j : JobId) (digest : String) (db : Database) : Prop where
  row : ∃ job, db.job? j = some job ∧ HasKey userId key job ∧ job.requestHash = digest
  unique : ∀ k job, db.job? k = some job → HasKey userId key job → k = j

theorem byIdempotency?_some (h : byIdempotency? db userId key = some job) :
    db.job? job.id = some job ∧ HasKey userId key job :=
  ⟨Database.job?_iff.mpr ⟨List.mem_of_find?_eq_some h, rfl⟩, by simpa [HasKey] using List.find?_some h⟩

theorem byIdempotency?_none : byIdempotency? db userId key = none ↔ KeyFree userId key db := by
  constructor
  · intro h k job hk hkey
    have := List.find?_eq_none.mp h job (Database.job?_iff.mp hk).1
    simp [hkey.1, hkey.2] at this
  · intro h
    refine List.find?_eq_none.mpr fun job hrow hmatch => ?_
    exact h job.id job (Database.job?_iff.mpr ⟨hrow, rfl⟩) (by simpa [HasKey] using hmatch)

theorem KeyTaken.found {digest : String} (h : KeyTaken userId key j digest db) :
    ∃ job, byIdempotency? db userId key = some job ∧ job.id = j ∧ job.requestHash = digest := by
  obtain ⟨job, hj, hkey, hdigest⟩ := h.row
  cases hfound : byIdempotency? db userId key with
  | none => exact absurd hkey (byIdempotency?_none.mp hfound j job hj)
  | some found =>
    obtain ⟨hfoundRow, hfoundKey⟩ := byIdempotency?_some hfound
    have hid := h.unique found.id found hfoundRow hfoundKey
    refine ⟨found, rfl, hid, ?_⟩
    rw [hid, hj] at hfoundRow
    obtain rfl := Option.some.inj hfoundRow
    exact hdigest

theorem KeyFree.step (h : KeyFree userId key db) (hop : op.isElsewhere userId key = true) :
    KeyFree userId key (step H op db) := by
  intro k job' hk hkey
  obtain ⟨job, hbefore, hsame⟩ := elsewhere_row hop hk hkey
  exact h k job hbefore (hsame.hasKey.mp hkey)

theorem KeyTaken.step {digest : String} (h : KeyTaken userId key j digest db)
    (hop : op.isElsewhere userId key = true) : KeyTaken userId key j digest (step H op db) := by
  obtain ⟨job, hj, hkey, hdigest⟩ := h.row
  obtain ⟨job', hj', hsame⟩ := elsewhere_kept (H := H) hop hj
  refine ⟨⟨job', hj', hsame.hasKey.mpr hkey, hsame.requestHash.trans hdigest⟩, fun k found hk hfound => ?_⟩
  obtain ⟨before, hbefore, horigin⟩ := elsewhere_row hop hk hfound
  exact h.unique k before hbefore (horigin.hasKey.mp hfound)

end

end ResearchGateway
