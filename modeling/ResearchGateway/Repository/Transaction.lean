import ResearchGateway.Db

/-! Transactions.

A repository method runs inside one `session.begin()` block under a row lock: it
reads and writes the tables and either commits or, when an exception leaves the
block, rolls back (`commit`). Row locks make the methods atomic, so a locked and
an unlocked read are the same read here. -/
namespace ResearchGateway

/-- The exceptions that end a transaction. -/
inductive Failure where
  | jobNotFound
  | idempotencyConflict
  | invalidState (message : String)
  | integrity
  /-- PostgreSQL refuses a value. -/
  | database
  | httpError (status : Nat) (detail : String)
  | valueError
  deriving DecidableEq

abbrev Transaction := StateT Database (Except Failure)

def commit {α : Type} (t : Transaction α) (db : Database) : Except Failure α × Database :=
  match t db with
  | .ok (a, db') => (.ok a, db')
  | .error e => (.error e, db)

/-- The two SHA-256 digests the gateway takes. -/
structure Hashing where
  hashToken : String → String
  requestDigest : CreateJobRequest → String

def record (fields : List (String × Json)) : Dict := fields.foldl (fun d f => d.insert f.1 f.2) ∅

/-- `text[:20_000]`. -/
def clip (text : String) : String := String.ofList (text.toList.take 20000)

/-- PostgreSQL takes a text unless it holds a NUL. -/
def isStorable (text : String) : Bool := text.toList.all (· ≠ Char.ofNat 0)

/-- A text for a column of `String(255)`. -/
def fitsColumn (text : String) : Bool := text.length ≤ 255 && isStorable text

/-- `text or default`. -/
def orDefault (text default : String) : String := if text = "" then default else text

/-! ### Reads and writes -/

def save (job : ResearchJob) : Transaction Unit := modify fun db => db.putJob job

def appendEventLocked (now : Time) (job : ResearchJob) (eventType : String) (data : Dict) :
    Transaction ResearchEvent := do
  let db ← get
  set (db.appendEvent now job.id eventType data)
  return db.newEvent now job.id eventType data

def getForUser (jobId : JobId) (userId : String) : Transaction ResearchJob := do
  match (← get).job? jobId with
  | none => throw .jobNotFound
  | some job => if job.userId = userId then return job else throw .jobNotFound

def getForUserLocked (jobId : JobId) (userId : String) : Transaction ResearchJob :=
  getForUser jobId userId

/-- The token presented is the one whose hash the row holds. -/
def accepts (H : Hashing) (job : ResearchJob) (runnerToken : String) : Bool :=
  match job.runnerTokenHash with
  | none => false
  | some hash => hash = H.hashToken runnerToken

def getForRunner (H : Hashing) (jobId : JobId) (runnerToken : String) : Transaction ResearchJob := do
  match (← get).job? jobId with
  | none => throw .jobNotFound
  | some job => if accepts H job runnerToken then return job else throw .jobNotFound

def getForRunnerLocked (H : Hashing) (jobId : JobId) (runnerToken : String) :
    Transaction ResearchJob := getForRunner H jobId runnerToken

/-- Set `runner_token_hash` to null and nothing else. The row is only updated, and
`onupdate` only moves `updated_at`, when there was a hash to clear. -/
def revokeToken (now : Time) (job : ResearchJob) : ResearchJob :=
  if job.runnerTokenHash.isNone then job
  else {job with runnerTokenHash := none, updatedAt := now}

/-- What holds of a row and of the row without its hash holds after `revokeToken`. -/
theorem revokeToken_rule {P : ResearchJob → Prop} {now : Time} {job : ResearchJob} (hkept : P job)
    (hcleared : P {job with runnerTokenHash := none, updatedAt := now}) : P (revokeToken now job) := by
  unfold revokeToken
  split
  · exact hkept
  · exact hcleared

theorem revokeToken_state (now : Time) (job : ResearchJob) :
    (revokeToken now job).state = job.state :=
  revokeToken_rule (P := fun after => after.state = job.state) rfl rfl

/-! ### What a transaction that succeeded did -/

section
variable {α β : Type} {db db' : Database}

theorem ok_bind {t : Transaction α} {f : α → Transaction β} {b : β}
    (h : (t >>= f) db = .ok (b, db')) : ∃ a db₁, t db = .ok (a, db₁) ∧ f a db₁ = .ok (b, db') := by
  simp only [bind, StateT.bind, Except.bind] at h
  cases ht : t db with
  | error e => rw [ht] at h; cases h
  | ok p => rw [ht] at h; exact ⟨p.1, p.2, rfl, h⟩

theorem bind_ok {t : Transaction α} {f : α → Transaction β} {a : α} {db₁ : Database}
    (h : t db = .ok (a, db₁)) : (t >>= f) db = f a db₁ := by
  simp only [bind, StateT.bind, Except.bind, h]

theorem bind_error {t : Transaction α} {f : α → Transaction β} {e : Failure}
    (h : t db = .error e) : (t >>= f) db = .error e := by
  simp only [bind, StateT.bind, Except.bind, h]

theorem error_bind {t : Transaction α} {f : α → Transaction β} {e : Failure}
    (h : (t >>= f) db = .error e) :
    t db = .error e ∨ ∃ a db₁, t db = .ok (a, db₁) ∧ f a db₁ = .error e := by
  cases ht : t db with
  | error e' =>
    rw [bind_error ht] at h
    cases h
    exact .inl rfl
  | ok p =>
    rw [bind_ok ht] at h
    exact .inr ⟨p.1, p.2, rfl, h⟩

theorem ok_pure {a b : α} (h : (pure a : Transaction α) db = .ok (b, db')) : a = b ∧ db = db' := by
  cases h
  exact ⟨rfl, rfl⟩

theorem ok_get {s : Database} (h : (get : Transaction Database) db = .ok (s, db')) :
    db = s ∧ db = db' := by
  cases h
  exact ⟨rfl, rfl⟩

theorem ok_throw {e : Failure} {a : α} (h : (throw e : Transaction α) db = .ok (a, db')) : False := by
  cases h

theorem ok_ite {c : Prop} [Decidable c] {t e : Transaction α} {a : α}
    (h : (if c then t else e) db = .ok (a, db')) :
    (c ∧ t db = .ok (a, db')) ∨ (¬ c ∧ e db = .ok (a, db')) := by
  by_cases hc : c
  · exact .inl ⟨hc, by rwa [if_pos hc] at h⟩
  · exact .inr ⟨hc, by rwa [if_neg hc] at h⟩

theorem ok_dite {c : Prop} [Decidable c] {t : c → Transaction α} {e : ¬ c → Transaction α} {a : α}
    (h : (if hc : c then t hc else e hc) db = .ok (a, db')) :
    (∃ hc, t hc db = .ok (a, db')) ∨ (∃ hc, e hc db = .ok (a, db')) := by
  by_cases hc : c
  · exact .inl ⟨hc, by rwa [dif_pos hc] at h⟩
  · exact .inr ⟨hc, by rwa [dif_neg hc] at h⟩

theorem ok_save {job : ResearchJob} {u : Unit} (h : save job db = .ok (u, db')) :
    db' = db.putJob job := by
  cases h
  rfl

theorem ok_append {now : Time} {job : ResearchJob} {t : String} {d : Dict} {e : ResearchEvent}
    (h : appendEventLocked now job t d db = .ok (e, db')) :
    e = db.newEvent now job.id t d ∧ db' = db.appendEvent now job.id t d := by
  cases h
  exact ⟨rfl, rfl⟩

theorem ok_runner {H : Hashing} {j : JobId} {token : String} {job : ResearchJob}
    (h : getForRunnerLocked H j token db = .ok (job, db')) :
    db = db' ∧ db.job? j = some job ∧ accepts H job token = true := by
  obtain ⟨s, db₁, hget, hrow⟩ := ok_bind h
  obtain ⟨rfl, rfl⟩ := ok_get hget
  cases hj : db.job? j with
  | none => rw [hj] at hrow; exact (ok_throw hrow).elim
  | some found =>
    rw [hj] at hrow
    rcases ok_ite hrow with ⟨hacc, hrow⟩ | ⟨-, hrow⟩
    · obtain ⟨rfl, rfl⟩ := ok_pure hrow
      exact ⟨rfl, rfl, hacc⟩
    · exact (ok_throw hrow).elim

theorem ok_user {j : JobId} {userId : String} {job : ResearchJob}
    (h : getForUserLocked j userId db = .ok (job, db')) :
    db = db' ∧ db.job? j = some job ∧ job.userId = userId := by
  obtain ⟨s, db₁, hget, hrow⟩ := ok_bind h
  obtain ⟨rfl, rfl⟩ := ok_get hget
  cases hj : db.job? j with
  | none => rw [hj] at hrow; exact (ok_throw hrow).elim
  | some found =>
    rw [hj] at hrow
    rcases ok_ite hrow with ⟨huser, hrow⟩ | ⟨-, hrow⟩
    · obtain ⟨rfl, rfl⟩ := ok_pure hrow
      exact ⟨rfl, rfl, huser⟩
    · exact (ok_throw hrow).elim

theorem commit_ok {t : Transaction α} {a : α} (h : t db = .ok (a, db')) :
    commit t db = (.ok a, db') := by
  simp [commit, h]

theorem commit_error {t : Transaction α} {e : Failure} (h : t db = .error e) :
    commit t db = (.error e, db) := by
  simp [commit, h]

end

/-- Who holds no token reads nothing. -/
theorem getForRunner_refused {H : Hashing} {db : Database} {j : JobId} {token : String}
    (h : ∀ job, db.job? j = some job → accepts H job token = false) :
    getForRunner H j token db = .error .jobNotFound := by
  show (match db.job? j with
    | none => throw .jobNotFound
    | some job => if accepts H job token then pure job else throw .jobNotFound : Transaction _) db = _
  cases hj : db.job? j with
  | none => rfl
  | some job =>
    simp only [h job hj]
    rfl

theorem getForRunner_accepted {H : Hashing} {db : Database} {j : JobId} {token : String}
    {job : ResearchJob} (hj : db.job? j = some job) (ha : accepts H job token = true) :
    getForRunner H j token db = .ok (job, db) := by
  show (match db.job? j with
    | none => throw .jobNotFound
    | some job => if accepts H job token then pure job else throw .jobNotFound : Transaction _) db = _
  simp only [hj, ha]
  rfl

/-- Who does not own the job reads nothing. -/
theorem getForUser_refused {db : Database} {j : JobId} {userId : String}
    (h : ∀ job, db.job? j = some job → job.userId ≠ userId) :
    getForUser j userId db = .error .jobNotFound := by
  show (match db.job? j with
    | none => throw .jobNotFound
    | some job => if job.userId = userId then pure job else throw .jobNotFound : Transaction _) db = _
  cases hj : db.job? j with
  | none => rfl
  | some job =>
    simp only [h job hj]
    rfl

theorem getForUser_accepted {db : Database} {j : JobId} {userId : String} {job : ResearchJob}
    (hj : db.job? j = some job) (huser : job.userId = userId) : getForUser j userId db = .ok (job, db) := by
  show (match db.job? j with
    | none => throw .jobNotFound
    | some job => if job.userId = userId then pure job else throw .jobNotFound : Transaction _) db = _
  simp only [hj, huser]
  rfl

end ResearchGateway
