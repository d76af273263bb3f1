import ResearchGateway.CreationSteps

/-! Users neither observe nor influence each other.

`AgreeFor` relates two states that hold the same rows, events, artifacts and objects of
one user. Every query of the user's endpoints is a function of these (`AgreeFor.own?`,
`byIdempotency?_jobsOf`, `latestSucceeded?_jobsOf`, `byChatMessage?_jobsOf`), and every
write is to a row of the user. -/
namespace ResearchGateway
open Library

/-- The rows of the user, in the order of the table. -/
def jobsOf (userId : String) (db : Database) : Table ResearchJob JobId ResearchJob.id :=
  db.jobs.keep fun job => job.userId = userId

/-- The row of a job that belongs to the user. -/
def own? (userId : String) (db : Database) (j : JobId) : Option ResearchJob := (jobsOf userId db).find? j

/-- Two states agree on what belongs to the user. -/
structure AgreeFor (userId : String) (db₁ : Database) (store₁ : ArtifactStore) (db₂ : Database)
    (store₂ : ArtifactStore) : Prop where
  jobs : jobsOf userId db₁ = jobsOf userId db₂
  events : ∀ j, (own? userId db₁ j).isSome → db₁.eventsOf j = db₂.eventsOf j
  artifacts : ∀ j, (own? userId db₁ j).isSome → db₁.artifactsOf j = db₂.artifactsOf j
  objects : ∀ j, (own? userId db₁ j).isSome → ∀ a ∈ db₁.artifactsOf j,
    store₁.find? a.objectKey = store₂.find? a.objectKey

/-- Nothing that belongs to somebody else has changed. -/
structure OthersKept (userId : String) (db db' : Database) : Prop where
  jobs : (db'.jobs.keep fun job => job.userId ≠ userId) = db.jobs.keep fun job => job.userId ≠ userId
  events : ∀ job ∈ db.jobs.rows, job.userId ≠ userId → db'.eventsOf job.id = db.eventsOf job.id
  artifacts : db'.artifacts = db.artifacts

/-- What the foreign keys of events and artifacts say. -/
structure ForeignKeys (db : Database) : Prop where
  events : ∀ e ∈ db.events.rows, (db.job? e.jobId).isSome
  artifacts : ∀ a ∈ db.artifacts.rows, (db.job? a.jobId).isSome

/-! ### Queries -/

section
variable {userId : String} {db : Database} {j : JobId} {job : ResearchJob}

theorem own?_eq : own? userId db j = (db.job? j).filter fun job => job.userId = userId :=
  Table.find?_keep ..

theorem own?_some : own? userId db j = some job ↔ db.job? j = some job ∧ job.userId = userId := by
  rw [own?_eq, Option.filter_eq_some_iff]
  simp

theorem own?_none : own? userId db j = none ↔ ∀ job, db.job? j = some job → job.userId ≠ userId := by
  rw [own?_eq, Option.filter_eq_none_iff]
  simp

theorem getForUser_own (h : own? userId db j = some job) : getForUser j userId db = .ok (job, db) :=
  getForUser_accepted (own?_some.mp h).1 (own?_some.mp h).2

theorem getForUser_foreign (h : own? userId db j = none) : getForUser j userId db = .error .jobNotFound :=
  getForUser_refused (own?_none.mp h)

theorem byIdempotency?_jobsOf (key : String) :
    byIdempotency? db userId key = (jobsOf userId db).rows.find? fun job => job.idempotencyKey = key := by
  show _ = List.find? _ (List.filter _ _)
  rw [List.find?_filter]
  refine congrArg (db.jobs.rows.find? ·) (funext fun job => ?_)
  simp

/-- A select that names the user sees only the user's rows. -/
theorem filter_jobsOf {p : ResearchJob → Prop} [DecidablePred p] :
    (db.jobs.rows.filter fun job => job.userId = userId ∧ p job) =
      (jobsOf userId db).rows.filter fun job => p job := by
  show _ = List.filter _ (List.filter _ _)
  rw [List.filter_filter]
  refine List.filter_congr fun job _ => ?_
  rw [Bool.decide_and, Bool.and_comm]

theorem latestSucceeded?_jobsOf (chatId : String) :
    latestSucceeded? db userId chatId =
      (((jobsOf userId db).rows.filter fun job => job.chatId = chatId ∧ job.state = .succeeded).insertionSort
        fun a b => b.createdAt ≤ a.createdAt).head? := by
  unfold latestSucceeded?
  rw [filter_jobsOf]

theorem byChatMessage?_jobsOf (chatId messageId : String) :
    byChatMessage? db userId chatId messageId =
      (((jobsOf userId db).rows.filter fun job => job.chatId = chatId ∧ job.messageId = messageId).insertionSort
        fun a b => b.createdAt ≤ a.createdAt).head? := by
  unfold byChatMessage?
  rw [filter_jobsOf]

/-! ### Writes to a row of the user -/

/-- What `request_cancel` writes. -/
def cancelWrite (now : Time) (job : ResearchJob) : Write :=
  if job.state = .pending then
    ⟨now, {job with state := .cancelled, runnerTokenHash := none, finishedAt := some now, updatedAt := now},
      [("job.cancelled", ∅)]⟩
  else if job.state = .dispatched ∨ job.state = .running then
    ⟨now, {job with state := .cancelRequested, updatedAt := now}, [("job.cancel_requested", ∅)]⟩
  else if job.state.isTerminal then ⟨now, revokeToken now job, []⟩
  else ⟨now, job, []⟩

/-- A row with the identifier of a job is that job. -/
theorem eq_of_job? (hj : db.job? j = some job) {x : ResearchJob} (hx : x ∈ db.jobs.rows)
    (hid : x.id = job.id) : x = job :=
  List.inj_on_of_nodup_map db.jobs.unique hx (Database.job?_iff.mp hj).1 hid

/-- Writing a row over itself changes nothing. -/
theorem write_self (hj : db.job? j = some job) (now : Time) : db.write ⟨now, job, []⟩ = db := by
  have hsame : db.jobs.put job = db.jobs := by
    refine Table.ext_rows ?_
    show db.jobs.rows.map (fun x => if x.id = job.id then job else x) = _
    refine (List.map_congr_left fun x hx => ?_).trans (List.map_id _)
    by_cases hid : x.id = job.id
    · rw [if_pos hid, eq_of_job? hj hx hid]
      rfl
    · rw [if_neg hid]
      rfl
  show ({db with jobs := db.jobs.put job} : Database) = db
  rw [hsame]

theorem requestCancel_own (h : own? userId db j = some job) (now : Time) :
    requestCancel now j userId db = .ok ((cancelWrite now job).job, db.write (cancelWrite now job)) := by
  unfold requestCancel
  rw [bind_ok (show getForUserLocked j userId db = .ok (job, db) from getForUser_own h)]
  unfold cancelWrite
  split
  · rfl
  · split
    · rfl
    · split
      · rfl
      · rw [write_self (own?_some.mp h).1]
        rfl

theorem requestCancel_foreign (h : own? userId db j = none) (now : Time) :
    requestCancel now j userId db = .error .jobNotFound :=
  bind_error (show getForUserLocked j userId db = .error .jobNotFound from getForUser_foreign h)

theorem cancelWrite_row (now : Time) (job : ResearchJob) :
    (cancelWrite now job).job.id = job.id ∧ (cancelWrite now job).job.userId = job.userId := by
  unfold cancelWrite
  split
  · exact ⟨rfl, rfl⟩
  · split
    · exact ⟨rfl, rfl⟩
    · split
      · exact revokeToken_rule (P := fun after => after.id = job.id ∧ after.userId = job.userId)
          ⟨rfl, rfl⟩ ⟨rfl, rfl⟩
      · exact ⟨rfl, rfl⟩

theorem jobs_appendNotes (db : Database) (now : Time) (j : JobId) (notes : List (String × Dict)) :
    (db.appendNotes now j notes).jobs = db.jobs := by
  induction notes generalizing db with
  | nil => rfl
  | cons n rest ih => exact ih _

theorem jobs_write (db : Database) (w : Write) : (db.write w).jobs = db.jobs.put w.job := jobs_appendNotes ..

theorem eventsOf_write (db : Database) (w : Write) (k : JobId) :
    (db.write w).eventsOf k = db.eventsOf k ++
      if w.job.id = k then Database.numbered (db.eventsOf w.job.id) w.now w.job.id w.notes else [] :=
  Database.eventsOf_appendNotes ..

section
variable {w : Write} (hown : own? userId db j = some job) (hid : w.job.id = job.id)
  (huser : w.job.userId = userId)

include hown hid huser in
theorem jobsOf_write : jobsOf userId (db.write w) = (jobsOf userId db).put w.job := by
  unfold jobsOf
  rw [jobs_write]
  refine Table.ext_rows ?_
  show List.filter _ (List.map _ _) = List.map _ (List.filter _ _)
  rw [List.filter_map]
  refine congrArg _ (List.filter_congr fun x hx => ?_)
  obtain ⟨hj, howner⟩ := own?_some.mp hown
  by_cases hx' : x.id = w.job.id
  · rw [eq_of_job? hj hx (hx'.trans hid)]
    simp [hid, huser, howner]
  · simp [hx']

include hown hid huser in
theorem othersKept_write : OthersKept userId db (db.write w) where
  jobs := by
    obtain ⟨hj, howner⟩ := own?_some.mp hown
    rw [jobs_write]
    refine Table.ext_rows ?_
    show List.filter _ (List.map (fun x => if x.id = w.job.id then w.job else x) _) = List.filter _ _
    rw [List.filter_map]
    have hsame : db.jobs.rows.filter ((fun job => decide (job.userId ≠ userId)) ∘
          fun x => if x.id = w.job.id then w.job else x) =
        db.jobs.rows.filter fun job => job.userId ≠ userId := by
      refine List.filter_congr fun x hx => ?_
      by_cases hx' : x.id = w.job.id
      · rw [eq_of_job? hj hx (hx'.trans hid)]
        simp [hid, huser, howner]
      · simp [hx']
    rw [hsame]
    refine (List.map_congr_left fun x hx => ?_).trans (List.map_id _)
    obtain ⟨hrow, hother⟩ := List.mem_filter.mp hx
    have hx' : x.id ≠ w.job.id := by
      intro heq
      rw [eq_of_job? hj hrow (heq.trans hid)] at hother
      simp [howner] at hother
    rw [if_neg hx']
    rfl
  events x hx hother := by
    obtain ⟨hj, howner⟩ := own?_some.mp hown
    rw [eventsOf_write, if_neg, List.append_nil]
    intro heq
    rw [eq_of_job? hj hx (heq.symm.trans hid)] at hother
    exact hother howner
  artifacts := Database.artifacts_write ..

end

/-- The same write to a row of the user, in both states. -/
theorem AgreeFor.write {db₁ db₂ : Database} {store₁ store₂ : ArtifactStore} {w : Write}
    (h : AgreeFor userId db₁ store₁ db₂ store₂) (hown : own? userId db₁ j = some job)
    (hid : w.job.id = job.id) (huser : w.job.userId = userId) :
    AgreeFor userId (db₁.write w) store₁ (db₂.write w) store₂ := by
  have hown₂ : own? userId db₂ j = some job := by
    unfold own?
    rw [← h.jobs]
    exact hown
  have hkeep {k : JobId} (hk : (own? userId (db₁.write w) k).isSome) : (own? userId db₁ k).isSome := by
    unfold own? at hk
    rw [jobsOf_write hown hid huser, Table.find?_put] at hk
    split at hk
    · rw [Option.isSome_map] at hk
      exact hk
    · exact hk
  have hartifacts (db : Database) (k : JobId) : (db.write w).artifactsOf k = db.artifactsOf k := by
    unfold Database.artifactsOf
    rw [Database.artifacts_write]
  refine ⟨?_, fun k hk => ?_, fun k hk => ?_, fun k hk a ha => ?_⟩
  · rw [jobsOf_write hown hid huser, jobsOf_write hown₂ hid huser, h.jobs]
  · have hwritten : db₁.eventsOf w.job.id = db₂.eventsOf w.job.id := by
      rw [hid, Database.id_of_job? (own?_some.mp hown).1]
      exact h.events j (by rw [hown]; rfl)
    rw [eventsOf_write, eventsOf_write, h.events k (hkeep hk), hwritten]
  · rw [hartifacts, hartifacts]
    exact h.artifacts k (hkeep hk)
  · rw [hartifacts] at ha
    exact h.objects k (hkeep hk) a ha

end

/-! ### Creation -/

section
variable {H : Hashing} {userId key : String} {request : CreateJobRequest} {now : Time} {id : JobId}

theorem createJob_found {db : Database} {existing : ResearchJob}
    (h : byIdempotency? db userId key = some existing)
    (hdigest : existing.requestHash = H.requestDigest request) :
    createJob H now id userId key request db = .ok ((existing, false), db) := by
  rw [createJob_eq, bind_ok (creationLookup_found h hdigest)]
  rfl

theorem createJob_conflict {db : Database} {existing : ResearchJob}
    (h : byIdempotency? db userId key = some existing)
    (hdigest : existing.requestHash ≠ H.requestDigest request) :
    createJob H now id userId key request db = .error .idempotencyConflict := by
  rw [createJob_eq, bind_error (creationLookup_conflict h hdigest)]

/-- The tables with a new row and its first event. -/
def withCreated (now : Time) (row : ResearchJob) (db : Database) (hfresh : db.jobs.Fresh row.id) : Database :=
  (db.addJob row hfresh).appendEvent now row.id "job.created" (record [("state", .str "pending")])

/-- PostgreSQL refuses what fits no row. -/
theorem createJob_unfit {db : Database} (h : byIdempotency? db userId key = none)
    (hfits : fitsRow userId key request = false) :
    createJob H now id userId key request db = .error .database := by
  rw [createJob_eq, bind_ok (creationLookup_absent h)]
  show (creationInsert H now id userId key request (latestSucceeded? db userId request.chatId) >>=
    fun job => pure (job, true)) db = _
  exact bind_error (creationInsert_unfit hfits)

theorem createJob_new {db : Database} (h : byIdempotency? db userId key = none)
    (hfits : fitsRow userId key request = true) {row : ResearchJob}
    (hrow : row = creationRow H now id userId key request (latestSucceeded? db userId request.chatId))
    (hfresh : db.jobs.Fresh row.id) :
    createJob H now id userId key request db = .ok ((row, true), withCreated now row db hfresh) := by
  subst hrow
  rw [createJob_eq, bind_ok (creationLookup_absent h)]
  have hinsert := @creationInsert_ok H userId key request db now id
    (latestSucceeded? db userId request.chatId) hfits hfresh h
  show (creationInsert H now id userId key request (latestSucceeded? db userId request.chatId) >>=
    fun job => pure (job, true)) db = _
  exact bind_ok hinsert

end

section
variable {userId : String} {db : Database} {row : ResearchJob} {now : Time} (hfresh : db.jobs.Fresh row.id)

include hfresh in
theorem ForeignKeys.absent (h : ForeignKeys db) :
    db.eventsOf row.id = [] ∧ db.artifactsOf row.id = [] := by
  have hnone : db.job? row.id = none := Table.find?_eq_none.mpr hfresh
  refine ⟨List.filter_eq_nil_iff.mpr fun e he hmatch => ?_, List.filter_eq_nil_iff.mpr fun a ha hmatch => ?_⟩
  · have hsome := h.events e he
    rw [of_decide_eq_true hmatch, hnone] at hsome
    cases hsome
  · have hsome := h.artifacts a ha
    rw [of_decide_eq_true hmatch, hnone] at hsome
    cases hsome

theorem jobsOf_created (huser : row.userId = userId) :
    (jobsOf userId (withCreated now row db hfresh)).rows = (jobsOf userId db).rows ++ [row] := by
  show List.filter _ (db.jobs.rows ++ [row]) = _
  rw [List.filter_append]
  simp [huser, jobsOf, Table.keep]

theorem eventsOf_created (k : JobId) :
    (withCreated now row db hfresh).eventsOf k = db.eventsOf k ++
      if row.id = k then [(db.addJob row hfresh).newEvent now row.id "job.created"
        (record [("state", .str "pending")])] else [] := Database.eventsOf_appendEvent ..

theorem othersKept_created (huser : row.userId = userId) :
    OthersKept userId db (withCreated now row db hfresh) where
  jobs := by
    refine Table.ext_rows ?_
    show List.filter _ (db.jobs.rows ++ [row]) = List.filter _ _
    rw [List.filter_append]
    simp [huser]
  events job hjob _ := by
    rw [eventsOf_created, if_neg (fun heq => hfresh job hjob heq.symm), List.append_nil]
  artifacts := rfl

end

/-- The same new row of the user, in both states. -/
theorem AgreeFor.created {userId : String} {db₁ db₂ : Database} {store₁ store₂ : ArtifactStore}
    {row : ResearchJob} {now : Time} (h : AgreeFor userId db₁ store₁ db₂ store₂)
    (hkeys₁ : ForeignKeys db₁) (hkeys₂ : ForeignKeys db₂) (hfresh₁ : db₁.jobs.Fresh row.id)
    (hfresh₂ : db₂.jobs.Fresh row.id) (huser : row.userId = userId) :
    AgreeFor userId (withCreated now row db₁ hfresh₁) store₁ (withCreated now row db₂ hfresh₂) store₂ := by
  obtain ⟨hevents₁, hartifacts₁⟩ := hkeys₁.absent hfresh₁
  obtain ⟨hevents₂, hartifacts₂⟩ := hkeys₂.absent hfresh₂
  have hkeep {k : JobId} (hk : (own? userId (withCreated now row db₁ hfresh₁) k).isSome) :
      row.id = k ∨ (own? userId db₁ k).isSome := by
    have hrow : (withCreated now row db₁ hfresh₁).job? k = if row.id = k then some row else db₁.job? k :=
      Database.job?_addJob db₁ row hfresh₁ k
    by_cases hid : row.id = k
    · exact .inl hid
    · rw [if_neg hid] at hrow
      rw [own?_eq, hrow, ← own?_eq] at hk
      exact .inr hk
  have hartifacts {k : JobId} (hk : (own? userId (withCreated now row db₁ hfresh₁) k).isSome) :
      db₁.artifactsOf k = db₂.artifactsOf k := by
    rcases hkeep hk with rfl | hbefore
    · rw [hartifacts₁, hartifacts₂]
    · exact h.artifacts k hbefore
  refine ⟨?_, fun k hk => ?_, fun k hk => hartifacts hk, fun k hk a ha => ?_⟩
  · refine Table.ext_rows ?_
    rw [jobsOf_created hfresh₁ huser, jobsOf_created hfresh₂ huser, h.jobs]
  · have hnew : (db₁.addJob row hfresh₁).newEvent now row.id "job.created" (record [("state", .str "pending")]) =
        (db₂.addJob row hfresh₂).newEvent now row.id "job.created" (record [("state", .str "pending")]) := by
      have hempty (db : Database) (hfresh : db.jobs.Fresh row.id) (hnone : db.eventsOf row.id = []) :
          (db.addJob row hfresh).currentSequence row.id = 0 := by
        show Journal.lastNumber ((db.eventsOf row.id).map ResearchEvent.sequence) = 0
        rw [hnone]
        rfl
      unfold Database.newEvent
      rw [hempty db₁ hfresh₁ hevents₁, hempty db₂ hfresh₂ hevents₂]
    rw [eventsOf_created, eventsOf_created, hnew]
    rcases hkeep hk with rfl | hbefore
    · rw [hevents₁, hevents₂]
    · rw [h.events k hbefore]
  · rcases hkeep hk with rfl | hbefore
    · have hnone : a ∈ db₁.artifactsOf row.id := ha
      rw [hartifacts₁] at hnone
      cases hnone
    · exact h.objects k hbefore a ha

/-! ### A job that is not the user's -/

/-- The answer about a job that does not exist. -/
def missingReply : JobRequest → UserReply
  | .get | .cancel _ | .artifacts => .error 404 "job not found"
  | .content _ => .error 404 "artifact not found"
  | .events _ statements =>
    .stream (if statements = 0 then [] else ["event: error\ndata: \x7b\"error\":\"job not found\"\x7d\n\n"])

section
variable {userId : String} {db : Database} {j : JobId} {dumps : JobEventView → String}

theorem chunks_notFound (n sequence : Nat) (emitted : List ResearchEvent) :
    Stream.chunks dumps j userId db n ⟨sequence, emitted, .notFound⟩ = [] := by
  induction n with
  | zero => rfl
  | succ n ih => exact ih

theorem chunks_foreign (h : own? userId db j = none) (after n : Nat) :
    (Stream.start after).chunks dumps j userId db n =
      if n = 0 then [] else ["event: error\ndata: \x7b\"error\":\"job not found\"\x7d\n\n"] := by
  have hmissing := getForUser_foreign h
  cases n with
  | zero => rfl
  | succ n =>
    have hchunk : (Stream.start after).chunk dumps j userId db =
        ["event: error\ndata: \x7b\"error\":\"job not found\"\x7d\n\n"] := by
      simp only [Stream.chunk, Stream.start, hmissing]
    have hadvance : (Stream.start after).advance j userId db = ⟨after, [], .notFound⟩ := by
      simp only [Stream.advance, Stream.start, hmissing]
    rw [Stream.chunks, hchunk, hadvance, chunks_notFound]
    rfl

/-- A job of somebody else is answered as one that does not exist. -/
theorem serveJob_foreign (api : UserApi) (h : own? userId db j = none) (request : JobRequest)
    (store : ArtifactStore) : api.serveJob userId j request db store = (missingReply request, db) := by
  have hmissing := getForUser_foreign h
  cases request with
  | get =>
    simp only [UserApi.serveJob, getJob, commit_error hmissing]
    rfl
  | events after statements =>
    simp only [UserApi.serveJob, chunks_foreign h]
    rfl
  | cancel now =>
    simp only [UserApi.serveJob, cancelJob, commit_error (requestCancel_foreign h now)]
    rfl
  | artifacts =>
    simp only [UserApi.serveJob, listJobArtifacts, commit_error hmissing]
    rfl
  | content artifactName =>
    have hcontent : (do
        let _ ← getForUser j userId
        getArtifact j artifactName : Transaction ResearchArtifact) db = .error .jobNotFound :=
      bind_error hmissing
    simp only [UserApi.serveJob, fetchArtifact, commit_error hcontent]
    rfl

end

/-! ### Two states -/

/-- The same request in two states: the same answer, the same data of the user
afterwards, and nothing of anybody else changed. -/
structure Isolated (userId : String) (db₁ : Database) (store₁ : ArtifactStore) (db₂ : Database)
    (store₂ : ArtifactStore) (served₁ served₂ : UserReply × Database) : Prop where
  reply : served₁.1 = served₂.1
  agree : AgreeFor userId served₁.2 store₁ served₂.2 store₂
  others₁ : OthersKept userId db₁ served₁.2
  others₂ : OthersKept userId db₂ served₂.2

theorem AgreeFor.refl (userId : String) (db : Database) (store : ArtifactStore) :
    AgreeFor userId db store db store := ⟨rfl, fun _ _ => rfl, fun _ _ => rfl, fun _ _ _ _ => rfl⟩

theorem OthersKept.refl (userId : String) (db : Database) : OthersKept userId db db := ⟨rfl, fun _ _ _ => rfl, rfl⟩

section
variable {userId : String} {db₁ db₂ : Database} {store₁ store₂ : ArtifactStore} {j : JobId} {job : ResearchJob}
  (h : AgreeFor userId db₁ store₁ db₂ store₂)

include h in
theorem AgreeFor.own? (j : JobId) : ResearchGateway.own? userId db₁ j = ResearchGateway.own? userId db₂ j := by
  unfold ResearchGateway.own?
  rw [h.jobs]

include h in
/-- A request that only reads. -/
theorem AgreeFor.read {reply₁ reply₂ : UserReply} (heq : reply₁ = reply₂) :
    Isolated userId db₁ store₁ db₂ store₂ (reply₁, db₁) (reply₂, db₂) :=
  ⟨heq, h, .refl .., .refl ..⟩

include h in
/-- The stream of a job of the user. -/
theorem AgreeFor.chunks (hown : ResearchGateway.own? userId db₁ j = some job) (dumps : JobEventView → String)
    (n : Nat) (s : Stream) : s.chunks dumps j userId db₁ n = s.chunks dumps j userId db₂ n := by
  have hread₁ := getForUser_own hown
  have hread₂ := getForUser_own ((h.own? j).symm.trans hown)
  have hevents : db₁.eventsOf j = db₂.eventsOf j := h.events j (by rw [hown]; rfl)
  have hlist (after : Nat) : listEvents db₁ j after = listEvents db₂ j after := by
    unfold listEvents
    rw [hevents]
  have hchunk (s : Stream) : s.chunk dumps j userId db₁ = s.chunk dumps j userId db₂ := by
    unfold Stream.chunk
    rw [hread₁, hread₂]
  have hadvance (s : Stream) : s.advance j userId db₁ = s.advance j userId db₂ := by
    unfold Stream.advance
    rw [hread₁, hread₂, hlist]
  induction n generalizing s with
  | zero => rfl
  | succ n ih => rw [Stream.chunks, Stream.chunks, hchunk, hadvance, ih]

/-- `get_artifact` among the rows of the job. -/
theorem getArtifact_eq (db : Database) (j : JobId) (name : String) :
    db.artifacts.find? (j, name) = (db.artifactsOf j).find? fun a => a.name = name := by
  unfold Table.find? Database.artifactsOf
  rw [List.find?_filter]
  refine congrArg (db.artifacts.rows.find? ·) (funext fun a => ?_)
  simp

/-- The transaction of `fetch_artifact_for_openwebui`, for a job of the user. -/
theorem ownArtifact_some {db : Database} (hown : ResearchGateway.own? userId db j = some job) {name : String}
    {artifact : ResearchArtifact}
    (hfound : ((db.artifactsOf j).find? fun a => a.name = name) = some artifact) :
    (do
      let _ ← getForUser j userId
      getArtifact j name : Transaction ResearchArtifact) db = .ok (artifact, db) := by
  rw [bind_ok (getForUser_own hown)]
  exact getArtifact_found ((getArtifact_eq db j name).trans hfound)

theorem ownArtifact_none {db : Database} (hown : ResearchGateway.own? userId db j = some job) {name : String}
    (hfound : ((db.artifactsOf j).find? fun a => a.name = name) = none) :
    (do
      let _ ← getForUser j userId
      getArtifact j name : Transaction ResearchArtifact) db = .error .jobNotFound := by
  rw [bind_ok (getForUser_own hown)]
  exact getArtifact_missing ((getArtifact_eq db j name).trans hfound)

include h in
/-- A request about a job of the user. -/
theorem AgreeFor.serveJob (hown : ResearchGateway.own? userId db₁ j = some job) (api : UserApi)
    (request : JobRequest) :
    Isolated userId db₁ store₁ db₂ store₂ (api.serveJob userId j request db₁ store₁)
      (api.serveJob userId j request db₂ store₂) := by
  have hown₂ : ResearchGateway.own? userId db₂ j = some job := (h.own? j).symm.trans hown
  have hread₁ := commit_ok (getForUser_own hown)
  have hread₂ := commit_ok (getForUser_own hown₂)
  have hartifacts : db₁.artifactsOf j = db₂.artifactsOf j := h.artifacts j (by rw [hown]; rfl)
  cases request with
  | get =>
    refine h.read ?_
    unfold getJob
    rw [hread₁, hread₂]
  | events after statements =>
    refine h.read ?_
    rw [h.chunks hown]
  | cancel now =>
    obtain ⟨hid, huser⟩ := cancelWrite_row now job
    have howner : (cancelWrite now job).job.userId = userId := huser.trans (own?_some.mp hown).2
    simp only [UserApi.serveJob, cancelJob, commit_ok (requestCancel_own hown now),
      commit_ok (requestCancel_own hown₂ now)]
    exact ⟨rfl, h.write hown hid howner, othersKept_write hown hid howner, othersKept_write hown₂ hid howner⟩
  | artifacts =>
    refine h.read ?_
    unfold listJobArtifacts listArtifacts
    rw [hread₁, hread₂, hartifacts]
  | content artifactName =>
    refine h.read ?_
    cases hfound : (db₁.artifactsOf j).find? fun a => a.name = artifactName with
    | none =>
      have hfound₂ := hartifacts ▸ hfound
      unfold fetchArtifact
      rw [commit_error (ownArtifact_none hown hfound), commit_error (ownArtifact_none hown₂ hfound₂)]
      rfl
    | some artifact =>
      have hfound₂ := hartifacts ▸ hfound
      have hobject : store₁.find? artifact.objectKey = store₂.find? artifact.objectKey :=
        h.objects j (by rw [hown]; rfl) artifact (List.mem_of_find?_eq_some hfound)
      unfold fetchArtifact
      rw [commit_ok (ownArtifact_some hown hfound), commit_ok (ownArtifact_some hown₂ hfound₂)]
      simp only [ofTransaction, hobject]

include h in
theorem AgreeFor.create (hkeys₁ : ForeignKeys db₁) (hkeys₂ : ForeignKeys db₂) {H : Hashing}
    {limits : AdminLimits} {now : Time} {id : JobId} {key : String} {request : CreateJobRequest}
    (hfresh₁ : db₁.jobs.Fresh id) (hfresh₂ : db₂.jobs.Fresh id) :
    Isolated userId db₁ store₁ db₂ store₂ (createJobEndpoint H limits now id userId key request db₁)
      (createJobEndpoint H limits now id userId key request db₂) := by
  have hlookup : byIdempotency? db₁ userId key = byIdempotency? db₂ userId key := by
    rw [byIdempotency?_jobsOf, byIdempotency?_jobsOf, h.jobs]
  have hparent : latestSucceeded? db₁ userId request.chatId = latestSucceeded? db₂ userId request.chatId := by
    rw [latestSucceeded?_jobsOf, latestSucceeded?_jobsOf, h.jobs]
  unfold createJobEndpoint
  cases hvalid : limits.validate request with
  | error detail => exact h.read rfl
  | ok _ =>
    cases hfound : byIdempotency? db₁ userId key with
    | some existing =>
      have hfound₂ := hlookup.symm.trans hfound
      by_cases hdigest : existing.requestHash = H.requestDigest request
      · simp only [commit_ok (createJob_found hfound hdigest), commit_ok (createJob_found hfound₂ hdigest)]
        exact h.read rfl
      · simp only [commit_error (createJob_conflict hfound hdigest),
          commit_error (createJob_conflict hfound₂ hdigest)]
        exact h.read rfl
    | none =>
      have hfound₂ := hlookup.symm.trans hfound
      cases hfits : fitsRow userId key request with
      | false =>
        have hrefused₁ := @createJob_unfit H userId key request now id db₁ hfound hfits
        have hrefused₂ := @createJob_unfit H userId key request now id db₂ hfound₂ hfits
        simp only [commit_error hrefused₁, commit_error hrefused₂]
        exact h.read rfl
      | true =>
        have hnew₁ := @createJob_new H userId key request now id db₁ hfound hfits _ rfl hfresh₁
        have hnew₂ := @createJob_new H userId key request now id db₂ hfound₂ hfits _
          (congrArg (creationRow H now id userId key request) hparent) hfresh₂
        simp only [commit_ok hnew₁, commit_ok hnew₂]
        exact ⟨rfl, h.created hkeys₁ hkeys₂ hfresh₁ hfresh₂ rfl, othersKept_created hfresh₁ rfl,
          othersKept_created hfresh₂ rfl⟩

end

/-- What somebody else does is not seen. -/
theorem OthersKept.agree {userId other : String} {db db' : Database} (h : OthersKept other db db')
    (hne : userId ≠ other) (store : ArtifactStore) : AgreeFor userId db store db' store := by
  have hown (db : Database) : (db.jobs.keep fun job => job.userId ≠ other).keep (fun job => job.userId = userId) =
      jobsOf userId db := by
    refine Table.keep_keep fun job _ => ?_
    by_cases huser : job.userId = userId
    · simp [huser, hne]
    · simp [huser]
  refine ⟨?_, fun j hj => ?_, fun j _ => ?_, fun _ _ _ _ => rfl⟩
  · rw [← hown db, ← hown db', h.jobs]
  · obtain ⟨job, hjob⟩ := Option.isSome_iff_exists.mp hj
    obtain ⟨hrow, huser⟩ := own?_some.mp hjob
    obtain ⟨hmem, rfl⟩ := Database.job?_iff.mp hrow
    exact (h.events job hmem fun heq => hne (huser.symm.trans heq)).symm
  · unfold Database.artifactsOf
    rw [h.artifacts]

/-- Reachable tables keep their foreign keys. -/
theorem Sound.foreignKeys {db : Database} (h : Sound db) : ForeignKeys db := by
  have hpresent {j : JobId} (hrows : db.eventsOf j ≠ [] ∨ db.artifactsOf j ≠ []) : (db.job? j).isSome := by
    cases hj : db.job? j with
    | some job => rfl
    | none =>
      obtain ⟨hevents, hartifacts⟩ := (h j).absent hj
      rcases hrows with hrows | hrows
      · exact absurd hevents hrows
      · exact absurd hartifacts hrows
  refine ⟨fun e he => hpresent (.inl ?_), fun a ha => hpresent (.inr ?_)⟩
  · exact List.ne_nil_of_mem (List.mem_filter.mpr ⟨he, decide_eq_true rfl⟩)
  · exact List.ne_nil_of_mem (List.mem_filter.mpr ⟨ha, decide_eq_true rfl⟩)

/-- What an endpoint does to the tables is an operation of the control plane, or nothing. -/
theorem UserApi.serve_step (api : UserApi) (userId : String) (request : UserRequest) (db : Database)
    (store : ArtifactStore) : (api.serve userId request db store).2 = db ∨
      ∃ op, (api.serve userId request db store).2 = step api.hashing op db := by
  cases request with
  | create now id key request =>
    show (createJobEndpoint ..).2 = db ∨ ∃ op, (createJobEndpoint ..).2 = step api.hashing op db
    unfold createJobEndpoint
    split
    · exact .inl rfl
    · have hstep : step api.hashing (.createJob now id userId key request) db =
          (commit (createJob api.hashing now id userId key request) db).2 := step_of_commit rfl db
      refine .inr ⟨.createJob now id userId key request, ?_⟩
      rw [hstep]
      split <;> simp_all
  | resolve => exact .inl rfl
  | about j about =>
    cases about with
    | cancel now =>
      refine .inr ⟨.requestCancel now j userId, ?_⟩
      have hstep : step api.hashing (.requestCancel now j userId) db =
          (commit (requestCancel now j userId) db).2 := step_of_commit rfl db
      rw [hstep]
      rfl
    | _ => exact .inl rfl

/-- Endpoints keep the tables sound. -/
theorem UserApi.serve_sound (api : UserApi) (userId : String) (request : UserRequest) {db : Database}
    (store : ArtifactStore) (h : Sound db) : Sound (api.serve userId request db store).2 := by
  rcases api.serve_step userId request db store with hsame | ⟨op, hstep⟩
  · rwa [hsame]
  · rw [hstep]
    exact step_sound api.hashing op h

/-- The identifier that a creation draws is not in use. -/
def UserRequest.DrawsFresh (db : Database) : UserRequest → Prop
  | .create _ id _ _ => db.jobs.Fresh id
  | _ => True

/-- In two states that agree on what belongs to the user, every request of the user has
the same answer and leaves the same data of the user, and it changes nothing of anybody
else. A job of somebody else is served as one that does not exist. -/
theorem user_isolation (api : UserApi) (userId : String) (db₁ db₂ : Database) (store₁ store₂ : ArtifactStore)
    (hkeys₁ : ForeignKeys db₁) (hkeys₂ : ForeignKeys db₂) (hagree : AgreeFor userId db₁ store₁ db₂ store₂)
    (request : UserRequest) (hfresh₁ : request.DrawsFresh db₁) (hfresh₂ : request.DrawsFresh db₂) :
    Isolated userId db₁ store₁ db₂ store₂ (api.serve userId request db₁ store₁)
        (api.serve userId request db₂ store₂) ∧
      ∀ j absent about, (∀ job, db₁.job? j = some job → job.userId ≠ userId) → db₁.job? absent = none →
        api.serve userId (.about j about) db₁ store₁ = api.serve userId (.about absent about) db₁ store₁ := by
  refine ⟨?_, fun j absent about hforeign habsent => ?_⟩
  · cases request with
    | create now id key request => exact hagree.create hkeys₁ hkeys₂ hfresh₁ hfresh₂
    | resolve chatId messageId =>
      refine hagree.read ?_
      unfold resolveJob
      rw [byChatMessage?_jobsOf, byChatMessage?_jobsOf, hagree.jobs]
    | about j about =>
      cases hown : own? userId db₁ j with
      | some job => exact hagree.serveJob hown api about
      | none =>
        have hown₂ : own? userId db₂ j = none := (hagree.own? j).symm.trans hown
        simp only [UserApi.serve, serveJob_foreign api hown, serveJob_foreign api hown₂]
        exact hagree.read rfl
  · have hmissing : own? userId db₁ absent = none :=
      own?_none.mpr fun job hjob => by
        rw [habsent] at hjob
        cases hjob
    simp only [UserApi.serve, serveJob_foreign api (own?_none.mpr hforeign), serveJob_foreign api hmissing]

/-! ### Two users -/
namespace Sample

def api : UserApi := ⟨hashing, {}, .filesystem, fun _ => "\x7b\x7d"⟩

/-- Another user creates a job under the same key and in the same chat. -/
def neighbour : UserRequest := .create 5 7 "key" request

end Sample

/-- The user cancels, whether or not the other one has a job. -/
theorem user_isolation_cancel :
    let db := after Sample.hashing Sample.created
    let db' := (Sample.api.serve "other" Sample.neighbour db .empty).2
    (Sample.api.serve "user" (.about 1 (.cancel 9)) db .empty).1 =
        (Sample.api.serve "user" (.about 1 (.cancel 9)) db' .empty).1 ∧
      ((db'.job? 7).map ResearchJob.userId, (Sample.api.serve "user" (.about 7 .get) db' .empty).1.status) =
        (some "other", 404) := by
  intro db db'
  have hsound : Sound db := after_sound Sample.hashing Sample.created
  have hkeys : ForeignKeys db := hsound.foreignKeys
  have hkeys' : ForeignKeys db' := (Sample.api.serve_sound "other" Sample.neighbour .empty hsound).foreignKeys
  have hfresh : Sample.neighbour.DrawsFresh db := by
    show db.jobs.Fresh 7
    decide +kernel
  have hkept : OthersKept "other" db db' :=
    (user_isolation Sample.api "other" db db .empty .empty hkeys hkeys (.refl ..) Sample.neighbour hfresh hfresh).1.others₁
  have hboth := user_isolation Sample.api "user" db db' .empty .empty hkeys hkeys'
    (hkept.agree (by decide) .empty) (.about 1 (.cancel 9)) trivial trivial
  exact ⟨hboth.1.reply, by decide +kernel⟩

end ResearchGateway
