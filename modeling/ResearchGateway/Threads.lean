import ResearchGateway.Fencing

/-! Research threads.

A job continues the latest created job of its user and chat that has succeeded by then.
Jobs succeed, fail and are retried in any order, so the order of the iterations is an
invariant of whole runs (`Forward`): the parent of the newest job of a chat is at least as
far as the parents of all jobs before it. -/
namespace ResearchGateway
open Library

/-! ### The latest succeeded job -/

section
variable {db : Database} {userId chatId : String}

theorem latestSucceeded?_some {parent : ResearchJob}
    (h : latestSucceeded? db userId chatId = some parent) :
    (parent ∈ db.jobs.rows ∧ parent.userId = userId ∧ parent.chatId = chatId ∧
        parent.state = .succeeded) ∧
      ∀ job ∈ db.jobs.rows, job.userId = userId → job.chatId = chatId → job.state = .succeeded →
        job.createdAt ≤ parent.createdAt := by
  unfold latestSucceeded? at h
  obtain ⟨rest, hrest⟩ := List.head?_eq_some_iff.mp h
  have hmem {job : ResearchJob} : job ∈ parent :: rest ↔ job ∈ db.jobs.rows ∧
      job.userId = userId ∧ job.chatId = chatId ∧ job.state = .succeeded := by
    rw [← hrest, List.mem_insertionSort, List.mem_filter, decide_eq_true_eq]
  have htotal : Std.Total fun a b : ResearchJob => b.createdAt ≤ a.createdAt :=
    ⟨fun a b => Int.le_total ..⟩
  have htrans : IsTrans ResearchJob fun a b => b.createdAt ≤ a.createdAt :=
    ⟨fun a b c hab hbc => Int.le_trans hbc hab⟩
  have hsorted : (parent :: rest).Pairwise fun a b => b.createdAt ≤ a.createdAt := by
    rw [← hrest]
    exact List.pairwise_insertionSort ..
  refine ⟨hmem.mp (List.mem_cons_self ..), fun job hrow huser hchat hstate => ?_⟩
  rcases List.mem_cons.mp (hmem.mpr ⟨hrow, huser, hchat, hstate⟩) with rfl | hlater
  · exact Int.le_refl _
  · exact List.rel_of_pairwise_cons hsorted hlater

theorem latestSucceeded?_none (h : latestSucceeded? db userId chatId = none) {job : ResearchJob}
    (hrow : job ∈ db.jobs.rows) (huser : job.userId = userId) (hchat : job.chatId = chatId) :
    job.state ≠ .succeeded := by
  unfold latestSucceeded? at h
  intro hstate
  have hmem : job ∈ (db.jobs.rows.filter fun job =>
      job.userId = userId ∧ job.chatId = chatId ∧ job.state = .succeeded).insertionSort
        fun a b => b.createdAt ≤ a.createdAt := by
    rw [List.mem_insertionSort, List.mem_filter, decide_eq_true_eq]
    exact ⟨hrow, huser, hchat, hstate⟩
  rw [List.head?_eq_none_iff.mp h] at hmem
  cases hmem

end

/-! ### What stays of a row -/

/-- The columns that place a job in its thread, and a success once it is there. -/
structure Carried (job after : ResearchJob) : Prop where
  userId : after.userId = job.userId
  chatId : after.chatId = job.chatId
  parentJobId : after.parentJobId = job.parentJobId
  iteration : after.iteration = job.iteration
  createdAt : after.createdAt = job.createdAt
  succeeded : job.state = .succeeded → after.state = .succeeded

theorem Carried.refl (job : ResearchJob) : Carried job job := ⟨rfl, rfl, rfl, rfl, rfl, id⟩

section
variable {H : Hashing} {op : Op} {acct : Account} {job : ResearchJob} {w : Write} {db : Database}
  {j : JobId}

theorem Effect.carried (h : Effect H op acct job w) : Carried job w.job := by
  have hopen {s : JobState} (hst : job.state = s) (hs : s ≠ .succeeded) {after : ResearchJob} :
      job.state = .succeeded → after.state = .succeeded :=
    fun hdone => absurd (hst.symm.trans hdone) hs
  cases h with
  | dispatched hst => exact ⟨rfl, rfl, rfl, rfl, rfl, hopen hst (by decide)⟩
  | renewed | touched | progressed | charged => exact ⟨rfl, rfl, rfl, rfl, rfl, id⟩
  | dispatchRequeued hst => exact ⟨rfl, rfl, rfl, rfl, rfl, hopen hst (by decide)⟩
  | runnerRequeued hst => exact ⟨rfl, rfl, rfl, rfl, rfl, hopen hst (by decide)⟩
  | started hst => exact ⟨rfl, rfl, rfl, rfl, rfl, hopen hst (by decide)⟩
  | cancelRequested hst =>
    refine ⟨rfl, rfl, rfl, rfl, rfl, ?_⟩
    rcases hst with hst | hst
    · exact hopen hst (by decide)
    · exact hopen hst (by decide)
  | closed hst =>
    refine ⟨rfl, rfl, rfl, rfl, rfl, ?_⟩
    rcases hst with ⟨-, -, hst | hst | hst⟩ | ⟨-, -, hst | hst⟩ <;> exact hopen hst (by decide)
  | succeeded => exact ⟨rfl, rfl, rfl, rfl, rfl, fun _ => rfl⟩
  | revoked => exact revokeToken_rule (Carried.refl job) ⟨rfl, rfl, rfl, rfl, rfl, id⟩

theorem JobStep.carried {s s' : Slice} (h : JobStep H op j acct s s') (hop : op.isRetention = false)
    (hj : s.job = some job) : ∃ after, s'.job = some after ∧ Carried job after := by
  cases h with
  | kept => exact ⟨job, hj, .refl job⟩
  | created => cases hj
  | written _ heffect =>
    obtain rfl := Option.some.inj hj
    exact ⟨_, rfl, heffect.carried⟩
  | pruned hret | artifactDeleted hret | orphaned hret | removed hret =>
    rw [hop] at hret
    cases hret

theorem JobStep.creation {s s' : Slice} (h : JobStep H op j acct s s') (hnone : s.job = none)
    (hsome : s'.job = some job) : ∃ now userId key request, op = .createJob now j userId key request := by
  cases h with
  | kept | artifactDeleted =>
    rw [hnone] at hsome
    cases hsome
  | created hop => exact ⟨_, _, _, _, hop⟩
  | _ => cases hnone

/-- Every row that was there before stays in its thread. -/
theorem step_carried (hop : op.isRetention = false) (hj : opens H op db j = false) :
    (db.job? j = none ∧ (step H op db).job? j = none) ∨
      ∃ job after, db.job? j = some job ∧ (step H op db).job? j = some after ∧ Carried job after := by
  cases hbefore : db.job? j with
  | none =>
    refine .inl ⟨rfl, ?_⟩
    simpa [opens, hbefore] using hj
  | some job =>
    obtain ⟨after, hafter, hcarried⟩ := (job_step H op db j).carried hop hbefore
    exact .inr ⟨job, after, rfl, hafter, hcarried⟩

/-- What a creation leaves. -/
theorem step_created (hj : opens H op db j = true) :
    ∃ now userId key request hfresh, op = .createJob now j userId key request ∧
      step H op db = (db.addJob (newJob j now userId key (H.requestDigest request) request
        (latestSucceeded? db userId request.chatId)) hfresh).appendEvent now j "job.created"
          (record [("state", .str "pending")]) := by
  obtain ⟨hbefore, hafter⟩ := Bool.and_eq_true_iff.mp hj
  rw [Option.isNone_iff_eq_none] at hbefore
  obtain ⟨job, hrow⟩ := Option.isSome_iff_exists.mp hafter
  obtain ⟨now, userId, key, request, rfl⟩ := (job_step H op db j).creation hbefore hrow
  cases ht : transact H (.createJob now j userId key request) db with
  | error e =>
    rw [step_of_error ht, hbefore] at hrow
    cases hrow
  | ok p =>
    rw [step_of_ok ht] at hrow ⊢
    obtain ⟨-, _, hok⟩ := ok_done ht
    rcases createJob_ok hok with hsame | ⟨hfresh, hnew⟩
    · rw [hsame, hbefore] at hrow
      cases hrow
    · exact ⟨now, userId, key, request, hfresh, rfl, hnew⟩

end

/-! ### Threads -/

def SameThread (a b : ResearchJob) : Prop := a.userId = b.userId ∧ a.chatId = b.chatId

/-- A job and the one it continues. -/
structure Continues (job parent : ResearchJob) : Prop where
  succeeded : parent.state = .succeeded
  thread : SameThread parent job
  earlier : parent.createdAt < job.createdAt
  iteration : job.iteration = parent.iteration + 1

structure Forward (db : Database) : Prop where
  /-- No two jobs were created at the same time. -/
  distinct : ∀ i j a b, db.job? i = some a → db.job? j = some b → a.createdAt = b.createdAt → i = j
  first : ∀ j job, db.job? j = some job → job.parentJobId = none → job.iteration = 1
  parent : ∀ j job p, db.job? j = some job → job.parentJobId = some p →
    ∃ parent, db.job? p = some parent ∧ Continues job parent
  monotone : ∀ i j a b, db.job? i = some a → db.job? j = some b → SameThread a b →
    a.createdAt < b.createdAt → a.iteration ≤ b.iteration

theorem Forward.empty : Forward .empty where
  distinct := fun _ _ _ _ h => by cases h
  first := fun _ _ h => by cases h
  parent := fun _ _ _ h => by cases h
  monotone := fun _ _ _ _ h => by cases h

section
variable {db db' : Database}

theorem SameThread.carried {a b a' b' : ResearchJob} (ha : Carried a a') (hb : Carried b b') :
    SameThread a' b' ↔ SameThread a b := by
  unfold SameThread
  rw [ha.userId, hb.userId, ha.chatId, hb.chatId]

theorem Continues.carried {job job' parent parent' : ResearchJob} (h : Continues job parent)
    (hjob : Carried job job') (hparent : Carried parent parent') : Continues job' parent' where
  succeeded := hparent.succeeded h.succeeded
  thread := (SameThread.carried hparent hjob).mpr h.thread
  earlier := by
    rw [hparent.createdAt, hjob.createdAt]
    exact h.earlier
  iteration := by
    rw [hparent.iteration, hjob.iteration]
    exact h.iteration

/-- The row that a row has come from. -/
theorem carried_from (hrows : ∀ j, (db.job? j = none ∧ db'.job? j = none) ∨
      ∃ job after, db.job? j = some job ∧ db'.job? j = some after ∧ Carried job after)
    {j : JobId} {after : ResearchJob} (hj : db'.job? j = some after) :
    ∃ job, db.job? j = some job ∧ Carried job after := by
  rcases hrows j with ⟨-, hnone⟩ | ⟨job, after', hjob, hafter, hcarried⟩
  · rw [hnone] at hj
    cases hj
  · obtain rfl := Option.some.inj (hafter.symm.trans hj)
    exact ⟨job, hjob, hcarried⟩

/-- Operations on jobs that are there leave the threads as they are. -/
theorem Forward.carried (h : Forward db)
    (hrows : ∀ j, (db.job? j = none ∧ db'.job? j = none) ∨
      ∃ job after, db.job? j = some job ∧ db'.job? j = some after ∧ Carried job after) :
    Forward db' := by
  constructor
  · intro i j a b ha hb htime
    obtain ⟨a₀, ha₀, hca⟩ := carried_from hrows ha
    obtain ⟨b₀, hb₀, hcb⟩ := carried_from hrows hb
    apply h.distinct i j a₀ b₀ ha₀ hb₀
    rw [← hca.createdAt, ← hcb.createdAt, htime]
  · intro j after hj hnone
    obtain ⟨job, hjob, hc⟩ := carried_from hrows hj
    rw [hc.iteration]
    exact h.first j job hjob (hc.parentJobId ▸ hnone)
  · intro j after p hj hp
    obtain ⟨job, hjob, hc⟩ := carried_from hrows hj
    obtain ⟨parent, hparent, hcont⟩ := h.parent j job p hjob (hc.parentJobId ▸ hp)
    rcases hrows p with ⟨hnone, -⟩ | ⟨parent₀, parent', hbefore, hafter, hcp⟩
    · rw [hnone] at hparent
      cases hparent
    · obtain rfl := Option.some.inj (hbefore.symm.trans hparent)
      exact ⟨parent', hafter, hcont.carried hc hcp⟩
  · intro i j a b ha hb hthread hless
    obtain ⟨a₀, ha₀, hca⟩ := carried_from hrows ha
    obtain ⟨b₀, hb₀, hcb⟩ := carried_from hrows hb
    rw [hca.iteration, hcb.iteration]
    apply h.monotone i j a₀ b₀ ha₀ hb₀ ((SameThread.carried hca hcb).mp hthread)
    rw [← hca.createdAt, ← hcb.createdAt]
    exact hless

/-! ### A new job -/

section
variable {id : JobId} {now : Time} {userId key digest : String} {request : CreateJobRequest}

/-- A new job is ahead of everything in its thread that has succeeded. -/
theorem Forward.ahead (h : Forward db) {j : JobId} {job : ResearchJob} (hj : db.job? j = some job)
    (huser : job.userId = userId) (hchat : job.chatId = request.chatId)
    (hdone : job.state = .succeeded) :
    job.iteration <
      (newJob id now userId key digest request
        (latestSucceeded? db userId request.chatId)).iteration := by
  obtain ⟨hrow, hid⟩ := Database.job?_iff.mp hj
  cases hlatest : latestSucceeded? db userId request.chatId with
  | none => exact absurd hdone (latestSucceeded?_none hlatest hrow huser hchat)
  | some parent =>
    obtain ⟨⟨hparent, hpuser, hpchat, -⟩, hlast⟩ := latestSucceeded?_some hlatest
    have hp : db.job? parent.id = some parent := Database.job?_iff.mpr ⟨hparent, rfl⟩
    show job.iteration < parent.iteration + 1
    apply Nat.lt_succ_of_le
    rcases Int.lt_or_eq_of_le (hlast job hrow huser hchat hdone) with hless | hsame
    · exact h.monotone j parent.id job parent hj hp
        ⟨huser.trans hpuser.symm, hchat.trans hpchat.symm⟩ hless
    · have hjp := h.distinct j parent.id job parent hj hp hsame
      rw [hjp, hp] at hj
      rw [Option.some.inj hj]

/-- A new job is at least as far as every job of its thread: what the other continues had
succeeded as well. -/
theorem Forward.newest (h : Forward db) {j : JobId} {job : ResearchJob} (hj : db.job? j = some job)
    (huser : job.userId = userId) (hchat : job.chatId = request.chatId) :
    job.iteration ≤
      (newJob id now userId key digest request
        (latestSucceeded? db userId request.chatId)).iteration := by
  cases hparent : job.parentJobId with
  | none =>
    rw [h.first j job hj hparent]
    cases latestSucceeded? db userId request.chatId with
    | none => exact Nat.le_refl 1
    | some parent => exact Nat.le_add_left 1 _
  | some p =>
    obtain ⟨parent, hp, hcont⟩ := h.parent j job p hj hparent
    rw [hcont.iteration]
    exact h.ahead hp (hcont.thread.1.trans huser) (hcont.thread.2.trans hchat) hcont.succeeded

/-- A row after a creation. -/
theorem created_cases (hrows : ∀ j, db'.job? j = if id = j then some (newJob id now userId key digest request
      (latestSucceeded? db userId request.chatId)) else db.job? j)
    {j : JobId} {job : ResearchJob} (hj : db'.job? j = some job) :
    (j = id ∧ job = newJob id now userId key digest request (latestSucceeded? db userId request.chatId)) ∨
      (j ≠ id ∧ db.job? j = some job) := by
  rw [hrows] at hj
  by_cases hid : id = j
  · rw [if_pos hid] at hj
    exact .inl ⟨hid.symm, (Option.some.inj hj).symm⟩
  · rw [if_neg hid] at hj
    exact .inr ⟨fun heq => hid heq.symm, hj⟩

/-- A creation that is later than all others continues the threads. -/
theorem Forward.created (h : Forward db)
    (hlater : ∀ j job, db.job? j = some job → job.createdAt < now)
    (hfresh : db.job? id = none)
    (hrows : ∀ j, db'.job? j = if id = j then some (newJob id now userId key digest request
        (latestSucceeded? db userId request.chatId)) else db.job? j) : Forward db' := by
  have hkept {p : JobId} {parent : ResearchJob} (hp : db.job? p = some parent) :
      db'.job? p = some parent := by
    rw [hrows, if_neg (fun hid => by rw [← hid, hfresh] at hp; cases hp)]
    exact hp
  constructor
  · intro i j a b ha hb htime
    rcases created_cases hrows ha with ⟨rfl, rfl⟩ | ⟨-, ha⟩
    · rcases created_cases hrows hb with ⟨rfl, -⟩ | ⟨-, hb⟩
      · rfl
      · exact absurd htime.symm (Int.ne_of_lt (hlater j b hb))
    · rcases created_cases hrows hb with ⟨rfl, rfl⟩ | ⟨-, hb⟩
      · exact absurd htime (Int.ne_of_lt (hlater i a ha))
      · exact h.distinct i j a b ha hb htime
  · intro j job hj hnone
    rcases created_cases hrows hj with ⟨rfl, rfl⟩ | ⟨-, hj⟩
    · cases hlatest : latestSucceeded? db userId request.chatId with
      | none => rfl
      | some parent =>
        rw [hlatest] at hnone
        cases hnone
    · exact h.first j job hj hnone
  · intro j job p hj hp
    rcases created_cases hrows hj with ⟨rfl, rfl⟩ | ⟨-, hj⟩
    · cases hlatest : latestSucceeded? db userId request.chatId with
      | none =>
        rw [hlatest] at hp
        cases hp
      | some parent =>
        rw [hlatest] at hp
        obtain rfl := Option.some.inj hp
        obtain ⟨⟨hrow, huser, hchat, hdone⟩, -⟩ := latestSucceeded?_some hlatest
        have hparent := Database.job?_iff.mpr ⟨hrow, rfl⟩
        exact ⟨parent, hkept hparent, hdone, ⟨huser, hchat⟩, hlater _ _ hparent, rfl⟩
    · obtain ⟨parent, hparent, hcont⟩ := h.parent j job p hj hp
      exact ⟨parent, hkept hparent, hcont⟩
  · intro i j a b ha hb hthread hless
    rcases created_cases hrows ha with ⟨rfl, rfl⟩ | ⟨-, ha⟩
    · rcases created_cases hrows hb with ⟨rfl, rfl⟩ | ⟨-, hb⟩
      · exact absurd hless (Int.lt_irrefl _)
      · exact absurd (hlater j b hb) (Int.not_lt.mpr (Int.le_of_lt hless))
    · rcases created_cases hrows hb with ⟨rfl, rfl⟩ | ⟨-, hb⟩
      · exact h.newest ha hthread.1 hthread.2
      · exact h.monotone i j a b ha hb hthread hless

end
end

/-! ### Runs -/

section
variable (H : Hashing)

/-- The creation time of the job that an operation creates, if it creates one. -/
def creationTime (op : Op) (db : Database) : List Time :=
  match op with
  | .createJob now id _ _ _ => if opens H op db id then [now] else []
  | _ => []

/-- The creation times of the jobs that a run creates, in order. -/
def creationTimes (ops : List Op) : List Time :=
  ((controlPlane H).observing (creationTime H)).trace .empty ops

end

section
variable {H : Hashing}

theorem creationTime_created {op : Op} {db : Database} {j : JobId} (hj : opens H op db j = true) :
    ∃ now userId key request, op = .createJob now j userId key request ∧
      creationTime H op db = [now] ∧ db.job? j = none ∧
      ∀ k, (step H op db).job? k = if j = k then some (newJob j now userId key
        (H.requestDigest request) request (latestSucceeded? db userId request.chatId))
        else db.job? k := by
  obtain ⟨now, userId, key, request, hfresh, rfl, hdb⟩ := step_created hj
  refine ⟨now, userId, key, request, rfl, if_pos hj, Table.find?_eq_none.mpr hfresh, fun k => ?_⟩
  rw [hdb, Database.job?_appendEvent]
  exact Database.job?_addJob ..

/-- The invariant of a run: the threads move forward, and every job was created at one of
the times listed. -/
structure ForwardTo (db : Database) (times : List Time) : Prop where
  forward : Forward db
  listed : ∀ j job, db.job? j = some job → job.createdAt ∈ times

theorem ForwardTo.step {op : Op} {db : Database} {times : List Time} (h : ForwardTo db times)
    (hop : op.isRetention = false) (htimes : (times ++ creationTime H op db).Pairwise (· < ·)) :
    ForwardTo (step H op db) (times ++ creationTime H op db) := by
  by_cases hopens : ∃ j, opens H op db j = true
  · obtain ⟨j, hj⟩ := hopens
    obtain ⟨now, userId, key, request, rfl, htime, hfresh, hrows⟩ := creationTime_created hj
    rw [htime] at htimes ⊢
    have hlater (k : JobId) (job : ResearchJob) (hk : db.job? k = some job) : job.createdAt < now :=
      (List.pairwise_append.mp htimes).2.2 _ (h.listed k job hk) now (List.mem_singleton_self _)
    refine ⟨h.forward.created hlater hfresh hrows, fun k job hk => ?_⟩
    rw [hrows] at hk
    by_cases hid : j = k
    · rw [if_pos hid] at hk
      obtain rfl := Option.some.inj hk
      exact List.mem_append_right _ (List.mem_singleton_self now)
    · rw [if_neg hid] at hk
      exact List.mem_append_left _ (h.listed k job hk)
  · have hrows (j : JobId) := step_carried hop (Bool.eq_false_iff.mpr fun hj => hopens ⟨j, hj⟩)
    refine ⟨h.forward.carried hrows, fun j after hj => ?_⟩
    obtain ⟨job, hjob, hcarried⟩ := carried_from hrows hj
    rw [hcarried.createdAt]
    exact List.mem_append_left _ (h.listed j job hjob)

theorem after_forward {ops : List Op} (hops : ∀ op ∈ ops, op.isRetention = false)
    (hclock : (creationTimes H ops).Pairwise (· < ·)) :
    ForwardTo (after H ops) (creationTimes H ops) := by
  have hrun := Machine.history (M := (controlPlane H).observing (creationTime H))
    (A := fun op => op.isRetention = false)
    (P := fun db _ times => times.Pairwise (· < ·) → ForwardTo db times)
    (fun op db _ times hop h htimes => (h (List.pairwise_append.mp htimes).1).step hop htimes)
    (fun _ => ⟨.empty, fun _ _ h => by cases h⟩) ops hops hclock
  rwa [Machine.run_observing] at hrun

end

/-- Whatever happens to the jobs in between, a job continues an earlier one of its user and
chat that has succeeded, the iterations of a user and chat do not decrease in the order of
creation, and a new job is ahead of every job there that has succeeded so far. -/
theorem threads_move_forward (H : Hashing) (ops : List Op)
    (hops : ∀ op ∈ ops, op.isRetention = false) (hclock : (creationTimes H ops).Pairwise (· < ·)) :
    (∀ j job p, (after H ops).job? j = some job → job.parentJobId = some p →
        ∃ parent, (after H ops).job? p = some parent ∧ parent.state = .succeeded ∧
          parent.userId = job.userId ∧ parent.chatId = job.chatId ∧
          parent.createdAt < job.createdAt ∧ parent.iteration + 1 = job.iteration) ∧
      (∀ i j a b, (after H ops).job? i = some a → (after H ops).job? j = some b →
        a.userId = b.userId → a.chatId = b.chatId → a.createdAt < b.createdAt →
          a.iteration ≤ b.iteration) ∧
      ∀ before op j job, before ++ [op] <+: ops → opens H op (after H before) j = true →
        (after H (before ++ [op])).job? j = some job →
        ∀ i done, (after H before).job? i = some done → done.state = .succeeded →
          done.userId = job.userId → done.chatId = job.chatId → done.iteration < job.iteration := by
  obtain ⟨hforward, -⟩ := after_forward hops hclock
  refine ⟨fun j job p hj hp => ?_, fun i j a b ha hb huser hchat hless => ?_,
    fun before op j job hpre hopens hj i done hi hdone huser hchat => ?_⟩
  · obtain ⟨parent, hparent, hcont⟩ := hforward.parent j job p hj hp
    exact ⟨parent, hparent, hcont.succeeded, hcont.thread.1, hcont.thread.2, hcont.earlier,
      hcont.iteration.symm⟩
  · exact hforward.monotone i j a b ha hb ⟨huser, hchat⟩ hless
  · have hbefore : before <+: ops := (List.prefix_append before [op]).trans hpre
    have hclock' : (creationTimes H before).Pairwise (· < ·) := by
      obtain ⟨rest, rfl⟩ := hbefore
      unfold creationTimes at hclock ⊢
      rw [Machine.trace_append] at hclock
      exact (List.pairwise_append.mp hclock).1
    obtain ⟨hforward, -⟩ := after_forward (fun op hop => hops op (hbefore.subset hop)) hclock'
    obtain ⟨now, userId, key, request, rfl, -, -, hrows⟩ := creationTime_created hopens
    rw [after_snoc, hrows, if_pos rfl] at hj
    obtain rfl := Option.some.inj hj
    exact hforward.ahead hi huser hchat hdone

/-! ### A thread of two jobs -/
namespace Sample

/-- The job of the sample succeeds, and its chat goes on. -/
def continued : List Op :=
  started ++ [.markCompleted 3 1 "token" {reportMarkdown := "report"} ∅,
    .createJob 4 2 "user" "next" {request with query := "more"}]

end Sample

theorem threads_move_forward_continued :
    ∃ job parent, (after Sample.hashing Sample.continued).job? 2 = some job ∧
      (after Sample.hashing Sample.continued).job? 1 = some parent ∧ parent.state = .succeeded ∧
      parent.iteration + 1 = job.iteration := by
  have hjob : ((after Sample.hashing Sample.continued).job? 2).map ResearchJob.parentJobId =
      some (some 1) := by decide +kernel
  obtain ⟨job, hj, hp⟩ := Option.map_eq_some_iff.mp hjob
  obtain ⟨parent, hparent, hdone, -, -, -, hiteration⟩ :=
    (threads_move_forward Sample.hashing Sample.continued (by decide) (by decide +kernel)).1 2 job 1 hj hp
  exact ⟨job, parent, hj, hparent, hdone, hiteration⟩

end ResearchGateway
