import ResearchGateway.Operation

/-! What one operation can do to one job.

`Effect` lists, once, every way a transaction rewrites a row: the guard it passed,
the row it leaves and the events it appends. `JobStep` adds creation, deletion and
the operations that do not concern the job. `job_step` says that nothing else
happens; invariants are case analyses of it. -/
namespace ResearchGateway
open Library

/-- What an operation hands out on behalf of one job. -/
structure Account where
  claims : List ClaimedJob := []
  charge : Charge := {}

def accountOf (H : Hashing) (op : Op) (db : Database) (j : JobId) : Account :=
  ⟨(claimsOf H op db).filter fun claim => claim.id = j, chargeOf H op db j⟩

/-- The job and the token that a runner's operation presents. -/
def Op.runner? : Op → Option (JobId × String)
  | .appendRunnerEvent _ jobId token _ _ | .heartbeat _ jobId token | .markStarted _ jobId token
  | .markCancelled _ jobId token | .markFailed _ jobId token _ | .markCompleted _ jobId token _ _
  | .consumeUsage _ jobId token _ | .runnerSearch _ jobId token
  | .runnerPublicSearch _ jobId token _ | .chatAdmission _ jobId token _ _ _
  | .completionCommit _ jobId token _ _ => some (jobId, token)
  | _ => none

/-- The completion an operation stores when it finds the job running. -/
def Op.completion? : Op → Option (JobId × Time × RunnerCompletion × Dict)
  | .markCompleted now jobId _ completion result => some (jobId, now, completion, result)
  | .completionCommit now jobId _ completion stored =>
    some (jobId, now, completion, completionResult completion stored)
  | _ => none

/-- The job whose dispatch an operation declares expired. -/
def Op.expiredDispatch? : Op → Option JobId
  | .reconcileExpiredDispatch _ dispatch _ _ _ => some dispatch.id
  | _ => none

/-- The job whose runner an operation declares stale. -/
def Op.staleRunner? : Op → Option JobId
  | .reconcileStaleRunner _ runner _ _ => some runner.id
  | _ => none

/-- The states from which a job is closed without a result, and the event that says so. -/
def Closes (before after : JobState) (eventType : String) : Prop :=
  (after = .cancelled ∧ eventType = "job.cancelled" ∧
      (before = .pending ∨ before = .running ∨ before = .cancelRequested)) ∨
    (after = .failed ∧ eventType = "job.failed" ∧ (before = .dispatched ∨ before = .running))

inductive Effect (H : Hashing) (op : Op) : Account → ResearchJob → Write → Prop
  | dispatched {now token limit lease locked job data} (hs : job.state = .pending)
      (hop : op = .claimNext now token limit lease locked) :
      Effect H op ⟨[⟨job.id, token, job.attempt + 1⟩], {}⟩ job
        ⟨now, dispatchedJob H now token lease job, [("job.dispatched", data)]⟩
  | renewed {now lease job} (hs : job.state = .dispatched ∨ job.state = .cancelRequested)
      (hstart : job.startedAt = none) (hop : op.expiredDispatch? = some job.id) :
      Effect H op {} job
        ⟨now, {job with dispatchLeaseExpiresAt := some (now + seconds lease), updatedAt := now}, []⟩
  | dispatchRequeued {now job data} (hs : job.state = .dispatched) (hstart : job.startedAt = none)
      (hop : op.expiredDispatch? = some job.id) :
      Effect H op {} job
        ⟨now, {job with
          state := .pending, runnerTokenHash := none, dispatchLeaseExpiresAt := none,
          updatedAt := now}, [("job.dispatch_requeued", data)]⟩
  | runnerRequeued {now job data} (hs : job.state = .running)
      (hop : op.staleRunner? = some job.id)
      (hwall : now < job.createdAt + seconds job.budget.maxWallTimeSeconds) :
      Effect H op {} job
        ⟨now, {job with
          state := .pending, runnerTokenHash := none, dispatchLeaseExpiresAt := none,
          startedAt := none, finishedAt := none, error := none, updatedAt := now},
          [("job.runner_requeued", data)]⟩
  | touched {now job} (hs : job.state = .running ∨ job.state = .cancelRequested) :
      Effect H op {} job ⟨now, {job with updatedAt := now}, []⟩
  | progressed {now token job eventType data} (hs : job.state.isTerminal = false)
      (hop : op = .appendRunnerEvent now job.id token eventType data) :
      Effect H op {} job ⟨now, {job with updatedAt := now}, [(eventType, data)]⟩
  | started {now job} (hs : job.state = .dispatched) :
      Effect H op {} job
        ⟨now, {job with
          state := .running, dispatchLeaseExpiresAt := none, startedAt := some now,
          updatedAt := now}, [("job.started", ∅)]⟩
  | cancelRequested {now job} (hs : job.state = .dispatched ∨ job.state = .running) :
      Effect H op {} job
        ⟨now, {job with state := .cancelRequested, updatedAt := now}, [("job.cancel_requested", ∅)]⟩
  | closed {now job after eventType data error lease} (hs : Closes job.state after eventType)
      (hlease : lease = none ∨ (job.state = .pending ∧ lease = job.dispatchLeaseExpiresAt)) :
      Effect H op {} job
        ⟨now, {job with
          state := after, runnerTokenHash := none, dispatchLeaseExpiresAt := lease, error := error,
          finishedAt := some now, updatedAt := now}, [(eventType, data)]⟩
  | succeeded {now job completion result} (hs : job.state = .running)
      (hop : op.completion? = some (job.id, now, completion, result)) :
      Effect H op {} job ⟨now, succeededJob now completion result job, [("job.succeeded", result)]⟩
  | charged {now job charge usage} (htoken : job.runnerTokenHash.isSome)
      (husage : chargedUsage charge (job.usage.getD ∅) = some usage) :
      Effect H op ⟨[], charge⟩ job ⟨now, {job with usage := some usage, updatedAt := now}, []⟩
  | revoked {now job} (hs : job.state.isTerminal) : Effect H op {} job ⟨now, revokeToken now job, []⟩

theorem Effect.id_eq {H : Hashing} {op : Op} {acct : Account} {job : ResearchJob} {w : Write}
    (h : Effect H op acct job w) : w.job.id = job.id := by
  cases h with
  | revoked => exact revokeToken_rule (P := fun after => after.id = job.id) rfl rfl
  | _ => rfl

inductive JobStep (H : Hashing) (op : Op) (j : JobId) : Account → Slice → Slice → Prop
  | kept (s : Slice) : JobStep H op j {} s s
  | created {now userId key request digest parent events artifacts}
      (hop : op = .createJob now j userId key request) :
      JobStep H op j {} ⟨none, events, artifacts⟩
        ⟨some (newJob j now userId key digest request parent),
          events ++ Database.numbered events now j [("job.created", record [("state", .str "pending")])],
          artifacts⟩
  | written {acct job w events artifacts added} (hid : job.id = j) (h : Effect H op acct job w)
      (hadded : added ≠ [] → job.state = .running ∧ w.job.state = .succeeded) :
      JobStep H op j acct ⟨some job, events, artifacts⟩
        ⟨some w.job, events ++ Database.numbered events w.now j w.notes, artifacts ++ added⟩
  | pruned {job events events' artifacts} (hop : op.isRetention) (hs : job.state.isTerminal)
      (hsub : events'.Sublist events) :
      JobStep H op j {} ⟨some job, events, artifacts⟩ ⟨some job, events', artifacts⟩
  | artifactDeleted {job events artifacts artifacts'} (hop : op.isRetention)
      (hsub : artifacts'.Sublist artifacts) :
      JobStep H op j {} ⟨job, events, artifacts⟩ ⟨job, events, artifacts'⟩
  | orphaned {job events artifacts} (hop : op.isRetention) :
      JobStep H op j {} ⟨some job, events, artifacts⟩
        ⟨some {job with parentJobId := none}, events, artifacts⟩
  | removed {job events artifacts} (hop : op.isRetention) (hs : job.state.isTerminal) :
      JobStep H op j {} ⟨some job, events, artifacts⟩ ⟨none, [], []⟩

end ResearchGateway
