import ResearchGateway.JobStep

/-! Every operation is a `JobStep` of every job.

Each method that succeeds either leaves the tables alone or is one `Wrote`: the
row it locked, rewritten by an effect. The few operations that create or delete
rows are done by hand. -/
namespace ResearchGateway
open Library

/-- One locked row was rewritten by an effect, and nothing else happened. -/
def Wrote (H : Hashing) (op : Op) (acct : Account) (j : JobId) (db db' : Database) : Prop :=
  ∃ job w, db.job? j = some job ∧ Effect H op acct job w ∧ db' = db.write w

section
variable {H : Hashing} {op : Op} {db db' : Database} {j : JobId} {job r : ResearchJob}

theorem wrote (hj : db.job? j = some job) {acct : Account} {w : Write} (h : Effect H op acct job w) :
    Wrote H op acct j db (db.write w) := ⟨job, w, hj, h, rfl⟩

/-- Saving a row is a write without events. -/
theorem ok_saved {α : Type} {saved : ResearchJob} {a b : α} (now : Time)
    (h : (save saved >>= fun _ => pure a : Transaction α) db = .ok (b, db')) :
    a = b ∧ db' = db.write ⟨now, saved, []⟩ := by
  obtain ⟨_, _, hsave, hret⟩ := ok_bind h
  obtain ⟨rfl, rfl⟩ := ok_pure hret
  exact ⟨rfl, ok_save hsave⟩

/-- Saving a row and appending an event is a write with one event. -/
theorem ok_written {α : Type} {saved : ResearchJob} {a b : α} {now : Time} {t : String} {d : Dict}
    (h : (save saved >>= fun _ => appendEventLocked now saved t d >>= fun _ => pure a :
      Transaction α) db = .ok (b, db')) :
    a = b ∧ db' = db.write ⟨now, saved, [(t, d)]⟩ := by
  obtain ⟨_, db₁, hsave, hrest⟩ := ok_bind h
  obtain ⟨_, db₂, happ, hret⟩ := ok_bind hrest
  obtain ⟨rfl, rfl⟩ := ok_pure hret
  obtain ⟨-, rfl⟩ := ok_append happ
  rw [ok_save hsave]
  exact ⟨rfl, rfl⟩

/-! ### The queue -/

theorem oldestPending?_mem {locked : List JobId} (h : oldestPending? db locked = some job) :
    job ∈ db.jobs.rows ∧ job.state = .pending := by
  have hmem := List.mem_of_mem_head? h
  rw [List.mem_insertionSort, List.mem_filter] at hmem
  exact ⟨hmem.1, by simpa using (of_decide_eq_true hmem.2).1⟩

theorem claimNext_ok {now : Time} {token : String} {limit lease : Nat} {locked : List JobId}
    {claim : Option ClaimedJob}
    (h : claimNext H now token limit lease locked db = .ok (claim, db')) :
    (claim = none ∧ db' = db) ∨
      ∃ job : ResearchJob, claim = some ⟨job.id, token, job.attempt + 1⟩ ∧
        Wrote H (.claimNext now token limit lease locked) ⟨[⟨job.id, token, job.attempt + 1⟩], {}⟩
          job.id db db' := by
  obtain ⟨_, _, hget, hclaim⟩ := ok_bind h
  obtain ⟨rfl, rfl⟩ := ok_get hget
  rcases ok_ite hclaim with ⟨-, hnone⟩ | ⟨-, hclaim⟩
  · obtain ⟨rfl, rfl⟩ := ok_pure hnone
    exact .inl ⟨rfl, rfl⟩
  · cases hp : oldestPending? db locked with
    | none =>
      rw [hp] at hclaim
      obtain ⟨rfl, rfl⟩ := ok_pure hclaim
      exact .inl ⟨rfl, rfl⟩
    | some job =>
      rw [hp] at hclaim
      obtain ⟨hmem, hs⟩ := oldestPending?_mem hp
      obtain ⟨rfl, rfl⟩ := ok_written hclaim
      exact .inr ⟨job, rfl, wrote (Database.job?_iff.mpr ⟨hmem, rfl⟩) (.dispatched hs rfl)⟩

/-- The row a reconciled dispatch ends as. -/
theorem settleDispatch_effect {now : Time} {action : DispatchAction} {error : String}
    {dispatch : ExpiredDispatch} (hop : op.expiredDispatch? = some job.id)
    (hm : dispatchMatches dispatch job) :
    Effect H op {} job ⟨now, closeReconciled now (settleDispatch now action error job).1,
      [(settleDispatch now action error job).2]⟩ := by
  obtain ⟨-, hs, hstart⟩ := hm
  unfold settleDispatch
  by_cases hc : job.state = .cancelRequested
  · rw [if_pos hc]
    exact .closed (.inl ⟨rfl, rfl, .inr (.inr hc)⟩) (.inl rfl)
  · have hd : job.state = .dispatched := hs.resolve_right hc
    rw [if_neg hc]
    by_cases hr : action = .requeue
    · rw [if_pos hr]
      exact .dispatchRequeued hd hstart hop
    · rw [if_neg hr]
      exact .closed (.inr ⟨rfl, rfl, .inl hd⟩) (.inl rfl)

theorem reconcileExpiredDispatch_ok {now : Time} {dispatch : ExpiredDispatch}
    {action : DispatchAction} {lease : Nat} {error : String} {changed : Bool}
    (hop : op.expiredDispatch? = some dispatch.id)
    (h : reconcileExpiredDispatch now dispatch action lease error db = .ok (changed, db')) :
    db' = db ∨ Wrote H op {} dispatch.id db db' := by
  obtain ⟨_, _, hget, hrow⟩ := ok_bind h
  obtain ⟨rfl, rfl⟩ := ok_get hget
  cases hj : db.job? dispatch.id with
  | none =>
    rw [hj] at hrow
    exact .inl (ok_pure hrow).2.symm
  | some job =>
    rw [hj] at hrow
    rcases ok_ite hrow with ⟨-, hnone⟩ | ⟨hm, hrow⟩
    · exact .inl (ok_pure hnone).2.symm
    · have hm := Decidable.not_not.mp hm
      rw [← Database.id_of_job? hj] at hop
      rcases ok_ite hrow with ⟨-, hrenew⟩ | ⟨-, hsettle⟩
      · obtain ⟨-, rfl⟩ := ok_saved now hrenew
        exact .inr (wrote hj (.renewed hm.2.1 hm.2.2 hop))
      · obtain ⟨-, rfl⟩ := ok_written hsettle
        exact .inr (wrote hj (settleDispatch_effect hop hm))

theorem settleStale_effect {now : Time} {action : StaleAction} {error : String} {runner : StaleRunner}
    (hop : op.staleRunner? = some job.id) (hm : staleMatches runner job) :
    Effect H op {} job ⟨now, closeReconciled now (settleStale now action error job).1,
      [(settleStale now action error job).2]⟩ := by
  obtain ⟨-, hs, -⟩ := hm
  unfold settleStale
  by_cases hc : action = .cancel ∨ job.state = .cancelRequested
  · rw [if_pos hc]
    refine .closed (.inl ⟨rfl, rfl, ?_⟩) (.inl rfl)
    exact hs.elim (fun h => .inr (.inl h)) (fun h => .inr (.inr h))
  · have hr : job.state = .running := hs.resolve_right fun h => hc (.inr h)
    rw [if_neg hc]
    by_cases ha : action = .retry
    · rw [if_pos ha]
      by_cases hw : job.createdAt + seconds job.budget.maxWallTimeSeconds ≤ now
      · rw [if_pos hw]
        exact .closed (.inr ⟨rfl, rfl, .inr hr⟩) (.inl rfl)
      · rw [if_neg hw]
        exact .runnerRequeued hr hop (Int.not_le.mp hw)
    · rw [if_neg ha]
      exact .closed (.inr ⟨rfl, rfl, .inr hr⟩) (.inl rfl)

theorem reconcileStaleRunner_ok {now : Time} {runner : StaleRunner} {action : StaleAction}
    {error : String} {changed : Bool}
    (hop : op.staleRunner? = some runner.id)
    (h : reconcileStaleRunner now runner action error db = .ok (changed, db')) :
    db' = db ∨ Wrote H op {} runner.id db db' := by
  obtain ⟨_, _, hget, hrow⟩ := ok_bind h
  obtain ⟨rfl, rfl⟩ := ok_get hget
  cases hj : db.job? runner.id with
  | none =>
    rw [hj] at hrow
    exact .inl (ok_pure hrow).2.symm
  | some job =>
    rw [hj] at hrow
    rcases ok_ite hrow with ⟨-, hnone⟩ | ⟨hm, hrow⟩
    · exact .inl (ok_pure hnone).2.symm
    · have hm := Decidable.not_not.mp hm
      rcases ok_ite hrow with ⟨-, hrefresh⟩ | ⟨-, hsettle⟩
      · obtain ⟨-, rfl⟩ := ok_saved now hrefresh
        exact .inr (wrote hj (.touched hm.2.1))
      · obtain ⟨-, rfl⟩ := ok_written hsettle
        rw [← Database.id_of_job? hj] at hop
        exact .inr (wrote hj (settleStale_effect hop hm))

theorem requestCancel_ok {now : Time} {userId : String}
    (h : requestCancel now j userId db = .ok (r, db')) : db' = db ∨ Wrote H op {} j db db' := by
  obtain ⟨job, _, hrow, hcancel⟩ := ok_bind h
  obtain ⟨rfl, hj, -⟩ := ok_user hrow
  rcases ok_ite hcancel with ⟨hp, hcancel⟩ | ⟨-, hcancel⟩
  · obtain ⟨-, rfl⟩ := ok_written hcancel
    exact .inr (wrote hj (.closed (.inl ⟨rfl, rfl, .inl hp⟩) (.inr ⟨hp, rfl⟩)))
  · rcases ok_ite hcancel with ⟨hs, hcancel⟩ | ⟨-, hcancel⟩
    · obtain ⟨-, rfl⟩ := ok_written hcancel
      exact .inr (wrote hj (.cancelRequested hs))
    · rcases ok_ite hcancel with ⟨ht, hcancel⟩ | ⟨-, hcancel⟩
      · obtain ⟨-, rfl⟩ := ok_saved now hcancel
        exact .inr (wrote hj (.revoked ht))
      · exact .inl (ok_pure hcancel).2.symm

/-! ### The runner -/

theorem appendRunnerEvent_ok {now : Time} {token eventType : String} {data : Dict} {e : ResearchEvent}
    (h : appendRunnerEvent H now j token eventType data db = .ok (e, db')) :
    Wrote H (.appendRunnerEvent now j token eventType data) {} j db db' := by
  obtain ⟨job, _, hrow, happ⟩ := ok_bind h
  obtain ⟨rfl, hj, -⟩ := ok_runner hrow
  rcases ok_ite happ with ⟨-, hbad⟩ | ⟨ht, happ⟩
  · exact (ok_throw hbad).elim
  · rcases ok_ite happ with ⟨-, hbad⟩ | ⟨-, happ⟩
    · exact (ok_throw hbad).elim
    · obtain ⟨_, _, hsave, happ⟩ := ok_bind happ
      obtain ⟨-, rfl⟩ := ok_append happ
      rw [ok_save hsave]
      obtain rfl := Database.id_of_job? hj
      exact wrote hj (.progressed (by simpa using ht) rfl)

theorem heartbeat_ok {now : Time} {token : String} (h : heartbeat H now j token db = .ok (r, db')) :
    Wrote H op {} j db db' := by
  obtain ⟨job, _, hrow, hbeat⟩ := ok_bind h
  obtain ⟨rfl, hj, -⟩ := ok_runner hrow
  rcases ok_ite hbeat with ⟨hs, hbeat⟩ | ⟨-, hbad⟩
  · obtain ⟨-, rfl⟩ := ok_saved now hbeat
    exact wrote hj (.touched hs)
  · exact (ok_throw hbad).elim

theorem markStarted_ok {now : Time} {token : String}
    (h : markStarted H now j token db = .ok (r, db')) : db' = db ∨ Wrote H op {} j db db' := by
  obtain ⟨job, _, hrow, hstart⟩ := ok_bind h
  obtain ⟨rfl, hj, -⟩ := ok_runner hrow
  rcases ok_ite hstart with ⟨-, hbad⟩ | ⟨ha, hstart⟩
  · exact (ok_throw hbad).elim
  · rcases ok_ite hstart with ⟨-, hsame⟩ | ⟨hc, hstart⟩
    · exact .inl (ok_pure hsame).2.symm
    · rcases ok_ite hstart with ⟨hr, hstart⟩ | ⟨-, hsame⟩
      · obtain ⟨-, rfl⟩ := ok_written hstart
        refine .inr (wrote hj (.started ?_))
        cases hs : job.state <;> simp_all [JobState.isActive]
      · exact .inl (ok_pure hsame).2.symm

theorem markCancelled_ok {now : Time} {token : String}
    (h : markCancelled H now j token db = .ok (r, db')) : Wrote H op {} j db db' := by
  obtain ⟨job, _, hrow, hcancel⟩ := ok_bind h
  obtain ⟨rfl, hj, -⟩ := ok_runner hrow
  rcases ok_ite hcancel with ⟨hs, hcancel⟩ | ⟨-, hcancel⟩
  · obtain ⟨-, rfl⟩ := ok_saved now hcancel
    exact wrote hj (.revoked (by rw [hs]; rfl))
  · rcases ok_ite hcancel with ⟨hs, hcancel⟩ | ⟨-, hbad⟩
    · obtain ⟨-, rfl⟩ := ok_written hcancel
      exact wrote hj (.closed (.inl ⟨rfl, rfl, .inr hs.symm⟩) (.inl rfl))
    · exact (ok_throw hbad).elim

theorem markFailed_ok {now : Time} {token error : String}
    (h : markFailed H now j token error db = .ok (r, db')) : Wrote H op {} j db db' := by
  obtain ⟨job, _, hrow, hfail⟩ := ok_bind h
  obtain ⟨rfl, hj, -⟩ := ok_runner hrow
  rcases ok_ite hfail with ⟨hs, hfail⟩ | ⟨-, hfail⟩
  · obtain ⟨-, rfl⟩ := ok_saved now hfail
    exact wrote hj (.revoked (by rw [hs]; rfl))
  · rcases ok_ite hfail with ⟨hs, hfail⟩ | ⟨-, hbad⟩
    · rcases ok_ite hfail with ⟨-, hfail⟩ | ⟨-, hbad⟩
      · obtain ⟨-, rfl⟩ := ok_written hfail
        exact wrote hj (.closed (.inr ⟨rfl, rfl, hs⟩) (.inl rfl))
      · exact (ok_throw hbad).elim
    · exact (ok_throw hbad).elim

theorem accepts_isSome {token : String} (h : accepts H job token = true) :
    job.runnerTokenHash.isSome := by
  unfold accepts at h
  split at h
  · cases h
  · rename_i hash hh
    rw [hh]
    rfl

theorem consumeUsage_ok {now : Time} {token : String} {charge : Charge} {totals : List (String × Int)}
    (h : consumeUsage H now j token charge db = .ok (totals, db')) :
    Wrote H op ⟨[], charge⟩ j db db' := by
  obtain ⟨job, _, hrow, hcharge⟩ := ok_bind h
  obtain ⟨rfl, hj, hacc⟩ := ok_runner hrow
  cases hu : chargedUsage charge (job.usage.getD ∅) with
  | none =>
    rw [hu] at hcharge
    exact (ok_throw hcharge).elim
  | some usage =>
    rw [hu] at hcharge
    obtain ⟨_, _, hsave, hret⟩ := ok_bind hcharge
    have hdb : db' = db.write ⟨now, {job with usage := some usage, updatedAt := now}, []⟩ := by
      have hsaved := ok_save hsave
      cases ht : usageTotals usage with
      | none =>
        rw [ht] at hret
        exact (ok_throw hret).elim
      | some totals =>
        rw [ht] at hret
        rw [← (ok_pure hret).2, hsaved]
        rfl
    rw [hdb]
    exact wrote hj (.charged (accepts_isSome hacc) hu)

/-- A completion either closes a cancelled job or stores the result of a running one. -/
theorem markCompleted_ok {now : Time} {token : String} {completion : RunnerCompletion} {result : Dict}
    (hop : op.completion? = some (j, now, completion, result))
    (h : markCompleted H now j token completion result db = .ok (r, db')) :
    Wrote H op {} j db db' := by
  obtain ⟨job, _, hrow, hcomplete⟩ := ok_bind h
  obtain ⟨rfl, hj, -⟩ := ok_runner hrow
  rcases ok_ite hcomplete with ⟨-, hcancel⟩ | ⟨-, hcomplete⟩
  · exact markCancelled_ok hcancel
  · rcases ok_ite hcomplete with ⟨-, hbad⟩ | ⟨hr, hcomplete⟩
    · exact (ok_throw hbad).elim
    · obtain ⟨-, rfl⟩ := ok_written hcomplete
      obtain rfl := Database.id_of_job? hj
      exact wrote hj (.succeeded (Decidable.not_not.mp hr) hop)

/-- The commit of a completion only gets as far as a job that is running. -/
theorem markCompleted_running {now : Time} {token : String} {completion : RunnerCompletion}
    {result : Dict} (hj : db.job? j = some job) (hr : job.state = .running)
    (h : markCompleted H now j token completion result db = .ok (r, db')) :
    db' = db.write ⟨now, succeededJob now completion result job, [("job.succeeded", result)]⟩ := by
  obtain ⟨found, _, hrow, hcomplete⟩ := ok_bind h
  obtain ⟨rfl, hfound, -⟩ := ok_runner hrow
  obtain rfl : found = job := Option.some.inj (hfound.symm.trans hj)
  rw [if_neg (by rw [hr]; decide), if_neg (by rw [hr]; decide)] at hcomplete
  exact (ok_written hcomplete).2

/-! ### The endpoints -/

theorem ensureActive_ok {u : Unit} (h : ensureActive job db = .ok (u, db')) :
    job.state.isTerminal = false ∧ db = db' := by
  rcases ok_ite h with ⟨-, hbad⟩ | ⟨ht, hpure⟩
  · exact (ok_throw hbad).elim
  · exact ⟨by simpa using ht, (ok_pure hpure).2⟩

theorem runnerSearch_ok {now : Time} {token : String}
    (h : runnerSearch H now j token db = .ok (r, db')) :
    Wrote H op ⟨[], {privateSearches := 1}⟩ j db db' := by
  obtain ⟨job, _, hrow, hsearch⟩ := ok_bind h
  obtain ⟨rfl, -, -⟩ := ok_runner hrow
  obtain ⟨_, _, hactive, hsearch⟩ := ok_bind hsearch
  obtain ⟨-, rfl⟩ := ensureActive_ok hactive
  obtain ⟨_, _, hconsume, hret⟩ := ok_bind hsearch
  obtain ⟨-, rfl⟩ := ok_pure hret
  exact consumeUsage_ok hconsume

/-- A public search that succeeds comes to `markFailed` or to `consumeUsage`. -/
theorem runnerPublicSearch_inv {now : Time} {token : String} {enabled : Bool} {limitFailure : Option ResearchJob}
    (h : runnerPublicSearch H now j token enabled db = .ok (limitFailure, db')) :
    ∃ job current, db.job? j = some job ∧ job.state.isTerminal = false ∧
      usageInt? (job.usage.getD ∅) Counter.searches.key = some current ∧
      ((∃ failed, limitFailure = some failed ∧
          markFailed H now j token searchLimitMessage db = .ok (failed, db')) ∨
        (limitFailure = none ∧ current < job.budget.maxQueries ∧
          ∃ charged, consumeUsage H now j token {searches := 1} db = .ok (charged, db'))) := by
  obtain ⟨job, _, hrow, hsearch⟩ := ok_bind h
  obtain ⟨rfl, hj, -⟩ := ok_runner hrow
  obtain ⟨_, _, hactive, hsearch⟩ := ok_bind hsearch
  obtain ⟨hs, rfl⟩ := ensureActive_ok hactive
  rcases ok_ite hsearch with ⟨-, hbad⟩ | ⟨-, hsearch⟩
  · exact (ok_throw hbad).elim
  · cases hu : usageInt? (job.usage.getD ∅) Counter.searches.key with
    | none =>
      rw [hu] at hsearch
      exact (ok_throw hsearch).elim
    | some current =>
      rw [hu] at hsearch
      refine ⟨job, current, hj, hs, hu, ?_⟩
      rcases ok_ite hsearch with ⟨-, hfail⟩ | ⟨hlimit, hcharge⟩
      · obtain ⟨failed, _, hmark, hret⟩ := ok_bind hfail
        obtain ⟨rfl, rfl⟩ := ok_pure hret
        exact .inl ⟨failed, rfl, hmark⟩
      · obtain ⟨charged, _, hconsume, hret⟩ := ok_bind hcharge
        obtain ⟨rfl, rfl⟩ := ok_pure hret
        exact .inr ⟨rfl, Int.not_le.mp hlimit, charged, hconsume⟩

/-- A public search either fails the job for its limit or charges one search. -/
theorem runnerPublicSearch_ok {now : Time} {token : String} {enabled : Bool}
    {limitFailure : Option ResearchJob}
    (h : runnerPublicSearch H now j token enabled db = .ok (limitFailure, db')) :
    (limitFailure.isSome ∧ Wrote H op {} j db db') ∨
      (limitFailure = none ∧ Wrote H op ⟨[], {searches := 1}⟩ j db db' ∧
        ∃ job current, db.job? j = some job ∧ job.state.isTerminal = false ∧
          usageInt? (job.usage.getD ∅) Counter.searches.key = some current ∧
          current < job.budget.maxQueries) := by
  obtain ⟨job, current, hj, hs, hu, hended⟩ := runnerPublicSearch_inv h
  rcases hended with ⟨failed, rfl, hmark⟩ | ⟨rfl, hlimit, charged, hconsume⟩
  · exact .inl ⟨rfl, markFailed_ok hmark⟩
  · exact .inr ⟨rfl, consumeUsage_ok hconsume, job, current, hj, hs, hu, hlimit⟩

/-- An admission that succeeds comes to `markFailed` or leaves everything as it is. -/
theorem chatAdmission_inv {now : Time} {token : String} {model : Option String} {estimated safety : Nat}
    {failure : Option ResearchJob}
    (h : chatAdmission H now j token model estimated safety db = .ok (failure, db')) :
    (∃ failed message, failure = some failed ∧ markFailed H now j token message db = .ok (failed, db')) ∨
      (failure = none ∧ db' = db) := by
  obtain ⟨job, _, hrow, hadmit⟩ := ok_bind h
  obtain ⟨rfl, hj, -⟩ := ok_runner hrow
  obtain ⟨_, _, hactive, hadmit⟩ := ok_bind hadmit
  obtain ⟨-, rfl⟩ := ensureActive_ok hactive
  cases hc : capabilityOf? job (requestedModel job model) with
  | none =>
    simp only [hc] at hadmit
    exact (ok_throw hadmit).elim
  | some capability =>
    simp only [hc] at hadmit
    rcases ok_ite hadmit with ⟨-, hfail⟩ | ⟨-, hret⟩
    · obtain ⟨failed, _, hmark, hret⟩ := ok_bind hfail
      obtain ⟨rfl, rfl⟩ := ok_pure hret
      exact .inl ⟨failed, _, rfl, hmark⟩
    · obtain ⟨rfl, rfl⟩ := ok_pure hret
      exact .inr ⟨rfl, rfl⟩

theorem chatAdmission_ok {now : Time} {token : String} {model : Option String} {estimated safety : Nat}
    {failure : Option ResearchJob}
    (h : chatAdmission H now j token model estimated safety db = .ok (failure, db')) :
    db' = db ∨ Wrote H op {} j db db' := by
  rcases chatAdmission_inv h with ⟨_, _, -, hmark⟩ | ⟨-, hsame⟩
  · exact .inr (markFailed_ok hmark)
  · exact .inl hsame

/-- The rows of the objects that a completion stored, numbered from a serial. -/
def artifactRows (now : Time) (j : JobId) : Nat → List StoredObject → List ResearchArtifact
  | _, [] => []
  | serial, stored :: rest =>
    ⟨serial, j, stored.name, stored.objectKey, stored.mediaType, stored.size, now⟩ ::
      artifactRows now j (serial + 1) rest

theorem artifactRows_jobId {now : Time} {serial : Nat} {stored : List StoredObject}
    {a : ResearchArtifact} (h : a ∈ artifactRows now j serial stored) : a.jobId = j := by
  induction stored generalizing serial with
  | nil => cases h
  | cons s rest ih =>
    rcases List.mem_cons.mp h with rfl | h
    · rfl
    · exact ih h

/-- Artifact rows go behind the others, under the job's identifier. -/
theorem addArtifacts_ok {now : Time} {stored : List StoredObject} {u : Unit}
    (h : addArtifacts now j stored db = .ok (u, db')) :
    db'.jobs = db.jobs ∧ db'.events = db.events ∧
      db'.artifacts.rows = db.artifacts.rows ++ artifactRows now j db.artifactSerial stored ∧
      db'.artifactSerial = db.artifactSerial + stored.length := by
  induction stored generalizing db with
  | nil =>
    obtain ⟨-, rfl⟩ := ok_pure h
    exact ⟨rfl, rfl, (List.append_nil _).symm, rfl⟩
  | cons s rest ih =>
    obtain ⟨_, db₁, hadd, hrest⟩ := ok_bind h
    obtain ⟨hjobs, hevents, hrows, hserial⟩ := ih hrest
    obtain ⟨_, _, hget, hinsert⟩ := ok_bind hadd
    obtain ⟨rfl, rfl⟩ := ok_get hget
    rcases ok_dite hinsert with ⟨hfresh, hinsert⟩ | ⟨-, hbad⟩
    · rcases ok_ite hinsert with ⟨-, hbad⟩ | ⟨-, hset⟩
      · exact (ok_throw hbad).elim
      · cases hset
        refine ⟨hjobs, hevents, hrows.trans (List.append_assoc ..), hserial.trans ?_⟩
        simp only [List.length_cons]
        omega
    · exact (ok_throw hbad).elim

theorem completionCommit_ok {now : Time} {token : String} {completion : RunnerCompletion}
    {stored : List StoredObject}
    (h : completionCommit H now j token completion stored db = .ok (r, db')) :
    ∃ job db₁, db.job? j = some job ∧ job.state = .running ∧
      db₁ = db.write ⟨now, succeededJob now completion (completionResult completion stored) job,
        [("job.succeeded", completionResult completion stored)]⟩ ∧
      db'.jobs = db₁.jobs ∧ db'.events = db₁.events ∧
      db'.artifacts.rows = db.artifacts.rows ++ artifactRows now j db.artifactSerial stored ∧
      db'.artifactSerial = db.artifactSerial + stored.length := by
  obtain ⟨job, _, hrow, hcommit⟩ := ok_bind h
  obtain ⟨rfl, hj, -⟩ := ok_runner hrow
  rcases ok_ite hcommit with ⟨-, hbad⟩ | ⟨hr, hcommit⟩
  · exact (ok_throw hbad).elim
  · have hr := Decidable.not_not.mp hr
    obtain ⟨_, db₁, hcomplete, hcommit⟩ := ok_bind hcommit
    have hdb₁ := markCompleted_running hj hr hcomplete
    obtain ⟨_, _, hadd, hret⟩ := ok_bind hcommit
    obtain ⟨-, rfl⟩ := ok_pure hret
    obtain ⟨hjobs, hevents, hrows, hserial⟩ := addArtifacts_ok hadd
    refine ⟨job, db₁, hj, hr, hdb₁, hjobs, hevents, ?_, ?_⟩
    · rw [hrows, hdb₁, Database.artifacts_write, Database.artifactSerial_write]
    · rw [hserial, hdb₁, Database.artifactSerial_write]

/-! ### Creation -/

theorem createJob_ok {now : Time} {id : JobId} {userId key : String} {request : CreateJobRequest}
    {created : ResearchJob × Bool}
    (h : createJob H now id userId key request db = .ok (created, db')) :
    db' = db ∨ ∃ hfresh,
      db' = (db.addJob (newJob id now userId key (H.requestDigest request) request
        (latestSucceeded? db userId request.chatId)) hfresh).appendEvent now id
        "job.created" (record [("state", .str "pending")]) := by
  obtain ⟨_, _, hget, hcreate⟩ := ok_bind h
  obtain ⟨rfl, rfl⟩ := ok_get hget
  cases hexisting : byIdempotency? db userId key with
  | some existing =>
    simp only [hexisting] at hcreate
    rcases ok_ite hcreate with ⟨-, hbad⟩ | ⟨-, hsame⟩
    · exact (ok_throw hbad).elim
    · exact .inl (ok_pure hsame).2.symm
  | none =>
    simp only [hexisting] at hcreate
    obtain ⟨_, db₁, hinsert, hrest⟩ := ok_bind hcreate
    obtain ⟨_, _, happ, hret⟩ := ok_bind hrest
    obtain ⟨-, rfl⟩ := ok_pure hret
    obtain ⟨-, rfl⟩ := ok_append happ
    obtain ⟨_, _, hget, hinsert⟩ := ok_bind hinsert
    obtain ⟨rfl, rfl⟩ := ok_get hget
    rcases ok_ite hinsert with ⟨-, hbad⟩ | ⟨-, hinsert⟩
    · exact (ok_throw hbad).elim
    · rcases ok_dite hinsert with ⟨hfresh, hinsert⟩ | ⟨-, hbad⟩
      · rcases ok_ite hinsert with ⟨-, hbad⟩ | ⟨-, hset⟩
        · exact (ok_throw hbad).elim
        · cases hset
          exact .inr ⟨hfresh, rfl⟩
      · exact (ok_throw hbad).elim

theorem createJob_step {now : Time} {id : JobId} {userId key : String} {request : CreateJobRequest}
    {created : ResearchJob × Bool}
    (h : createJob H now id userId key request db = .ok (created, db')) (j : JobId) :
    JobStep H (.createJob now id userId key request) j {} (db.slice j) (db'.slice j) := by
  rcases createJob_ok h with rfl | ⟨hfresh, rfl⟩
  · exact .kept _
  · by_cases hj : id = j
    · subst hj
      have hnone : db.job? id = none := Table.find?_eq_none.mpr hfresh
      have hrow : (db.addJob _ hfresh).job? id = some _ :=
        (Database.job?_addJob ..).trans (if_pos rfl)
      simp only [Database.slice, Database.job?_appendEvent, Database.eventsOf_appendEvent, hrow,
        hnone, if_true]
      exact .created rfl
    · have hrow : (db.addJob _ hfresh).job? j = db.job? j :=
        (Database.job?_addJob ..).trans (if_neg hj)
      simp only [Database.slice, Database.job?_appendEvent, Database.eventsOf_appendEvent, hrow,
        if_neg hj, List.append_nil]
      exact .kept _

/-! ### Retention -/

theorem deleteArtifactRecord_step (artifactId : Nat) {found : Bool}
    (h : deleteArtifactRecord artifactId db = .ok (found, db')) (j : JobId) :
    JobStep H (.deleteArtifactRecord artifactId) j {} (db.slice j) (db'.slice j) := by
  cases h
  refine .artifactDeleted rfl ?_
  exact List.Sublist.filter _ List.filter_sublist

theorem deleteExpiredEvents_step {cutoff : Time} {limit n : Nat}
    (h : deleteExpiredEvents cutoff limit db = .ok (n, db')) (j : JobId) :
    JobStep H (.deleteExpiredEvents cutoff limit) j {} (db.slice j) (db'.slice j) := by
  cases h
  by_cases hs : ∃ job, db.job? j = some job ∧ job.state.isTerminal = true
  · obtain ⟨job, hjob, ht⟩ := hs
    show JobStep H _ j {} ⟨db.job? j, _, _⟩ ⟨db.job? j, _, _⟩
    rw [hjob]
    refine .pruned rfl ht ?_
    rw [eventsOf_withoutEvents]
    exact List.filter_sublist
  · have hsame := eventsOf_expired db cutoff limit (j := j) fun job hjob => by
      cases ht : job.state.isTerminal with
      | false => rfl
      | true => exact absurd ⟨job, hjob, ht⟩ hs
    show JobStep H _ j {} ⟨db.job? j, db.eventsOf j, _⟩ ⟨db.job? j, _, _⟩
    rw [hsame]
    exact .kept _

theorem deleteExpiredJobs_step {cutoff : Time} {limit n : Nat}
    (h : deleteExpiredJobs cutoff limit db = .ok (n, db')) (j : JobId) :
    JobStep H (.deleteExpiredJobs cutoff limit) j {} (db.slice j) (db'.slice j) := by
  cases h
  set gone := (expiredJobs db cutoff limit).map ResearchJob.id with hgone
  simp only [Database.slice, job?_withoutJobs, eventsOf_withoutJobs, artifactsOf_withoutJobs]
  by_cases hj : j ∈ gone
  · obtain ⟨job, hjob, ht⟩ := expired_terminal hj
    rw [if_pos hj, if_pos hj, if_pos hj, hjob]
    exact .removed rfl ht
  · rw [if_neg hj, if_neg hj, if_neg hj]
    cases hjob : db.job? j with
    | none => exact .kept _
    | some job =>
      show JobStep H _ j {} _ ⟨some (orphaned gone job), _, _⟩
      rcases orphaned_cases gone job with hsame | hcleared
      · rw [hsame]
        exact .kept _
      · rw [hcleared]
        exact .orphaned rfl

/-! ### Assembly -/

/-- A write leaves every other job alone. -/
theorem Wrote.other {acct : Account} (h : Wrote H op acct j db db') {k : JobId} (hk : j ≠ k) :
    db'.slice k = db.slice k := by
  obtain ⟨job, w, hj, heffect, rfl⟩ := h
  have hid : w.job.id = j := heffect.id_eq.trans (Database.id_of_job? hj)
  exact Database.slice_write_other db w (by rw [hid]; exact hk)

theorem Wrote.jobStep {acct : Account} (h : Wrote H op acct j db db') (k : JobId) :
    JobStep H op k (if j = k then acct else {}) (db.slice k) (db'.slice k) := by
  by_cases hk : j = k
  · subst hk
    obtain ⟨job, w, hj, heffect, rfl⟩ := h
    have hid : w.job.id = j := heffect.id_eq.trans (Database.id_of_job? hj)
    have hslice := Database.slice_write db w (show db.job? w.job.id = some job by rw [hid]; exact hj)
    rw [hid] at hslice
    rw [if_pos rfl, hslice]
    show JobStep H op j acct ⟨db.job? j, _, _⟩ _
    rw [hj]
    have hstep : JobStep H op j acct ⟨some job, db.eventsOf j, db.artifactsOf j⟩
        ⟨some w.job, _, db.artifactsOf j ++ []⟩ :=
      .written (Database.id_of_job? hj) heffect fun hne => absurd rfl hne
    rw [List.append_nil] at hstep
    exact hstep
  · rw [if_neg hk, h.other hk]
    exact .kept _

/-- An operation that charges and claims nothing. -/
theorem jobStep_of_quiet (h : db' = db ∨ Wrote H op {} j db db') (k : JobId) :
    JobStep H op k {} (db.slice k) (db'.slice k) := by
  rcases h with rfl | hwrote
  · exact .kept _
  · have := hwrote.jobStep k
    rwa [ite_self] at this

/-- What a completion leaves of each job. -/
theorem completionCommit_slice {now : Time} {token : String} {completion : RunnerCompletion}
    {stored : List StoredObject}
    (h : completionCommit H now j token completion stored db = .ok (r, db')) :
    ∃ job : ResearchJob, db.job? j = some job ∧ job.state = .running ∧
      ∀ k, db'.slice k =
        let w : Write := ⟨now, succeededJob now completion (completionResult completion stored) job,
          [("job.succeeded", completionResult completion stored)]⟩
        ⟨((db.write w).slice k).job, ((db.write w).slice k).events, db.artifactsOf k ++
          (artifactRows now j db.artifactSerial stored).filter fun a => a.jobId = k⟩ := by
  obtain ⟨job, db₁, hj, hr, rfl, hjobs, hevents, hartifacts, -⟩ := completionCommit_ok h
  refine ⟨job, hj, hr, fun k => ?_⟩
  show Slice.mk (db'.jobs.find? k) (db'.events.rows.filter _) (db'.artifacts.rows.filter _) = _
  rw [hjobs, hevents, hartifacts, List.filter_append]
  rfl

theorem completionCommit_other {now : Time} {token : String} {completion : RunnerCompletion}
    {stored : List StoredObject}
    (h : completionCommit H now j token completion stored db = .ok (r, db')) {k : JobId}
    (hk : j ≠ k) : db'.slice k = db.slice k := by
  obtain ⟨job, hj, -, hslice⟩ := completionCommit_slice h
  have hid : job.id = j := Database.id_of_job? hj
  have hnone : (artifactRows now j db.artifactSerial stored).filter
      (fun a => decide (a.jobId = k)) = [] :=
    List.filter_eq_nil_iff.mpr fun a ha => by simpa [artifactRows_jobId ha] using hk
  rw [hslice, hnone, List.append_nil]
  simp only
  rw [Database.slice_write_other db _ (show job.id ≠ k by rw [hid]; exact hk)]
  rfl

theorem completionCommit_step {now : Time} {token : String} {completion : RunnerCompletion}
    {stored : List StoredObject}
    (h : completionCommit H now j token completion stored db = .ok (r, db')) (k : JobId) :
    JobStep H (.completionCommit now j token completion stored) k {} (db.slice k) (db'.slice k) := by
  by_cases hk : j = k
  · subst hk
    obtain ⟨job, hj, hr, hslice⟩ := completionCommit_slice h
    have hid := Database.id_of_job? hj
    have hwrite := Database.slice_write db
      ⟨now, succeededJob now completion (completionResult completion stored) job,
        [("job.succeeded", completionResult completion stored)]⟩
      (show db.job? job.id = some job by rw [hid]; exact hj)
    rw [show (succeededJob now completion (completionResult completion stored) job).id = j from hid]
      at hwrite
    rw [hslice]
    simp only [hwrite]
    show JobStep H _ j {} ⟨db.job? j, _, _⟩ _
    rw [hj]
    obtain rfl := hid
    exact .written rfl (.succeeded hr rfl) fun _ => ⟨hr, rfl⟩
  · rw [completionCommit_other h hk]
    exact .kept _

theorem account_of_ok {outcome : Outcome} (h : transact H op db = .ok (outcome, db')) (k : JobId) :
    accountOf H op db k = ⟨outcome.claims.filter fun claim => claim.id = k, op.charge outcome k⟩ := by
  simp only [accountOf, claimsOf, chargeOf, commit_ok h]

theorem account_of_error {e : Failure} (h : transact H op db = .error e) (k : JobId) :
    accountOf H op db k = {} := by
  simp only [accountOf, claimsOf, chargeOf, commit_error h, List.filter_nil]

theorem step_of_ok {outcome : Outcome} (h : transact H op db = .ok (outcome, db')) :
    step H op db = db' := by
  rw [step, commit_ok h]

/-- An operation that fails leaves every table as it was. -/
theorem step_of_error {e : Failure} (h : transact H op db = .error e) : step H op db = db := by
  rw [step, commit_error h]

/-- An operation that is one transaction commits it. -/
theorem step_of_commit {H : Hashing} {op : Op} {α : Type} {t : Transaction α} {f : α → Outcome}
    (h : transact H op = t >>= fun a => pure (f a)) (db : Database) :
    step H op db = (commit t db).2 := by
  unfold step
  rw [h]
  cases ht : t db with
  | ok p => rw [commit_ok ht, commit_ok (bind_ok ht)]
  | error e => rw [commit_error ht, commit_error (bind_error ht)]

/-- A runner's operation charges the job it names. -/
theorem Op.charge_runner {token : String} (hop : op.runner? = some (j, token)) (outcome : Outcome)
    (k : JobId) :
    (⟨[], op.charge outcome k⟩ : Account) = if j = k then ⟨[], op.charge outcome j⟩ else {} := by
  by_cases hk : j = k
  · rw [if_pos hk, hk]
  · cases op <;> cases hop <;> cases outcome with
    | searched limitFailure => cases limitFailure <;> simp [Op.charge, hk]
    | _ => simp [Op.charge, hk]

theorem done_ok {α : Type} {t : Transaction α} {a : α} (h : t db = .ok (a, db')) :
    (t >>= fun _ => pure Outcome.done) db = .ok (.done, db') := bind_ok h

/-- A transaction whose result is dropped. -/
theorem ok_done {α : Type} {t : Transaction α} {outcome : Outcome}
    (h : (t >>= fun _ => pure .done) db = .ok (outcome, db')) :
    outcome = .done ∧ ∃ a, t db = .ok (a, db') := by
  obtain ⟨a, _, ht, hret⟩ := ok_bind h
  obtain ⟨rfl, rfl⟩ := ok_pure hret
  exact ⟨rfl, a, ht⟩

/-- What a committed operation of a runner does: nothing, one write to the job it
names, or the commit of a completion. -/
theorem runner_wrote {token : String} {outcome : Outcome} (hop : op.runner? = some (j, token))
    (h : transact H op db = .ok (outcome, db')) :
    outcome.claims = [] ∧
    ((op.charge outcome j = {} ∧ db' = db) ∨ Wrote H op ⟨[], op.charge outcome j⟩ j db db' ∨
      ∃ now completion stored r, op = .completionCommit now j token completion stored ∧
        completionCommit H now j token completion stored db = .ok (r, db')) := by
  have hcharged {charge : Charge} (hcharge : op.charge outcome j = charge)
      (hwrote : Wrote H op ⟨[], charge⟩ j db db') : Wrote H op ⟨[], op.charge outcome j⟩ j db db' := by
    rwa [hcharge]
  cases op with
  | appendRunnerEvent now jobId token eventType data =>
    cases hop
    obtain ⟨rfl, _, h⟩ := ok_done h
    exact ⟨rfl, .inr (.inl (appendRunnerEvent_ok h))⟩
  | heartbeat now jobId token =>
    cases hop
    obtain ⟨rfl, _, h⟩ := ok_done h
    exact ⟨rfl, .inr (.inl (heartbeat_ok h))⟩
  | markStarted now jobId token =>
    cases hop
    obtain ⟨rfl, _, h⟩ := ok_done h
    exact ⟨rfl, (markStarted_ok h).imp (fun hsame => ⟨rfl, hsame⟩) .inl⟩
  | markCancelled now jobId token =>
    cases hop
    obtain ⟨rfl, _, h⟩ := ok_done h
    exact ⟨rfl, .inr (.inl (markCancelled_ok h))⟩
  | markFailed now jobId token error =>
    cases hop
    obtain ⟨rfl, _, h⟩ := ok_done h
    exact ⟨rfl, .inr (.inl (markFailed_ok h))⟩
  | markCompleted now jobId token completion result =>
    cases hop
    obtain ⟨rfl, _, h⟩ := ok_done h
    exact ⟨rfl, .inr (.inl (markCompleted_ok rfl h))⟩
  | consumeUsage now jobId token charge =>
    cases hop
    obtain ⟨rfl, _, h⟩ := ok_done h
    exact ⟨rfl, .inr (.inl (hcharged (if_pos rfl) (consumeUsage_ok h)))⟩
  | runnerSearch now jobId token =>
    cases hop
    obtain ⟨rfl, _, h⟩ := ok_done h
    exact ⟨rfl, .inr (.inl (hcharged (if_pos rfl) (runnerSearch_ok h)))⟩
  | runnerPublicSearch now jobId token enabled =>
    cases hop
    obtain ⟨limitFailure, _, hsearch, hret⟩ := ok_bind h
    obtain ⟨rfl, rfl⟩ := ok_pure hret
    rcases runnerPublicSearch_ok hsearch with ⟨hsome, hwrote⟩ | ⟨rfl, hwrote, -⟩
    · obtain ⟨failed, rfl⟩ := Option.isSome_iff_exists.mp hsome
      exact ⟨rfl, .inr (.inl hwrote)⟩
    · exact ⟨rfl, .inr (.inl (hcharged (if_pos rfl) hwrote))⟩
  | chatAdmission now jobId token model estimated safety =>
    cases hop
    obtain ⟨rfl, _, h⟩ := ok_done h
    exact ⟨rfl, (chatAdmission_ok h).imp (fun hsame => ⟨rfl, hsame⟩) .inl⟩
  | completionCommit now jobId token completion stored =>
    cases hop
    obtain ⟨rfl, r, h⟩ := ok_done h
    exact ⟨rfl, .inr (.inr ⟨now, completion, stored, r, rfl, h⟩)⟩
  | _ => cases hop

/-- What a committed operation of a runner does to a job. -/
theorem runner_step {token : String} {outcome : Outcome} (hop : op.runner? = some (j, token))
    (h : transact H op db = .ok (outcome, db')) (k : JobId) :
    JobStep H op k ⟨outcome.claims.filter fun claim => claim.id = k, op.charge outcome k⟩
      (db.slice k) (db'.slice k) := by
  obtain ⟨hclaims, hdone⟩ := runner_wrote hop h
  rw [hclaims, List.filter_nil, Op.charge_runner hop]
  rcases hdone with ⟨hfree, rfl⟩ | hwrote | ⟨now, completion, stored, r, rfl, hcommit⟩
  · rw [hfree, ite_self]
    exact .kept _
  · exact hwrote.jobStep k
  · rw [show (⟨[], Op.charge _ outcome j⟩ : Account) = {} from rfl, ite_self]
    exact completionCommit_step hcommit k

/-- What a committed operation does to a job. -/
theorem job_step_ok {outcome : Outcome} (h : transact H op db = .ok (outcome, db')) (k : JobId) :
    JobStep H op k ⟨outcome.claims.filter fun claim => claim.id = k, op.charge outcome k⟩
      (db.slice k) (db'.slice k) := by
  cases op with
  | createJob now id userId key request =>
    obtain ⟨rfl, _, h⟩ := ok_done h
    exact createJob_step h k
  | claimNext now token limit lease locked =>
    obtain ⟨claim, _, hclaim, hret⟩ := ok_bind h
    obtain ⟨rfl, rfl⟩ := ok_pure hret
    rcases claimNext_ok hclaim with ⟨rfl, rfl⟩ | ⟨job, rfl, hwrote⟩
    · exact .kept _
    · have hstep := hwrote.jobStep k
      by_cases hk : job.id = k
      · rw [if_pos hk] at hstep
        simpa [Outcome.claims, Op.charge, hk] using hstep
      · rw [if_neg hk] at hstep
        simpa [Outcome.claims, Op.charge, hk] using hstep
  | reconcileExpiredDispatch now dispatch action lease error =>
    obtain ⟨rfl, _, h⟩ := ok_done h
    exact jobStep_of_quiet (reconcileExpiredDispatch_ok rfl h) k
  | reconcileStaleRunner now runner action error =>
    obtain ⟨rfl, _, h⟩ := ok_done h
    exact jobStep_of_quiet (reconcileStaleRunner_ok rfl h) k
  | requestCancel now jobId userId =>
    obtain ⟨rfl, _, h⟩ := ok_done h
    exact jobStep_of_quiet (requestCancel_ok h) k
  | deleteArtifactRecord artifactId =>
    obtain ⟨rfl, _, h⟩ := ok_done h
    exact deleteArtifactRecord_step artifactId h k
  | deleteExpiredEvents cutoff limit =>
    obtain ⟨rfl, _, h⟩ := ok_done h
    exact deleteExpiredEvents_step h k
  | deleteExpiredJobs cutoff limit =>
    obtain ⟨rfl, _, h⟩ := ok_done h
    exact deleteExpiredJobs_step h k
  | _ => exact runner_step rfl h k

end

/-- The only ways in which an operation touches a job. -/
theorem job_step (H : Hashing) (op : Op) (db : Database) (j : JobId) :
    JobStep H op j (accountOf H op db j) (db.slice j) ((step H op db).slice j) := by
  cases h : transact H op db with
  | error e =>
    rw [account_of_error h, step_of_error h]
    exact .kept _
  | ok p =>
    rw [account_of_ok h, step_of_ok h]
    exact job_step_ok h j

end ResearchGateway
