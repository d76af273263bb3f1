import ResearchGateway.JobInvariant

/-! Runner fencing.

A runner token opens a job as long as it is the token of the job's latest claim and
the job is active. Everything a runner does goes through that check, so a runner
of an older attempt, of another job or of a job that is idle can do nothing
(`runner_fencing`). What carries it is the history of claims: the attempts of a
job's claims count up from one, and the hash in the row, while there is one, is
that of the last of them. -/
namespace ResearchGateway
open Library

/-- No row accepts the token for the job. -/
def Refused (H : Hashing) (db : Database) (j : JobId) (token : String) : Prop :=
  ∀ job, db.job? j = some job → accepts H job token = false

/-! ### A runner's operation -/

section
variable {H : Hashing} {op : Op} {db db' : Database} {j : JobId} {token : String}

/-- A refused token ends every runner operation in its first statement. -/
theorem transact_refused (hop : op.runner? = some (j, token)) (h : Refused H db j token) :
    transact H op db = .error .jobNotFound := by
  have hread : getForRunnerLocked H j token db = .error .jobNotFound := getForRunner_refused h
  cases op <;> cases hop <;> exact bind_error (bind_error hread)

/-- A runner's operation writes to the job it names and to no other. -/
theorem transact_runner_other (hop : op.runner? = some (j, token)) {outcome : Outcome}
    (h : transact H op db = .ok (outcome, db')) {k : JobId} (hk : j ≠ k) :
    db'.slice k = db.slice k := by
  rcases (runner_wrote hop h).2 with ⟨-, rfl⟩ | hwrote | ⟨_, _, _, _, -, hcommit⟩
  · rfl
  · exact hwrote.other hk
  · exact completionCommit_other hcommit hk

theorem step_refused (hop : op.runner? = some (j, token)) (h : Refused H db j token) :
    step H op db = db := step_of_error (transact_refused hop h)

theorem step_runner_other (hop : op.runner? = some (j, token)) {k : JobId} (hk : j ≠ k) :
    (step H op db).slice k = db.slice k := by
  cases h : transact H op db with
  | error e => rw [step_of_error h]
  | ok p => rw [step_of_ok h]; exact transact_runner_other hop h hk

end

/-! ### The claims of a job -/

/-- The row of a job against the claims that were made of it. -/
structure Fenced (H : Hashing) (row : Option ResearchJob) (claims : List ClaimedJob) : Prop where
  absent : row = none → claims = []
  attempts : ∀ job, row = some job → claims.map ClaimedJob.attempt = List.range' 1 job.attempt
  holder : ∀ job hash, row = some job → job.runnerTokenHash = some hash →
    ∃ claim, claims.getLast? = some claim ∧ hash = H.hashToken claim.runnerToken

theorem fenced_nil (H : Hashing) : Fenced H none [] := by
  refine ⟨fun _ => rfl, ?_, ?_⟩
  all_goals
    intro job
    intros
    contradiction

section
variable {H : Hashing} {op : Op} {acct : Account} {j : JobId} {s s' : Slice} {job job' : ResearchJob}
  {w : Write} {claims : List ClaimedJob}

/-- An effect keeps the token and the attempt, clears the token, or is a claim. -/
theorem Effect.token (h : Effect H op acct job w) :
    (acct.claims = [] ∧ w.job.attempt = job.attempt ∧
      (w.job.runnerTokenHash = job.runnerTokenHash ∨ w.job.runnerTokenHash = none)) ∨
    ∃ token, acct.claims = [⟨job.id, token, job.attempt + 1⟩] ∧ w.job.attempt = job.attempt + 1 ∧
      w.job.runnerTokenHash = some (H.hashToken token) := by
  cases h with
  | @dispatched _ token => exact .inr ⟨token, rfl, rfl, rfl⟩
  | renewed | touched | progressed | started | cancelRequested | charged =>
    exact .inl ⟨rfl, rfl, .inl rfl⟩
  | dispatchRequeued | runnerRequeued | closed | succeeded => exact .inl ⟨rfl, rfl, .inr rfl⟩
  | revoked =>
    exact .inl ⟨rfl, revokeToken_rule (P := fun after => after.attempt = job.attempt ∧
      (after.runnerTokenHash = job.runnerTokenHash ∨ after.runnerTokenHash = none))
      ⟨rfl, .inl rfl⟩ ⟨rfl, .inr rfl⟩⟩

theorem Effect.fenced (h : Effect H op acct job w) (hf : Fenced H (some job) claims) :
    Fenced H (some w.job) (claims ++ acct.claims) := by
  have hattempts := hf.attempts job rfl
  rcases h.token with ⟨hclaims, hattempt, htoken⟩ | ⟨token, hclaims, hattempt, htoken⟩
  · rw [hclaims, List.append_nil]
    refine ⟨nofun, fun x hx => ?_, fun x hash hx hhash => ?_⟩
    · cases hx
      rw [hattempt]
      exact hattempts
    · cases hx
      rcases htoken with hsame | hnone
      · exact hf.holder job hash rfl (hsame.symm.trans hhash)
      · rw [hnone] at hhash
        cases hhash
  · rw [hclaims]
    refine ⟨nofun, fun x hx => ?_, fun x hash hx hhash => ?_⟩
    · cases hx
      rw [hattempt, List.map_append, hattempts, List.map_singleton, List.range'_1_concat,
        Nat.add_comm 1]
    · cases hx
      exact ⟨_, List.getLast?_concat .., Option.some.inj (hhash.symm.trans htoken)⟩

/-- A claim is what advances the attempt of a job. -/
theorem JobStep.attempt (h : JobStep H op j acct s s') (hj : s.job = some job)
    (hj' : s'.job = some job') :
    (acct.claims = [] ∧ job'.attempt = job.attempt) ∨
      (acct.claims ≠ [] ∧ job'.attempt = job.attempt + 1) := by
  cases h with
  | kept | artifactDeleted | pruned =>
    rw [Option.some.inj (hj.symm.trans hj')]
    exact .inl ⟨rfl, rfl⟩
  | created => cases hj
  | written _ heffect =>
    obtain rfl := Option.some.inj hj
    obtain rfl := Option.some.inj hj'
    rcases heffect.token with ⟨hclaims, hattempt, -⟩ | ⟨token, hclaims, hattempt, -⟩
    · exact .inl ⟨hclaims, hattempt⟩
    · exact .inr ⟨by simp [hclaims], hattempt⟩
  | orphaned =>
    obtain rfl := Option.some.inj hj
    obtain rfl := Option.some.inj hj'
    exact .inl ⟨rfl, rfl⟩
  | removed => cases hj'

/-- A job that is not there is not claimed; a new one has no attempt. -/
theorem JobStep.attempt_absent (h : JobStep H op j acct s s') (hj : s.job = none) :
    ∀ job', s'.job = some job' → job'.attempt = 0 := by
  intro job' hj'
  cases h with
  | kept | artifactDeleted =>
    rw [hj] at hj'
    cases hj'
  | created =>
    cases hj'
    rfl
  | removed => cases hj'
  | _ => cases hj

/-- Without retention a job stays. -/
theorem JobStep.present (h : JobStep H op j acct s s') (hop : op.isRetention = false)
    (hj : s'.job = none) : s.job = none := by
  cases h with
  | kept => exact hj
  | created | written => cases hj
  | pruned hret | artifactDeleted hret | orphaned hret | removed hret =>
    rw [hop] at hret
    cases hret

/-- A token that a row accepts is that of the claim which gave the row its attempt. -/
theorem Fenced.latest {token : String} (hf : Fenced H (some job) claims)
    (h : accepts H job token = true) :
    ∃ claim ∈ claims, H.hashToken claim.runnerToken = H.hashToken token ∧
      claim.attempt = job.attempt := by
  obtain ⟨hash, hhash⟩ := Option.isSome_iff_exists.mp (accepts_isSome h)
  obtain ⟨claim, hlast, hclaim⟩ := hf.holder job hash rfl hhash
  have hequal : hash = H.hashToken token := by simpa [accepts, hhash] using h
  refine ⟨claim, List.mem_of_getLast? hlast, hclaim.symm.trans hequal, ?_⟩
  have hattempts := congrArg List.getLast? (hf.attempts job rfl)
  rw [List.getLast?_map, hlast, Option.map_some, List.getLast?_range'] at hattempts
  split at hattempts
  · cases hattempts
  · have := Option.some.inj hattempts
    omega

theorem JobStep.fenced (h : JobStep H op j acct s s') (hop : op.isRetention = false)
    (hf : Fenced H s.job claims) : Fenced H s'.job (claims ++ acct.claims) := by
  cases h with
  | kept => rwa [List.append_nil]
  | created =>
    rw [hf.absent rfl]
    refine ⟨nofun, fun x hx => ?_, fun x hash hx hhash => ?_⟩
    · cases hx
      rfl
    · cases hx
      cases hhash
  | written _ heffect => exact heffect.fenced hf
  | pruned hret | artifactDeleted hret | orphaned hret | removed hret =>
    rw [hop] at hret
    cases hret

end

section
variable (H : Hashing)

/-- The claims that a run hands to the executor, oldest first. -/
def claims (ops : List Op) : List ClaimedJob := (controlPlane H).trace .empty ops

/-- The latest claim of a job. -/
def latestClaim? (ops : List Op) (j : JobId) : Option ClaimedJob :=
  ((claims H ops).filter fun claim => claim.id = j).getLast?

/-- What `dispatch_one` passes to the executor: every claim is submitted once. -/
def submissions (ops : List Op) : List (JobId × Nat) :=
  (claims H ops).map fun claim => (claim.id, claim.attempt)

theorem fenced_after (ops : List Op) (hops : ∀ op ∈ ops, op.isRetention = false) (j : JobId) :
    Fenced H ((after H ops).job? j) ((claims H ops).filter fun claim => claim.id = j) := by
  refine Machine.history (M := controlPlane H) (A := fun op => op.isRetention = false)
    (s := Database.empty) (P := fun db _ claims => Fenced H (db.job? j) (claims.filter fun claim => claim.id = j))
    ?_ (fenced_nil H) ops hops
  intro op db _ claims hop hf
  rw [List.filter_append]
  exact (job_step H op db j).fenced hop hf

/-- The token is that of the job's latest claim, and the job is active. -/
def Holds (ops : List Op) (j : JobId) (token : String) : Prop :=
  ∃ claim job, latestClaim? H ops j = some claim ∧ claim.runnerToken = token ∧
    (after H ops).job? j = some job ∧ job.state.isActive = true

end

section
variable {H : Hashing} {ops : List Op} {j : JobId} {token : String} {job : ResearchJob}

theorem mem_of_latestClaim? {claim : ClaimedJob} (h : latestClaim? H ops j = some claim) :
    claim ∈ claims H ops ∧ claim.id = j := by
  have hmem := List.mem_filter.mp (List.mem_of_getLast? h)
  exact ⟨hmem.1, by simpa using hmem.2⟩

/-- The row accepts exactly the holder's token. -/
theorem accepts_iff_holds (hops : ∀ op ∈ ops, op.isRetention = false)
    (hinj : Set.InjOn H.hashToken
      {t | t = token ∨ t ∈ (claims H ops).map ClaimedJob.runnerToken})
    (hj : (after H ops).job? j = some job) : accepts H job token = true ↔ Holds H ops j token := by
  have hf := fenced_after H ops hops j
  have hrow := (after_sound H ops).row hj
  have htoken {claim : ClaimedJob} (hlatest : latestClaim? H ops j = some claim) :
      claim.runnerToken ∈ (claims H ops).map ClaimedJob.runnerToken :=
    List.mem_map.mpr ⟨claim, (mem_of_latestClaim? hlatest).1, rfl⟩
  constructor
  · intro hacc
    obtain ⟨hash, hhash⟩ := Option.isSome_iff_exists.mp (accepts_isSome hacc)
    obtain ⟨claim, hlatest, hclaim⟩ := hf.holder job hash hj hhash
    have hequal : hash = H.hashToken token := by simpa [accepts, hhash] using hacc
    refine ⟨claim, job, hlatest, ?_, hj, ?_⟩
    · exact hinj (.inr (htoken hlatest)) (.inl rfl) (hclaim.symm.trans hequal)
    · rw [← hrow.token, hhash]
      rfl
  · rintro ⟨claim, job', hlatest, rfl, hj', ha⟩
    obtain rfl : job = job' := Option.some.inj (hj.symm.trans hj')
    rw [← hrow.token] at ha
    obtain ⟨hash, hhash⟩ := Option.isSome_iff_exists.mp ha
    obtain ⟨claim', hlatest', hclaim⟩ := hf.holder job hash hj hhash
    obtain rfl : claim = claim' := Option.some.inj (hlatest.symm.trans hlatest')
    simp [accepts, hhash, hclaim]

theorem refused_of_not_holds (hops : ∀ op ∈ ops, op.isRetention = false)
    (hinj : Set.InjOn H.hashToken
      {t | t = token ∨ t ∈ (claims H ops).map ClaimedJob.runnerToken})
    (h : ¬ Holds H ops j token) : Refused H (after H ops) j token := by
  intro job hj
  have := mt (accepts_iff_holds hops hinj hj).mp h
  simpa using this

/-- A job's attempts count up, so no pair is submitted twice. -/
theorem submissions_nodup (hops : ∀ op ∈ ops, op.isRetention = false) : (submissions H ops).Nodup := by
  refine Table.nodup_composite ClaimedJob.id ClaimedJob.attempt (claims H ops) fun j => ?_
  have hf := fenced_after H ops hops j
  cases hj : (after H ops).job? j with
  | none =>
    rw [hf.absent hj]
    exact List.nodup_nil
  | some job =>
    rw [hf.attempts job hj]
    exact List.nodup_range'

end

/-- Runner fencing: a job opens to the token of its latest claim while it is active
and to nothing else; every other token changes and reads nothing, and no runner
writes to a job but its own. -/
theorem runner_fencing (H : Hashing) (ops : List Op) (hops : ∀ op ∈ ops, op.isRetention = false)
    (hdrawn : ((claims H ops).map ClaimedJob.runnerToken).Nodup) (token : String)
    (hinj : Set.InjOn H.hashToken
      {t | t = token ∨ t ∈ (claims H ops).map ClaimedJob.runnerToken}) :
    (∀ j job db, (getForRunner H j token (after H ops) = .ok (job, db) ∨
        getForRunnerLocked H j token (after H ops) = .ok (job, db)) →
      ∃ claim, latestClaim? H ops j = some claim ∧ claim.runnerToken = token ∧
        claim.attempt = job.attempt ∧ job.state.isActive = true ∧
        ∀ c ∈ claims H ops, c.runnerToken = token → c = claim) ∧
    (∀ j, ¬ Holds H ops j token →
      getForRunner H j token (after H ops) = .error .jobNotFound ∧
        ∀ op : Op, op.runner? = some (j, token) → step H op (after H ops) = after H ops) ∧
    (∀ (op : Op) j k, op.runner? = some (j, token) → j ≠ k →
      (step H op (after H ops)).slice k = (after H ops).slice k) ∧
    (submissions H ops).Nodup := by
  refine ⟨?_, ?_, fun op j k hop hk => step_runner_other hop hk, submissions_nodup hops⟩
  · rintro j job db (hread | hread)
    all_goals
      obtain ⟨-, hj, hacc⟩ := ok_runner hread
      obtain ⟨claim, job', hlatest, rfl, hj', ha⟩ := (accepts_iff_holds hops hinj hj).mp hacc
      obtain rfl : job = job' := Option.some.inj (hj.symm.trans hj')
      refine ⟨claim, hlatest, rfl, ?_, ha, fun c hc hsame => ?_⟩
      · have hattempts := (fenced_after H ops hops j).attempts job hj
        have hlast := congrArg List.getLast? hattempts
        have hclaim : ((claims H ops).filter fun claim => decide (claim.id = j)).getLast? =
          some claim := hlatest
        rw [List.getLast?_map, hclaim, Option.map_some, List.getLast?_range'] at hlast
        split at hlast
        · cases hlast
        · have := Option.some.inj hlast
          omega
      · exact List.inj_on_of_nodup_map hdrawn hc (mem_of_latestClaim? hlatest).1 hsame
  · intro j hnot
    have hrefused := refused_of_not_holds hops hinj hnot
    exact ⟨getForRunner_refused hrefused, fun op hop => step_refused hop hrefused⟩

/-- After a lost dispatch was requeued and claimed again, the first token is dead. -/
theorem runner_fencing_requeued :
    let ops := Sample.claimed ++ [.reconcileExpiredDispatch 99000000 ⟨1, 1, .dispatched⟩ .requeue 60 "",
      .claimNext 99000001 "token-2" 4 60 []]
    step Sample.hashing (.markStarted 99000002 1 "token") (after Sample.hashing ops) =
      after Sample.hashing ops ∧ submissions Sample.hashing ops = [(1, 1), (1, 2)] := by
  intro ops
  have hinj : Function.Injective Sample.hashing.hashToken := fun a b h => by
    simpa [Sample.hashing] using h
  have hfence := runner_fencing Sample.hashing ops (by decide) (by decide) "token" hinj.injOn
  refine ⟨(hfence.2.1 1 ?_).2 _ rfl, by decide⟩
  rintro ⟨claim, job, hlatest, htoken, -⟩
  have hother : (latestClaim? Sample.hashing ops 1).map ClaimedJob.runnerToken = some "token-2" := by
    decide
  rw [hlatest, Option.map_some, htoken] at hother
  exact absurd hother (by decide)

end ResearchGateway
