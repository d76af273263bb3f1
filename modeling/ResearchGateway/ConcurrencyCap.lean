import ResearchGateway.ControllerSteps

/-! The concurrency cap when leadership moves.

A claim counts the active jobs and then takes a row. Nothing locks the count, so
what stands between it and the take is the advisory lock, and a replica that lost
the lock after the top of its loop goes on and takes. The cap survives exactly
when every take still finds room (`concurrency_cap_iff`), which it does as long as
no two replicas are between the two statements at once. -/
namespace ResearchGateway
open Library

/-! ### Counting active jobs -/

section
variable {H : Hashing} {op : Op} {acct : Account} {j : JobId} {s s' : Slice} {job job' : ResearchJob}
  {w : Write}

/-- Only a claim makes a job active. -/
theorem Effect.active (h : Effect H op acct job w) (hs : RowSound job)
    (ha : w.job.state.isActive = true) : job.state.isActive = true ∨ acct.claims ≠ [] := by
  cases h with
  | dispatched => exact .inr (by simp)
  | renewed | touched | progressed | charged => exact .inl ha
  | dispatchRequeued | runnerRequeued | succeeded => cases ha
  | started hst => exact .inl (by rw [hst]; rfl)
  | cancelRequested hst => rcases hst with hst | hst <;> exact .inl (by rw [hst]; rfl)
  | closed hst => rcases hst with ⟨rfl, -⟩ | ⟨rfl, -⟩ <;> cases ha
  | revoked hst =>
    have hsame := hs.revokeToken_eq hst
    simp only [hsame] at ha
    exact .inl ha

theorem JobStep.active (h : JobStep H op j acct s s') (hs : s.Sound) (hj' : s'.job = some job')
    (ha : job'.state.isActive = true) :
    (∃ job, s.job = some job ∧ job.state.isActive = true) ∨ acct.claims ≠ [] := by
  cases h with
  | kept => exact .inl ⟨job', hj', ha⟩
  | created =>
    cases hj'
    cases ha
  | written _ heffect =>
    cases hj'
    exact (heffect.active (hs.row _ rfl) ha).imp_left fun hbefore => ⟨_, rfl, hbefore⟩
  | pruned _ hst =>
    cases hj'
    rw [JobState.not_active_of_terminal hst] at ha
    cases ha
  | artifactDeleted => exact .inl ⟨job', hj', ha⟩
  | orphaned =>
    cases hj'
    exact .inl ⟨_, rfl, ha⟩
  | removed => cases hj'

end

section
variable {H : Hashing} {settings : ControllerSettings} {db : Database}

/-- An operation makes no more jobs active than it claims. -/
theorem activeCount_step (hs : Sound db) (op : Op) :
    activeCount (step H op db) ≤ activeCount db + (claimsOf H op db).length := by
  have hcount : ((step H op db).jobs.rows.filter fun job => job.state.isActive).length ≤
      (db.jobs.rows.filter fun job => job.state.isActive).length +
        ((claimsOf H op db).map ClaimedJob.id).length := by
    refine Table.count_le _ fun k job' hj' ha => ?_
    refine ((job_step H op db k).active (hs k) hj' ha).imp id fun hclaims => ?_
    obtain ⟨claim, hclaim⟩ := List.exists_mem_of_ne_nil _ hclaims
    obtain ⟨hmem, hid⟩ := List.mem_filter.mp hclaim
    exact List.mem_map.mpr ⟨claim, hmem, by simpa using hid⟩
  simpa [activeCount] using hcount

/-- A claim makes its job active, and only one job at a time is claimed. -/
theorem activeCount_claimed {now : Time} {token : String} {limit lease : Nat} {locked : List JobId}
    (h : claimsOf H (.claimNext now token limit lease locked) db ≠ []) :
    activeCount db < activeCount (step H (.claimNext now token limit lease locked) db) ∧
      (claimsOf H (.claimNext now token limit lease locked) db).length = 1 := by
  unfold claimsOf at h ⊢
  cases ht : transact H (.claimNext now token limit lease locked) db with
  | error e => simp [commit_error ht] at h
  | ok p =>
    rw [commit_ok ht] at h
    rw [step_of_ok ht, commit_ok ht]
    obtain ⟨claim, _, hclaim, hret⟩ := ok_bind ht
    obtain ⟨hout, rfl⟩ := ok_pure hret
    rw [← hout] at h ⊢
    rcases claimNext_ok hclaim with ⟨rfl, -⟩ | ⟨job, rfl, job', w, hj, heffect, hdb⟩
    · exact absurd rfl h
    · obtain ⟨hpending, hw⟩ : job'.state = .pending ∧ w.job.state = .dispatched := by
        generalize hacct : (⟨[⟨job.id, token, job.attempt + 1⟩], {}⟩ : Account) = acct at heffect
        cases heffect with
        | dispatched hst => exact ⟨hst, rfl⟩
        | _ => simp at hacct
      have hid : w.job.id = job.id := heffect.id_eq.trans (Database.id_of_job? hj)
      refine ⟨Table.count_lt (k := job.id) (r := w.job) ?_ ?_ ?_ ?_, rfl⟩
      · intro k x hx ha
        have hne : w.job.id ≠ k := by
          rw [hid]
          intro heq
          subst heq
          have hsame : job' = x := Option.some.inj (hj.symm.trans hx)
          rw [← hsame, hpending] at ha
          cases ha
        refine ⟨x, ?_, ha⟩
        rw [hdb]
        exact (congrArg Slice.job (Database.slice_write_other db w hne)).trans hx
      · rw [hdb]
        exact Database.job?_write hj heffect.id_eq
      · rw [hw]
        rfl
      · intro x hx
        have hsame : job' = x := Option.some.inj (hj.symm.trans hx)
        rw [← hsame, hpending]
        rfl

end

/-! ### Runs -/

section
variable (H : Hashing) (settings : ControllerSettings)

/-- The replicas, recording the number of active jobs that each take finds. -/
def takes : Machine ControllerSystem ControllerInput Nat :=
  (controllers H settings).observing fun i w => (i.claims H settings w).map fun _ => activeCount w.db

end

section
variable {H : Hashing} {settings : ControllerSettings}

theorem activeCount_next {w : ControllerSystem} (hs : Sound w.db) (i : ControllerInput) :
    activeCount ((controllers H settings).next i w).db ≤
      activeCount w.db + (i.claims H settings w).length := by
  rw [controllers_db]
  unfold ControllerInput.claims
  cases i.op? settings w with
  | none => exact Nat.le_add_right ..
  | some op => exact activeCount_step hs op

/-- A take makes exactly one more job active. -/
theorem activeCount_take {w : ControllerSystem} (hs : Sound w.db) {i : ControllerInput}
    (h : i.claims H settings w ≠ []) :
    activeCount ((controllers H settings).next i w).db = activeCount w.db + 1 ∧
      (i.claims H settings w).length = 1 := by
  have hle := @activeCount_next H settings w hs i
  obtain ⟨replica, s, rfl, hphase⟩ := ControllerInput.counted_of_claims h
  have hop : (ControllerInput.turn replica s).op? settings w =
      some (.claimNext w.clock s.runnerToken (activeCount w.db + 1) settings.dispatchLeaseSeconds
        s.locked) := by
    simp [ControllerInput.op?, hphase, ControllerPhase.op?]
  rw [controllers_db] at hle ⊢
  unfold ControllerInput.claims at h hle ⊢
  rw [hop] at h hle ⊢
  simp only [Database.apply] at h hle ⊢
  obtain ⟨hlt, hone⟩ := activeCount_claimed h
  omega

/-- A replica that has counted did so before, or does now and found room. -/
theorem counted_next {w : ControllerSystem} {i : ControllerInput} {replica : Nat}
    (h : ((controllers H settings).next i w).phases replica = .counted) :
    (w.phases replica = .counted ∧ ∀ s, i ≠ .turn replica s) ∨
      (i.claims H settings w = [] ∧ activeCount w.db < settings.maxConcurrentJobs) := by
  by_cases hturn : ∃ s, i = .turn replica s
  · obtain ⟨s, rfl⟩ := hturn
    have hnext : ((w.phases replica).next H settings w.clock (w.leader = some replica) s w.db).2 =
        .counted := (Function.update_self ..).symm.trans h
    obtain ⟨hphase, hroom⟩ := ControllerPhase.next_counted hnext
    refine .inr ⟨?_, hroom⟩
    simp [ControllerInput.claims, ControllerInput.op?, hphase, ControllerPhase.op?]
  · refine .inl ⟨?_, fun s hs => hturn ⟨s, hs⟩⟩
    rcases controllers_phase i w replica with hsame | hlease | hout | ⟨s, hs, -⟩
    · rwa [hsame] at h
    · rw [hlease] at h
      cases h
    · rw [hout] at h
      cases h
    · exact absurd ⟨s, hs⟩ hturn

/-- What the takes of a run found, with one more input. -/
theorem takes_snoc (inputs : List ControllerInput) (i : ControllerInput) :
    (takes H settings).trace .initial (inputs ++ [i]) =
      (takes H settings).trace .initial inputs ++
        (i.claims H settings (controlled H settings inputs)).map fun _ =>
          activeCount (controlled H settings inputs).db :=
  Machine.trace_observing_snoc ..

/-- The cap holds as long as every take found room. -/
theorem cap_of_takes (inputs : List ControllerInput)
    (h : ∀ n ∈ (takes H settings).trace .initial inputs, n < settings.maxConcurrentJobs) :
    activeCount (controlled H settings inputs).db ≤ settings.maxConcurrentJobs := by
  induction inputs using List.reverseRecOn with
  | nil => exact Nat.zero_le _
  | append_singleton inputs i ih =>
    rw [takes_snoc] at h
    have hbefore := ih fun n hn => h n (List.mem_append_left _ hn)
    have hs : Sound (controlled H settings inputs).db := controlled_sound inputs
    rw [controlled_snoc]
    by_cases hclaims : i.claims H settings (controlled H settings inputs) = []
    · have hle := @activeCount_next H settings _ hs i
      rw [hclaims] at hle
      exact Nat.le_trans hle hbefore
    · obtain ⟨htake, -⟩ := activeCount_take hs hclaims
      obtain ⟨claim, hclaim⟩ := List.exists_mem_of_ne_nil _ hclaims
      have hroom := h _ (List.mem_append_right _ (List.mem_map.mpr ⟨claim, hclaim, rfl⟩))
      omega

/-- A run that keeps the cap takes only where there is room. -/
theorem takes_of_cap (inputs : List ControllerInput)
    (h : ∀ before, before <+: inputs →
      activeCount (controlled H settings before).db ≤ settings.maxConcurrentJobs) :
    ∀ n ∈ (takes H settings).trace .initial inputs, n < settings.maxConcurrentJobs := by
  induction inputs using List.reverseRecOn with
  | nil => simp
  | append_singleton inputs i ih =>
    intro n hn
    rw [takes_snoc] at hn
    rcases List.mem_append.mp hn with hn | hn
    · exact ih (fun before hb => h before (hb.trans (List.prefix_append ..))) n hn
    · obtain ⟨claim, hclaim, rfl⟩ := List.mem_map.mp hn
      have hafter := h _ List.prefix_rfl
      rw [controlled_snoc, (activeCount_take (controlled_sound inputs)
        (List.ne_nil_of_mem hclaim)).1] at hafter
      omega

/-- No two replicas are between the two statements of `claim_next`. -/
def ClaimsAlone (w : ControllerSystem) : Prop :=
  ∀ replica other, w.phases replica = .counted → w.phases other = .counted → replica = other

/-- A count stays true while nobody else has counted. -/
theorem takes_alone (inputs : List ControllerInput)
    (h : ∀ before, before <+: inputs → ClaimsAlone (controlled H settings before)) :
    (∀ replica, (controlled H settings inputs).phases replica = .counted →
      activeCount (controlled H settings inputs).db < settings.maxConcurrentJobs) ∧
    ∀ n ∈ (takes H settings).trace .initial inputs, n < settings.maxConcurrentJobs := by
  induction inputs using List.reverseRecOn with
  | nil =>
    refine ⟨fun replica hphase => ?_, by simp⟩
    cases hphase
  | append_singleton inputs i ih =>
    obtain ⟨hroom, htakes⟩ := ih fun before hb => h before (hb.trans (List.prefix_append ..))
    have halone := h inputs (List.prefix_append ..)
    have hs : Sound (controlled H settings inputs).db := controlled_sound inputs
    have hnext := @activeCount_next H settings _ hs i
    refine ⟨fun replica hphase => ?_, fun n hn => ?_⟩
    · rw [controlled_snoc] at hphase ⊢
      rcases counted_next hphase with ⟨hbefore, hother⟩ | ⟨hclaims, hlt⟩
      · have hclaims : i.claims H settings (controlled H settings inputs) = [] := by
          by_contra hclaims
          obtain ⟨q, s, rfl, hq⟩ := ControllerInput.counted_of_claims hclaims
          exact hother s (by rw [halone replica q hbefore hq])
        have hlt := hroom replica hbefore
        simp only [hclaims, List.length_nil] at hnext
        omega
      · simp only [hclaims, List.length_nil] at hnext
        omega
    · rw [takes_snoc] at hn
      rcases List.mem_append.mp hn with hn | hn
      · exact htakes n hn
      · obtain ⟨claim, hclaim, rfl⟩ := List.mem_map.mp hn
        obtain ⟨q, s, rfl, hq⟩ := ControllerInput.counted_of_claims (List.ne_nil_of_mem hclaim)
        exact hroom q hq

theorem mem_takes {inputs : List ControllerInput} {n : Nat} :
    n ∈ (takes H settings).trace .initial inputs ↔ ∃ before i, before ++ [i] <+: inputs ∧
      (i.queueHead? (controlled H settings before)).isSome ∧
        activeCount (controlled H settings before).db = n := by
  refine (Machine.mem_trace_observing _).trans ?_
  refine exists_congr fun before => exists_congr fun i => and_congr_right fun _ => ?_
  show n ∈ (i.claims H settings (controlled H settings before)).map
    (fun _ => activeCount (controlled H settings before).db) ↔ _
  cases hhead : i.queueHead? (controlled H settings before) with
  | none => simp [ControllerInput.claims_idle hhead]
  | some job =>
    obtain ⟨token, hclaims⟩ := @ControllerInput.claims_head H settings i _ job hhead
    simp [hclaims, eq_comm]

end

/-- The cap holds in every state of a run exactly when there still is room whenever a
replica that has counted finds a row to take; it does when no two replicas are inside
`claim_next` at once. -/
theorem concurrency_cap_iff (H : Hashing) (settings : ControllerSettings)
    (inputs : List ControllerInput) :
    ((∀ before, before <+: inputs →
        activeCount (controlled H settings before).db ≤ settings.maxConcurrentJobs) ↔
      ∀ before i, before ++ [i] <+: inputs →
        (i.queueHead? (controlled H settings before)).isSome →
          activeCount (controlled H settings before).db < settings.maxConcurrentJobs) ∧
    ((∀ before, before <+: inputs → ClaimsAlone (controlled H settings before)) →
      ∀ before, before <+: inputs →
        activeCount (controlled H settings before).db ≤ settings.maxConcurrentJobs) := by
  have hcap (htakes : ∀ n ∈ (takes H settings).trace .initial inputs, n < settings.maxConcurrentJobs) :
      ∀ before, before <+: inputs →
        activeCount (controlled H settings before).db ≤ settings.maxConcurrentJobs := by
    rintro before ⟨rest, rfl⟩
    rw [Machine.trace_append] at htakes
    exact cap_of_takes before fun n hn => htakes n (List.mem_append_left _ hn)
  refine ⟨⟨fun h before i hpre hhead => ?_, fun h => hcap fun n hn => ?_⟩,
    fun halone => hcap (takes_alone inputs halone).2⟩
  · exact takes_of_cap inputs h _ (mem_takes.mpr ⟨before, i, hpre, hhead, rfl⟩)
  · obtain ⟨before, i, hpre, hhead, rfl⟩ := mem_takes.mp hn
    exact h before i hpre hhead

/-! ### A leader that lost its lock -/
namespace Sample

/-- One job at a time. -/
def controllerSettings : ControllerSettings :=
  ⟨1, 120, 100, 60, 2, Nat.one_pos, by decide, by decide, by decide⟩

/-- The turns of a replica from the top of its loop to its count, with nothing to reconcile. -/
def uptoCount (replica : Nat) : List ControllerInput :=
  List.replicate 6 (.turn replica {})

/-- Two jobs wait. The first replica counts and loses its lock; the second acquires it,
counts and takes; then the first one takes. -/
def handOver : List ControllerInput :=
  [.request (.createJob 0 1 "user" "key-1" request) rfl,
    .request (.createJob 0 2 "user" "key-2" request) rfl, .acquire 0] ++ uptoCount 0 ++
    [.loseLock, .acquire 1] ++ uptoCount 1 ++
    [.turn 1 {runnerToken := "token-1"}, .turn 0 {runnerToken := "token-0"}]

end Sample

/-- Two jobs are active where one may be. -/
theorem concurrency_cap_exceeded :
    ¬ ∀ before, before <+: Sample.handOver →
      activeCount (controlled Sample.hashing Sample.controllerSettings before).db ≤
        Sample.controllerSettings.maxConcurrentJobs := by
  intro h
  have hcap := h _ List.prefix_rfl
  revert hcap
  decide +kernel

end ResearchGateway
