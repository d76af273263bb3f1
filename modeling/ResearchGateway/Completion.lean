import ResearchGateway.ArtifactSteps
import ResearchGateway.Settlement

/-! A completion happens at once and once.

Between its two transactions a request writes to a directory that is its own, so its
objects are there when it commits, whatever the others do. The commit passes the
token check again, and a token is good for one attempt only. From then on the job is
over: its four rows stay, and no other request goes through (`completion_once`). -/
namespace ResearchGateway
open Library

/-! ### Uploads -/

/-- Each upload under way has an identifier of its own. -/
structure UploadsApart (w : ArtifactSystem) : Prop where
  drawn : ∀ r u, w.requests r = .uploading u → u.uploadId ∈ w.drawn
  alone : ∀ r r' u u', w.requests r = .uploading u → w.requests r' = .uploading u' →
    u.uploadId = u'.uploadId → r = r'

theorem UploadsApart.left {w : ArtifactSystem} (h : UploadsApart w) (r₀ : Nat)
    (state : Option JobState) : UploadsApart (w.enter r₀ (.ended state)) where
  drawn r u hu := by
    rcases update_cases hu with ⟨-, hended⟩ | ⟨-, hbefore⟩
    · cases hended
    · exact h.drawn r u hbefore
  alone r r' u u' hu hu' hid := by
    rcases update_cases hu with ⟨-, hended⟩ | ⟨-, hbefore⟩
    · cases hended
    · rcases update_cases hu' with ⟨-, hended⟩ | ⟨-, hbefore'⟩
      · cases hended
      · exact h.alone r r' u u' hbefore hbefore' hid

section
variable {H : Hashing} {encoding : Encoding} {settings : RetentionSettings} {i : ArtifactInput}
  {w w' : ArtifactSystem} {out : List Win}

theorem ArtifactStep.apart (h : ArtifactStep H encoding settings i w out w') (ha : UploadsApart w) :
    UploadsApart w' := by
  cases h with
  | idle | ticked | operated | crashed | began | cleaned => exact ⟨ha.drawn, ha.alone⟩
  | leftover | gaveUp | won =>
    apply UploadsApart.left
    exact ⟨ha.drawn, ha.alone⟩
  | @checked r₀ request uploadId attempt hphase hfresh hcheck =>
    have hother {r : Nat} {u : Upload} (hu : w.requests r = .uploading u) : u.uploadId ≠ uploadId :=
      fun hid => hfresh (hid ▸ ha.drawn r u hu)
    refine ⟨fun r u hu => ?_, fun r r' u u' hu hu' hid => ?_⟩
    · rcases update_cases hu with ⟨-, hnew⟩ | ⟨-, hbefore⟩
      · cases hnew
        exact List.mem_cons_self ..
      · exact List.mem_cons_of_mem _ (ha.drawn r u hbefore)
    · rcases update_cases hu with ⟨rfl, hnew⟩ | ⟨-, hbefore⟩
      · rcases update_cases hu' with ⟨rfl, -⟩ | ⟨-, hbefore'⟩
        · rfl
        · cases hnew
          exact absurd hid.symm (hother hbefore')
      · rcases update_cases hu' with ⟨rfl, hnew⟩ | ⟨-, hbefore'⟩
        · cases hnew
          exact absurd hid (hother hbefore)
        · exact ha.alone r r' u u' hbefore hbefore' hid
  | @put r₀ u₀ file rest hphase hpending =>
    refine ⟨fun r u hu => ?_, fun r r' u u' hu hu' hid => ?_⟩
    · rcases update_cases hu with ⟨-, hnew⟩ | ⟨-, hbefore⟩
      · cases hnew
        exact ha.drawn r₀ u₀ hphase
      · exact ha.drawn r u hbefore
    · rcases update_cases hu with ⟨rfl, hnew⟩ | ⟨-, hbefore⟩
      · rcases update_cases hu' with ⟨rfl, -⟩ | ⟨-, hbefore'⟩
        · rfl
        · cases hnew
          exact ha.alone r r' u₀ u' hphase hbefore' hid
      · rcases update_cases hu' with ⟨rfl, hnew⟩ | ⟨-, hbefore'⟩
        · cases hnew
          exact ha.alone r r' u u₀ hbefore hphase hid
        · exact ha.alone r r' u u' hbefore hbefore' hid

theorem served_apart (inputs : List ArtifactInput) :
    UploadsApart (served H encoding settings inputs) := by
  refine Machine.run_invariant (M := artifactSystem H encoding settings) (A := fun _ => True)
    (P := UploadsApart) ?_ ⟨fun r u hu => ?_, fun r r' u u' hu => ?_⟩ inputs fun _ _ => trivial
  · exact fun i w _ ha => (artifactSystem_step H encoding settings i w).apart ha
  · cases hu
  · cases hu

/-! ### What a request has stored -/

theorem Upload.key_directory (settings : RetentionSettings) (u : Upload) (name : String) :
    Directory settings.artifactJobsPrefix u.uploadId (u.key settings name) := objectKey_directory ..

theorem Upload.key_ne {u u' : Upload} (h : u.uploadId ≠ u'.uploadId) (name name' : String) :
    u.key settings name ≠ u'.key settings name' := by
  intro hkey
  have hdirectory := u'.key_directory settings name'
  rw [← hkey] at hdirectory
  exact h ((u.key_directory settings name).unique hdirectory)

/-- The files that a request has put are in the store, and the rest is to come. -/
def UploadKept (encoding : Encoding) (settings : RetentionSettings) (store : ArtifactStore)
    (u : Upload) : Prop :=
  ∃ done, completionFiles encoding u.request.completion = done ++ u.pending ∧
    u.stored = done.map (fun file => file.stored (u.key settings file.name)) ∧
    ∀ file ∈ done, store.Keeps (u.key settings file.name) file.content

/-- What somebody else puts does not touch the files of a request. -/
theorem UploadKept.other {store : ArtifactStore} {u u' : Upload} (h : UploadKept encoding settings store u)
    (hid : u'.uploadId ≠ u.uploadId) (now : Time) (name content : String) :
    UploadKept encoding settings (store.put now (u'.key settings name) content) u := by
  obtain ⟨done, hfiles, hstored, hkept⟩ := h
  exact ⟨done, hfiles, hstored, fun file hfile => (hkept file hfile).put (Upload.key_ne hid name file.name)⟩

/-- A request puts its next file. -/
theorem UploadKept.put {store : ArtifactStore} {u : Upload} {file : CompletionFile}
    {rest : List CompletionFile} (h : UploadKept encoding settings store u)
    (hpending : u.pending = file :: rest) (now : Time) (began : Option Time) :
    UploadKept encoding settings (store.put now (u.key settings file.name) file.content)
      {u with
        pending := rest
        stored := u.stored ++ [file.stored (u.key settings file.name)]
        began := began} := by
  obtain ⟨done, hfiles, hstored, hkept⟩ := h
  rw [hpending] at hfiles
  refine ⟨done ++ [file], by simp [hfiles], by simp [hstored]; exact ⟨fun _ _ => rfl, rfl⟩, ?_⟩
  intro f hf
  rcases List.mem_append.mp hf with hf | hf
  · refine (hkept f hf).put fun hkey => ?_
    have hname : file.name = f.name := (objectKey_inj hkey).2.2.2
    -- The four names differ.
    have hnames : ((done ++ file :: rest).map CompletionFile.name).Nodup := by
      rw [← hfiles, completionFiles_names]
      decide
    rw [List.map_append, List.nodup_append] at hnames
    exact hnames.2.2 f.name (List.mem_map_of_mem hf) file.name (by simp) hname.symm
  · obtain rfl := List.mem_singleton.mp hf
    exact ArtifactStore.keeps_put ..

def UploadsKept (encoding : Encoding) (settings : RetentionSettings) (w : ArtifactSystem) : Prop :=
  ∀ r u, w.requests r = .uploading u → UploadKept encoding settings w.store u

theorem ArtifactStep.uploads_kept (h : ArtifactStep H encoding settings i w out w')
    (hi : i.isCleanup = false) (ha : UploadsApart w) (hk : UploadsKept encoding settings w) :
    UploadsKept encoding settings w' := by
  have hclean {P : Prop} (hi' : i.isCleanup = true) : P := by
    rw [hi] at hi'
    cases hi'
  cases h with
  | idle | ticked | operated | crashed => exact hk
  | began hi' | cleaned hi' => exact hclean hi'
  | gaveUp | won =>
    intro r u hu
    rcases update_cases hu with ⟨-, hended⟩ | ⟨-, hbefore⟩
    · cases hended
    · exact hk r u hbefore
  | @checked r₀ request uploadId attempt hphase hfresh hcheck =>
    intro r u hu
    rcases update_cases hu with ⟨-, hnew⟩ | ⟨-, hbefore⟩
    · cases hnew
      exact ⟨[], rfl, rfl, fun _ hf => nomatch hf⟩
    · exact hk r u hbefore
  | @put r₀ u₀ file rest hphase hpending =>
    intro r u hu
    rcases update_cases hu with ⟨-, hnew⟩ | ⟨hr, hbefore⟩
    · cases hnew
      exact (hk r₀ u₀ hphase).put hpending ..
    · refine (hk r u hbefore).other (fun hid => hr ?_) ..
      exact (ha.alone r₀ r u₀ u hphase hbefore hid).symm
  | @leftover r₀ u₀ file rest content hphase hpending =>
    intro r u hu
    rcases update_cases hu with ⟨-, hended⟩ | ⟨hr, hbefore⟩
    · cases hended
    · refine (hk r u hbefore).other (fun hid => hr ?_) ..
      exact (ha.alone r₀ r u₀ u hphase hbefore hid).symm

theorem served_kept (inputs : List ArtifactInput) (hi : ∀ i ∈ inputs, i.isCleanup = false) :
    UploadsKept encoding settings (served H encoding settings inputs) := by
  induction inputs using List.reverseRecOn with
  | nil => exact fun r u hu => nomatch hu
  | append_singleton inputs i ih =>
    have hbefore := ih fun k hk => hi k (List.mem_append_left _ hk)
    have hquiet := hi i (List.mem_append_right _ (List.mem_singleton_self i))
    rw [served_snoc]
    exact (artifactSystem_step H encoding settings i _).uploads_kept hquiet (served_apart inputs) hbefore

/-! ### Who holds the job -/

/-- Without cleaners nothing is deleted. -/
theorem operations_kept (inputs : List ArtifactInput) (hi : ∀ i ∈ inputs, i.isCleanup = false) :
    ∀ op ∈ operations H encoding settings inputs, op.isRetention = false := by
  induction inputs using List.reverseRecOn with
  | nil => exact fun _ hop => nomatch hop
  | append_singleton inputs i ih =>
    rw [operations_snoc]
    intro op hop
    rcases List.mem_append.mp hop with hop | hop
    · exact ih (fun k hk => hi k (List.mem_append_left _ hk)) op hop
    · have hquiet := hi i (List.mem_append_right _ (List.mem_singleton_self i))
      cases i with
      | other op' hother =>
        obtain rfl := List.mem_singleton.mp hop
        exact (Op.stamped_isOther hother _).1
      | commit r =>
        simp only [ArtifactInput.ops] at hop
        split at hop
        · split at hop
          · obtain rfl := List.mem_singleton.mp hop
            rfl
          · cases hop
        · cases hop
      | cleaner c answer => cases hquiet
      | _ => cases hop

/-- The claim whose token a request presents gave the attempt that it has read. -/
def HeldBy (H : Hashing) (claims : List ClaimedJob) (u : Upload) : Prop :=
  ∃ claim ∈ claims, claim.id = u.request.jobId ∧
    H.hashToken claim.runnerToken = H.hashToken u.request.runnerToken ∧ claim.attempt = u.attempt

/-- What a row that accepts a token says about the claims so far. -/
theorem claim_of_accepts (inputs : List ArtifactInput) (hi : ∀ i ∈ inputs, i.isCleanup = false)
    {j : JobId} {job : ResearchJob} {token : String}
    (hj : (served H encoding settings inputs).db.job? j = some job) (h : accepts H job token = true) :
    ∃ claim ∈ claims H (operations H encoding settings inputs), claim.id = j ∧
      H.hashToken claim.runnerToken = H.hashToken token ∧ claim.attempt = job.attempt := by
  have hf := fenced_after H (operations H encoding settings inputs) (operations_kept inputs hi) j
  rw [← served_db, hj] at hf
  obtain ⟨claim, hclaim, hhash, hattempt⟩ := hf.latest h
  obtain ⟨hclaim, hid⟩ := List.mem_filter.mp hclaim
  exact ⟨claim, hclaim, by simpa using hid, hhash, hattempt⟩

theorem claims_append (ops more : List Op) : claims H ops ⊆ claims H (ops ++ more) := by
  unfold claims
  rw [Machine.trace_append]
  exact List.subset_append_left ..

theorem uploads_held (inputs : List ArtifactInput) (hi : ∀ i ∈ inputs, i.isCleanup = false) :
    ∀ r u, (served H encoding settings inputs).requests r = .uploading u →
      HeldBy H (claims H (operations H encoding settings inputs)) u := by
  induction inputs using List.reverseRecOn with
  | nil => exact fun r u hu => nomatch hu
  | append_singleton inputs i ih =>
    have hbefore := fun k hk => hi k (List.mem_append_left _ hk)
    intro r u hu
    rw [operations_snoc]
    have hgrow {u : Upload} (h : HeldBy H (claims H (operations H encoding settings inputs)) u) :
        HeldBy H (claims H (operations H encoding settings inputs ++
          i.ops settings (served H encoding settings inputs))) u := by
      obtain ⟨claim, hclaim, hholds⟩ := h
      exact ⟨claim, claims_append _ _ hclaim, hholds⟩
    have hstep := artifactSystem_step H encoding settings i (served H encoding settings inputs)
    rw [served_snoc] at hu
    generalize (artifactSystem H encoding settings).next i _ = w' at hstep hu
    generalize (artifactSystem H encoding settings).out i _ = out at hstep
    cases hstep with
    | idle | ticked | operated | crashed | began | cleaned => exact hgrow (ih hbefore r u hu)
    | leftover | gaveUp | won =>
      rcases update_cases hu with ⟨-, hended⟩ | ⟨-, hold⟩
      · cases hended
      · exact hgrow (ih hbefore r u hold)
    | checked hphase hfresh hcheck =>
      rcases update_cases hu with ⟨-, hnew⟩ | ⟨-, hold⟩
      · cases hnew
        obtain ⟨-, job, hj, haccepts, rfl⟩ := completionCheck_ok hcheck
        exact hgrow (claim_of_accepts inputs hbefore hj haccepts)
      · exact hgrow (ih hbefore r u hold)
    | @put r₀ u₀ file rest hphase hpending =>
      rcases update_cases hu with ⟨-, hnew⟩ | ⟨-, hold⟩
      · cases hnew
        exact hgrow (ih hbefore r₀ u₀ hphase)
      · exact hgrow (ih hbefore r u hold)

/-! ### Wins -/

def Win.jobId (win : Win) : JobId := win.upload.request.jobId

/-- What is there of a completion that went through. -/
structure WinKept (encoding : Encoding) (settings : RetentionSettings) (w : ArtifactSystem)
    (win : Win) : Prop where
  row : ∃ job, w.db.job? win.jobId = some job ∧ job.state = .succeeded ∧
    job.attempt = win.upload.attempt
  rows : ∃ serial, w.db.artifactsOf win.jobId =
    artifactRows win.time win.jobId serial win.upload.stored
  pending : win.upload.pending = []
  files : UploadKept encoding settings w.store win.upload
  drawn : win.upload.uploadId ∈ w.drawn
  apart : ∀ r u, w.requests r = .uploading u → u.uploadId ≠ win.upload.uploadId

theorem WinKept.ended {win : Win} (h : WinKept encoding settings w win) : Ended w.db win.jobId := by
  obtain ⟨job, hj, hs, -⟩ := h.row
  exact ⟨job, hj, by rw [hs]; rfl⟩

/-- Nothing that goes on besides touches a job that has ended. -/
theorem ArtifactStep.ended_slice (h : ArtifactStep H encoding settings i w out w')
    (hi : i.isCleanup = false) (hs : Sound w.db) {j : JobId} (hj : Ended w.db j) :
    w'.db.slice j = w.db.slice j := by
  cases h with
  | operated hop => exact hj.step_slice hs (Op.stamped_isOther hop _).1
  | won hphase hpending hcommit =>
    obtain rfl := won_step hcommit
    exact hj.step_slice hs rfl
  | cleaned hi' =>
    rw [hi] at hi'
    cases hi'
  | _ => rfl

theorem ArtifactStep.win_kept (h : ArtifactStep H encoding settings i w out w')
    (hi : i.isCleanup = false) (hs : Sound w.db) {win : Win} (hw : WinKept encoding settings w win) :
    WinKept encoding settings w' win := by
  have hslice := h.ended_slice hi hs hw.ended
  have hrow := hw.row
  have hrows := hw.rows
  rw [← show w'.db.job? win.jobId = w.db.job? win.jobId from congrArg Slice.job hslice] at hrow
  rw [← show w'.db.artifactsOf win.jobId = w.db.artifactsOf win.jobId from
    congrArg Slice.artifacts hslice] at hrows
  have hleft {r₀ : Nat} {state : Option JobState} {store : ArtifactStore} {db : Database} :
      ∀ r u, (({w with store := store, db := db} : ArtifactSystem).enter r₀ (.ended state)).requests r =
        .uploading u → u.uploadId ≠ win.upload.uploadId := by
    intro r u hu
    rcases update_cases hu with ⟨-, hended⟩ | ⟨-, hbefore⟩
    · cases hended
    · exact hw.apart r u hbefore
  cases h with
  | idle | ticked | operated | crashed | began =>
    exact ⟨hrow, hrows, hw.pending, hw.files, hw.drawn, hw.apart⟩
  | gaveUp | won => exact ⟨hrow, hrows, hw.pending, hw.files, hw.drawn, hleft⟩
  | cleaned hi' =>
    rw [hi] at hi'
    cases hi'
  | @checked r₀ request uploadId attempt hphase hfresh hcheck =>
    refine ⟨hrow, hrows, hw.pending, hw.files, List.mem_cons_of_mem _ hw.drawn, fun r u hu => ?_⟩
    rcases update_cases hu with ⟨-, hnew⟩ | ⟨-, hbefore⟩
    · cases hnew
      intro heq
      subst heq
      exact hfresh hw.drawn
    · exact hw.apart r u hbefore
  | @put r₀ u₀ file rest hphase hpending =>
    refine ⟨hrow, hrows, hw.pending, hw.files.other (hw.apart r₀ u₀ hphase) .., hw.drawn,
      fun r u hu => ?_⟩
    rcases update_cases hu with ⟨-, hnew⟩ | ⟨-, hbefore⟩
    · cases hnew
      exact hw.apart r₀ u₀ hphase
    · exact hw.apart r u hbefore
  | @leftover r₀ u₀ file rest content hphase hpending =>
    exact ⟨hrow, hrows, hw.pending, hw.files.other (hw.apart r₀ u₀ hphase) .., hw.drawn, hleft⟩

/-- What a commit that goes through finds and leaves. -/
theorem won_spec {u : Upload} {now : Time} {job : ResearchJob} {db db' : Database}
    (hs : Sound db) (h : u.commit H now db = .ok (job, db')) :
    ∃ before after, db.job? u.request.jobId = some before ∧ before.state = .running ∧
      accepts H before u.request.runnerToken = true ∧
      db'.job? u.request.jobId = some after ∧ after.state = .succeeded ∧
      after.attempt = before.attempt ∧
      db'.artifactsOf u.request.jobId =
        artifactRows now u.request.jobId db.artifactSerial u.stored := by
  obtain ⟨before, hj, hr, hslice⟩ := completionCommit_slice h
  obtain ⟨accepted, _, hrow, -⟩ := ok_bind h
  obtain ⟨rfl, haccepted, haccepts⟩ := ok_runner hrow
  obtain rfl := Option.some.inj (hj.symm.trans haccepted)
  have hnone : db.artifactsOf u.request.jobId = [] :=
    (hs u.request.jobId).artifacts before hj (by rw [hr]; decide)
  have hown := hslice u.request.jobId
  refine ⟨before, succeededJob now u.request.completion
    (completionResult u.request.completion u.stored) before, hj, hr, haccepts, ?_, rfl, rfl, ?_⟩
  · refine (congrArg Slice.job hown).trans ?_
    exact Database.job?_write hj rfl
  · refine (congrArg Slice.artifacts hown).trans ?_
    simp only [hnone, List.nil_append]
    exact List.filter_eq_self.mpr fun a ha => by simpa using artifactRows_jobId ha

/-- Nobody but a completion brings a job to SUCCEEDED. -/
theorem JobStep.succeeded {op : Op} {acct : Account} {j : JobId} {s s' : Slice} {job : ResearchJob}
    (h : JobStep H op j acct s s') (hop : op.completion? = none) (hret : op.isRetention = false)
    (hj : s'.job = some job) (hs : job.state = .succeeded) :
    ∃ before, s.job = some before ∧ before.state = .succeeded := by
  cases h with
  | kept => exact ⟨job, hj, hs⟩
  | created =>
    cases hj
    cases hs
  | pruned hop' | artifactDeleted hop' | orphaned hop' | removed hop' =>
    rw [hret] at hop'
    cases hop'
  | @written _ before w _ _ _ _ heffect =>
    obtain rfl := Option.some.inj hj
    refine ⟨before, rfl, ?_⟩
    cases heffect with
    | charged => exact hs
    | touched hst => rcases hst with hst | hst <;> simp [hst] at hs
    | progressed => exact hs
    | renewed hst => rcases hst with hst | hst <;> simp [hst] at hs
    | succeeded _ hcompletion =>
      rw [hop] at hcompletion
      cases hcompletion
    | closed hst => rcases hst with ⟨rfl, -⟩ | ⟨rfl, -⟩ <;> cases hs
    | revoked hst => rwa [revokeToken_state] at hs
    | dispatched | dispatchRequeued | runnerRequeued | started | cancelRequested => cases hs

end

/-! ### Runs -/

section
variable (H : Hashing) (encoding : Encoding) (settings : RetentionSettings)

/-- What holds of a run without cleaners. -/
structure CompletedRun (inputs : List ArtifactInput) : Prop where
  kept : ∀ win ∈ wins H encoding settings inputs,
    WinKept encoding settings (served H encoding settings inputs) win
  once : ((wins H encoding settings inputs).map Win.jobId).Nodup
  only : ∀ j job, (served H encoding settings inputs).db.job? j = some job →
    job.state = .succeeded → ∃ win ∈ wins H encoding settings inputs, win.jobId = j

/-- No two claims drew one token, and no two of their tokens have one hash. -/
structure TokensDrawn (inputs : List ArtifactInput) : Prop where
  drawn : ((claims H (operations H encoding settings inputs)).map ClaimedJob.runnerToken).Nodup
  inj : Set.InjOn H.hashToken
    {t | t ∈ (claims H (operations H encoding settings inputs)).map ClaimedJob.runnerToken}

end

section
variable {H : Hashing} {encoding : Encoding} {settings : RetentionSettings}

theorem TokensDrawn.before {inputs : List ArtifactInput} {i : ArtifactInput}
    (h : TokensDrawn H encoding settings (inputs ++ [i])) : TokensDrawn H encoding settings inputs := by
  have hmore : claims H (operations H encoding settings inputs) <+:
      claims H (operations H encoding settings (inputs ++ [i])) := by
    rw [operations_snoc]
    unfold claims
    rw [Machine.trace_append]
    exact List.prefix_append ..
  exact ⟨h.drawn.sublist (hmore.sublist.map _), h.inj.mono fun t ht => List.map_subset _ hmore.subset ht⟩

/-- One token opens one attempt. -/
theorem TokensDrawn.attempt {inputs : List ArtifactInput} (h : TokensDrawn H encoding settings inputs)
    {claim claim' : ClaimedJob} (hc : claim ∈ claims H (operations H encoding settings inputs))
    (hc' : claim' ∈ claims H (operations H encoding settings inputs))
    (hhash : H.hashToken claim.runnerToken = H.hashToken claim'.runnerToken) :
    claim.attempt = claim'.attempt := by
  have htoken := h.inj (List.mem_map_of_mem hc) (List.mem_map_of_mem hc') hhash
  rw [List.inj_on_of_nodup_map h.drawn hc hc' htoken]

/-- A request that goes through commits for the attempt it has read. -/
theorem won_attempt {inputs : List ArtifactInput} (hi : ∀ i ∈ inputs, i.isCleanup = false)
    (ht : TokensDrawn H encoding settings inputs) {r : Nat} {u : Upload} {before : ResearchJob}
    (hu : (served H encoding settings inputs).requests r = .uploading u)
    (hj : (served H encoding settings inputs).db.job? u.request.jobId = some before)
    (h : accepts H before u.request.runnerToken = true) : before.attempt = u.attempt := by
  obtain ⟨claim, hclaim, -, hhash, hattempt⟩ := uploads_held inputs hi r u hu
  obtain ⟨claim', hclaim', -, hhash', hattempt'⟩ := claim_of_accepts inputs hi hj h
  rw [← hattempt, ← hattempt']
  exact ht.attempt hclaim' hclaim (hhash'.trans hhash.symm)

/-- The request that goes through, with all it leaves. -/
theorem new_win {inputs : List ArtifactInput} (hi : ∀ i ∈ inputs, i.isCleanup = false)
    (ht : TokensDrawn H encoding settings inputs) {r : Nat} {u : Upload} {job : ResearchJob}
    {db : Database} (hphase : (served H encoding settings inputs).requests r = .uploading u)
    (hpending : u.pending = [])
    (hcommit : u.commit H (served H encoding settings inputs).clock
      (served H encoding settings inputs).db = .ok (job, db)) :
    WinKept encoding settings
      (({served H encoding settings inputs with db := db} : ArtifactSystem).enter r
        (.ended (some job.state)))
      ⟨r, u, (served H encoding settings inputs).clock⟩ := by
  obtain ⟨before, after, hj, -, haccepts, hafter, hs, hattempt, hrows⟩ :=
    won_spec (served_sound inputs) hcommit
  have ha := @served_apart H encoding settings inputs
  have hk := served_kept inputs hi r u hphase
  refine ⟨⟨after, hafter, hs, ?_⟩, ⟨_, hrows⟩, hpending, hk, ha.drawn r u hphase, ?_⟩
  · exact hattempt.trans (won_attempt hi ht hphase hj haccepts)
  · intro r' u' hu' hid
    rcases update_cases hu' with ⟨-, hended⟩ | ⟨hr, hbefore⟩
    · cases hended
    · exact hr (ha.alone r' r u' u hbefore hphase hid)

/-- Without a win no job gets to SUCCEEDED. -/
theorem CompletedRun.kept_next {inputs : List ArtifactInput} {i : ArtifactInput}
    (h : CompletedRun H encoding settings inputs)
    (hold : ∀ win ∈ wins H encoding settings inputs,
      WinKept encoding settings (served H encoding settings (inputs ++ [i])) win)
    (hwins : wins H encoding settings (inputs ++ [i]) = wins H encoding settings inputs)
    (hback : ∀ j job, (served H encoding settings (inputs ++ [i])).db.job? j = some job →
      job.state = .succeeded → ∃ before, (served H encoding settings inputs).db.job? j = some before ∧
        before.state = .succeeded) : CompletedRun H encoding settings (inputs ++ [i]) where
  kept := by rwa [hwins]
  once := by
    rw [hwins]
    exact h.once
  only j job hj hst := by
    obtain ⟨before, hbefore, hst⟩ := hback j job hj hst
    rw [hwins]
    exact h.only j before hbefore hst

/-- A win is the first one of its job, and no other job gets to SUCCEEDED by it. -/
theorem CompletedRun.won_next {inputs : List ArtifactInput} {i : ArtifactInput} {win : Win}
    (h : CompletedRun H encoding settings inputs)
    (hold : ∀ win ∈ wins H encoding settings inputs,
      WinKept encoding settings (served H encoding settings (inputs ++ [i])) win)
    (hwins : wins H encoding settings (inputs ++ [i]) = wins H encoding settings inputs ++ [win])
    (hnew : WinKept encoding settings (served H encoding settings (inputs ++ [i])) win)
    (hfirst : win.jobId ∉ (wins H encoding settings inputs).map Win.jobId)
    (hother : ∀ j, win.jobId ≠ j → (served H encoding settings (inputs ++ [i])).db.job? j =
      (served H encoding settings inputs).db.job? j) :
    CompletedRun H encoding settings (inputs ++ [i]) where
  kept := by
    rw [hwins]
    intro kept hkept
    rcases List.mem_append.mp hkept with hkept | hkept
    · exact hold kept hkept
    · obtain rfl := List.mem_singleton.mp hkept
      exact hnew
  once := by
    rw [hwins, List.map_append, List.nodup_append]
    refine ⟨h.once, List.nodup_singleton _, ?_⟩
    rintro a ha b hb rfl
    obtain rfl := List.mem_singleton.mp hb
    exact hfirst ha
  only j job hj hst := by
    rw [hwins]
    by_cases hjob : win.jobId = j
    · exact ⟨win, List.mem_append_right _ (List.mem_singleton_self _), hjob⟩
    · obtain ⟨before, hwin, hid⟩ := h.only j job ((hother j hjob).symm.trans hj) hst
      exact ⟨before, List.mem_append_left _ hwin, hid⟩

/-- One more input. -/
theorem CompletedRun.next {inputs : List ArtifactInput} {i : ArtifactInput}
    (hi : ∀ k ∈ inputs, k.isCleanup = false) (hquiet : i.isCleanup = false)
    (ht : TokensDrawn H encoding settings inputs) (h : CompletedRun H encoding settings inputs) :
    CompletedRun H encoding settings (inputs ++ [i]) := by
  have hs := @served_sound H encoding settings inputs
  have hstep := artifactSystem_step H encoding settings i (served H encoding settings inputs)
  have hold : ∀ win ∈ wins H encoding settings inputs,
      WinKept encoding settings (served H encoding settings (inputs ++ [i])) win := by
    intro win hwin
    rw [served_snoc]
    exact hstep.win_kept hquiet hs (h.kept win hwin)
  have hnext := @served_snoc H encoding settings inputs i
  have hwins := @wins_snoc H encoding settings inputs i
  generalize (artifactSystem H encoding settings).next i _ = w' at hstep hnext
  generalize (artifactSystem H encoding settings).out i _ = out at hstep hwins
  cases hstep with
  | operated hop =>
    obtain ⟨hret, hcompletion⟩ := Op.stamped_isOther hop (served H encoding settings inputs).clock
    refine h.kept_next hold (hwins.trans (List.append_nil _)) fun j job hj hst => ?_
    rw [hnext] at hj
    exact (job_step H _ _ j).succeeded hcompletion hret hj hst
  | cleaned hi' =>
    rw [hquiet] at hi'
    cases hi'
  | @won r u job db hphase hpending hcommit =>
    obtain ⟨before, after, hj, hr, -⟩ := won_spec hs hcommit
    have hnew := new_win hi ht hphase hpending hcommit
    rw [← hnext] at hnew
    refine h.won_next hold hwins hnew (fun hmem => ?_) fun j hjob => ?_
    · obtain ⟨win, hwin, hid⟩ := List.mem_map.mp hmem
      obtain ⟨ended, hended, hst, -⟩ := (h.kept win hwin).row
      have hsame : ended = before := Option.some.inj (hended.symm.trans (hid ▸ hj))
      rw [hsame, hr] at hst
      cases hst
    · rw [hnext]
      exact congrArg Slice.job (completionCommit_other hcommit hjob)
  | _ =>
    refine h.kept_next hold (hwins.trans (List.append_nil _)) fun j job hj hst => ?_
    rw [hnext] at hj
    exact ⟨job, hj, hst⟩

theorem completed_run (inputs : List ArtifactInput) (hi : ∀ i ∈ inputs, i.isCleanup = false)
    (ht : TokensDrawn H encoding settings inputs) : CompletedRun H encoding settings inputs := by
  induction inputs using List.reverseRecOn with
  | nil =>
    refine ⟨fun win hwin => ?_, List.nodup_nil, fun j job hj => ?_⟩
    · cases hwin
    · cases hj
  | append_singleton inputs i ih =>
    have hbefore := fun k hk => hi k (List.mem_append_left _ hk)
    have hquiet := hi i (List.mem_append_right _ (List.mem_singleton_self i))
    exact (ih hbefore ht.before).next hbefore hquiet ht.before

/-- The columns of the artifact rows. -/
theorem artifactRows_columns (now : Time) (j : JobId) (serial : Nat) (stored : List StoredObject) :
    (artifactRows now j serial stored).map (fun a => (a.name, a.objectKey, a.mediaType, a.size)) =
      stored.map fun s => (s.name, s.objectKey, s.mediaType, s.size) := by
  induction stored generalizing serial with
  | nil => rfl
  | cons s rest ih => exact congrArg _ (ih _)

/-- With nothing left to put, the files of a request are all stored. -/
theorem UploadKept.complete {store : ArtifactStore} {u : Upload}
    (h : UploadKept encoding settings store u) (hpending : u.pending = []) :
    u.stored = (completionFiles encoding u.request.completion).map
        (fun file => file.stored (u.key settings file.name)) ∧
      ∀ file ∈ completionFiles encoding u.request.completion,
        store.Keeps (u.key settings file.name) file.content := by
  obtain ⟨done, hfiles, hstored, hkept⟩ := h
  rw [hpending, List.append_nil] at hfiles
  rw [hfiles]
  exact ⟨hstored, hkept⟩

/-- Only a job that succeeded has artifact rows. -/
theorem artifact_succeeded {db : Database} (hs : Sound db) {a : ResearchArtifact}
    (ha : a ∈ db.artifacts.rows) : ∃ job, db.job? a.jobId = some job ∧ job.state = .succeeded := by
  have hof : a ∈ db.artifactsOf a.jobId := List.mem_filter.mpr ⟨ha, by simp⟩
  cases hj : db.job? a.jobId with
  | none =>
    have hnone : db.artifactsOf a.jobId = [] := ((hs a.jobId).absent hj).2
    rw [hnone] at hof
    cases hof
  | some job =>
    refine ⟨job, rfl, ?_⟩
    by_contra hst
    have hnone : db.artifactsOf a.jobId = [] := (hs a.jobId).artifacts job hj hst
    rw [hnone] at hof
    cases hof

end

/-- However completions, cancels, failures and reconcilers interleave, a job that got
to SUCCEEDED did so by one request, and has exactly the four rows of that request: they
name objects of its one upload directory, which carries the final attempt of the job,
and all four were stored before its commit and still are. Nothing else has artifact
rows, and a step of a request that does not go through changes no table. -/
theorem completion_once (H : Hashing) (encoding : Encoding) (settings : RetentionSettings)
    (inputs : List ArtifactInput) (hi : ∀ i ∈ inputs, i.isCleanup = false)
    (ht : TokensDrawn H encoding settings inputs) :
    (∀ a ∈ (served H encoding settings inputs).db.artifacts.rows,
      ∃ job, (served H encoding settings inputs).db.job? a.jobId = some job ∧
        job.state = .succeeded) ∧
    ((wins H encoding settings inputs).map Win.jobId).Nodup ∧
    (∀ j job, (served H encoding settings inputs).db.job? j = some job → job.state = .succeeded →
      ∃ win ∈ wins H encoding settings inputs, win.jobId = j ∧
        ((served H encoding settings inputs).db.artifactsOf j).map
            (fun a => (a.name, a.objectKey, a.mediaType, a.size)) =
          (completionFiles encoding win.upload.request.completion).map (fun file =>
            (file.name, objectKey settings.artifactJobsPrefix j job.attempt win.upload.uploadId file.name,
              file.mediaType, file.content.utf8ByteSize)) ∧
        ∀ file ∈ completionFiles encoding win.upload.request.completion,
          (served H encoding settings inputs).store.Keeps
            (objectKey settings.artifactJobsPrefix j job.attempt win.upload.uploadId file.name)
            file.content) ∧
    (∀ before i, before ++ [i] <+: inputs →
      ∀ win ∈ (artifactSystem H encoding settings).out i (served H encoding settings before),
        ∀ file ∈ completionFiles encoding win.upload.request.completion,
          (served H encoding settings before).store.Keeps
            (objectKey settings.artifactJobsPrefix win.jobId win.upload.attempt win.upload.uploadId
              file.name) file.content) ∧
    (∀ before i, before ++ [i] <+: inputs → (∀ op hop, i ≠ .other op hop) →
      (artifactSystem H encoding settings).out i (served H encoding settings before) = [] →
        (served H encoding settings (before ++ [i])).db = (served H encoding settings before).db) := by
  have hrun := completed_run inputs hi ht
  have hs := @served_sound H encoding settings inputs
  refine ⟨fun a ha => ?_, hrun.once, fun j job hj hst => ?_, ?_, ?_⟩
  · exact artifact_succeeded hs ha
  · obtain ⟨win, hwin, rfl⟩ := hrun.only j job hj hst
    have hkept := hrun.kept win hwin
    obtain ⟨row, hrow, -, hattempt⟩ := hkept.row
    obtain rfl := Option.some.inj (hj.symm.trans hrow)
    obtain ⟨serial, hrows⟩ := hkept.rows
    obtain ⟨hstored, hfiles⟩ := hkept.files.complete hkept.pending
    rw [hattempt]
    refine ⟨win, hwin, rfl, ?_, hfiles⟩
    rw [hrows, artifactRows_columns, hstored, List.map_map]
    rfl
  · intro before i hb win hwin
    have hk := @served_kept H encoding settings before
      fun k hk => hi k (hb.subset (List.mem_append_left _ hk))
    obtain ⟨hphase, hpending, -⟩ := (artifactSystem_step H encoding settings i _).win hwin
    exact ((hk win.request win.upload hphase).complete hpending).2
  · intro before i hb hother hout
    have hquiet := hi i (hb.subset (List.mem_append_right _ (List.mem_singleton_self i)))
    have hstep := artifactSystem_step H encoding settings i (served H encoding settings before)
    rw [hout, ← served_snoc] at hstep
    exact hstep.lost hother hquiet

/-! ### Two requests of one runner -/
namespace Sample

def retentionSettings : RetentionSettings :=
  ⟨90, 30, 90, 86400, 50, "jobs", by decide, by decide, Nat.le_refl 90⟩

def encoding : Encoding := ⟨fun _ => "[]", fun _ => "\x7b\x7d"⟩

def running : List ArtifactInput :=
  [.other (.createJob 0 1 "user" "key" request) rfl, .other (.claimNext 0 "token" 4 60 []) rfl,
    .other (.markStarted 0 1 "token") rfl]

/-- The runner repeats its request; the second one commits first. -/
def repeated : List ArtifactInput :=
  running ++ [.check 0 ⟨1, "token", {reportMarkdown := "report"}⟩ 7,
    .check 1 ⟨1, "token", {reportMarkdown := "report"}⟩ 8] ++ List.replicate 4 (.upload 0 .stored) ++
    List.replicate 4 (.upload 1 .stored) ++ [.commit 1, .commit 0]

end Sample

/-- Only one of them goes through. -/
theorem completion_once_repeated :
    ((wins Sample.hashing Sample.encoding Sample.retentionSettings Sample.repeated).map
        Win.jobId).Nodup ∧
      (wins Sample.hashing Sample.encoding Sample.retentionSettings Sample.repeated).map
        Win.request = [1] := by
  have hinj : Function.Injective Sample.hashing.hashToken := fun a b h => by
    simpa [Sample.hashing] using h
  have hrun := completion_once Sample.hashing Sample.encoding Sample.retentionSettings Sample.repeated
    (by decide) ⟨by decide +kernel, hinj.injOn⟩
  exact ⟨hrun.2.1, by decide +kernel⟩

end ResearchGateway
