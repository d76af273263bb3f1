import ResearchGateway.ArtifactSystem
import ResearchGateway.Fencing

/-! What one input does to requests, cleaners, store and tables.

`ArtifactStep` lists it once, with the guards that were passed; `artifactSystem_step`
says that nothing else happens. The tables of a run are those after its operations
(`served_db`), so what is known of operations holds here as well. -/
namespace ResearchGateway
open Library

inductive ArtifactStep (H : Hashing) (encoding : Encoding) (settings : RetentionSettings)
    (i : ArtifactInput) (w : ArtifactSystem) : List Win → ArtifactSystem → Prop
  | idle : ArtifactStep H encoding settings i w [] w
  | ticked (n : Nat) : ArtifactStep H encoding settings i w [] {w with clock := w.clock + n}
  | operated {op : Op} (hop : op.isOther = true) (hi : i = .other op hop) :
      ArtifactStep H encoding settings i w [] {w with db := step H (op.stamped w.clock) w.db}
  | checked {r request uploadId attempt} (hphase : w.requests r = .waiting)
      (hfresh : uploadId ∉ w.drawn)
      (hcheck : completionCheck H request.jobId request.runnerToken w.db = .ok (attempt, w.db)) :
      ArtifactStep H encoding settings i w []
        ({w with drawn := uploadId :: w.drawn}.enter r (.uploading
          ⟨request, attempt, uploadId, completionFiles encoding request.completion, [], none⟩))
  | put {r u file rest} (hphase : w.requests r = .uploading u) (hpending : u.pending = file :: rest) :
      ArtifactStep H encoding settings i w []
        ({w with store := w.store.put w.clock (u.key settings file.name) file.content}.enter r
          (.uploading {u with
            pending := rest
            stored := u.stored ++ [file.stored (u.key settings file.name)]
            began := some (u.began.getD w.clock)}))
  | leftover {r u file rest content} (hphase : w.requests r = .uploading u)
      (hpending : u.pending = file :: rest) :
      ArtifactStep H encoding settings i w []
        ({w with store := w.store.put w.clock (u.key settings file.name) content}.enter r (.ended none))
  | gaveUp {r} (hphase : ∀ state, w.requests r ≠ .ended state) :
      ArtifactStep H encoding settings i w [] (w.enter r (.ended none))
  | won {r u job db} (hphase : w.requests r = .uploading u) (hpending : u.pending = [])
      (hcommit : u.commit H w.clock w.db = .ok (job, db)) :
      ArtifactStep H encoding settings i w [⟨r, u, w.clock⟩]
        ({w with db := db}.enter r (.ended (some job.state)))
  | crashed (c : Nat) : ArtifactStep H encoding settings i w [] (w.cleanerAt c .idle)
  | began {c} (hi : i.isCleanup = true) :
      ArtifactStep H encoding settings i w [] (w.cleanerAt c (.listingArtifacts w.clock))
  | cleaned {c answer} (hi : i.isCleanup = true) :
      ArtifactStep H encoding settings i w [] (w.cleanerTurn settings c answer)

section
variable {H : Hashing} {encoding : Encoding} {settings : RetentionSettings}

theorem check_step (i : ArtifactInput) (w : ArtifactSystem) (r : Nat) (request : CompletionRequest)
    (uploadId : UploadId) :
    ArtifactStep H encoding settings i w [] (w.check H encoding r request uploadId) := by
  cases hphase : w.requests r with
  | waiting =>
    simp only [ArtifactSystem.check, hphase]
    split
    · exact .idle
    · next hfresh =>
      cases hcheck : completionCheck H request.jobId request.runnerToken w.db with
      | error e =>
        rw [commit_error hcheck]
        exact .gaveUp (by simp [hphase])
      | ok p =>
        rw [commit_ok hcheck]
        obtain ⟨attempt, db⟩ := p
        obtain rfl := (completionCheck_ok hcheck).1
        exact .checked hphase hfresh hcheck
  | _ =>
    simp only [ArtifactSystem.check, hphase]
    exact .idle

theorem upload_step (i : ArtifactInput) (w : ArtifactSystem) (r : Nat) (outcome : PutOutcome) :
    ArtifactStep H encoding settings i w [] (w.upload settings r outcome) := by
  cases hphase : w.requests r with
  | uploading u =>
    cases hpending : u.pending with
    | nil =>
      simp only [ArtifactSystem.upload, hphase, hpending]
      exact .idle
    | cons file rest =>
      simp only [ArtifactSystem.upload, hphase, hpending]
      cases outcome with
      | stored => exact .put hphase hpending
      | failed leftover =>
        cases leftover with
        | none => exact .gaveUp (by simp [hphase])
        | some content => exact .leftover hphase hpending
  | _ =>
    simp only [ArtifactSystem.upload, hphase]
    exact .idle

theorem commit_step (i : ArtifactInput) (w : ArtifactSystem) (r : Nat) :
    ArtifactStep H encoding settings i w (w.wins H r) (w.commit H r) := by
  cases hphase : w.requests r with
  | uploading u =>
    simp only [ArtifactSystem.wins, ArtifactSystem.commit, hphase, List.isEmpty_iff]
    by_cases hpending : u.pending = []
    · rw [if_pos hpending, if_pos hpending]
      cases hcommit : u.commit H w.clock w.db with
      | ok p =>
        rw [commit_ok hcommit]
        exact .won hphase hpending hcommit
      | error e =>
        rw [commit_error hcommit]
        exact .gaveUp (by simp [hphase])
    · rw [if_neg hpending, if_neg hpending]
      exact .idle
  | _ =>
    simp only [ArtifactSystem.wins, ArtifactSystem.commit, hphase]
    exact .idle

/-- The only things that an input does. -/
theorem artifactSystem_step (H : Hashing) (encoding : Encoding) (settings : RetentionSettings)
    (i : ArtifactInput) (w : ArtifactSystem) :
    ArtifactStep H encoding settings i w ((artifactSystem H encoding settings).out i w)
      ((artifactSystem H encoding settings).next i w) := by
  cases i with
  | tick n => exact .ticked n
  | other op hop => exact .operated hop rfl
  | check r request uploadId => exact check_step ..
  | upload r outcome => exact upload_step ..
  | commit r => exact commit_step ..
  | abandon r =>
    show ArtifactStep H encoding settings _ w [] (w.abandon r)
    cases hphase : w.requests r with
    | uploading u =>
      simp only [ArtifactSystem.abandon, hphase]
      exact .gaveUp (by simp [hphase])
    | _ =>
      simp only [ArtifactSystem.abandon, hphase]
      exact .idle
  | clean c =>
    show ArtifactStep H encoding settings _ w [] (w.clean c)
    unfold ArtifactSystem.clean
    split
    · exact .began rfl
    · exact .idle
  | cleaner c answer => exact .cleaned rfl
  | crash c => exact .crashed c

/-- A request changes the tables if it goes through, and not otherwise. -/
theorem ArtifactStep.lost {i : ArtifactInput} {w w' : ArtifactSystem}
    (h : ArtifactStep H encoding settings i w [] w') (hi : ∀ op hop, i ≠ .other op hop)
    (hcleanup : i.isCleanup = false) : w'.db = w.db := by
  cases h with
  | operated hop heq => exact absurd heq (hi _ hop)
  | cleaned heq =>
    rw [hcleanup] at heq
    cases heq
  | _ => rfl

/-- A request that goes through has put all its files. -/
theorem ArtifactStep.win {i : ArtifactInput} {w w' : ArtifactSystem} {out : List Win} {win : Win}
    (h : ArtifactStep H encoding settings i w out w') (hwin : win ∈ out) :
    w.requests win.request = .uploading win.upload ∧ win.upload.pending = [] ∧ win.time = w.clock := by
  cases h with
  | won hphase hpending hcommit =>
    obtain rfl := List.mem_singleton.mp hwin
    exact ⟨hphase, hpending, rfl⟩
  | _ => cases hwin

theorem Op.stamped_isOther {op : Op} (h : op.isOther = true) (now : Time) :
    (op.stamped now).isRetention = false ∧ (op.stamped now).completion? = none := by
  cases op <;> first | exact ⟨rfl, rfl⟩ | cases h

/-- What goes through is an operation. -/
theorem won_step {u : Upload} {now : Time} {job : ResearchJob} {db db' : Database}
    (h : u.commit H now db = .ok (job, db')) :
    db' = step H (.completionCommit now u.request.jobId u.request.runnerToken u.request.completion
      u.stored) db := by
  have hdone : transact H (.completionCommit now u.request.jobId u.request.runnerToken
      u.request.completion u.stored) db = .ok (.done, db') := done_ok h
  exact (step_of_ok hdone).symm

/-! ### Artifact rows -/

/-- Only a completion adds artifact rows, and only retention deletes them. -/
theorem step_artifacts {op : Op} (hop : op.completion? = none) (hret : op.isRetention = false)
    (db : Database) :
    (step H op db).artifacts = db.artifacts ∧ (step H op db).artifactSerial = db.artifactSerial := by
  have hwrote {acct : Account} {j : JobId} {db' : Database} (h : Wrote H op acct j db db') :
      db'.artifacts = db.artifacts ∧ db'.artifactSerial = db.artifactSerial := by
    obtain ⟨job, w, -, -, rfl⟩ := h
    exact ⟨Database.artifacts_write .., Database.artifactSerial_write ..⟩
  have hquiet {j : JobId} {db' : Database} (h : db' = db ∨ Wrote H op {} j db db') :
      db'.artifacts = db.artifacts ∧ db'.artifactSerial = db.artifactSerial := by
    rcases h with rfl | h
    · exact ⟨rfl, rfl⟩
    · exact hwrote h
  cases ht : transact H op db with
  | error e =>
    rw [step_of_error ht]
    exact ⟨rfl, rfl⟩
  | ok p =>
    rw [step_of_ok ht]
    cases op with
    | createJob now id userId key request =>
      obtain ⟨-, _, h⟩ := ok_done ht
      rcases createJob_ok h with hsame | ⟨hfresh, hnew⟩
      · rw [hsame]
        exact ⟨rfl, rfl⟩
      · rw [hnew]
        exact ⟨rfl, rfl⟩
    | claimNext now token limit lease locked =>
      obtain ⟨claim, _, hclaim, hret⟩ := ok_bind ht
      obtain ⟨-, rfl⟩ := ok_pure hret
      rcases claimNext_ok hclaim with ⟨-, rfl⟩ | ⟨job, -, h⟩
      · exact ⟨rfl, rfl⟩
      · exact hwrote h
    | reconcileExpiredDispatch now dispatch action lease error =>
      obtain ⟨-, _, h⟩ := ok_done ht
      exact hquiet (reconcileExpiredDispatch_ok rfl h)
    | reconcileStaleRunner now runner action error =>
      obtain ⟨-, _, h⟩ := ok_done ht
      exact hquiet (reconcileStaleRunner_ok rfl h)
    | requestCancel now jobId userId =>
      obtain ⟨-, _, h⟩ := ok_done ht
      exact hquiet (requestCancel_ok h)
    | deleteArtifactRecord | deleteExpiredEvents | deleteExpiredJobs => cases hret
    | _ =>
      rcases (runner_wrote rfl ht).2 with ⟨-, hsame⟩ | h | ⟨_, _, _, _, hcommit, -⟩
      · rw [hsame]
        exact ⟨rfl, rfl⟩
      · exact hwrote h
      · rw [hcommit] at hop
        cases hop

end

/-! ### Runs -/

section
variable (H : Hashing) (encoding : Encoding) (settings : RetentionSettings)

/-- The state after a list of inputs. -/
def served (inputs : List ArtifactInput) : ArtifactSystem :=
  (artifactSystem H encoding settings).run .initial inputs

/-- The commits of completions along a run. -/
def wins (inputs : List ArtifactInput) : List Win :=
  (artifactSystem H encoding settings).trace .initial inputs

/-- The operations of a run. -/
def operations (inputs : List ArtifactInput) : List Op :=
  ((artifactSystem H encoding settings).observing fun i w => i.ops settings w).trace .initial inputs

end

section
variable {H : Hashing} {encoding : Encoding} {settings : RetentionSettings}

theorem served_snoc (inputs : List ArtifactInput) (i : ArtifactInput) :
    served H encoding settings (inputs ++ [i]) =
      (artifactSystem H encoding settings).next i (served H encoding settings inputs) :=
  Machine.run_snoc ..

theorem wins_snoc (inputs : List ArtifactInput) (i : ArtifactInput) :
    wins H encoding settings (inputs ++ [i]) = wins H encoding settings inputs ++
      (artifactSystem H encoding settings).out i (served H encoding settings inputs) :=
  Machine.trace_snoc ..

theorem operations_snoc (inputs : List ArtifactInput) (i : ArtifactInput) :
    operations H encoding settings (inputs ++ [i]) = operations H encoding settings inputs ++
      i.ops settings (served H encoding settings inputs) :=
  Machine.trace_observing_snoc ..

/-- The tables of a run are those after its operations. -/
theorem served_db (inputs : List ArtifactInput) :
    (served H encoding settings inputs).db = after H (operations H encoding settings inputs) := by
  induction inputs using List.reverseRecOn with
  | nil => rfl
  | append_singleton inputs i ih =>
    rw [served_snoc, artifactSystem_db, operations_snoc, after, Machine.run_append, ih]
    rfl

theorem served_sound (inputs : List ArtifactInput) :
    Sound (served H encoding settings inputs).db := by
  rw [served_db]
  exact after_sound H _

end

end ResearchGateway
