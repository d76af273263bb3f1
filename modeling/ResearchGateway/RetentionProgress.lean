import ResearchGateway.Library.Sweep
import ResearchGateway.RetentionCrash

/-! Artifacts whose object cannot be deleted.

`_delete_expired_artifacts` lists the oldest expired rows, one batch of them, and goes on
behind a failure; the row stays, and the next run lists it again. On the expired rows a run
is a pass over the front of a queue (`deleteExpiredArtifacts_expired`), so rows that cannot
be deleted do no harm until a whole batch of them stands before another one. -/
namespace ResearchGateway
open Library

/-! ### `_delete_expired_artifacts` -/

/-- The loop over the listed rows; it counts the rows it deleted. An artifact whose object
was not deleted is skipped. -/
def deleteListed (deletion : ResearchArtifact → Deletion) :
    List ResearchArtifact → Database → ArtifactStore → Nat → Database × ArtifactStore × Nat
  | [], db, store, deleted => (db, store, deleted)
  | artifact :: rest, db, store, deleted =>
    let store := (deletion artifact).apply store artifact.objectKey
    if deletion artifact = .succeeded then
      match commit (deleteArtifactRecord artifact.id) db with
      | (.ok found, db) => deleteListed deletion rest db store (deleted + found.toNat)
      | (.error _, db) => (db, store, deleted)
    else deleteListed deletion rest db store deleted

def deleteExpiredArtifacts (settings : RetentionSettings) (cutoff : Time)
    (deletion : ResearchArtifact → Deletion) (db : Database) (store : ArtifactStore) :
    Database × ArtifactStore × Nat :=
  deleteListed deletion (listExpiredArtifacts db cutoff settings.cleanupBatchSize) db store 0

/-- One run of the cleaner: its cutoff, and what its deletes do. -/
structure CleanupRun where
  cutoff : Time
  deletion : ResearchArtifact → Deletion

def deleteExpiredArtifactsIn (settings : RetentionSettings) :
    List CleanupRun → Database → ArtifactStore → Database × ArtifactStore
  | [], db, store => (db, store)
  | run :: rest, db, store =>
    let (db, store, _) := deleteExpiredArtifacts settings run.cutoff run.deletion db store
    deleteExpiredArtifactsIn settings rest db store

/-! ### One run -/

section
variable {settings : RetentionSettings} {deletion : ResearchArtifact → Deletion} {db : Database}
  {store : ArtifactStore} {deleted : Nat}

/-- The answers of the store to the deletes of one run. -/
def deletionAnswers (deletion : ResearchArtifact → Deletion) : List ResearchArtifact → List StoreAnswer
  | [] => [{}]
  | artifact :: rest =>
    ⟨deletion artifact, []⟩ :: if deletion artifact = .succeeded then {} :: deletionAnswers deletion rest
      else deletionAnswers deletion rest

/-- The loop is what the steps of the cleaner do from the listing to the expiry of records. -/
theorem deleteListed_steps (now : Time) (listed : List ResearchArtifact) :
    (cleanerRun settings).run ⟨db, store, .deletingArtifacts now listed⟩ (deletionAnswers deletion listed) =
      ⟨(deleteListed deletion listed db store deleted).1, (deleteListed deletion listed db store deleted).2.1,
        .expiring now⟩ := by
  induction listed generalizing db store deleted with
  | nil => rfl
  | cons artifact rest ih =>
    by_cases hdone : deletion artifact = .succeeded
    · simp only [deletionAnswers, deleteListed, if_pos hdone]
      rw [Machine.run, Machine.run]
      have hsteps : (cleanerRun settings).next {} ((cleanerRun settings).next ⟨deletion artifact, []⟩
          ⟨db, store, .deletingArtifacts now (artifact :: rest)⟩) =
          ⟨(commit (deleteArtifactRecord artifact.id) db).2, (deletion artifact).apply store artifact.objectKey,
            .deletingArtifacts now rest⟩ := by
        simp only [cleanerRun, CleanerPhase.next, if_pos hdone]
        rfl
      rw [hsteps]
      exact ih
    · simp only [deletionAnswers, deleteListed, if_neg hdone]
      rw [Machine.run]
      have hstep : (cleanerRun settings).next ⟨deletion artifact, []⟩
          ⟨db, store, .deletingArtifacts now (artifact :: rest)⟩ =
          ⟨db, (deletion artifact).apply store artifact.objectKey, .deletingArtifacts now rest⟩ := by
        simp only [cleanerRun, CleanerPhase.next, if_neg hdone]
      rw [hstep]
      exact ih

theorem deleteListed_jobs (listed : List ResearchArtifact) :
    (deleteListed deletion listed db store deleted).1.jobs = db.jobs := by
  induction listed generalizing db store deleted with
  | nil => rfl
  | cons artifact rest ih =>
    rw [deleteListed]
    split
    · exact ih
    · exact ih

/-- The rows that go are the listed ones whose delete returned. -/
theorem deleteListed_rows (listed : List ResearchArtifact) :
    (deleteListed deletion listed db store deleted).1.artifacts.rows =
      db.artifacts.rows.filter fun a => !listed.any fun b => b.id = a.id && deletion b = .succeeded := by
  induction listed generalizing db store deleted with
  | nil => simp [deleteListed]
  | cons artifact rest ih =>
    by_cases hdone : deletion artifact = .succeeded
    · simp only [deleteListed, if_pos hdone]
      refine ih.trans ?_
      show List.filter _ (List.filter _ db.artifacts.rows) = _
      rw [List.filter_filter]
      refine List.filter_congr fun a _ => ?_
      simp [hdone, Bool.and_comm, eq_comm]
    · simp only [deleteListed, List.any_cons, hdone, decide_false, Bool.and_false,
        Bool.false_or]
      exact ih

/-- The rows whose job finished before the cutoff, oldest first. -/
def expiredArtifacts (db : Database) (cutoff : Time) : List ResearchArtifact :=
  db.artifacts.rows.filter (artifactExpired db cutoff)

theorem artifactExpired_congr {db' : Database} (h : db'.jobs = db.jobs) (cutoff : Time) :
    artifactExpired db' cutoff = artifactExpired db cutoff := by
  funext a
  simp only [artifactExpired, Database.job?, h]

/-- On the expired rows a run is one pass over the front of a queue. -/
theorem deleteExpiredArtifacts_expired {cutoff : Time} {stuck : ResearchArtifact → Bool}
    (hids : (db.artifacts.rows.map ResearchArtifact.id).Nodup)
    (hstuck : ∀ a, deletion a = .succeeded ↔ stuck a = false) :
    expiredArtifacts (deleteExpiredArtifacts settings cutoff deletion db store).1 cutoff =
      Sweep.pass stuck settings.cleanupBatchSize (expiredArtifacts db cutoff) := by
  have hids' : ((expiredArtifacts db cutoff).map ResearchArtifact.id).Nodup :=
    hids.sublist (List.filter_sublist.map _)
  have hsucceeded (b : ResearchArtifact) : decide (deletion b = .succeeded) = !stuck b := by
    cases hb : stuck b with
    | false => simpa using (hstuck b).mpr hb
    | true => simpa [hb] using hstuck b
  rw [← Sweep.filter_eq_pass hids', deleteExpiredArtifacts, expiredArtifacts,
    artifactExpired_congr (deleteListed_jobs _), deleteListed_rows, List.filter_filter]
  simp only [hsucceeded]
  unfold expiredArtifacts
  rw [List.filter_filter]
  exact List.filter_congr fun a _ => Bool.and_comm ..

theorem deleteExpiredArtifacts_jobs (cutoff : Time) :
    (deleteExpiredArtifacts settings cutoff deletion db store).1.jobs = db.jobs := deleteListed_jobs _

theorem deleteExpiredArtifacts_sublist (cutoff : Time) :
    (deleteExpiredArtifacts settings cutoff deletion db store).1.artifacts.rows.Sublist
      db.artifacts.rows := by
  rw [deleteExpiredArtifacts, deleteListed_rows]
  exact List.filter_sublist

end

/-! ### Run after run -/

/-- No other artifact expires in the runs, and the store cannot delete the keys in `F`. -/
structure CleanupRun.Within (cutoff : Time) (F : String → Bool) (db : Database) (run : CleanupRun) : Prop where
  expired : ∀ a ∈ db.artifacts.rows, artifactExpired db run.cutoff a = artifactExpired db cutoff a
  deletion : ∀ a, run.deletion a = .succeeded ↔ F a.objectKey = false

section
variable {settings : RetentionSettings} {cutoff : Time} {F : String → Bool} {db : Database}
  {store : ArtifactStore} {runs : List CleanupRun}

theorem CleanupRun.Within.less {db' : Database} {run : CleanupRun} (h : run.Within cutoff F db)
    (hjobs : db'.jobs = db.jobs) (hrows : db'.artifacts.rows.Sublist db.artifacts.rows) :
    run.Within cutoff F db' where
  expired a ha := by
    rw [artifactExpired_congr hjobs, artifactExpired_congr hjobs]
    exact h.expired a (hrows.subset ha)
  deletion := h.deletion

theorem expiredArtifacts_within {run : CleanupRun} (h : run.Within cutoff F db) :
    expiredArtifacts db run.cutoff = expiredArtifacts db cutoff :=
  List.filter_congr h.expired

/-- The runs are passes over the expired rows. -/
theorem deleteExpiredArtifactsIn_expired (hids : (db.artifacts.rows.map ResearchArtifact.id).Nodup)
    (hruns : ∀ run ∈ runs, run.Within cutoff F db) :
    expiredArtifacts (deleteExpiredArtifactsIn settings runs db store).1 cutoff =
      Sweep.passes (fun a => F a.objectKey) settings.cleanupBatchSize runs.length
        (expiredArtifacts db cutoff) := by
  induction runs generalizing db store with
  | nil => rfl
  | cons run rest ih =>
    have hrun := hruns run (List.mem_cons_self ..)
    have hjobs := @deleteExpiredArtifacts_jobs settings run.deletion db store run.cutoff
    have hrows := @deleteExpiredArtifacts_sublist settings run.deletion db store run.cutoff
    have hrest : ∀ r ∈ rest,
        r.Within cutoff F (deleteExpiredArtifacts settings run.cutoff run.deletion db store).1 :=
      fun r hr => (hruns r (List.mem_cons_of_mem _ hr)).less hjobs hrows
    refine (ih (hids.sublist (hrows.map _)) hrest).trans ?_
    rw [List.length_cons, Sweep.passes, ← expiredArtifacts_within hrun,
      ← deleteExpiredArtifacts_expired hids hrun.deletion, expiredArtifacts_within (hrun.less hjobs hrows)]

end

/-! ### The order of the rows -/

theorem SerialSound.increasing {db db' : Database} (hs : SerialSound db)
    (h : (db.artifacts.rows.map ResearchArtifact.id).Pairwise (· < ·)) {now : Time} {j : JobId}
    {stored : List StoredObject}
    (hrows : db'.artifacts.rows = db.artifacts.rows ++ artifactRows now j db.artifactSerial stored) :
    (db'.artifacts.rows.map ResearchArtifact.id).Pairwise (· < ·) := by
  rw [hrows, List.map_append, List.pairwise_append, artifactRows_ids]
  refine ⟨h, List.pairwise_lt_range', fun id hold added hadded => ?_⟩
  obtain ⟨a, ha, rfl⟩ := List.mem_map.mp hold
  exact Nat.lt_of_lt_of_le (hs.below a ha) (List.mem_range'_1.mp hadded).1

theorem ArtifactStep.increasing {H : Hashing} {encoding : Encoding} {settings : RetentionSettings}
    {i : ArtifactInput} {w w' : ArtifactSystem} {out : List Win}
    (hstep : ArtifactStep H encoding settings i w out w') (hs : SerialSound w.db)
    (h : (w.db.artifacts.rows.map ResearchArtifact.id).Pairwise (· < ·)) :
    (w'.db.artifacts.rows.map ResearchArtifact.id).Pairwise (· < ·) := by
  cases hstep with
  | @operated op hop =>
    obtain ⟨hret, hcompletion⟩ := Op.stamped_isOther hop w.clock
    rw [(step_artifacts (H := H) hcompletion hret w.db).1]
    exact h
  | won _ _ hcommit =>
    obtain ⟨_, _, -, -, -, -, -, hrows, -⟩ := completionCommit_ok hcommit
    exact hs.increasing h hrows
  | @cleaned c answer =>
    have hcleaner := CleanerPhase.next_step settings answer w.db w.store (w.cleaners c)
    exact h.sublist (hcleaner.artifacts_sub.map _)
  | _ => exact h

/-- The table lists the artifacts in the order of their identifiers. -/
theorem served_increasing {H : Hashing} {encoding : Encoding} {settings : RetentionSettings}
    (inputs : List ArtifactInput) :
    ((served H encoding settings inputs).db.artifacts.rows.map ResearchArtifact.id).Pairwise (· < ·) := by
  induction inputs using List.reverseRecOn with
  | nil => exact List.Pairwise.nil
  | append_singleton inputs i ih =>
    rw [served_snoc]
    exact (artifactSystem_step H encoding settings i _).increasing (served_serial inputs) ih

/-- As many runs as there are expired artifacts delete every one whose object can be deleted,
exactly if before none of them there is a batch of others. -/
theorem retention_progress_iff (settings : RetentionSettings) (cutoff : Time) (F : String → Bool)
    (db : Database) (hids : (db.artifacts.rows.map ResearchArtifact.id).Pairwise (· < ·))
    (store : ArtifactStore) (runs : List CleanupRun)
    (hlength : (expiredArtifacts db cutoff).length ≤ runs.length)
    (hruns : ∀ run ∈ runs, run.Within cutoff F db) :
    (∀ a ∈ expiredArtifacts (deleteExpiredArtifactsIn settings runs db store).1 cutoff,
        F a.objectKey = true) ↔
      ∀ a ∈ expiredArtifacts db cutoff, F a.objectKey = false →
        (expiredArtifacts db cutoff).countP (fun b => b.id < a.id && F b.objectKey) <
          settings.cleanupBatchSize := by
  have hordered : ((expiredArtifacts db cutoff).map ResearchArtifact.id).Pairwise (· < ·) :=
    hids.sublist (List.filter_sublist.map _)
  have hnodup : (db.artifacts.rows.map ResearchArtifact.id).Nodup := hids.imp Nat.ne_of_lt
  rw [deleteExpiredArtifactsIn_expired hnodup hruns, Sweep.passes_stuck_iff hlength,
    Sweep.clear_iff hordered]

/-! ### One report that cannot be deleted -/
namespace Sample

def isReport (key : String) : Bool := key = "jobs/1/attempts/1/8/report.md"

/-- Four runs, a day apart. -/
def cleanupRuns : List CleanupRun :=
  [1, 2, 3, 4].map fun day =>
    ⟨days day, fun a => if isReport a.objectKey then .failed false else .succeeded⟩

def finished : ArtifactSystem := served hashing encoding retentionSettings repeated

theorem finished_increasing : (finished.db.artifacts.rows.map ResearchArtifact.id).Pairwise (· < ·) := by
  unfold finished
  exact served_increasing repeated

theorem cleanupRuns_within : ∀ run ∈ cleanupRuns, run.Within (days 1) isReport finished.db := by
  have hexpired : ∀ day ∈ [1, 2, 3, 4], ∀ a ∈ finished.db.artifacts.rows,
      artifactExpired finished.db (days day) a = artifactExpired finished.db (days 1) a := by
    decide +kernel
  intro run hrun
  obtain ⟨day, hday, rfl⟩ := List.mem_map.mp hrun
  refine ⟨hexpired day hday, fun a => ?_⟩
  cases h : isReport a.objectKey <;> simp [h]

def inBatchesOf1 : RetentionSettings :=
  {retentionSettings with cleanupBatchSize := 1, batch_ge := Nat.one_pos}

theorem two_ge : 1 ≤ 2 := by decide

def inBatchesOf2 : RetentionSettings :=
  {retentionSettings with cleanupBatchSize := 2, batch_ge := two_ge}

end Sample

/-- In batches of two, the other artifacts of the job go. -/
theorem retention_progress_unstuck :
    (expiredArtifacts (deleteExpiredArtifactsIn Sample.inBatchesOf2 Sample.cleanupRuns
      Sample.finished.db Sample.finished.store).1 (days 1)).all (fun a => Sample.isReport a.objectKey) = true := by
  have hlength : (expiredArtifacts Sample.finished.db (days 1)).length ≤ Sample.cleanupRuns.length := by
    decide +kernel
  apply List.all_eq_true.mpr
  apply (retention_progress_iff Sample.inBatchesOf2 (days 1) Sample.isReport Sample.finished.db
    Sample.finished_increasing Sample.finished.store Sample.cleanupRuns hlength
    Sample.cleanupRuns_within).mpr
  decide +kernel

/-- In batches of one, the report stands in front of everything. -/
theorem retention_progress_starved :
    (expiredArtifacts Sample.finished.db (days 1)).length = Sample.cleanupRuns.length ∧
      (∀ run ∈ Sample.cleanupRuns, run.Within (days 1) Sample.isReport Sample.finished.db) ∧
      ∃ a ∈ expiredArtifacts (deleteExpiredArtifactsIn Sample.inBatchesOf1 Sample.cleanupRuns
          Sample.finished.db Sample.finished.store).1 (days 1), Sample.isReport a.objectKey = false :=
  ⟨by decide +kernel, Sample.cleanupRuns_within, by decide +kernel⟩

end ResearchGateway
