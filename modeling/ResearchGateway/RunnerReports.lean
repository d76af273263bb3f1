import ResearchGateway.Fencing
import ResearchGateway.Runner
import ResearchGateway.Settlement

/-! A job in the hands of its runner.

From the report of its start on, a job is under way with the runner's token or it
has ended, whatever others do to it, unless somebody takes it away. What each
report of the runner does to such a job is computed here once. -/
namespace ResearchGateway
open Library

/-- The row accepts the runner's token, and the runner was started. -/
def UnderWay (H : Hashing) (db : Database) (j : JobId) (token : String) : Prop :=
  ∃ job, db.job? j = some job ∧ accepts H job token = true ∧
    (job.state = .running ∨ job.state = .cancelRequested)

def InHand (H : Hashing) (db : Database) (j : JobId) (token : String) : Prop :=
  UnderWay H db j token ∨ Ended db j

/-- The operation took the job away from its runner: the sweep declared the runner
stale and queued the job again, or retention deleted the job. -/
def TakenBy (j : JobId) (op : Op) (db : Database) : Prop :=
  (op.staleRunner? = some j ∧ ∃ job, db.job? j = some job ∧ job.state = .pending) ∨ RemovedBy j op db

/-! ### What others do -/

section
variable {H : Hashing} {op : Op} {acct : Account} {j : JobId} {token : String} {db : Database}
  {s s' : Slice} {job : ResearchJob} {w : Write}

/-- A job that is under way is closed, kept with its token, or declared stale. -/
theorem Effect.underWay (h : Effect H op acct job w)
    (hst : job.state = .running ∨ job.state = .cancelRequested) :
    w.job.state.isTerminal = true ∨
    (w.job.runnerTokenHash = job.runnerTokenHash ∧
      (w.job.state = .running ∨ w.job.state = .cancelRequested)) ∨
    (op.staleRunner? = some job.id ∧ w.job.state = .pending) := by
  have hother {t : JobState} (ht : job.state = t) (hr : t ≠ .running) (hc : t ≠ .cancelRequested) :
      False := hst.elim (fun h => hr (ht.symm.trans h)) (fun h => hc (ht.symm.trans h))
  cases h with
  | dispatched hs => exact (hother hs nofun nofun).elim
  | renewed => exact .inr (.inl ⟨rfl, hst⟩)
  | dispatchRequeued hs => exact (hother hs nofun nofun).elim
  | runnerRequeued _ hop => exact .inr (.inr ⟨hop, rfl⟩)
  | touched => exact .inr (.inl ⟨rfl, hst⟩)
  | progressed => exact .inr (.inl ⟨rfl, hst⟩)
  | started hs => exact (hother hs nofun nofun).elim
  | cancelRequested => exact .inr (.inl ⟨rfl, .inr rfl⟩)
  | closed hs =>
    left
    rcases hs with ⟨rfl, -⟩ | ⟨rfl, -⟩ <;> rfl
  | succeeded => exact .inl rfl
  | charged => exact .inr (.inl ⟨rfl, hst⟩)
  | revoked hs => rcases hst with hst | hst <;> simp [hst, JobState.isTerminal] at hs

theorem JobStep.underWay (h : JobStep H op j acct s s') (hj : s.job = some job)
    (hst : job.state = .running ∨ job.state = .cancelRequested) :
    ∃ job', s'.job = some job' ∧ (job'.state.isTerminal = true ∨
      (job'.runnerTokenHash = job.runnerTokenHash ∧
        (job'.state = .running ∨ job'.state = .cancelRequested)) ∨
      (op.staleRunner? = some j ∧ job'.state = .pending)) := by
  cases h with
  | kept => exact ⟨job, hj, .inr (.inl ⟨rfl, hst⟩)⟩
  | created => cases hj
  | written hid heffect =>
    obtain rfl := Option.some.inj hj
    obtain rfl := hid
    exact ⟨_, rfl, heffect.underWay hst⟩
  | pruned =>
    obtain rfl := Option.some.inj hj
    exact ⟨_, rfl, .inr (.inl ⟨rfl, hst⟩)⟩
  | artifactDeleted => exact ⟨job, hj, .inr (.inl ⟨rfl, hst⟩)⟩
  | orphaned =>
    obtain rfl := Option.some.inj hj
    exact ⟨_, rfl, .inr (.inl ⟨rfl, hst⟩)⟩
  | removed _ hterm =>
    obtain rfl := Option.some.inj hj
    rcases hst with hst | hst <;> simp [hst, JobState.isTerminal] at hterm

/-- A job under way is queued again only by who declares its runner stale. -/
theorem UnderWay.step (h : UnderWay H db j token) (op : Op) :
    InHand H (ResearchGateway.step H op db) j token ∨
      (op.staleRunner? = some j ∧ ∃ job, (ResearchGateway.step H op db).job? j = some job ∧ job.state = .pending) := by
  obtain ⟨job, hj, hacc, hst⟩ := h
  obtain ⟨job', hj', hended | ⟨htoken, hst'⟩ | hstale⟩ := (job_step H op db j).underWay hj hst
  · exact .inl (.inr ⟨job', hj', hended⟩)
  · exact .inl (.inl ⟨job', hj', by simpa only [accepts, htoken] using hacc, hst'⟩)
  · exact .inr ⟨hstale.1, job', hj', hstale.2⟩

/-- A job that is under way has not ended. -/
theorem UnderWay.open (h : UnderWay H db j token) : ¬ Ended db j := by
  obtain ⟨job, hj, -, hst⟩ := h
  intro hended
  have hover := hended.over job hj
  rcases hst with hst | hst <;> simp [hst, JobState.isTerminal] at hover

theorem InHand.step (h : InHand H db j token) (hs : Sound db) (op : Op) :
    InHand H (ResearchGateway.step H op db) j token ∨ TakenBy j op (ResearchGateway.step H op db) := by
  rcases h with hway | hended
  · exact (hway.step op).imp_right .inl
  · exact (hended.step hs op).imp .inr .inr

end

/-! ### What can be reported -/

/-- What is kept of a text is not empty, and every code point of it can be encoded and
stored. -/
def Reportable (message : Text) : Prop :=
  message.take 20000 ≠ [] ∧ ∀ c ∈ message.take 20000, c.isSurrogate = false ∧ c.val ≠ 0

instance (message : Text) : Decidable (Reportable message) :=
  inferInstanceAs (Decidable (_ ∧ _))

section
variable {message : Text}

theorem isStorable_iff {text : String} : isStorable text = true ↔ Char.ofNat 0 ∉ text.toList := by
  simp only [isStorable, List.all_eq_true, decide_eq_true_eq]
  exact ⟨fun h hmem => h _ hmem rfl, fun h c hc heq => h (heq ▸ hc)⟩

theorem not_reportable (h : Text.encode? (message.take 20000) = none) : ¬ Reportable message := by
  intro hgood
  have hbad := Text.encode?_eq_none.mp h
  rw [Text.isEncodable, List.all_eq_false] at hbad
  obtain ⟨c, hc, hsurrogate⟩ := hbad
  simp [(hgood.2 c hc).1] at hsurrogate

/-- A text that was cut is not cut again. -/
theorem clip_encode {s : String} (h : Text.encode? (message.take 20000) = some s) : clip s = s := by
  have hlength : s.toList.length ≤ 20000 := by
    have htake : (message.take 20000).length ≤ 20000 := List.length_take_le ..
    rw [String.length_toList, Text.length_encode h]
    exact htake
  rw [clip, List.take_of_length_le hlength, String.ofList_toList]

/-- What was encoded is stored unless it holds a NUL, and no other code point becomes one. -/
theorem reportable_encode {s : String} (h : Text.encode? (message.take 20000) = some s) :
    Reportable message ↔ message.take 20000 ≠ [] ∧ isStorable (clip s) = true := by
  have hencodable := List.all_eq_true.mp (Text.encode?_eq_some.mp h).1
  have hnul : Char.ofNat 0 ∈ s.toList ↔ (0 : CodePoint) ∈ message.take 20000 :=
    Text.mem_toList_encode h (c := 0) rfl
  rw [clip_encode h, isStorable_iff, hnul]
  refine and_congr_right fun _ => ⟨fun hgood hmem => (hgood 0 hmem).2 rfl, fun hno c hc => ⟨?_, fun hzero => ?_⟩⟩
  · simpa using hencodable c hc
  · rw [show c = 0 from Fin.ext hzero] at hc
    exact hno hc

/-- A text that was cut fits the endpoint unless it is empty. -/
theorem cut_accepted {s : String} (h : Text.encode? (message.take 20000) = some s) :
    (s.length < 1 ∨ 20000 < s.length) ↔ message.take 20000 = [] := by
  rw [Text.length_encode h, ← List.length_eq_zero_iff]
  have hle : (message.take 20000).length ≤ 20000 := List.length_take_le ..
  omega

end

/-! ### What the runner's reports do -/

/-- Only an active job has a token to present. -/
theorem Sound.active_of_accepts {H : Hashing} {db : Database} {j : JobId} {token : String}
    {job : ResearchJob} (hs : Sound db) (hj : db.job? j = some job) (hacc : accepts H job token = true) :
    job.state = .dispatched ∨ job.state = .running ∨ job.state = .cancelRequested := by
  have htoken : job.runnerTokenHash.isSome = true := by
    unfold accepts at hacc
    split at hacc
    · cases hacc
    · next hhash => rw [hhash]; rfl
  rw [(hs.row hj).token] at htoken
  revert htoken
  cases job.state <;> simp [JobState.isActive]

/-- An endpoint around one operation commits that operation. -/
theorem respond_step {H : Hashing} {α : Type} {caught : Failure → Option Nat} {t : Transaction α}
    (op : Op) (hop : transact H op = t >>= fun _ => pure .done) (db : Database) :
    (respond caught t db).2 = step H op db := by
  cases h : t db with
  | ok p =>
    have hdone : transact H op db = .ok (.done, p.2) := by rw [hop]; exact done_ok h
    rw [respond_ok h, step_of_ok hdone]
  | error e =>
    have hfailed : transact H op db = .error e := by rw [hop]; exact bind_error h
    rw [respond_error h, step_of_error hfailed]

theorem respond_sound {H : Hashing} {α : Type} {caught : Failure → Option Nat} {t : Transaction α}
    (op : Op) (hop : transact H op = t >>= fun _ => pure .done) {db : Database} (hs : Sound db) :
    Sound (respond caught t db).2 := by
  rw [respond_step op hop]
  exact step_sound H op hs

section
variable {H : Hashing} {j : JobId} {token : String} {db db' : Database} {job r : ResearchJob}
  {now : Time}

theorem markStarted_underWay (h : markStarted H now j token db = .ok (r, db')) :
    UnderWay H db' j token := by
  obtain ⟨job, db₁, hread, hstart⟩ := ok_bind h
  obtain ⟨rfl, hj, hacc⟩ := ok_runner hread
  rcases ok_ite hstart with ⟨-, hthrow⟩ | ⟨-, hstart⟩
  · exact (ok_throw hthrow).elim
  · rcases ok_ite hstart with ⟨hc, hsame⟩ | ⟨-, hstart⟩
    · obtain ⟨rfl, rfl⟩ := ok_pure hsame
      exact ⟨job, hj, hacc, .inr hc⟩
    · rcases ok_ite hstart with ⟨-, hsaved⟩ | ⟨hr, hsame⟩
      · obtain ⟨-, rfl⟩ := ok_written hsaved
        exact ⟨_, Database.job?_write hj rfl, hacc, .inl rfl⟩
      · obtain ⟨rfl, rfl⟩ := ok_pure hsame
        exact ⟨job, hj, hacc, .inl (not_not.mp hr)⟩

theorem unpresented (hrow : ¬ ∃ job, db.job? j = some job ∧ accepts H job token = true) :
    getForRunner H j token db = .error .jobNotFound :=
  getForRunner_refused fun job hj => by simpa using fun hacc => hrow ⟨job, hj, hacc⟩

/-- What the report of a start finds; it returns the row of the job. -/
theorem markStarted_cases (H : Hashing) (j : JobId) (token : String) (now : Time) (db : Database) :
    markStarted H now j token db = .error .jobNotFound ∨
    (∃ m, markStarted H now j token db = .error (.invalidState m)) ∨
    ∃ job r db', db.job? j = some job ∧ markStarted H now j token db = .ok (r, db') ∧
      r.isAddressable = job.isAddressable := by
  by_cases hrow : ∃ job, db.job? j = some job ∧ accepts H job token = true
  · obtain ⟨job, hj, hacc⟩ := hrow
    have hread : getForRunnerLocked H j token db = .ok (job, db) := getForRunner_accepted hj hacc
    right
    rw [markStarted, bind_ok hread]
    by_cases ha : job.state.isActive = true
    · rw [if_neg (not_not.mpr ha)]
      right
      by_cases hc : job.state = .cancelRequested
      · rw [if_pos hc]
        exact ⟨job, job, db, hj, rfl, rfl⟩
      · rw [if_neg hc]
        by_cases hr : job.state ≠ .running
        · rw [if_pos hr]
          exact ⟨job, _, _, hj, rfl, rfl⟩
        · rw [if_neg hr]
          exact ⟨job, job, db, hj, rfl, rfl⟩
    · rw [if_pos ha]
      exact .inl ⟨_, rfl⟩
  · exact .inl (bind_error (unpresented hrow))

theorem markCancelled_underWay (h : UnderWay H db j token) (now : Time) :
    ∃ r db', markCancelled H now j token db = .ok (r, db') ∧ Ended db' j := by
  obtain ⟨job, hj, hacc, hst⟩ := h
  have hread : getForRunnerLocked H j token db = .ok (job, db) := getForRunner_accepted hj hacc
  have hne : job.state ≠ .cancelled := by rcases hst with hst | hst <;> rw [hst] <;> decide
  have hwrite : markCancelled H now j token db = .ok (cancelledJob now job,
      db.write ⟨now, cancelledJob now job, [("job.cancelled", ∅)]⟩) := by
    rw [markCancelled, bind_ok hread, if_neg hne, if_pos hst.symm]
    rfl
  exact ⟨_, _, hwrite, _, Database.job?_write hj rfl, rfl⟩

/-- A failure that can be stored is accepted as long as nobody asked for a cancel. -/
theorem markFailed_accepted (hj : db.job? j = some job) (hacc : accepts H job token = true)
    (hst : job.state = .dispatched ∨ job.state = .running) {error : String}
    (herror : isStorable (clip error) = true) (now : Time) :
    ∃ r db', markFailed H now j token error db = .ok (r, db') ∧ db'.job? j = some r ∧ r.state = .failed := by
  have hread : getForRunnerLocked H j token db = .ok (job, db) := getForRunner_accepted hj hacc
  have hne : job.state ≠ .failed := by rcases hst with hst | hst <;> rw [hst] <;> decide
  have hwrite : markFailed H now j token error db = .ok (failedJob now error job,
      db.write ⟨now, failedJob now error job, [("job.failed", record [("error", .str (clip error))])]⟩) := by
    rw [markFailed, bind_ok hread, if_neg hne, if_pos hst, if_pos herror]
    rfl
  exact ⟨_, _, hwrite, Database.job?_write hj rfl, rfl⟩

/-- PostgreSQL refuses a failure whose text it cannot store. -/
theorem markFailed_unstorable (hj : db.job? j = some job) (hacc : accepts H job token = true)
    (hst : job.state = .dispatched ∨ job.state = .running) {error : String}
    (herror : isStorable (clip error) = false) (now : Time) :
    markFailed H now j token error db = .error .database := by
  have hread : getForRunnerLocked H j token db = .ok (job, db) := getForRunner_accepted hj hacc
  have hne : job.state ≠ .failed := by rcases hst with hst | hst <;> rw [hst] <;> decide
  rw [markFailed, bind_ok hread, if_neg hne, if_pos hst, if_neg (by simp [herror])]
  rfl

/-- A failure is not accepted while a cancel is pending. -/
theorem markFailed_cancelRequested (hj : db.job? j = some job) (hacc : accepts H job token = true)
    (hc : job.state = .cancelRequested) (now : Time) (error : String) :
    ∃ m, markFailed H now j token error db = .error (.invalidState m) := by
  have hread : getForRunnerLocked H j token db = .ok (job, db) := getForRunner_accepted hj hacc
  refine ⟨s!"cannot fail job in state {job.state.value}", ?_⟩
  rw [markFailed, bind_ok hread, if_neg (by rw [hc]; decide), if_neg (by rw [hc]; decide)]
  rfl

/-- What a failure report finds. -/
theorem markFailed_cases (H : Hashing) (j : JobId) (token : String) (hs : Sound db) (now : Time)
    (error : String) :
    ((¬ ∃ job, db.job? j = some job ∧ accepts H job token = true) ∧
      markFailed H now j token error db = .error .jobNotFound) ∨
    (∃ job m, db.job? j = some job ∧ accepts H job token = true ∧ job.state = .cancelRequested ∧
      markFailed H now j token error db = .error (.invalidState m)) ∨
    (isStorable (clip error) = false ∧ markFailed H now j token error db = .error .database) ∨
    (∃ job r db', db.job? j = some job ∧ accepts H job token = true ∧ job.state ≠ .cancelRequested ∧
      isStorable (clip error) = true ∧ markFailed H now j token error db = .ok (r, db') ∧ Ended db' j) := by
  by_cases hrow : ∃ job, db.job? j = some job ∧ accepts H job token = true
  · obtain ⟨job, hj, hacc⟩ := hrow
    by_cases hc : job.state = .cancelRequested
    · obtain ⟨m, hrefused⟩ := markFailed_cancelRequested hj hacc hc now error
      exact .inr (.inl ⟨job, m, hj, hacc, hc, hrefused⟩)
    · have hst : job.state = .dispatched ∨ job.state = .running := by
        rcases hs.active_of_accepts hj hacc with hst | hst | hst
        · exact .inl hst
        · exact .inr hst
        · exact (hc hst).elim
      cases hstorable : isStorable (clip error) with
      | false => exact .inr (.inr (.inl ⟨rfl, markFailed_unstorable hj hacc hst hstorable now⟩))
      | true =>
        obtain ⟨r, db', hok, hrow', hfailed⟩ := markFailed_accepted hj hacc hst hstorable now
        exact .inr (.inr (.inr ⟨job, r, db', hj, hacc, hc, rfl, hok, r, hrow', by rw [hfailed]; rfl⟩))
  · exact .inl ⟨hrow, bind_error (unpresented hrow)⟩

theorem completionCheck_unchanged {attempt : Nat} (h : completionCheck H j token db = .ok (attempt, db')) :
    db' = db := by
  obtain ⟨job, _, hread, hcheck⟩ := ok_bind h
  obtain ⟨rfl, -, -⟩ := ok_runner hread
  rcases ok_ite hcheck with ⟨-, hthrow⟩ | ⟨-, hret⟩
  · exact (ok_throw hthrow).elim
  · exact (ok_pure hret).2.symm

theorem completionCommit_ended {completion : RunnerCompletion} {stored : List StoredObject}
    (h : completionCommit H now j token completion stored db = .ok (r, db')) : Ended db' j := by
  obtain ⟨job, hj, -, hslice⟩ := completionCommit_slice h
  have hrow := (congrArg Slice.job (hslice j)).trans (Database.job?_write hj rfl)
  exact ⟨_, hrow, rfl⟩

/-! ### At the endpoints -/

/-- A start is refused; or it is taken, and then it is answered with an error if the job
has no URL for its message. -/
theorem runnerStarted_cases (H : Hashing) (j : JobId) (token : String) (now : Time) (db : Database) :
    runnerStarted H now j token db = (.status 409, db) ∨
    ∃ job db', db.job? j = some job ∧ UnderWay H db' j token ∧
      ((job.isAddressable = true ∧ ∃ r, runnerStarted H now j token db = (.ok r, db')) ∨
        (job.isAddressable = false ∧ runnerStarted H now j token db = (.status 500, db'))) := by
  unfold runnerStarted
  rcases markStarted_cases H j token now db with hmissing | ⟨m, hstate⟩ | ⟨job, r, db', hj, hok, hurl⟩
  · rw [respond_error hmissing]
    exact .inl rfl
  · rw [respond_error hstate]
    exact .inl rfl
  · refine .inr ⟨job, db', hj, markStarted_underWay hok, ?_⟩
    rw [respond_ok hok, ← hurl]
    cases h : r.isAddressable with
    | true => exact .inl ⟨rfl, r, by simp only [published, h, if_true]⟩
    | false => exact .inr ⟨rfl, by simp [published, h]⟩

/-- A cancelled report ends whatever the runner still has in hand. -/
theorem runnerCancelled_ended (h : InHand H db j token) (hs : Sound db) (now : Time) :
    Ended (runnerCancelled H now j token db).2 j := by
  rw [runnerCancelled, published_snd]
  rcases h with hway | hended
  · obtain ⟨r, db', hok, hended⟩ := markCancelled_underWay hway now
    rw [respond_ok hok]
    exact hended
  · have hrefused : markCancelled H now j token db = .error .jobNotFound :=
      bind_error (getForRunner_refused (hended.over.refused hs token))
    rw [respond_error hrefused]
    exact hended

/-- The report of a running job is stored, or changes nothing. -/
theorem reportFailed_running (now : Time) (message : Text) (hj : db.job? j = some job)
    (hacc : accepts H job token = true) (hr : job.state = .running) :
    (Reportable message ∧ ∃ r, (reportFailed H now j token message db).2.job? j = some r ∧
      r.state = .failed) ∨
    (¬ Reportable message ∧ (reportFailed H now j token message db).2 = db) := by
  unfold reportFailed
  cases hencode : Text.encode? (message.take 20000) with
  | none => exact .inr ⟨not_reportable hencode, rfl⟩
  | some s =>
    simp only [reportable_encode hencode]
    unfold runnerFailed
    by_cases hlength : s.length < 1 ∨ 20000 < s.length
    · rw [if_pos hlength]
      exact .inr ⟨fun hgood => hgood.1 ((cut_accepted hencode).mp hlength), rfl⟩
    · rw [if_neg hlength, published_snd]
      cases hstorable : isStorable (clip s) with
      | false =>
        rw [respond_error (markFailed_unstorable hj hacc (.inr hr) hstorable now)]
        exact .inr ⟨fun hgood => Bool.false_ne_true hgood.2, rfl⟩
      | true =>
        obtain ⟨r, db', hok, hrow, hfailed⟩ := markFailed_accepted hj hacc (.inr hr) hstorable now
        rw [respond_ok hok]
        exact .inl ⟨⟨fun hempty => hlength ((cut_accepted hencode).mpr hempty), rfl⟩, r, hrow, hfailed⟩

/-- A report that is refused changes nothing. -/
theorem reportFailed_refused (h : ∀ error, ∃ e, markFailed H now j token error db = .error e)
    (message : Text) : (reportFailed H now j token message db).2 = db := by
  unfold reportFailed
  cases Text.encode? (message.take 20000) with
  | none => rfl
  | some s =>
    obtain ⟨e, hrefused⟩ := h s
    simp only [runnerFailed]
    split
    · rfl
    · rw [published_snd, respond_error hrefused]

/-- A failure report ends the job unless a cancel is pending or it cannot be made. -/
theorem reportFailed_ended_iff (h : InHand H db j token) (hs : Sound db) (message : Text) (now : Time) :
    Ended (reportFailed H now j token message db).2 j ↔
      ¬ ∃ job, db.job? j = some job ∧
        (job.state = .cancelRequested ∨ job.state = .running ∧ ¬ Reportable message) := by
  rcases h with hway | hended
  · have hopen := hway.open
    obtain ⟨job, hj, hacc, hr | hc⟩ := hway
    · rcases reportFailed_running now message hj hacc hr with ⟨hgood, r, hrow, hfailed⟩ | ⟨hbad, hsame⟩
      · refine ⟨fun _ => ?_, fun _ => ⟨r, hrow, by rw [hfailed]; rfl⟩⟩
        rintro ⟨job', hj', hstuck⟩
        obtain rfl : job = job' := Option.some.inj (hj.symm.trans hj')
        rcases hstuck with hc | ⟨-, hbad⟩
        · rw [hr] at hc
          cases hc
        · exact hbad hgood
      · rw [hsame]
        exact ⟨fun hended => (hopen hended).elim, fun hno => (hno ⟨job, hj, .inr ⟨hr, hbad⟩⟩).elim⟩
    · rw [reportFailed_refused fun error =>
        ⟨_, (markFailed_cancelRequested hj hacc hc now error).choose_spec⟩]
      exact ⟨fun hended => (hopen hended).elim, fun hno => (hno ⟨job, hj, .inl hc⟩).elim⟩
  · rw [reportFailed_refused fun error =>
      ⟨_, bind_error (getForRunner_refused (hended.over.refused hs token))⟩]
    refine ⟨fun _ => ?_, fun _ => hended⟩
    rintro ⟨job, hj, hstuck⟩
    have hover := hended.over job hj
    rcases hstuck with hc | ⟨hr, -⟩
    · simp [hc, JobState.isTerminal] at hover
    · simp [hr, JobState.isTerminal] at hover

/-- What a poll reads is the job's state; the waiter returns on two of them. -/
theorem stopState?_some {state : JobState}
    (h : stopState? (runnerJobState H j token db) = some state) :
    (state = .cancelRequested ∨ state = .failed) ∧ ∃ job, db.job? j = some job ∧ job.state = state := by
  cases hreply : runnerJobState H j token db with
  | ok found =>
    rw [hreply] at h
    obtain ⟨hstop, rfl⟩ := Option.ite_some_none_eq_some.mp h
    obtain ⟨job, _, hrow, hret⟩ := ok_bind (ok_respond (Prod.ext hreply rfl))
    obtain ⟨-, hj, -⟩ := ok_runner hrow
    obtain ⟨rfl, -⟩ := ok_pure hret
    exact ⟨hstop, job, hj, rfl⟩
  | status code =>
    rw [hreply] at h
    cases h

end

end ResearchGateway
