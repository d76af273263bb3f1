import ResearchGateway.Accounting
import ResearchGateway.Api.UserEndpoints
import ResearchGateway.Library.Statistics

/-! The metrics that are derived from the tables.

`refresh_durable_state` reads the tables in one session, adds everything up and then sets
its gauges. It raises if a retained job has a usage counter that `int` does not convert, or
if the sum of a counter is too large for a float. A counter that does not convert only ever
comes from a completion (`Converts.stepped`), and it stays as long as the job does. -/
namespace ResearchGateway
open Library

/-! ### What is read -/

/-- `STRATEGIES`. -/
def strategies : List String := ["focused", "balanced", "broad", "deep", "custom", "unknown"]

/-- `STRATEGIES[:-1]`, and what SQL and the loop make of anything else. -/
def classified (raw : String) : String := if raw ∈ strategies.dropLast then raw else "unknown"

/-- The `CASE` over the column. -/
def strategyColumn (job : ResearchJob) : String := classified job.research.strategy.value

/-- What the loop makes of a row. -/
def strategyOf (job : ResearchJob) : String := classified job.research.strategy.value

/-- `_seconds_between`, in microseconds. -/
def secondsBetween (later earlier : Time) : Time := if earlier ≤ later then later - earlier else 0

/-- `_quantile`, where there is a sample. -/
def quantile (values : List Time) (q : Quantile) : Option Time :=
  if values.isEmpty then none else nthSmallest values (q.rank values.length)

/-- What a gauge makes of an integer: a float, or an `OverflowError`. -/
def floatLimit : Int := Int.ofNat (1 <<< 1024 - 1 <<< 970)

def gauge? (value : Int) : Option Int := if value < floatLimit then some value else none

section
variable (db : Database)

def jobsCurrent (state : JobState) : Nat := db.jobs.rows.countP fun job => job.state = state

def jobsRetained (state : JobState) (strategy : String) : Nat :=
  db.jobs.rows.countP fun job => job.state = state && strategyColumn job = strategy

def jobsCompletedRecent (now : Time) (state : JobState) (strategy : String) (window : Time) : Nat :=
  db.jobs.rows.countP fun job =>
    job.state = state && job.state.isTerminal && strategyColumn job = strategy &&
      job.finishedAt.any fun finished => now - window ≤ finished

def queueWaits (strategy : String) : List Time :=
  db.jobs.rows.filterMap fun job =>
    if strategyOf job = strategy then job.startedAt.map fun started => secondsBetween started job.createdAt
    else none

def endToEndDurations (state : JobState) (strategy : String) : List Time :=
  db.jobs.rows.filterMap fun job =>
    if job.state = state ∧ job.state.isTerminal ∧ strategyOf job = strategy then
      job.finishedAt.map fun finished => secondsBetween finished job.createdAt
    else none

def executionDurations (state : JobState) (strategy : String) : List Time :=
  db.jobs.rows.filterMap fun job =>
    if job.state = state ∧ job.state.isTerminal ∧ strategyOf job = strategy then
      job.finishedAt.bind fun finished => job.startedAt.map fun started => secondsBetween finished started
    else none

end

/-- `sum(max(0, int((usage or {}).get(kind, 0))))` over rows. -/
def usageTotal? (c : Counter) : List ResearchJob → Option Int
  | [] => some 0
  | job :: rest => do
    let n ← usageInt? (usageOf job) c.key
    let total ← usageTotal? c rest
    return max 0 n + total

/-- The gauges by their labels. Of the quantiles, `QUANTILES` has 0.5, 0.95 and 0.99. -/
structure DurableMetrics where
  jobsCurrent : JobState → Nat
  jobsRetained : JobState → String → Nat
  jobsCompletedRecent : JobState → String → Time → Nat
  queueWait : String → Quantile → Option Time
  executionDuration : JobState → String → Quantile → Option Time
  endToEndDuration : JobState → String → Quantile → Option Time
  usage : Counter → Int
  artifactsCurrent : Nat
  artifactBytesCurrent : Nat
  oldestPendingAge : Time

def usageGauge? (db : Database) (c : Counter) : Option Int := (usageTotal? c db.jobs.rows).bind gauge?

/-- `refresh_durable_state`; `none` is an exception. What SQL counts fits into a float. -/
def refreshDurableState (now : Time) (db : Database) : Option DurableMetrics :=
  if Counter.all.all fun c => (usageGauge? db c).isSome then
    some {
      jobsCurrent := jobsCurrent db
      jobsRetained := jobsRetained db
      jobsCompletedRecent := jobsCompletedRecent db now
      queueWait := fun strategy q => quantile (queueWaits db strategy) q
      executionDuration := fun state strategy q => quantile (executionDurations db state strategy) q
      endToEndDuration := fun state strategy q => quantile (endToEndDurations db state strategy) q
      usage := fun c => (usageGauge? db c).getD 0
      artifactsCurrent := db.artifacts.rows.length
      artifactBytesCurrent := (db.artifacts.rows.map ResearchArtifact.size).sum
      oldestPendingAge :=
        ((db.jobs.rows.filter fun job => job.state = .pending).map ResearchJob.createdAt).min?.elim 0
          (secondsBetween now)}
  else none

/-! ### What is published -/

/-- The counter of a job as a sum takes it. -/
def counterOf (job : ResearchJob) (c : Counter) : Int := max 0 ((usageInt? (usageOf job) c.key).getD 0)

/-- Nothing for an empty sample, and otherwise a member of it at the rank of the quantile. -/
def IsQuantile (sample : List Time) (q : Quantile) (published : Option Time) : Prop :=
  (sample = [] ∧ published = none) ∨
    ∃ v, published = some v ∧ v ∈ sample ∧ q.rank sample.length ≤ (sample.countP fun a => a ≤ v) ∧
      (sample.countP fun a => a < v) < q.rank sample.length

structure Consistent (db : Database) (published : DurableMetrics) : Prop where
  current : ∀ state, published.jobsCurrent state = db.jobs.rows.countP fun job => job.state = state
  retained : ∀ state, (strategies.map (published.jobsRetained state)).sum = published.jobsCurrent state
  usage : ∀ c, published.usage c = (db.jobs.rows.map fun job => counterOf job c).sum
  queueWait : ∀ strategy q, IsQuantile (queueWaits db strategy) q (published.queueWait strategy q)
  executionDuration : ∀ state strategy q,
    IsQuantile (executionDurations db state strategy) q (published.executionDuration state strategy q)
  endToEndDuration : ∀ state strategy q,
    IsQuantile (endToEndDurations db state strategy) q (published.endToEndDuration state strategy q)

theorem quantile_isQuantile (sample : List Time) (q : Quantile) : IsQuantile sample q (quantile sample q) := by
  unfold quantile
  cases sample with
  | nil => exact .inl ⟨rfl, rfl⟩
  | cons a rest => exact .inr (nthSmallest_spec (q.rank_pos (Nat.succ_pos _)) (q.rank_le _))

theorem strategyColumn_mem (job : ResearchJob) : strategyColumn job ∈ strategies := by
  unfold strategyColumn classified
  split
  · next h => exact List.dropLast_subset _ h
  · decide

theorem jobsRetained_sum (db : Database) (state : JobState) :
    (strategies.map (jobsRetained db state)).sum = jobsCurrent db state := by
  have hcount (strategy : String) : jobsRetained db state strategy =
      (db.jobs.rows.filter fun job => job.state = state).countP fun job => strategyColumn job = strategy := by
    rw [jobsRetained, List.countP_filter]
    exact List.countP_congr fun job _ => by rw [Bool.and_comm]
  rw [List.map_congr_left fun strategy _ => hcount strategy,
    sum_countP_labels strategyColumn (by decide) fun job _ => strategyColumn_mem job,
    ← List.countP_eq_length_filter]
  rfl

/-! ### When it does not raise -/

section
variable {db : Database} {c : Counter} {rows : List ResearchJob}

/-- `int` converts the counters. -/
def Converts (usage : Dict) : Prop := ∀ c : Counter, (usageInt? usage c.key).isSome

theorem usageTotal?_isSome : (usageTotal? c rows).isSome ↔
    ∀ job ∈ rows, (usageInt? (usageOf job) c.key).isSome := by
  induction rows with
  | nil => simp [usageTotal?]
  | cons job rest ih =>
    rw [List.forall_mem_cons, ← ih, usageTotal?]
    cases usageInt? (usageOf job) c.key with
    | none => simp
    | some n => cases usageTotal? c rest <;> simp

theorem usageTotal?_sum {total : Int} (h : usageTotal? c rows = some total) :
    total = (rows.map fun job => counterOf job c).sum := by
  induction rows generalizing total with
  | nil => exact (Option.some.inj h).symm
  | cons job rest ih =>
    obtain ⟨n, hn, h⟩ := Option.bind_eq_some_iff.mp h
    obtain ⟨more, hmore, h⟩ := Option.bind_eq_some_iff.mp h
    have hcounter : counterOf job c = max 0 n := by rw [counterOf, hn]; rfl
    rw [List.map_cons, List.sum_cons, ← ih hmore, hcounter]
    exact (Option.some.inj h).symm

/-- The sums of the counters fit into a float. -/
def Fits (db : Database) : Prop := ∀ c, (db.jobs.rows.map fun job => counterOf job c).sum < floatLimit

theorem usageGauge?_eq {n : Int} : usageGauge? db c = some n ↔
    (∀ job ∈ db.jobs.rows, (usageInt? (usageOf job) c.key).isSome) ∧
      n = (db.jobs.rows.map fun job => counterOf job c).sum ∧ n < floatLimit := by
  unfold usageGauge?
  rw [Option.bind_eq_some_iff]
  constructor
  · rintro ⟨total, htotal, hgauge⟩
    rw [gauge?, Option.ite_none_right_eq_some] at hgauge
    obtain ⟨hless, hn⟩ := hgauge
    obtain rfl := Option.some.inj hn
    exact ⟨usageTotal?_isSome.mp (Option.isSome_of_eq_some htotal), usageTotal?_sum htotal, hless⟩
  · rintro ⟨hrows, rfl, hless⟩
    obtain ⟨total, htotal⟩ := Option.isSome_iff_exists.mp (usageTotal?_isSome.mpr hrows)
    obtain rfl := usageTotal?_sum htotal
    exact ⟨_, htotal, if_pos hless⟩

/-- A refresh of any tables: it publishes consistent values, or it raises. -/
theorem refreshDurableState_iff (now : Time) :
    (∃ published, refreshDurableState now db = some published ∧ Consistent db published) ↔
      (∀ job ∈ db.jobs.rows, Converts (usageOf job)) ∧ Fits db := by
  constructor
  · rintro ⟨published, hrefresh, -⟩
    have hall : ∀ c : Counter, (usageGauge? db c).isSome := by
      unfold refreshDurableState at hrefresh
      obtain ⟨h, -⟩ := Option.ite_none_right_eq_some.mp hrefresh
      exact fun c => List.all_eq_true.mp h c c.mem_all
    constructor
    · intro job hjob c
      obtain ⟨n, hn⟩ := Option.isSome_iff_exists.mp (hall c)
      exact (usageGauge?_eq.mp hn).1 job hjob
    · intro c
      obtain ⟨n, hn⟩ := Option.isSome_iff_exists.mp (hall c)
      obtain ⟨-, rfl, hless⟩ := usageGauge?_eq.mp hn
      exact hless
  · rintro ⟨hcounted, hfits⟩
    have hgauge (c : Counter) :
        usageGauge? db c = some (db.jobs.rows.map fun job => counterOf job c).sum :=
      usageGauge?_eq.mpr ⟨fun job hjob => hcounted job hjob c, rfl, hfits c⟩
    have hall : (Counter.all.all fun c => (usageGauge? db c).isSome) = true :=
      List.all_eq_true.mpr fun c _ => by rw [hgauge]; rfl
    refine ⟨_, if_pos hall, fun _ => rfl, jobsRetained_sum db, fun c => ?_, fun _ => quantile_isQuantile _,
      fun _ _ => quantile_isQuantile _, fun _ _ => quantile_isQuantile _⟩
    show (usageGauge? db c).getD 0 = _
    rw [hgauge]
    rfl

end

/-! ### Where the counters come from -/

section
variable {H : Hashing} {op : Op} {db : Database} {j : JobId} {job job' : ResearchJob}
  {completion : RunnerCompletion} {ops before : List Op}

theorem converts_empty : Converts ∅ := fun _ => rfl

theorem usageInt?_merged (c : Counter) : usageInt? (mergedUsage job completion) c.key =
    if completion.usage.lookup c.key = none then usageInt? (usageOf job) c.key
    else usageInt? completion.usage c.key := by
  unfold usageInt? mergedUsage
  cases hc : completion.usage.lookup c.key with
  | none =>
    rw [AList.lookup_union_right (AList.lookup_eq_none.mp hc), if_pos rfl]
    rfl
  | some value =>
    rw [AList.lookup_union_left (AList.lookup_isSome.mp (by rw [hc]; rfl)), hc, if_neg (by simp)]

theorem Converts.charged {charge : Charge} {usage usage' : Dict}
    (h : chargedUsage charge usage = some usage') : Converts usage' := by
  intro c
  obtain ⟨current, -, hlookup⟩ := chargedUsage_counter h c
  unfold usageInt?
  rw [hlookup]
  rfl

theorem Converts.merged (h : Converts (usageOf job)) (hcompletion : Converts completion.usage) :
    Converts (mergedUsage job completion) := by
  intro c
  rw [usageInt?_merged]
  split
  · exact h c
  · exact hcompletion c

theorem Converts.of_merged (h : Converts (mergedUsage job completion)) : Converts completion.usage := by
  intro c
  have hc := h c
  rw [usageInt?_merged] at hc
  split at hc
  · next hnone =>
    unfold usageInt?
    rw [hnone]
    rfl
  · exact hc

/-- Only a completion can make a job uncountable. -/
theorem Converts.stepped (hj' : (step H op db).job? j = some job')
    (h : ∀ job, db.job? j = some job → Converts (usageOf job))
    (hcompletion : ∀ completion, completionOf H op db j = some completion → Converts completion.usage) :
    Converts (usageOf job') := by
  cases hj : db.job? j with
  | none =>
    rw [usageOf, (job_step H op db j).usage_created hj hj']
    exact converts_empty
  | some job =>
    rcases usage_step hj hj' with ⟨husage, -⟩ | ⟨usage, hcharged, husage⟩ | ⟨completion, hc, -, husage⟩
    · rw [usageOf, husage]
      exact h job hj
    · rw [usageOf, husage]
      exact Converts.charged hcharged
    · rw [usageOf, husage]
      exact (h job hj).merged (hcompletion completion hc)

/-- The completions that a run commits, and their counters convert. -/
def CompletionsConvert (H : Hashing) (ops : List Op) : Prop :=
  ∀ before op, before ++ [op] <+: ops → ∀ j completion,
    completionOf H op (after H before) j = some completion → Converts completion.usage

theorem CompletionsConvert.counted (h : CompletionsConvert H ops) (hb : before <+: ops) (j : JobId) :
    ∀ job, (after H before).job? j = some job → Converts (usageOf job) := by
  induction before using List.reverseRecOn with
  | nil =>
    intro job hj
    cases hj
  | append_singleton front op ih =>
    intro job' hj'
    rw [after_snoc] at hj'
    exact Converts.stepped hj' (ih ((List.prefix_append ..).trans hb)) (h front op hb j)

end

/-- Along a run, every refresh publishes consistent values if and only if the counters of every
completion that is committed convert, and the sums stay in the range of a float. -/
theorem durable_metrics_iff (H : Hashing) (ops : List Op) :
    (∀ before, before <+: ops → ∀ now, ∃ published,
      refreshDurableState now (after H before) = some published ∧ Consistent (after H before) published) ↔
    CompletionsConvert H ops ∧ ∀ before, before <+: ops → Fits (after H before) := by
  constructor
  · intro h
    refine ⟨fun before op hb j completion hcompletion => ?_, fun before hb => ?_⟩
    · obtain ⟨hcounted, -⟩ := (refreshDurableState_iff 0).mp (h _ hb 0)
      cases hj : (after H before).job? j with
      | none =>
        unfold completionOf at hcompletion
        rw [hj] at hcompletion
        simp at hcompletion
      | some job =>
        obtain ⟨-, job', hj', husage⟩ := completionOf_usage hcompletion hj
        rw [← after_snoc] at hj'
        have hconverts := hcounted job' (Table.find?_eq_some.mp hj').1
        rw [usageOf, husage] at hconverts
        exact hconverts.of_merged
    · exact ((refreshDurableState_iff 0).mp (h before hb 0)).2
  · rintro ⟨hconverts, hfits⟩ before hb now
    refine (refreshDurableState_iff now).mpr ⟨fun job hjob => ?_, hfits before hb⟩
    exact hconverts.counted hb job.id job (Table.find?_eq_some.mpr ⟨hjob, rfl⟩)

/-- A completion with a counter that is null. -/
def Sample.uncountable : List Op :=
  started ++ [.completionCommit 3 1 "token"
    {reportMarkdown := "report", usage := record [("input_tokens", .null)]} stored]

/-- Once it is stored, there are no more metrics. -/
theorem durable_metrics_stuck : ¬ ∀ before, before <+: Sample.uncountable → ∀ now, ∃ published,
    refreshDurableState now (after Sample.hashing before) = some published ∧
      Consistent (after Sample.hashing before) published := by
  intro h
  obtain ⟨published, hrefresh, -⟩ := h _ List.prefix_rfl 4
  have hnone : (refreshDurableState 4 (after Sample.hashing Sample.uncountable)).isNone = true := by
    decide +kernel
  rw [hrefresh] at hnone
  cases hnone

end ResearchGateway
