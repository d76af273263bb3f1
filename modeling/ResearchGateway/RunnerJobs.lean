import ResearchGateway.ArtifactStore
import ResearchGateway.Executors
import ResearchGateway.Library.Uuid
import ResearchGateway.Library.Value

/-! The Jobs of the runners.

`KubernetesJobExecutor` gives each attempt a Job of its own, by its name. Whatever is submitted,
inspected and stopped, a Job carries the id, the token and the address of its attempt, however the
environment of the runners is configured (`jobs_own`); and the Jobs by their names behave like
the executor that knows attempts (`namespace_simulates`). -/
namespace ResearchGateway
open Library

namespace RunnerJobs

/-! ### Settings -/

/-- What `submit` reads of the settings; the mappings of strings are in order. -/
structure RunnerSettings where
  image : Text
  imagePullPolicy : Text := .ofString "IfNotPresent"
  imagePullSecrets : List Fields := []
  ownerDeployment : Option Text := none
  serviceAccount : Text := .ofString "open-webui-gpt-researcher-runner"
  cpuRequest : Text := .ofString "250m"
  memoryRequest : Text := .ofString "512Mi"
  cpuLimit : Text := .ofString "2"
  memoryLimit : Text := .ofString "2Gi"
  activeDeadlineSeconds : Int := 7200
  ttlSecondsAfterFinished : Int := 3600
  backoffLimit : Int := 0
  env : Fields := []
  envFrom : List Fields := []
  extraEnv : List Fields := []
  podLabels : List (Text × Text) := []
  podAnnotations : List (Text × Text) := []
  nodeSelector : List (Text × Text) := []
  tolerations : List Fields := []
  affinity : Fields := []
  podSecurityContext : Fields
  containerSecurityContext : Fields
  extraVolumes : List Fields := []
  extraVolumeMounts : List Fields := []
  internalBaseUrl : Text := .ofString "http://api:8090"

def reservedEnv : List Text := [.ofString "INTERNAL_BASE_URL", .ofString "JOB_ID", .ofString "RUNNER_TOKEN"]

/-- What of the reserved names is among some names, in order. -/
def conflicts (names : List Text) : List Text := reservedEnv.filter (· ∈ names)

/-- The names of `runner_extra_env` that are strings. -/
def extraEnvNames (settings : RunnerSettings) : List Text :=
  settings.extraEnv.filterMap fun item =>
    match item.get "name" with
    | .str name => some name
    | _ => none

/-- What `validate_retention_order` checks of the Jobs. -/
def validate (settings : RunnerSettings) : Except String Unit :=
  let listed (names : List Text) := ", ".intercalate (names.map fun name => String.ofList (name.map CodePoint.toChar))
  let envConflicts := conflicts (settings.env.map Prod.fst)
  let extraConflicts := conflicts (extraEnvNames settings)
  if envConflicts ≠ [] then .error ("RUNNER_ENV cannot override reserved values: " ++ listed envConflicts)
  else if extraConflicts ≠ [] then .error ("RUNNER_EXTRA_ENV cannot override reserved values: " ++ listed extraConflicts)
  else if settings.extraVolumes.any fun volume => (volume.get "name").isText "tmp" then
    .error "RUNNER_EXTRA_VOLUMES cannot redefine the tmp volume"
  else if settings.extraVolumeMounts.any fun mount =>
      (mount.get "name").isText "tmp" || (mount.get "mountPath").isText "/tmp" then
    .error "RUNNER_EXTRA_VOLUME_MOUNTS cannot redefine the tmp mount"
  else .ok ()

/-! ### The manifest -/

structure EnvVar where
  name : Text
  value : Option Text := none
  valueFrom : Option Value := none

/-- The classes of the client that settings are turned into. -/
inductive Model where
  | envFromSource
  | volumeMount
  | volume
  | securityContext
  | podSecurityContext
  | localObjectReference
  | toleration
  | affinity

/-- The Kubernetes client, whose objects are `μ`. -/
structure Client (μ : Type) where
  /-- `str` of a float, a list or a dictionary. -/
  repr : Value → Text
  /-- `_kubernetes_model(item, V1EnvVar)`; `none` where it raises. -/
  envVar? : Fields → Option EnvVar
  /-- `_kubernetes_model` for the other classes. -/
  model? : Model → Fields → Option μ
  /-- `V1VolumeMount(name="tmp", mount_path="/tmp")`, and the empty directory of that name. -/
  tmpMount : μ
  tmpVolume : μ

structure Resources where
  cpu : Text
  memory : Text

structure Container (μ : Type) where
  name : String := "runner"
  image : Text
  imagePullPolicy : Text
  args : List String := ["runner"]
  env : List EnvVar
  envFrom : List μ
  requests : Resources
  limits : Resources
  securityContext : μ
  volumeMounts : List μ

structure PodSpec (μ : Type) where
  restartPolicy : String := "Never"
  serviceAccountName : Text
  automountServiceAccountToken : Bool := false
  securityContext : μ
  imagePullSecrets : List μ
  nodeSelector : List (Text × Text)
  tolerations : List μ
  affinity : Option μ
  container : Container μ
  volumes : List μ

structure OwnerReference where
  name : Text
  uid : Text
  controller : Bool := false
  blockOwnerDeletion : Bool := false
  deriving DecidableEq

structure Manifest (μ : Type) where
  name : Text
  labels : List (Text × Text)
  annotations : List (Text × Text)
  ownerReference : Option OwnerReference
  backoffLimit : Int
  activeDeadlineSeconds : Int
  ttlSecondsAfterFinished : Int
  pod : PodSpec μ

/-- `_job_name`. -/
def jobName (k : Attempt) : Text :=
  .ofString "deep-research-" ++ (Uuid.text k.1 ++ (.ofString "-" ++ .ofString (toString k.2)))

section
variable {μ : Type} (client : Client μ) (settings : RunnerSettings)

/-- The value of an entry of `runner_env`: a truth value is in lower case. -/
def envText : Value → Text
  | .bool b => .ofString (if b then "true" else "false")
  | value => value.toText client.repr

/-- What every attempt has of its own. -/
def ownEnv (k : Attempt) (token : Text) : List EnvVar :=
  [⟨.ofString "JOB_ID", some (Uuid.text k.1), none⟩, ⟨.ofString "RUNNER_TOKEN", some token, none⟩,
    ⟨.ofString "INTERNAL_BASE_URL", some settings.internalBaseUrl, none⟩]

/-- The environment of the container; `none` where an item of `runner_extra_env` is none. -/
def environment? (k : Attempt) (token : Text) : Option (List EnvVar) :=
  (settings.extraEnv.mapM client.envVar?).map fun extra =>
    settings.env.map (fun entry => ⟨entry.1, some (envText client entry.2), none⟩) ++ extra ++ ownEnv settings k token

def labels (k : Attempt) : List (Text × Text) :=
  assignAll settings.podLabels [(.ofString "app.kubernetes.io/name", .ofString "open-webui-gpt-researcher"),
    (.ofString "app.kubernetes.io/component", .ofString "runner"), (.ofString "job-id", Uuid.text k.1),
    (.ofString "job-attempt", .ofString (toString k.2))]

def affinity? : Option (Option μ) :=
  if settings.affinity.isEmpty then some none else (client.model? .affinity settings.affinity).map some

/-- The Job that `submit` creates; `none` where the settings are no manifest. -/
def manifest? (k : Attempt) (token : Text) (owner : Option OwnerReference) : Option (Manifest μ) := do
  let env ← environment? client settings k token
  let envFrom ← settings.envFrom.mapM (client.model? .envFromSource)
  let extraMounts ← settings.extraVolumeMounts.mapM (client.model? .volumeMount)
  let extraVolumes ← settings.extraVolumes.mapM (client.model? .volume)
  let containerSecurity ← client.model? .securityContext settings.containerSecurityContext
  let podSecurity ← client.model? .podSecurityContext settings.podSecurityContext
  let secrets ← settings.imagePullSecrets.mapM (client.model? .localObjectReference)
  let tolerations ← settings.tolerations.mapM (client.model? .toleration)
  let affinity ← affinity? client settings
  return {
    name := jobName k
    labels := labels settings k
    annotations := settings.podAnnotations
    ownerReference := owner
    backoffLimit := settings.backoffLimit
    activeDeadlineSeconds := settings.activeDeadlineSeconds
    ttlSecondsAfterFinished := settings.ttlSecondsAfterFinished
    pod := {
      serviceAccountName := settings.serviceAccount
      securityContext := podSecurity
      imagePullSecrets := secrets
      nodeSelector := settings.nodeSelector
      tolerations, affinity
      volumes := client.tmpVolume :: extraVolumes
      container := {
        image := settings.image
        imagePullPolicy := settings.imagePullPolicy
        env, envFrom
        requests := ⟨settings.cpuRequest, settings.memoryRequest⟩
        limits := ⟨settings.cpuLimit, settings.memoryLimit⟩
        securityContext := containerSecurity
        volumeMounts := client.tmpMount :: extraMounts } } }

end

/-- The value of a variable in the container: the last entry of a name counts. -/
def Manifest.value? {μ : Type} (manifest : Manifest μ) (name : Text) : Option Text :=
  (manifest.pod.container.env.reverse.find? fun entry => entry.name = name).bind EnvVar.value

/-! ### The namespace -/

structure Job (μ : Type) where
  manifest : Manifest μ
  status : JobStatus := {}

/-- The Jobs of the namespace, by their names. -/
abbrev Jobs (μ : Type) := Text → Option (Job μ)

inductive Event where
  /-- `submit`; the API answers with the owner of the Jobs, or a call before the last one raises. -/
  | submit (k : Attempt) (token : Text) (owner : Option (Option OwnerReference))
  | inspect (k : Attempt)
  | stop (k : Attempt)
  /-- The pod of a Job ends. -/
  | exit (k : Attempt) (code : Int)
  /-- A Job that has finished is removed, when its time is over. -/
  | expire (k : Attempt)

def Event.attempt : Event → Attempt
  | submit k .. | inspect k | stop k | exit k _ | expire k => k

section
variable {μ : Type} (client : Client μ) (settings : RunnerSettings)

/-- `create_namespaced_job`; a Job that is there already is status 409. -/
def create (jobs : Jobs μ) (manifest : Manifest μ) : Jobs μ :=
  if (jobs manifest.name).isSome then jobs else Function.update jobs manifest.name (some ⟨manifest, {}⟩)

def submit (k : Attempt) (token : Text) (owner : Option (Option OwnerReference)) (jobs : Jobs μ) : Jobs μ :=
  match owner.bind (manifest? client settings k token) with
  | none => jobs
  | some manifest => create jobs manifest

/-- `inspect`, where the API answers. -/
def inspect (k : Attempt) (jobs : Jobs μ) : DispatchStatus :=
  match jobs (jobName k) with
  | none => .missing
  | some job => if 0 < job.status.failed ∨ 0 < job.status.succeeded then .exited else .active

def finish (code : Int) (job : Job μ) : Job μ :=
  if job.status = {} then {job with status := if code = 0 then {succeeded := 1} else {failed := 1}} else job

/-- What an event is to an executor that knows attempts. -/
def executorEvents (e : Event) (jobs : Jobs μ) : List ExecutorEvent :=
  match e with
  | .submit k token owner => if (owner.bind (manifest? client settings k token)).isSome then [.submit k] else []
  | .inspect k => [.inspect k]
  | .stop k => [.stop k]
  | .exit k code => [.exit k code]
  | .expire k => if inspect k jobs = .exited then [.stop k] else []

def machine : Machine (Jobs μ) Event ExecutorEvent where
  next
    | .submit k token owner, jobs => submit client settings k token owner jobs
    | .inspect _, jobs => jobs
    | .stop k, jobs => Function.update jobs (jobName k) none
    | .exit k code, jobs => Function.update jobs (jobName k) ((jobs (jobName k)).map (finish code))
    | .expire k, jobs => Function.update jobs (jobName k) ((jobs (jobName k)).filter fun job => job.status = {})
  out := executorEvents client settings

def after (events : List Event) : Jobs μ := (machine client settings).run (fun _ => none) events

def observed (events : List Event) : List ExecutorEvent := (machine client settings).trace (fun _ => none) events

end

/-! ### Names -/

/-- The id of a job is a UUID. -/
def IsAttempt (k : Attempt) : Prop := k.1 < 2 ^ 128

/-- An attempt is told by the name of its Job. -/
theorem jobName_inj {k k' : Attempt} (hk : IsAttempt k) (hk' : IsAttempt k') (h : jobName k = jobName k') : k = k' := by
  have hrest := List.append_cancel_left h
  obtain ⟨hid, htail⟩ := List.append_inj hrest (by simp)
  have hattempt := Text.ofString_injective (List.append_cancel_left htail)
  exact Prod.ext (Uuid.text_inj hk hk' hid) (toString_inj (congrArg String.toList hattempt))

/-! ### What a Job carries -/

section
variable {μ : Type} {client : Client μ} {settings : RunnerSettings} {k : Attempt} {token : Text}
  {owner : Option OwnerReference} {manifest : Manifest μ}

/-- The parts of a manifest that depend on the attempt. -/
theorem manifest_parts (h : manifest? client settings k token owner = some manifest) :
    manifest.name = jobName k ∧ manifest.labels = labels settings k ∧
      environment? client settings k token = some manifest.pod.container.env := by
  simp only [manifest?, Option.bind_eq_bind, Option.bind_eq_some_iff, Option.pure_def] at h
  obtain ⟨env, henv, envFrom, -, mounts, -, volumes, -, containerSecurity, -, podSecurity, -, secrets, -, tolerations, -,
    affinity, -, heq⟩ := h
  obtain rfl := Option.some.inj heq
  exact ⟨rfl, rfl, henv⟩

/-- The environment of an attempt. -/
theorem environment_eq {env : List EnvVar} (h : environment? client settings k token = some env) :
    ∃ extra, settings.extraEnv.mapM client.envVar? = some extra ∧
      env = settings.env.map (fun entry => ⟨entry.1, some (envText client entry.2), none⟩) ++ extra ++
        ownEnv settings k token := by
  obtain ⟨extra, hextra, rfl⟩ := Option.map_eq_some_iff.mp h
  exact ⟨extra, hextra, rfl⟩

/-- What a Job is to its attempt. -/
structure Own (client : Client μ) (settings : RunnerSettings) (k : Attempt) (token : Text) (manifest : Manifest μ) : Prop where
  name : manifest.name = jobName k
  jobId : manifest.value? (.ofString "JOB_ID") = some (Uuid.text k.1)
  token : manifest.value? (.ofString "RUNNER_TOKEN") = some token
  address : manifest.value? (.ofString "INTERNAL_BASE_URL") = some settings.internalBaseUrl
  labels : manifest.labels.lookup (.ofString "job-id") = some (Uuid.text k.1) ∧
    manifest.labels.lookup (.ofString "job-attempt") = some (.ofString (toString k.2)) ∧
    manifest.labels.lookup (.ofString "app.kubernetes.io/component") = some (.ofString "runner")

/-- The last entries of the environment are the attempt's own. -/
theorem manifest_own (h : manifest? client settings k token owner = some manifest) : Own client settings k token manifest := by
  obtain ⟨hname, hlabels, henv⟩ := manifest_parts h
  obtain ⟨extra, -, henv⟩ := environment_eq henv
  have hvalue (name : Text) : manifest.value? name =
      (((ownEnv settings k token).reverse ++ (settings.env.map (fun entry => (⟨entry.1, some (envText client entry.2), none⟩ : EnvVar)) ++
        extra).reverse).find? fun entry => entry.name = name).bind EnvVar.value := by
    rw [Manifest.value?, henv, List.reverse_append]
  refine ⟨hname, ?_, ?_, ?_, ?_⟩
  · rw [hvalue]
    rfl
  · rw [hvalue]
    rfl
  · rw [hvalue]
    rfl
  · rw [hlabels, labels, assignAll]
    simp only [List.foldl_cons, List.foldl_nil, lookup_assign]
    exact ⟨rfl, rfl, rfl⟩

end

/-! ### Reserved names -/

section
variable {μ : Type} {client : Client μ} {settings : RunnerSettings} {k : Attempt} {token name : Text}
  {owner : Option OwnerReference} {manifest : Manifest μ}

theorem mem_of_mapM {α β : Type} {f : α → Option β} {as : List α} {bs : List β} (h : as.mapM f = some bs) {b : β} (hb : b ∈ bs) :
    ∃ a ∈ as, f a = some b := by
  induction as generalizing bs with
  | nil =>
    obtain rfl := Option.some.inj h
    cases hb
  | cons a as ih =>
    simp only [List.mapM_cons, Option.bind_eq_bind, Option.bind_eq_some_iff, Option.pure_def] at h
    obtain ⟨first, hfirst, rest, hrest, heq⟩ := h
    obtain rfl := Option.some.inj heq
    rcases List.mem_cons.mp hb with rfl | hb
    · exact ⟨a, List.mem_cons_self .., hfirst⟩
    · obtain ⟨a', ha', hf⟩ := ih hrest hb
      exact ⟨a', List.mem_cons_of_mem _ ha', hf⟩

theorem conflicts_eq_nil {names : List Text} (h : conflicts names = []) (hname : name ∈ reservedEnv) : name ∉ names := by
  have hnone := List.filter_eq_nil_iff.mp h name hname
  simpa using hnone

/-- Settings that are accepted use no reserved name. -/
theorem validate_env (h : validate settings = .ok ()) (hname : name ∈ reservedEnv) :
    name ∉ settings.env.map Prod.fst ∧ name ∉ extraEnvNames settings := by
  unfold validate at h
  simp only at h
  split at h
  · cases h
  · next henv =>
    split at h
    · cases h
    · next hextra => exact ⟨conflicts_eq_nil (not_not.mp henv) hname, conflicts_eq_nil (not_not.mp hextra) hname⟩

/-- The client reads a reserved name only where it is given. -/
def ReadsNames (client : Client μ) : Prop :=
  ∀ item entry, client.envVar? item = some entry → entry.name ∈ reservedEnv → item.get "name" = .str entry.name

/-- Under accepted settings there is one entry of a reserved name. -/
theorem reserved_once (hvalid : validate settings = .ok ()) (hreads : ReadsNames client)
    (h : manifest? client settings k token owner = some manifest) (hname : name ∈ reservedEnv) :
    manifest.pod.container.env.countP (fun entry => entry.name = name) = 1 := by
  obtain ⟨-, -, henv⟩ := manifest_parts h
  obtain ⟨extra, hextra, henv⟩ := environment_eq henv
  obtain ⟨hnoEnv, hnoExtra⟩ := validate_env hvalid hname
  have hfirst : (settings.env.map fun entry => (⟨entry.1, some (envText client entry.2), none⟩ : EnvVar)).countP
      (fun entry => entry.name = name) = 0 := by
    refine List.countP_eq_zero.mpr fun entry hentry hsame => ?_
    obtain ⟨field, hfield, rfl⟩ := List.mem_map.mp hentry
    exact hnoEnv (List.mem_map.mpr ⟨field, hfield, of_decide_eq_true hsame⟩)
  have hsecond : extra.countP (fun entry => entry.name = name) = 0 := by
    refine List.countP_eq_zero.mpr fun entry hentry hsame => ?_
    obtain ⟨item, hitem, hread⟩ := mem_of_mapM hextra hentry
    obtain rfl : entry.name = name := of_decide_eq_true hsame
    have hgiven := hreads item entry hread hname
    exact hnoExtra (List.mem_filterMap.mpr ⟨item, hitem, by rw [hgiven]⟩)
  have hown : (ownEnv settings k token).countP (fun entry => entry.name = name) = 1 := by
    have hall : ∀ name ∈ reservedEnv, ((reservedEnv.countP fun reserved => reserved = name) = 1) := by decide
    have hnames : ((ownEnv settings k token).map EnvVar.name).Perm reservedEnv := by
      show [Text.ofString "JOB_ID", Text.ofString "RUNNER_TOKEN", Text.ofString "INTERNAL_BASE_URL"].Perm reservedEnv
      decide
    rw [← hall name hname, ← hnames.countP_eq, List.countP_map]
    rfl
  rw [henv, List.countP_append, List.countP_append, hfirst, hsecond, hown]

end

/-! ### Runs -/

section
variable {μ : Type} {client : Client μ} {settings : RunnerSettings} {k : Attempt} {jobs : Jobs μ} {events : List Event}

/-- Each Job was made by a submission of the attempt that it is named after. -/
def Submitted (client : Client μ) (settings : RunnerSettings) (events : List Event) (jobs : Jobs μ) : Prop :=
  ∀ name job, jobs name = some job → ∃ k token owner, .submit k token (some owner) ∈ events ∧ name = jobName k ∧
    manifest? client settings k token owner = some job.manifest

theorem Submitted.update (h : Submitted client settings events jobs) {name : Text} {job? : Option (Job μ)}
    (hjob : ∀ job ∈ job?, ∃ job' ∈ jobs name, job.manifest = job'.manifest) :
    Submitted client settings events (Function.update jobs name job?) := by
  intro name' job hfound
  rcases update_cases hfound with ⟨rfl, rfl⟩ | ⟨-, hold⟩
  · obtain ⟨job', hjob', hsame⟩ := hjob job rfl
    rw [hsame]
    exact h _ job' hjob'
  · exact h name' job hold

theorem Submitted.step (h : Submitted client settings events jobs) (e : Event) :
    Submitted client settings (events ++ [e]) ((machine client settings).next e jobs) := by
  have hmore : Submitted client settings (events ++ [e]) jobs := fun name job hfound =>
    let ⟨k, token, owner, hmem, hrest⟩ := h name job hfound
    ⟨k, token, owner, List.mem_append_left _ hmem, hrest⟩
  cases e with
  | submit k token owner =>
    show Submitted client settings _ (submit client settings k token owner jobs)
    unfold submit
    split
    · exact hmore
    · next manifest hmanifest =>
      obtain ⟨owner, rfl, hmanifest⟩ := Option.bind_eq_some_iff.mp hmanifest
      unfold create
      split
      · exact hmore
      · intro name job hfound
        rcases update_cases hfound with ⟨rfl, hnew⟩ | ⟨-, hold⟩
        · obtain rfl := Option.some.inj hnew
          exact ⟨k, token, owner, List.mem_append_right _ (List.mem_singleton_self _), (manifest_parts hmanifest).1, hmanifest⟩
        · exact hmore name job hold
  | inspect k => exact hmore
  | stop k =>
    have hgone : ∀ job ∈ (none : Option (Job μ)), ∃ job' ∈ jobs (jobName k), job.manifest = job'.manifest := nofun
    exact hmore.update hgone
  | exit k code =>
    refine hmore.update fun job hjob => ?_
    obtain ⟨job', hjob', rfl⟩ := Option.map_eq_some_iff.mp hjob
    refine ⟨job', hjob', ?_⟩
    unfold finish
    split <;> rfl
  | expire k =>
    refine hmore.update fun job hjob => ?_
    exact ⟨job, (Option.filter_eq_some_iff.mp hjob).1, rfl⟩

theorem submitted (client : Client μ) (settings : RunnerSettings) (events : List Event) :
    Submitted client settings events (after client settings events) :=
  Machine.history (M := machine client settings) (A := fun _ => True) (P := fun jobs events _ => Submitted client settings events jobs)
    (fun e _ _ _ _ h => h.step e) (by intro name job h; cases h) events fun _ _ => trivial

end

/-- Under accepted settings, whatever happens to the Jobs: the Job with the name of an attempt was
submitted for this attempt, and its container has the id, the token and the address of the attempt
for the reserved names, one entry for each. -/
theorem jobs_own {μ : Type} (client : Client μ) (settings : RunnerSettings) (hvalid : validate settings = .ok ())
    (hreads : ReadsNames client) (events : List Event) (hids : ∀ e ∈ events, IsAttempt e.attempt) (k : Attempt)
    (hk : IsAttempt k) (job : Job μ) (h : after client settings events (jobName k) = some job) :
    ∃ token owner, .submit k token (some owner) ∈ events ∧ Own client settings k token job.manifest ∧
      ∀ name ∈ reservedEnv, job.manifest.pod.container.env.countP (fun entry => entry.name = name) = 1 := by
  obtain ⟨k', token, owner, hmem, hname, hmanifest⟩ := submitted client settings events _ _ h
  obtain rfl := jobName_inj hk (hids _ hmem) hname
  exact ⟨token, owner, hmem, manifest_own hmanifest, fun name => reserved_once hvalid hreads hmanifest⟩

namespace Sample

/-- The objects of the client are not looked at. -/
def client : Client Unit where
  repr _ := []
  envVar? item := match item.get "name" with
    | .str name => some {name}
    | _ => none
  model? _ _ := some ()
  tmpMount := ()
  tmpVolume := ()

theorem client_reads : ReadsNames client := by
  intro item entry hread _
  simp only [client] at hread
  split at hread
  · next name hname =>
    obtain rfl := Option.some.inj hread
    exact hname
  · cases hread

def settings : RunnerSettings where
  image := .ofString "runner"
  env := [(.ofString "LOG_LEVEL", .text "DEBUG")]
  extraEnv := [[(.ofString "name", .text "EXTRA")]]
  podSecurityContext := []
  containerSecurityContext := []

/-- The attempt is submitted twice, and its pod fails. -/
def events : List Event :=
  [.submit (7, 1) (.ofString "token") (some none), .submit (7, 1) (.ofString "other") (some none), .exit (7, 1) 1]

theorem events_ids : ∀ e ∈ events, IsAttempt e.attempt := by
  simp [events, Event.attempt, IsAttempt]

end Sample

theorem jobs_own_submitted : ∃ job, after Sample.client Sample.settings Sample.events (jobName (7, 1)) = some job ∧
    job.manifest.value? (.ofString "JOB_ID") = some (Uuid.text 7) := by
  obtain ⟨job, hjob⟩ : ∃ job, after Sample.client Sample.settings Sample.events (jobName (7, 1)) = some job := ⟨_, rfl⟩
  obtain ⟨token, owner, -, hown, -⟩ := jobs_own Sample.client Sample.settings rfl Sample.client_reads Sample.events
    Sample.events_ids (7, 1) (by simp [IsAttempt]) job hjob
  exact ⟨job, hjob, hown.jobId⟩

/-! ### Attempts -/

section
variable {μ : Type} {client : Client μ} {settings : RunnerSettings} {k k' : Attempt} {jobs : Jobs μ} {e : Event}

theorem create_same {manifest : Manifest μ} {name : Text} (hname : manifest.name = name) :
    (create jobs manifest name).map Job.status = some (((jobs name).map Job.status).getD {}) := by
  subst hname
  unfold create
  cases hfound : jobs manifest.name with
  | none => simp
  | some job => simp [hfound]

theorem inspect_eq (k : Attempt) (jobs : Jobs μ) :
    inspect k jobs = ((jobs (jobName k)).map Job.status).elim .missing fun status => if status = {} then .active else .exited := by
  rw [inspect]
  cases jobs (jobName k) with
  | none => rfl
  | some job =>
    obtain ⟨manifest, failed, succeeded⟩ := job
    simp only [Option.map_some, Option.elim_some, JobStatus.mk.injEq]
    split <;> split <;> first | rfl | omega

/-- An event leaves the Jobs of other names alone. -/
theorem next_other {name : Text} (h : name ≠ jobName e.attempt) : (machine client settings).next e jobs name = jobs name := by
  cases e with
  | submit k token owner =>
    show submit client settings k token owner jobs name = _
    cases hmanifest : owner.bind (manifest? client settings k token) with
    | none => rw [submit, hmanifest]
    | some manifest =>
      obtain ⟨owner, -, hparts⟩ := Option.bind_eq_some_iff.mp hmanifest
      rw [submit, hmanifest]
      simp only [create, (manifest_parts hparts).1]
      split
      · rfl
      · exact Function.update_of_ne h ..
  | inspect k => rfl
  | stop k | exit k code | expire k => exact Function.update_of_ne h ..

theorem executorEvents_attempt {event : ExecutorEvent} (h : event ∈ executorEvents client settings e jobs) :
    event.attempt = e.attempt := by
  cases e with
  | submit k token owner =>
    simp only [executorEvents] at h
    split at h
    · rw [List.mem_singleton.mp h]
      rfl
    · cases h
  | expire k =>
    simp only [executorEvents] at h
    split at h
    · rw [List.mem_singleton.mp h]
      rfl
    · cases h
  | inspect k | stop k | exit k code =>
    rw [List.mem_singleton.mp h]
    rfl

/-- The Jobs show the attempts as the executor has them. -/
def Shows (jobs : Jobs μ) (attempts : Attempt → Option JobStatus) : Prop :=
  ∀ k, IsAttempt k → (jobs (jobName k)).map Job.status = attempts k

/-- An event does to the Job of its attempt what the executor does to the attempt. -/
theorem next_status {attempts : Attempt → Option JobStatus}
    (hnow : (jobs (jobName e.attempt)).map Job.status = attempts e.attempt) :
    ((machine client settings).next e jobs (jobName e.attempt)).map Job.status =
      (executorEvents client settings e jobs).foldl kubernetesJobExecutor.next attempts e.attempt := by
  cases e with
  | submit k token owner =>
    simp only [Event.attempt] at hnow ⊢
    show (submit client settings k token owner jobs (jobName k)).map Job.status = _
    cases hmanifest : owner.bind (manifest? client settings k token) with
    | none => simpa [submit, executorEvents, hmanifest] using hnow
    | some manifest =>
      obtain ⟨owner, -, hparts⟩ := Option.bind_eq_some_iff.mp hmanifest
      simp only [submit, executorEvents, hmanifest, Option.isSome_some, if_true, List.foldl_cons, List.foldl_nil]
      rw [create_same (manifest_parts hparts).1, hnow]
      simp only [Executor.next, kubernetesJobExecutor]
      cases hattempt : attempts k with
      | none => simp
      | some status => simp [hattempt]
  | inspect k => exact hnow
  | stop k => simp [machine, executorEvents, Event.attempt, Executor.next, kubernetesJobExecutor]
  | exit k code =>
    simp only [Event.attempt] at hnow ⊢
    simp only [machine, executorEvents, Function.update_self, List.foldl_cons, List.foldl_nil, Executor.next,
      kubernetesJobExecutor]
    cases hjob : jobs (jobName k) with
    | none =>
      rw [hjob] at hnow
      simp [← hnow]
    | some job =>
      rw [hjob] at hnow
      by_cases hidle : job.status = {} <;> simp [← hnow, finish, hidle]
  | expire k =>
    simp only [Event.attempt] at hnow ⊢
    simp only [machine, executorEvents, inspect_eq, Function.update_self]
    cases hjob : jobs (jobName k) with
    | none =>
      rw [hjob] at hnow
      simp [← hnow]
    | some job =>
      rw [hjob] at hnow
      by_cases hidle : job.status = {}
      · simp [← hnow, hidle]
      · simp [hidle, Executor.next, kubernetesJobExecutor]

/-- Events of other attempts leave an attempt as it is. -/
theorem kubernetesJobExecutor_others {events : List ExecutorEvent} (h : ∀ event ∈ events, event.attempt ≠ k)
    (attempts : Attempt → Option JobStatus) : events.foldl kubernetesJobExecutor.next attempts k = attempts k := by
  induction events generalizing attempts with
  | nil => rfl
  | cons event events ih =>
    rw [List.foldl_cons, ih (fun event hevent => h event (List.mem_cons_of_mem _ hevent)),
      kubernetesJobExecutor_other (h event (List.mem_cons_self ..))]

theorem Shows.step {attempts : Attempt → Option JobStatus} (h : Shows jobs attempts) (he : IsAttempt e.attempt) :
    Shows ((machine client settings).next e jobs)
      ((executorEvents client settings e jobs).foldl kubernetesJobExecutor.next attempts) := by
  intro k hk
  by_cases hsame : k = e.attempt
  · subst hsame
    exact next_status (h e.attempt hk)
  · have hothers : ∀ event ∈ executorEvents client settings e jobs, event.attempt ≠ k := by
      intro event hevent heq
      exact hsame (heq.symm.trans (executorEvents_attempt hevent))
    rw [next_other fun hname => hsame (jobName_inj hk he hname), h k hk, kubernetesJobExecutor_others hothers]

theorem shows (client : Client μ) (settings : RunnerSettings) (events : List Event) (hids : ∀ e ∈ events, IsAttempt e.attempt) :
    Shows (after client settings events) (kubernetesJobExecutor.after (observed client settings events)) :=
  Machine.history (M := machine client settings) (A := fun e => IsAttempt e.attempt)
    (P := fun jobs _ seen => Shows jobs (kubernetesJobExecutor.after seen))
    (fun e jobs _ seen he h => by
      rw [Executor.after, List.foldl_append]
      exact h.step he)
    (fun k _ => rfl) events hids

end

section
variable {μ : Type} {client : Client μ} {settings : RunnerSettings} {k : Attempt} {jobs : Jobs μ} {e : Event}

/-- A Job that has finished stays so until it is deleted: a submission finds it there. -/
theorem exited_next (he : IsAttempt e.attempt) (hk : IsAttempt k) (hkept : e ≠ .stop k ∧ e ≠ .expire k)
    (h : inspect k jobs = .exited) : inspect k ((machine client settings).next e jobs) = .exited := by
  by_cases hsame : e.attempt = k
  · subst hsame
    have hstatus := @next_status μ client settings jobs e (fun k => (jobs (jobName k)).map Job.status) rfl
    rw [inspect_eq] at h ⊢
    rw [hstatus]
    cases hfound : (jobs (jobName e.attempt)).map Job.status with
    | none =>
      rw [hfound] at h
      cases h
    | some status =>
      have hdone : status ≠ {} := by
        rintro rfl
        rw [hfound] at h
        cases h
      cases e with
      | submit k token owner =>
        simp only [Event.attempt] at hfound
        simp only [executorEvents, Event.attempt]
        split <;> simp [Executor.next, kubernetesJobExecutor, hfound, hdone]
      | inspect k =>
        simp only [Event.attempt] at hfound
        simp [executorEvents, Event.attempt, Executor.next, kubernetesJobExecutor, hfound, hdone]
      | exit k code =>
        simp only [Event.attempt] at hfound
        simp [executorEvents, Event.attempt, Executor.next, kubernetesJobExecutor, hfound, hdone]
      | stop k => exact (hkept.1 rfl).elim
      | expire k => exact (hkept.2 rfl).elim
  · rw [inspect, next_other fun hname => hsame (jobName_inj hk he hname).symm, ← inspect]
    exact h

theorem exited_later {events later : List Event} (hlater : ∀ e ∈ later, IsAttempt e.attempt ∧ e ≠ .stop k ∧ e ≠ .expire k)
    (hk : IsAttempt k) (h : inspect k (after client settings events) = .exited) :
    inspect k (after client settings (events ++ later)) = .exited := by
  rw [after, Machine.run_append]
  exact Machine.run_invariant (M := machine client settings) (A := fun e => IsAttempt e.attempt ∧ e ≠ .stop k ∧ e ≠ .expire k)
    (P := fun jobs => inspect k jobs = .exited) (fun e jobs he h => exited_next he.1 hk he.2 h) h later hlater

end

/-- The Jobs by their names answer as an executor that knows attempts. So an attempt that has exited
is answered so until its Job is deleted, submissions that find it there included, and one that
runs is never missing, whatever happens to the Jobs of other attempts. -/
theorem namespace_simulates {μ : Type} (client : Client μ) (settings : RunnerSettings) (events : List Event)
    (hids : ∀ e ∈ events, IsAttempt e.attempt) (k : Attempt) (hk : IsAttempt k) :
    inspect k (after client settings events) = kubernetesJobExecutor.answer (observed client settings events) k ∧
      (fateOf (observed client settings events) k = some .exited → inspect k (after client settings events) = .exited) ∧
      (fateOf (observed client settings events) k = some .running → inspect k (after client settings events) ≠ .missing) ∧
      ∀ later, (∀ e ∈ later, IsAttempt e.attempt ∧ e ≠ .stop k ∧ e ≠ .expire k) →
        inspect k (after client settings events) = .exited → inspect k (after client settings (events ++ later)) = .exited := by
  have hsame : inspect k (after client settings events) = kubernetesJobExecutor.answer (observed client settings events) k := by
    rw [inspect_eq, shows client settings events hids k hk, Executor.answer, kubernetesJobExecutor_answer]
  refine ⟨hsame, fun hexited => ?_, fun hrunning => ?_, fun later hlater => exited_later hlater hk⟩
  · have hobserved := kubernetesJobExecutor_observed (observed client settings events ++ [.inspect k])
    exact hsame.trans (hobserved _ k (List.prefix_refl _) hexited)
  · rw [hsame]
    exact kubernetesJobExecutor_present _ _ hrunning

theorem namespace_simulates_exited : inspect (7, 1) (after Sample.client Sample.settings Sample.events) = .exited :=
  (namespace_simulates Sample.client Sample.settings Sample.events Sample.events_ids (7, 1) (by simp [IsAttempt])).2.1 (by decide)

end RunnerJobs
end ResearchGateway
