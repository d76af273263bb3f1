import ResearchGateway.Library.Text
import ResearchGateway.Repository.Transaction

/-! What the gateway tells Open WebUI about a job.

An event goes under the message the job was started from: a status line, which says
whether the research is done, or the text that replaces the message. -/
namespace ResearchGateway
open Library

inductive MessageEvent where
  | replace (content : String)
  | status (description : String) (done : Bool) (jobId : Option JobId)
  deriving DecidableEq

/-- An `emit_message_event` for a job. -/
structure Emission where
  jobId : JobId
  chatId : String
  messageId : String
  event : MessageEvent
  deriving DecidableEq

/-- `httpx` makes no URL of a text with an ASCII character that cannot be printed. -/
def isPrintable (text : String) : Bool := text.toList.all fun c => 32 ≤ c.toNat && c.toNat ≠ 127

/-- The event has a URL; `httpx` raises an `InvalidURL` where it has none. -/
def Emission.isAddressable (e : Emission) : Bool := isPrintable e.chatId && isPrintable e.messageId

/-- The events for a job have a URL. -/
def ResearchJob.isAddressable (job : ResearchJob) : Bool :=
  isPrintable job.chatId && isPrintable job.messageId

def ResearchJob.emission (job : ResearchJob) (event : MessageEvent) : Emission :=
  ⟨job.id, job.chatId, job.messageId, event⟩

/-- The status events by their `done` flag. -/
def Emission.done? (e : Emission) : Option Bool :=
  match e.event with
  | .replace _ => none
  | .status _ done _ => some done

/-- Stable research lifecycle stages. -/
inductive ResearchStage where
  | starting
  | retrieval
  | planning
  | researching
  | writing
  | finalizing
  deriving DecidableEq

def ResearchStage.value : ResearchStage → String
  | starting => "starting"
  | retrieval => "retrieval"
  | planning => "planning"
  | researching => "researching"
  | writing => "writing"
  | finalizing => "finalizing"

/-! ### Progress -/

/-- `str(value)` as far as it is compared with the names of stages and activities:
the string of any other JSON value is none of them. -/
def nameOf (default : String) : Option Json → String
  | none => default
  | some (.str s) => s
  | some _ => ""

def progressInteger : Option Json → Option Int
  | some (.int n) => some n
  | _ => none

/-- `f"{count} {noun}"` for a count that is given and not zero. -/
def contextPart (data : Dict) (key singular plural : String) : Option String :=
  (progressInteger (data.lookup key)).bind fun count =>
    let noun := if count = 1 then singular else plural
    if count = 0 then none else some s!"{count} {noun}"

def retrievalDescription (data : Dict) : String :=
  let contextParts := [contextPart data "knowledge_sources" "Knowledge collection" "Knowledge collections",
    contextPart data "file_sources" "file" "files",
    contextPart data "context_items" "conversation context item" "conversation context items"].reduceOption
  if contextParts.isEmpty then "Preparing research context…"
  else "Preparing research context · " ++ ", ".intercalate contextParts

def planDescription (data : Dict) : String :=
  let breadth := (progressInteger (data.lookup "breadth")).filter (· ≠ 0)
  let depth := (progressInteger (data.lookup "depth")).filter (1 < ·)
  let details := [breadth.map fun n => s!"{n} searches in the initial batch",
    depth.map fun _ => "follow-up searches enabled"].reduceOption
  "Research plan ready" ++ if details.isEmpty then "" else " · " ++ " · ".intercalate details

/-- ` · Latest search started: …` for the first 120 characters of the query. -/
def latestSearch (current : Option Json) : String :=
  match current with
  | some (.str current) =>
    let query := " ".intercalate (words current)
    if (words current).isEmpty then ""
    else
      let suffix := if 120 < query.length then "…" else ""
      " · Latest search started: " ++ String.ofList (query.toList.take 120) ++ suffix
  | _ => ""

def researchingDescription (data : Dict) : String :=
  let description :=
    if nameOf "" (data.lookup "batch_kind") = "follow_up" then "Researching follow-up sources"
    else "Researching sources"
  let progress :=
    match progressInteger (data.lookup "completed_queries"), progressInteger (data.lookup "total_queries") with
    | some completed, some total =>
      if 0 < total then s!" · {completed} of {total} searches complete in this batch" else ""
    | _, _ => ""
  description ++ progress ++ latestSearch (data.lookup "current_query")

/-- The description of an activity whose count is given, or of the search otherwise. -/
def activityDescription (data : Dict) (activity : String) : String :=
  if activity = "extracting_evidence" then "Extracting relevant evidence from retrieved pages…"
  else if activity = "evidence_gathering_complete" then
    match progressInteger (data.lookup "visited_urls") with
    | some visitedUrls => s!"Evidence gathering complete · {visitedUrls} distinct web source URLs visited"
    | none => "Evidence gathering complete"
  else if activity = "pages_read" then
    match progressInteger (data.lookup "page_reads") with
    | some pageReads => s!"Reading sources · {pageReads} successful page reads completed"
    | none => researchingDescription data
  else if activity = "mcp_results" then
    match progressInteger (data.lookup "result_count") with
    | some resultCount => s!"Connected knowledge tools returned {resultCount} results for the latest query"
    | none => researchingDescription data
  else researchingDescription data

def progressDescription (data : Dict) : String :=
  let stage := nameOf ResearchStage.researching.value (data.lookup "stage")
  let activity := nameOf "" (data.lookup "activity")
  if stage = ResearchStage.starting.value then "Starting deep research…"
  else if stage = ResearchStage.retrieval.value then retrievalDescription data
  else if stage = ResearchStage.planning.value then
    if activity = "research_plan_ready" then planDescription data
    else "Planning research questions and sources…"
  else if stage = ResearchStage.writing.value then "Writing the report from gathered evidence…"
  else if stage = ResearchStage.finalizing.value then "Creating report and source artifacts…"
  else activityDescription data activity

end ResearchGateway
