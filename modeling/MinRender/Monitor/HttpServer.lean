import MinRender.Core.Config
import MinRender.Monitor.EditCommands
import MinRender.Monitor.StoppedNodes
import MinRender.Monitor.Submissions

/-!
# The HTTP interface of a node

Every route of the server as a program over calls of the application. Questions
and deeds are calls alike; what a handler answers may depend on what a call
replied. Which route a request takes is up to the HTTP library.
-/

namespace MinRender
open Json

namespace HttpServer

/-! ## What the handlers call -/

/-- The job controls that take only the job's id. -/
inductive JobControl
  | pause | resume | cancel | archive | retryFailed | requeue
deriving DecidableEq, Repr

inductive AppCall
  -- questions
  | isLeader
  | isFarmRunning
  | isRendering
  | nodeState
  | getPeerSnapshot
  | localStatus
  | peersReport
  | configReport
  | config
  | getCachedJobsJson
  | getCachedJobDetailJson (jobId : String)
  | getJobManifestJson (jobId : String)
  | getSuspended
  | isJobEpochCurrent (jobId : String) (editEpoch : Int)
  | isChunkCurrent (jobId : String) (frameStart frameEnd : Int) (nodeId : String)
      (editEpoch : Int)
  /-- the directories of a job's logs by node, with their regular files' names and paths -/
  | taskLogFiles (jobId : String)
  | readTaskLog (jobId nodeId filename : String)
  | readNodeLog (nodeId : String) (maxLines : Int)
  | scanFarmCleanup
  -- deeds
  | setNodeState (state : NodeState)
  | launchRestartSidecar
  | shutdownAgent
  | spawnAgent
  | resetHealth
  | queueDispatch (manifest : JobManifest) (chunk : ChunkRange) (editEpoch : Int)
  | abandonJobRender (jobId reason : String)
  | queueSubmission (request : SubmitRequest)
  | control (c : JobControl) (jobId : String)
  | deleteJob (jobId : String)
  | moveJob (jobId target : String) (before : Bool)
  | setJobPriority (jobId : String) (priority : Int)
  | applyEditLocally (jobId manifestJson mode : String) (priority : Int)
  | resubmitJob (jobId : String)
  | resubmitIncomplete (jobId : String)
  | resubmitChunkAsJob (jobId : String) (frameStart frameEnd chunkSize : Int)
  | reassignChunk (chunkId : Int) (targetNode : String)
  | stopChunk (chunkId : Int)
  | unsuspendNode (nodeId : String)
  | queueFrameCompletion (report : FrameReport)
  | queueCompletion (report : CompletionReport)
  | queueFailure (report : FailureReport)
  | executeFarmCleanup (action : String) (ids : List String)
  | assignConfig (cfg : Config)
  | saveConfig
  | requestFarmRestart

@[reducible] def AppCall.Reply : AppCall → Type
  | isLeader | isFarmRunning | isRendering | isJobEpochCurrent .. | isChunkCurrent .. => Bool
  | nodeState => NodeState
  | getPeerSnapshot => List PeerInfo
  | localStatus | peersReport | configReport | scanFarmCleanup => Json
  | config => Config
  | getCachedJobsJson | getCachedJobDetailJson _ | getJobManifestJson _ => String
  | getSuspended => List (String × FailureRecord)
  | taskLogFiles _ => Option (List (String × List (String × String)))
  | readTaskLog .. => Option String
  | readNodeLog .. => List String
  | launchRestartSidecar | spawnAgent | moveJob .. => Bool
  | applyEditLocally .. => MonitorApp.EditResult
  | resubmitJob _ | resubmitIncomplete _ | resubmitChunkAsJob .. => String
  | executeFarmCleanup .. => Nat
  | _ => Unit

@[reducible] def app : Interface := ⟨AppCall, AppCall.Reply⟩

abbrev AppProg := Prog app

def ask (c : AppCall) : AppProg c.Reply := Prog.call c Prog.done

/-! ## Requests and responses -/

structure Request where
  method : String
  path : String
  body : String := ""
  /-- the first `Authorization` header -/
  authorization : Option String := none
  /-- the `max_lines` parameter -/
  maxLines : Option String := none

structure Response where
  status : Nat := 200
  content : String := ""
deriving DecidableEq, Repr

def okText : String := "\x7b\"status\":\"ok\"\x7d"

def staleText : String := "\x7b\"status\":\"stale\",\"stale\":true\x7d"

def errorText (code : String) : String := "\x7b\"error\":\"" ++ code ++ "\"\x7d"

def ok : Response := { content := okText }

def failure (status : Nat) (code : String) : Response := { status, content := errorText code }

variable (T : JsonText)

/-- The `catch` of the handlers, with the exception's text. -/
def badRequest (body : String) : Response :=
  { status := 400, content := T.dump (.obj [("error", .str (T.what body))]) }

/-- What a handler reads of the body before it goes on. -/
def reading {α : Type} (body : String) (read : Json → Except JsonError α)
    (rest : α → AppProg Response) : AppProg Response :=
  match (T.parse body).bind fun j => (read j).toOption with
  | none => return badRequest T body
  | some a => rest a

/-- Another node says who leads, if it knows. -/
def notLeader (peers : List PeerInfo) : Response :=
  { status := 503
    content := T.dump (.obj (("error", .str "not_leader") ::
      ((peers.find? (·.isLeader)).map fun p => ("leader_endpoint", .str p.endpoint)).toList)) }

def requireLeader (rest : AppProg Response) : AppProg Response := do
  if ← ask .isLeader then rest
  else
    let peers ← ask .getPeerSnapshot
    return notLeader T peers

def requireFarm (rest : AppProg Response) : AppProg Response := do
  if ← ask .isFarmRunning then rest else return { status := 503 }

/-- An id that becomes a part of a path. -/
def requireSegment (id : String) (error : String) (rest : AppProg Response) : AppProg Response :=
  if !isSafePathSegment id then return failure 400 error else rest

/-! ## Every node -/

def getStatus : AppProg Response := do
  let j ← ask .localStatus
  return { content := T.dump j }

def getPeers : AppProg Response := do
  let j ← ask .peersReport
  return { content := T.dump j }

def postNodeState (state : NodeState) : AppProg Response := do
  ask (.setNodeState state)
  return ok

def postNodeRestart : AppProg Response := do
  if ← ask .launchRestartSidecar then return ok
  else return failure 500 "restart_failed"

def postAgentRestart : AppProg Response := do
  ask .shutdownAgent
  if ← ask .spawnAgent then
    ask .resetHealth
    return ok
  else return failure 500 "agent_spawn_failed"

def readManifest (body : Json) : Except JsonError JobManifest :=
  body.at? "manifest" >>= JobManifest.fromJson

def readAssignment (body : Json) : Except JsonError (Int × Int × Int) := do
  let frameStart ← body.at? "frame_start" >>= getInt
  let frameEnd ← body.at? "frame_end" >>= getInt
  let editEpoch ← body.value getInt64 "edit_epoch" (-1)
  return (frameStart, frameEnd, editEpoch)

def postAssign (body : String) : AppProg Response := do
  if ← ask .isRendering then return failure 409 "busy"
  else if (← ask .nodeState) = .stopped then return failure 409 "stopped"
  else
    reading T body readManifest fun manifest =>
      requireSegment manifest.jobId "invalid_job_id" <|
        reading T body readAssignment fun (frameStart, frameEnd, editEpoch) => do
          ask (.queueDispatch manifest ⟨frameStart, frameEnd⟩ editEpoch)
          return ok

def readAbort (body : Json) : Except JsonError (String × String) := do
  let jobId ← body.at? "job_id" >>= getString
  let reason ← body.value getString "reason" "job edited"
  return (jobId, reason)

def postAbort (body : String) : AppProg Response :=
  reading T body readAbort fun (jobId, reason) => do
    ask (.abandonJobRender jobId reason)
    return ok

/-! ## The leader's jobs -/

/-- `POST /api/jobs` after the leader's check. -/
def postJob (body : String) : AppProg Response :=
  requireLeader T <|
    match postJobs T true body with
    | (.ok, some request) => do
        ask (.queueSubmission request)
        return ok
    | (.invalidJobId, _) => return failure 400 "invalid_job_id"
    | _ => return badRequest T body

def getJobs : AppProg Response :=
  requireLeader T do
    let text ← ask .getCachedJobsJson
    return { content := text }

def getJob (jobId : String) : AppProg Response :=
  requireLeader T do
    let text ← ask (.getCachedJobDetailJson jobId)
    if text = "" then return failure 404 "not_found" else return { content := text }

/-- The handlers that only call one control of the job. -/
def postControl (c : JobControl) (jobId : String) : AppProg Response :=
  requireLeader T do
    ask (.control c jobId)
    return ok

def deleteJobs (jobId : String) : AppProg Response :=
  requireLeader T <|
    requireSegment jobId "invalid_path" do
      ask (.deleteJob jobId)
      return ok

def readMove (body : Json) : Except JsonError (String × Bool) := do
  let target ← body.at? "target" >>= getString
  let position ← body.value getString "position" "before"
  return (target, position = "before")

def postMove (jobId body : String) : AppProg Response :=
  requireLeader T <|
    reading T body readMove fun (target, before) => do
      if ← ask (.moveJob jobId target before) then return ok
      else return failure 409 "move_rejected"

def postPriority (jobId body : String) : AppProg Response :=
  requireLeader T <|
    reading T body (fun j => j.at? "priority" >>= getInt) fun priority => do
      ask (.setJobPriority jobId priority)
      return ok

def getManifest (jobId : String) : AppProg Response :=
  requireLeader T do
    let text ← ask (.getJobManifestJson jobId)
    if text = "" then return failure 404 "not_found"
    else
      match T.parse text with
      | some manifest => return { content := T.dump (.obj [("manifest", manifest)]) }
      | none => return { badRequest T text with status := 500 }

/-- The answer to an edit. -/
def editResponse (r : MonitorApp.EditResult) : Response :=
  match r.code with
  | .applied => ok
  | .jobNotFound => failure 404 "job_not_found"
  | .invalidManifest =>
      { status := 400
        content := T.dump (.obj [("error", .str "invalid_manifest"), ("detail", .str r.message)]) }
  | .dbUnavailable => failure 503 "db_unavailable"

def postEditJob (jobId body : String) : AppProg Response :=
  requireLeader T <|
    reading T body readEdit fun (manifest, mode, priority) => do
      let r ← ask (.applyEditLocally jobId (T.dump manifest) mode priority)
      return editResponse T r

/-- What a resubmission is of: what is not done yet, some frames, or all. -/
inductive ResubmitRequest
  | incomplete
  | range (frameStart frameEnd chunkSize : Int)
  | whole

def readResubmit (body : Json) : Except JsonError ResubmitRequest := do
  if ← body.value getBool "incomplete_only" false then return .incomplete
  else if body.contains "frame_start" then
    let frameStart ← body.at? "frame_start" >>= getInt
    let frameEnd ← body.at? "frame_end" >>= getInt
    let chunkSize ← body.at? "chunk_size" >>= getInt
    return .range frameStart frameEnd chunkSize
  else return .whole

def resubmitResponse (newId : String) : Response :=
  if newId = "" then failure 404 "resubmit_failed"
  else { content := T.dump (.obj [("status", .str "ok"), ("job_id", .str newId)]) }

def postResubmit (jobId body : String) : AppProg Response :=
  requireLeader T <|
    if body = "" then do
      let newId ← ask (.resubmitJob jobId)
      return resubmitResponse T newId
    else
      reading T body readResubmit fun
        | .incomplete => do
            let newId ← ask (.resubmitIncomplete jobId)
            return resubmitResponse T newId
        | .range frameStart frameEnd chunkSize => do
            let newId ← ask (.resubmitChunkAsJob jobId frameStart frameEnd chunkSize)
            return resubmitResponse T newId
        | .whole => do
            let newId ← ask (.resubmitJob jobId)
            return resubmitResponse T newId

/-! ## The leader's chunks and nodes -/

def readReassign (body : Json) : Except JsonError (Int × String) := do
  let chunkId ← body.at? "chunk_id" >>= getInt64
  let targetNode ← body.value getString "target_node" ""
  return (chunkId, targetNode)

def postReassign (body : String) : AppProg Response :=
  requireLeader T <|
    reading T body readReassign fun (chunkId, targetNode) => do
      ask (.reassignChunk chunkId targetNode)
      return ok

def postStopChunk (body : String) : AppProg Response :=
  requireLeader T <|
    reading T body (fun j => j.at? "chunk_id" >>= getInt64) fun chunkId => do
      ask (.stopChunk chunkId)
      return ok

def postUnsuspend (nodeId : String) : AppProg Response :=
  requireLeader T do
    ask (.unsuspendNode nodeId)
    return ok

def suspendedJson (entry : String × FailureRecord) : Json :=
  .obj [("node_id", .str entry.1), ("failure_count", .int entry.2.failureCount),
    ("first_failure_ms", .int entry.2.firstFailureMs),
    ("last_failure_ms", .int entry.2.lastFailureMs)]

def getSuspendedNodes : AppProg Response :=
  requireLeader T do
    let entries ← ask .getSuspended
    return { content := T.dump (.arr (entries.map suspendedJson)) }

/-! ## Reports of the workers -/

def stale : Response := { content := staleText }

def readFrames (body : Json) : Except JsonError (String × String × List Int × Int) := do
  let nodeId ← body.value getString "node_id" ""
  let jobId ← body.at? "job_id" >>= getString
  let frames ← body.at? "frames" >>= getArray getInt
  let editEpoch ← body.value getInt64 "edit_epoch" (-1)
  return (nodeId, jobId, frames, editEpoch)

def postFrameComplete (body : String) : AppProg Response :=
  requireLeader T <|
    reading T body readFrames fun (nodeId, jobId, frames, editEpoch) => do
      if ← ask (.isJobEpochCurrent jobId editEpoch) then
        for frame in frames do
          ask (.queueFrameCompletion { nodeId, jobId, frame, editEpoch })
        return ok
      else return stale

def readCompletion (body : Json) : Except JsonError CompletionReport := do
  let nodeId ← body.value getString "node_id" ""
  let jobId ← body.at? "job_id" >>= getString
  let frameStart ← body.at? "frame_start" >>= getInt
  let frameEnd ← body.at? "frame_end" >>= getInt
  let _ ← body.value getInt64 "elapsed_ms" 0
  let _ ← body.value getInt "exit_code" 0
  let editEpoch ← body.value getInt64 "edit_epoch" (-1)
  return { nodeId, jobId, frameStart, frameEnd, editEpoch }

def readFailure (body : Json) : Except JsonError FailureReport := do
  let nodeId ← body.value getString "node_id" ""
  let jobId ← body.at? "job_id" >>= getString
  let frameStart ← body.at? "frame_start" >>= getInt
  let frameEnd ← body.at? "frame_end" >>= getInt
  let error ← body.value getString "error" "Unknown"
  let editEpoch ← body.value getInt64 "edit_epoch" (-1)
  return { nodeId, jobId, frameStart, frameEnd, error, editEpoch }

def postComplete (body : String) : AppProg Response :=
  requireLeader T <|
    reading T body readCompletion fun r => do
      if ← ask (.isChunkCurrent r.jobId r.frameStart r.frameEnd r.nodeId r.editEpoch) then
        ask (.queueCompletion r)
        return ok
      else return stale

def postFailed (body : String) : AppProg Response :=
  requireLeader T <|
    reading T body readFailure fun r => do
      if ← ask (.isChunkCurrent r.jobId r.frameStart r.frameEnd r.nodeId r.editEpoch) then
        ask (.queueFailure r)
        return ok
      else return stale

/-! ## Logs -/

/-- `std::stoll` -/
def stoll? (text : List Char) : Option Int :=
  let text := text.dropWhile isSpace
  let (sign, text) : Int × List Char := match text with
    | '-' :: rest => (-1, rest)
    | '+' :: rest => (1, rest)
    | _ => (1, text)
  let digits := text.takeWhile (·.isDigit)
  let n := sign * digitsValue digits
  if digits = [] ∨ n < -2 ^ 63 ∨ 2 ^ 63 ≤ n then none else some n

/-- `{rangeStr}_{timestamp_ms}.log`, taken apart at the last underscore. -/
def taskLogName? (fname : String) : Option (String × Int) :=
  let chars := fname.toList
  if chars.length < 5 ∨ chars.drop (chars.length - 4) ≠ ".log".toList then none
  else
    let stem := chars.take (chars.length - 4)
    if '_' ∉ stem then none
    else
      let rest := (stem.reverse.takeWhile (· ≠ '_')).reverse
      (stoll? rest).map fun ts => (String.ofList (stem.take (stem.length - rest.length - 1)), ts)

def taskLogJson (nodeId path range : String) (timestampMs : Int) : Json :=
  .obj [("node_id", .str nodeId), ("range", .str range), ("timestamp_ms", .int timestampMs),
    ("path", .str path)]

def taskLogsJson (dirs : List (String × List (String × String))) : Json :=
  .arr (dirs.flatMap fun dir => dir.2.filterMap fun file =>
    (taskLogName? file.1).map fun name => taskLogJson dir.1 file.2 name.1 name.2)

def getTaskOutputs (jobId : String) : AppProg Response :=
  requireFarm <|
    requireSegment jobId "invalid_path" do
      match ← ask (.taskLogFiles jobId) with
      | none => return { content := "[]" }
      | some dirs => return { content := T.dump (taskLogsJson dirs) }

def getTaskOutput (jobId nodeId filename : String) : AppProg Response :=
  requireFarm <|
    requireSegment jobId "invalid_path" <|
      requireSegment nodeId "invalid_path" <|
        requireSegment filename "invalid_path" do
          match ← ask (.readTaskLog jobId nodeId filename) with
          | none => return failure 404 "not_found"
          | some text => return { content := text }

def getNodeLog (nodeId : String) (maxLines : Option String) : AppProg Response :=
  requireFarm <|
    requireSegment nodeId "invalid_path" do
      let lines ← ask (.readNodeLog nodeId
        ((maxLines.bind fun text => stoi? text.toList).getD 500))
      return { content := T.dump (.arr (lines.map .str)) }

/-! ## The farm and the configuration -/

def postScanCleanup : AppProg Response :=
  requireFarm do
    let found ← ask .scanFarmCleanup
    return { content := T.dump found }

def readCleanup (body : Json) : Except JsonError (String × List String) := do
  let action ← body.at? "action" >>= getString
  let ids ← body.at? "ids" >>= getArray getString
  return (action, ids)

def postCleanup (body : String) : AppProg Response :=
  requireFarm <|
    reading T body readCleanup fun (action, ids) => do
      let count ← ask (.executeFarmCleanup action ids)
      return { content := T.dump (.obj [("status", .str "ok"), ("count", .int count)]) }

def getConfig : AppProg Response := do
  let j ← ask .configReport
  return { content := T.dump j }

/-- The fields are assigned one by one; those before one that raises stay. -/
def postConfig (body : String) : AppProg Response :=
  match T.parse body with
  | none => return badRequest T body
  | some j => do
      let cfg ← ask .config
      let (cfg', read) := Config.applyUpdates j Config.updates cfg
      ask (.assignConfig cfg')
      if read then
        ask .saveConfig
        if needsRestart cfg cfg' then ask .requestFarmRestart
        return { content := T.dump (.obj [("status", .str "ok"),
          ("restarted", .bool (needsRestart cfg cfg'))]) }
      else return badRequest T body

def postPathMappings (body : String) : AppProg Response :=
  reading T body (getArray PathMapping.fromJson) fun mappings => do
    let cfg ← ask .config
    ask (.assignConfig { cfg with pathMappings := mappings })
    ask .saveConfig
    return ok

end HttpServer

end MinRender
