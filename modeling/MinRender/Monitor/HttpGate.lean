import MinRender.Framework.ConstantTime
import MinRender.Monitor.HttpServer

/-!
# Who may have a node do what

The server's routes behind its check of the farm's secret. What a request can
have the application do depends on the secret and, for most routes, on the node
being the leader; and an error answer stands for nothing having been done.
-/

namespace MinRender.HttpServer
open Json

/-! ## The check in front of the routes -/

def constantTimeEquals (a b : String) : Bool :=
  if a.toByteArray.size ≠ b.toByteArray.size then false
  else ConstantTime.differences a.toByteArray.data.toList b.toByteArray.data.toList = 0

theorem constantTimeEquals_iff {a b : String} : constantTimeEquals a b = true ↔ a = b := by
  unfold constantTimeEquals
  by_cases hsize : a.toByteArray.size = b.toByteArray.size
  · have hlength : a.toByteArray.data.toList.length = b.toByteArray.data.toList.length := hsize
    rw [if_neg (not_not_intro hsize), decide_eq_true_eq,
      ConstantTime.differences_eq_zero_iff hlength, Array.toList_inj, ← ByteArray.ext_iff,
      String.toByteArray_inj]
  · rw [if_pos hsize]
    constructor
    · exact nofun
    · rintro rfl
      exact absurd rfl hsize

/-- What the requests of the application carry. -/
def authHeader (secret : String) : String := "Bearer " ++ secret

def apiPrefix : List Char := "/api/".toList

/-- The handler that runs before the routes; `none` lets the request through. -/
def preRouting (secret : String) (req : Request) : Option Response :=
  if ¬ apiPrefix <+: req.path.toList then none
  else if req.method = "GET" ∧ req.path = "/api/status" then none
  else if secret = "" then some (failure 503 "auth_unavailable")
  else
    match req.authorization with
    | none => some (failure 401 "unauthorized")
    | some header =>
        if constantTimeEquals header (authHeader secret) then none
        else some (failure 401 "unauthorized")

/-! ## The routes -/

/-- Part of a route's pattern: a text, or `([^/]+)`. -/
inductive Piece
  | text (s : String)
  | segment
deriving DecidableEq

/-- The captures fill the pattern to the path. -/
inductive Fills : List Piece → List String → List Char → Prop
  | nil : Fills [] [] []
  | text {s : String} {pieces : List Piece} {captures : List String} {rest : List Char}
      (h : Fills pieces captures rest) : Fills (.text s :: pieces) captures (s.toList ++ rest)
  | segment {c : String} {pieces : List Piece} {captures : List String} {rest : List Char}
      (hne : c ≠ "") (hplain : '/' ∉ c.toList) (h : Fills pieces captures rest) :
      Fills (.segment :: pieces) (c :: captures) (c.toList ++ rest)

structure Route where
  method : String
  pattern : List Piece
  handler : JsonText → List String → Request → AppProg Response

/-- The capture of a number. -/
def cap (captures : List String) (i : Nat) : String := captures.getD i ""

/-- `POST /api/jobs/:id/` and a word. -/
def jobRoute (word : String) (handler : JsonText → String → Request → AppProg Response) :
    Route where
  method := "POST"
  pattern := [.text "/api/jobs/", .segment, .text ("/" ++ word)]
  handler T captures req := handler T (cap captures 0) req

def controlRoute (word : String) (c : JobControl) : Route :=
  jobRoute word fun T jobId _ => postControl T c jobId

def statusRoute : Route := ⟨"GET", [.text "/api/status"], fun T _ _ => getStatus T⟩

/-- In the order they are registered. -/
def routes : List Route :=
  [statusRoute,
    ⟨"GET", [.text "/api/peers"], fun T _ _ => getPeers T⟩,
    ⟨"POST", [.text "/api/node/stop"], fun _ _ _ => postNodeState .stopped⟩,
    ⟨"POST", [.text "/api/node/start"], fun _ _ _ => postNodeState .active⟩,
    ⟨"POST", [.text "/api/node/restart"], fun _ _ _ => postNodeRestart⟩,
    ⟨"POST", [.text "/api/agent/restart"], fun _ _ _ => postAgentRestart⟩,
    ⟨"POST", [.text "/api/dispatch/assign"], fun T _ req => postAssign T req.body⟩,
    ⟨"POST", [.text "/api/render/abort"], fun T _ req => postAbort T req.body⟩,
    ⟨"POST", [.text "/api/jobs"], fun T _ req => postJob T req.body⟩,
    ⟨"GET", [.text "/api/jobs"], fun T _ _ => getJobs T⟩,
    ⟨"GET", [.text "/api/jobs/", .segment], fun T captures _ => getJob T (cap captures 0)⟩,
    controlRoute "pause" .pause,
    controlRoute "resume" .resume,
    controlRoute "cancel" .cancel,
    controlRoute "archive" .archive,
    ⟨"DELETE", [.text "/api/jobs/", .segment],
      fun T captures _ => deleteJobs T (cap captures 0)⟩,
    jobRoute "move" fun T jobId req => postMove T jobId req.body,
    jobRoute "priority" fun T jobId req => postPriority T jobId req.body,
    controlRoute "retry-failed" .retryFailed,
    controlRoute "requeue" .requeue,
    ⟨"GET", [.text "/api/jobs/", .segment, .text "/manifest"],
      fun T captures _ => getManifest T (cap captures 0)⟩,
    jobRoute "edit" fun T jobId req => postEditJob T jobId req.body,
    jobRoute "resubmit" fun T jobId req => postResubmit T jobId req.body,
    ⟨"POST", [.text "/api/chunks/reassign"], fun T _ req => postReassign T req.body⟩,
    ⟨"POST", [.text "/api/chunks/stop"], fun T _ req => postStopChunk T req.body⟩,
    ⟨"POST", [.text "/api/nodes/", .segment, .text "/unsuspend"],
      fun T captures _ => postUnsuspend T (cap captures 0)⟩,
    ⟨"GET", [.text "/api/nodes/suspended"], fun T _ _ => getSuspendedNodes T⟩,
    ⟨"POST", [.text "/api/dispatch/frame-complete"], fun T _ req => postFrameComplete T req.body⟩,
    ⟨"POST", [.text "/api/dispatch/complete"], fun T _ req => postComplete T req.body⟩,
    ⟨"POST", [.text "/api/dispatch/failed"], fun T _ req => postFailed T req.body⟩,
    ⟨"GET", [.text "/api/jobs/", .segment, .text "/task-output"],
      fun T captures _ => getTaskOutputs T (cap captures 0)⟩,
    ⟨"GET", [.text "/api/jobs/", .segment, .text "/task-output/", .segment, .text "/", .segment],
      fun _ captures _ => getTaskOutput (cap captures 0) (cap captures 1) (cap captures 2)⟩,
    ⟨"GET", [.text "/api/nodes/", .segment, .text "/log"],
      fun T captures req => getNodeLog T (cap captures 0) req.maxLines⟩,
    ⟨"POST", [.text "/api/farm/scan-cleanup"], fun T _ _ => postScanCleanup T⟩,
    ⟨"POST", [.text "/api/farm/cleanup"], fun T _ req => postCleanup T req.body⟩,
    ⟨"GET", [.text "/api/config"], fun T _ _ => getConfig T⟩,
    ⟨"POST", [.text "/api/config"], fun T _ req => postConfig T req.body⟩,
    ⟨"POST", [.text "/api/config/path-mappings"], fun T _ req => postPathMappings T req.body⟩]

/-- `HEAD` is answered by the routes for `GET`. -/
def routeMethod (method : String) : String := if method = "HEAD" then "GET" else method

/-- The library's choice of a route: one for the request's method, whose pattern
the path fills. -/
structure Router where
  choose : Request → Option (Route × List String)
  mem : ∀ {req r captures}, choose req = some (r, captures) → r ∈ routes
  method : ∀ {req r captures}, choose req = some (r, captures) →
    r.method = routeMethod req.method
  fills : ∀ {req r captures}, choose req = some (r, captures) →
    Fills r.pattern captures req.path.toList

def serve (T : JsonText) (router : Router) (secret : String) (req : Request) :
    AppProg Response :=
  match preRouting secret req with
  | some res => return res
  | none =>
      match router.choose req with
      | some (r, captures) => r.handler T captures req
      | none => return { status := 404 }

/-! ## What is watched of a request -/

/-- The calls about the farm's jobs, which only the leader may answer. -/
def AppCall.ofLeader : AppCall → Bool
  | .getCachedJobsJson | .getCachedJobDetailJson _ | .getJobManifestJson _ | .getSuspended
  | .isJobEpochCurrent .. | .isChunkCurrent .. | .queueSubmission _ | .control .. | .deleteJob _
  | .moveJob .. | .setJobPriority .. | .applyEditLocally .. | .resubmitJob _
  | .resubmitIncomplete _ | .resubmitChunkAsJob .. | .reassignChunk .. | .stopChunk _
  | .unsuspendNode _ | .queueFrameCompletion _ | .queueCompletion _ | .queueFailure _ => true
  | _ => false

/-- The ids that the call makes parts of a path. -/
def AppCall.segments : AppCall → List String
  | .taskLogFiles jobId => [jobId]
  | .readTaskLog jobId nodeId filename => [jobId, nodeId, filename]
  | .readNodeLog nodeId _ => [nodeId]
  | .deleteJob jobId => [jobId]
  | .queueDispatch manifest _ _ => [manifest.jobId]
  | .queueSubmission request => [request.manifest.jobId]
  | _ => []

/-- The call was a deed, and done. The stop of the agent before it is started
again and the fields of a configuration read so far are not counted. -/
def AppCall.did : (c : AppCall) → c.Reply → Bool
  | .launchRestartSidecar, launched => launched
  | .spawnAgent, spawned => spawned
  | .moveJob .., moved => moved
  | .applyEditLocally .., r => r.code = .applied
  | .resubmitJob _, newId | .resubmitIncomplete _, newId | .resubmitChunkAsJob .., newId =>
      newId ≠ ""
  | .setNodeState _, _ | .resetHealth, _ | .queueDispatch .., _ | .abandonJobRender .., _
  | .queueSubmission _, _ | .control .., _ | .deleteJob _, _ | .setJobPriority .., _
  | .reassignChunk .., _ | .stopChunk _, _ | .unsuspendNode _, _ | .queueFrameCompletion _, _
  | .queueCompletion _, _ | .queueFailure _, _ | .executeFarmCleanup .., _ | .saveConfig, _
  | .requestFarmRestart, _ => true
  | _, _ => false

/-- The call was a deed that the application turned down. -/
def AppCall.turnedDown : (c : AppCall) → c.Reply → Bool
  | .launchRestartSidecar, launched => !launched
  | .spawnAgent, spawned => !spawned
  | .moveJob .., moved => !moved
  | .applyEditLocally .., r => r.code ≠ .applied
  | .resubmitJob _, newId | .resubmitIncomplete _, newId | .resubmitChunkAsJob .., newId =>
      newId = ""
  | _, _ => false

/-- The node said that it leads. -/
def AppCall.leads : (c : AppCall) → c.Reply → Bool
  | .isLeader, leads => leads
  | _, _ => false

/-- What the calls so far have shown: whether the node leads, whether a deed was
done, whether one was turned down. -/
structure Seen where
  led : Bool := false
  did : Bool := false
  turnedDown : Bool := false

def Seen.after (s : Seen) (c : AppCall) (r : c.Reply) : Seen where
  led := s.led || c.leads r
  did := s.did || c.did r
  turnedDown := s.turnedDown || c.turnedDown r

def Seen.May (s : Seen) (c : AppCall) : Prop :=
  (c.ofLeader = true → s.led = true) ∧ ∀ id ∈ c.segments, isSafePathSegment id = true

/-- An error is answered only where nothing was done, a success only where
nothing was turned down. -/
def Seen.MayEnd (s : Seen) (res : Response) : Prop :=
  if 400 ≤ res.status then s.did = false else s.turnedDown = false

abbrev Fair (s : Seen) (p : AppProg Response) : Prop := p.Watched Seen.after Seen.May Seen.MayEnd s

/-- Nothing seen yet. -/
abbrev start : Seen := {}

abbrev leading : Seen := { led := true }

section Rules

variable {T : JsonText} {s : Seen}

theorem Seen.May.anyone {c : AppCall} (hc : c.ofLeader = false) (hsegments : c.segments = []) :
    s.May c := by
  constructor
  · intro hleader
    rw [hc] at hleader
    cases hleader
  · rw [hsegments]
    exact nofun

theorem Seen.May.leader {c : AppCall} (hs : s.led = true) (hsegments : c.segments = []) :
    s.May c := by
  constructor
  · exact fun _ => hs
  · rw [hsegments]
    exact nofun

theorem fair_ask {c : AppCall} {k : c.Reply → AppProg Response} (hmay : s.May c)
    (hk : ∀ r, Fair (s.after c r) (k r)) : Fair s (ask c >>= k) := ⟨hmay, hk⟩

theorem fair_refusal {res : Response} (hres : 400 ≤ res.status) (hs : s.did = false) :
    Fair s (.done res) := by
  show s.MayEnd res
  rw [Seen.MayEnd, if_pos hres]
  exact hs

theorem fair_answer {res : Response} (hres : res.status < 400) (hs : s.turnedDown = false) :
    Fair s (.done res) := by
  show s.MayEnd res
  rw [Seen.MayEnd, if_neg (by omega)]
  exact hs

theorem fair_reading {α : Type} {body : String} {read : Json → Except JsonError α}
    {rest : α → AppProg Response} (hs : s.did = false) (hrest : ∀ a, Fair s (rest a)) :
    Fair s (reading T body read rest) := by
  unfold reading
  split
  · exact fair_refusal (Nat.le_refl 400) hs
  · exact hrest _

theorem fair_requireSegment {id error : String} {rest : AppProg Response} (hs : s.did = false)
    (hrest : isSafePathSegment id = true → Fair s rest) :
    Fair s (requireSegment id error rest) := by
  unfold requireSegment
  cases hid : isSafePathSegment id with
  | false => exact fair_refusal (Nat.le_refl 400) hs
  | true => exact hrest hid

theorem fair_requireLeader {rest : AppProg Response} (hrest : Fair leading rest) :
    Fair start (requireLeader T rest) := by
  refine fair_ask (.anyone rfl rfl) fun leads => ?_
  cases leads with
  | true => exact hrest
  | false =>
      refine fair_ask (.anyone rfl rfl) fun peers => ?_
      exact fair_refusal (show 400 ≤ 503 by decide) rfl

theorem fair_requireFarm {rest : AppProg Response} (hrest : Fair start rest) :
    Fair start (requireFarm rest) := by
  refine fair_ask (.anyone rfl rfl) fun running => ?_
  cases running with
  | true => exact hrest
  | false => exact fair_refusal (by decide) rfl

/-- A question, whose answer is sent. -/
theorem fair_report {c : AppCall} {answer : c.Reply → Response} (hmay : s.May c)
    (hres : ∀ r, (answer r).status < 400) (hs : ∀ r, (s.after c r).turnedDown = false) :
    Fair s (ask c >>= fun r => return answer r) :=
  fair_ask hmay fun r => fair_answer (hres r) (hs r)

/-- A deed that cannot be turned down. -/
theorem fair_deed {c : AppCall} (hmay : s.May c) (hs : ∀ r, (s.after c r).turnedDown = false) :
    Fair s (ask c >>= fun _ => return ok) :=
  fair_ask hmay fun r => fair_answer (show 200 < 400 by decide) (hs r)

end Rules

/-! ## The handlers -/

section Handlers

variable (T : JsonText)

theorem getStatus_fair : Fair start (getStatus T) :=
  fair_report (.anyone rfl rfl) (fun _ => show 200 < 400 by decide) fun _ => rfl

theorem getPeers_fair : Fair start (getPeers T) :=
  fair_report (.anyone rfl rfl) (fun _ => show 200 < 400 by decide) fun _ => rfl

theorem postNodeState_fair (state : NodeState) : Fair start (postNodeState state) :=
  fair_deed (.anyone rfl rfl) fun _ => rfl

theorem postNodeRestart_fair : Fair start postNodeRestart := by
  refine fair_ask (.anyone rfl rfl) fun launched => ?_
  cases launched with
  | true => exact fair_answer (show 200 < 400 by decide) rfl
  | false => exact fair_refusal (show 400 ≤ 500 by decide) rfl

theorem postAgentRestart_fair : Fair start postAgentRestart := by
  refine fair_ask (.anyone rfl rfl) fun _ => ?_
  refine fair_ask (.anyone rfl rfl) fun spawned => ?_
  cases spawned with
  | true => exact fair_deed (.anyone rfl rfl) fun _ => rfl
  | false => exact fair_refusal (show 400 ≤ 500 by decide) rfl

theorem postAssign_fair (body : String) : Fair start (postAssign T body) := by
  refine fair_ask (.anyone rfl rfl) fun rendering => ?_
  cases rendering with
  | true => exact fair_refusal (show 400 ≤ 409 by decide) rfl
  | false =>
      refine fair_ask (.anyone rfl rfl) fun state => ?_
      split
      · exact fair_refusal (show 400 ≤ 409 by decide) rfl
      · refine fair_reading rfl fun manifest => ?_
        refine fair_requireSegment rfl fun hid => ?_
        refine fair_reading rfl fun assignment => ?_
        refine fair_deed ⟨nofun, ?_⟩ fun _ => rfl
        intro id hmem
        rw [List.mem_singleton.mp hmem]
        exact hid

theorem postAbort_fair (body : String) : Fair start (postAbort T body) :=
  fair_reading rfl fun _ => fair_deed (.anyone rfl rfl) fun _ => rfl

/-- What `POST /api/jobs` accepts has an id that is a segment. -/
theorem postJobs_segment {body : String} {request : SubmitRequest}
    (h : postJobs T true body = (.ok, some request)) :
    isSafePathSegment request.manifest.jobId = true := by
  unfold postJobs at h
  rw [if_neg (by simp)] at h
  split at h
  · cases h
  · split at h
    · cases h
    · rename_i manifest _
      split at h
      · cases h
      · rename_i hid
        split at h
        · cases h
        · cases h
          simpa using hid

theorem postJob_fair (body : String) : Fair start (postJob T body) := by
  refine fair_requireLeader ?_
  split
  · rename_i request hpost
    refine fair_deed ⟨fun _ => rfl, ?_⟩ fun _ => rfl
    intro id hmem
    rw [List.mem_singleton.mp hmem]
    exact postJobs_segment T hpost
  · exact fair_refusal (Nat.le_refl 400) rfl
  · exact fair_refusal (Nat.le_refl 400) rfl

theorem getJobs_fair : Fair start (getJobs T) :=
  fair_requireLeader <|
    fair_report (.leader rfl rfl) (fun _ => show 200 < 400 by decide) fun _ => rfl

theorem getJob_fair (jobId : String) : Fair start (getJob T jobId) := by
  refine fair_requireLeader (fair_ask (.leader rfl rfl) fun text => ?_)
  split
  · exact fair_refusal (show 400 ≤ 404 by decide) rfl
  · exact fair_answer (show 200 < 400 by decide) rfl

theorem postControl_fair (c : JobControl) (jobId : String) : Fair start (postControl T c jobId) :=
  fair_requireLeader <| fair_deed (.leader rfl rfl) fun _ => rfl

theorem deleteJobs_fair (jobId : String) : Fair start (deleteJobs T jobId) := by
  refine fair_requireLeader (fair_requireSegment rfl fun hid => ?_)
  refine fair_deed ⟨fun _ => rfl, ?_⟩ fun _ => rfl
  intro id hmem
  rw [List.mem_singleton.mp hmem]
  exact hid

theorem postMove_fair (jobId body : String) : Fair start (postMove T jobId body) := by
  refine fair_requireLeader (fair_reading rfl fun move => ?_)
  refine fair_ask (.leader rfl rfl) fun moved => ?_
  cases moved with
  | true => exact fair_answer (show 200 < 400 by decide) rfl
  | false => exact fair_refusal (show 400 ≤ 409 by decide) rfl

theorem postPriority_fair (jobId body : String) : Fair start (postPriority T jobId body) :=
  fair_requireLeader <| fair_reading rfl fun _ => fair_deed (.leader rfl rfl) fun _ => rfl

theorem getManifest_fair (jobId : String) : Fair start (getManifest T jobId) := by
  refine fair_requireLeader (fair_ask (.leader rfl rfl) fun text => ?_)
  split
  · exact fair_refusal (show 400 ≤ 404 by decide) rfl
  · split
    · exact fair_answer (show 200 < 400 by decide) rfl
    · exact fair_refusal (show 400 ≤ 500 by decide) rfl

theorem postEditJob_fair (jobId body : String) : Fair start (postEditJob T jobId body) := by
  refine fair_requireLeader (fair_reading rfl fun edit => ?_)
  refine fair_ask (.leader rfl rfl) fun r => ?_
  obtain ⟨code, message⟩ := r
  cases code with
  | applied => exact fair_answer (show 200 < 400 by decide) rfl
  | jobNotFound => exact fair_refusal (show 400 ≤ 404 by decide) rfl
  | invalidManifest => exact fair_refusal (Nat.le_refl 400) rfl
  | dbUnavailable => exact fair_refusal (show 400 ≤ 503 by decide) rfl

theorem fair_resubmitted {s : Seen} {newId : String} (hdid : newId = "" → s.did = false)
    (hturned : newId ≠ "" → s.turnedDown = false) :
    Fair s (.done (resubmitResponse T newId)) := by
  by_cases hnew : newId = ""
  · rw [resubmitResponse, if_pos hnew]
    exact fair_refusal (show 400 ≤ 404 by decide) (hdid hnew)
  · rw [resubmitResponse, if_neg hnew]
    exact fair_answer (show 200 < 400 by decide) (hturned hnew)

theorem postResubmit_fair (jobId body : String) : Fair start (postResubmit T jobId body) := by
  have hwhole : Fair leading (ask (.resubmitJob jobId) >>= fun newId =>
      return resubmitResponse T newId) := by
    refine fair_ask (.leader rfl rfl) fun newId => fair_resubmitted T ?_ ?_
    · rintro rfl
      rfl
    · exact fun hnew => decide_eq_false hnew
  refine fair_requireLeader ?_
  split
  · exact hwhole
  · refine fair_reading rfl fun request => ?_
    cases request with
    | incomplete =>
        refine fair_ask (.leader rfl rfl) fun newId => fair_resubmitted T ?_ ?_
        · rintro rfl
          rfl
        · exact fun hnew => decide_eq_false hnew
    | range frameStart frameEnd chunkSize =>
        refine fair_ask (.leader rfl rfl) fun newId => fair_resubmitted T ?_ ?_
        · rintro rfl
          rfl
        · exact fun hnew => decide_eq_false hnew
    | whole => exact hwhole

theorem postReassign_fair (body : String) : Fair start (postReassign T body) :=
  fair_requireLeader <| fair_reading rfl fun _ => fair_deed (.leader rfl rfl) fun _ => rfl

theorem postStopChunk_fair (body : String) : Fair start (postStopChunk T body) :=
  fair_requireLeader <| fair_reading rfl fun _ => fair_deed (.leader rfl rfl) fun _ => rfl

theorem postUnsuspend_fair (nodeId : String) : Fair start (postUnsuspend T nodeId) :=
  fair_requireLeader <| fair_deed (.leader rfl rfl) fun _ => rfl

theorem getSuspendedNodes_fair : Fair start (getSuspendedNodes T) :=
  fair_requireLeader <|
    fair_report (.leader rfl rfl) (fun _ => show 200 < 400 by decide) fun _ => rfl

/-- Frames are queued one by one, each of them done. -/
theorem fair_queueFrames {nodeId jobId : String} {editEpoch : Int} :
    ∀ {frames : List Int} {s : Seen}, s.led = true → s.turnedDown = false →
      Fair s (do
        for frame in frames do
          ask (.queueFrameCompletion { nodeId, jobId, frame, editEpoch })
        return ok)
  | [], s, _, hs => fair_answer (show 200 < 400 by decide) hs
  | frame :: frames, s, hled, hs => by
      rw [List.forIn_cons]
      refine fair_ask (.leader hled rfl) fun _ => ?_
      exact fair_queueFrames (by simp [Seen.after, hled])
        (by simp [Seen.after, AppCall.turnedDown, hs])

theorem postFrameComplete_fair (body : String) : Fair start (postFrameComplete T body) := by
  refine fair_requireLeader (fair_reading rfl fun frames => ?_)
  obtain ⟨nodeId, jobId, frames, editEpoch⟩ := frames
  refine fair_ask (.leader rfl rfl) fun current => ?_
  cases current with
  | true => exact fair_queueFrames rfl rfl
  | false => exact fair_answer (show 200 < 400 by decide) rfl

theorem postComplete_fair (body : String) : Fair start (postComplete T body) := by
  refine fair_requireLeader (fair_reading rfl fun report => ?_)
  refine fair_ask (.leader rfl rfl) fun current => ?_
  cases current with
  | true => exact fair_deed (.leader rfl rfl) fun _ => rfl
  | false => exact fair_answer (show 200 < 400 by decide) rfl

theorem postFailed_fair (body : String) : Fair start (postFailed T body) := by
  refine fair_requireLeader (fair_reading rfl fun report => ?_)
  refine fair_ask (.leader rfl rfl) fun current => ?_
  cases current with
  | true => exact fair_deed (.leader rfl rfl) fun _ => rfl
  | false => exact fair_answer (show 200 < 400 by decide) rfl

theorem getTaskOutputs_fair (jobId : String) : Fair start (getTaskOutputs T jobId) := by
  refine fair_requireFarm (fair_requireSegment rfl fun hid => ?_)
  refine fair_ask ⟨nofun, ?_⟩ fun dirs => ?_
  · intro id hmem
    rw [List.mem_singleton.mp hmem]
    exact hid
  · cases dirs with
    | none => exact fair_answer (show 200 < 400 by decide) rfl
    | some dirs => exact fair_answer (show 200 < 400 by decide) rfl

theorem getTaskOutput_fair (jobId nodeId filename : String) :
    Fair start (getTaskOutput jobId nodeId filename) := by
  refine fair_requireFarm (fair_requireSegment rfl fun hjob => ?_)
  refine fair_requireSegment rfl fun hnode => fair_requireSegment rfl fun hfile => ?_
  refine fair_ask ⟨nofun, ?_⟩ fun text => ?_
  · intro id hmem
    simp only [AppCall.segments, List.mem_cons, List.not_mem_nil, or_false] at hmem
    rcases hmem with rfl | rfl | rfl
    · exact hjob
    · exact hnode
    · exact hfile
  · cases text with
    | none => exact fair_refusal (show 400 ≤ 404 by decide) rfl
    | some text => exact fair_answer (show 200 < 400 by decide) rfl

theorem getNodeLog_fair (nodeId : String) (maxLines : Option String) :
    Fair start (getNodeLog T nodeId maxLines) := by
  refine fair_requireFarm (fair_requireSegment rfl fun hid => ?_)
  refine fair_report ⟨nofun, ?_⟩ (fun _ => show 200 < 400 by decide) fun _ => rfl
  intro id hmem
  rw [List.mem_singleton.mp hmem]
  exact hid

theorem postScanCleanup_fair : Fair start (postScanCleanup T) :=
  fair_requireFarm <|
    fair_report (.anyone rfl rfl) (fun _ => show 200 < 400 by decide) fun _ => rfl

theorem postCleanup_fair (body : String) : Fair start (postCleanup T body) :=
  fair_requireFarm <| fair_reading rfl fun _ =>
    fair_report (.anyone rfl rfl) (fun _ => show 200 < 400 by decide) fun _ => rfl

theorem getConfig_fair : Fair start (getConfig T) :=
  fair_report (.anyone rfl rfl) (fun _ => show 200 < 400 by decide) fun _ => rfl

theorem postConfig_fair (body : String) : Fair start (postConfig T body) := by
  unfold postConfig
  split
  · exact fair_refusal (Nat.le_refl 400) rfl
  · refine fair_ask (.anyone rfl rfl) fun cfg => ?_
    split
    rename_i cfg' read _
    refine fair_ask (.anyone rfl rfl) fun _ => ?_
    cases read with
    | false => exact fair_refusal (Nat.le_refl 400) rfl
    | true =>
        refine fair_ask (.anyone rfl rfl) fun _ => ?_
        by_cases hrestart : needsRestart cfg cfg' = true
        · rw [if_pos hrestart]
          exact fair_ask (.anyone rfl rfl) fun _ => fair_answer (show 200 < 400 by decide) rfl
        · rw [if_neg hrestart]
          exact fair_answer (show 200 < 400 by decide) rfl

theorem postPathMappings_fair (body : String) : Fair start (postPathMappings T body) := by
  refine fair_reading rfl fun mappings => ?_
  refine fair_ask (.anyone rfl rfl) fun cfg => ?_
  refine fair_ask (.anyone rfl rfl) fun _ => ?_
  exact fair_deed (.anyone rfl rfl) fun _ => rfl

end Handlers

theorem routes_fair : ∀ r ∈ routes, ∀ (T : JsonText) (captures : List String) (req : Request),
    Fair start (r.handler T captures req) := by
  simp only [routes, List.forall_mem_cons]
  refine ⟨fun T _ _ => getStatus_fair T, fun T _ _ => getPeers_fair T,
    fun _ _ _ => postNodeState_fair .stopped, fun _ _ _ => postNodeState_fair .active,
    fun _ _ _ => postNodeRestart_fair, fun _ _ _ => postAgentRestart_fair,
    fun T _ _ => postAssign_fair T _, fun T _ _ => postAbort_fair T _,
    fun T _ _ => postJob_fair T _, fun T _ _ => getJobs_fair T, fun T _ _ => getJob_fair T _,
    fun T _ _ => postControl_fair T .pause _, fun T _ _ => postControl_fair T .resume _,
    fun T _ _ => postControl_fair T .cancel _, fun T _ _ => postControl_fair T .archive _,
    fun T _ _ => deleteJobs_fair T _, fun T _ _ => postMove_fair T _ _,
    fun T _ _ => postPriority_fair T _ _, fun T _ _ => postControl_fair T .retryFailed _,
    fun T _ _ => postControl_fair T .requeue _, fun T _ _ => getManifest_fair T _,
    fun T _ _ => postEditJob_fair T _ _, fun T _ _ => postResubmit_fair T _ _,
    fun T _ _ => postReassign_fair T _, fun T _ _ => postStopChunk_fair T _,
    fun T _ _ => postUnsuspend_fair T _, fun T _ _ => getSuspendedNodes_fair T,
    fun T _ _ => postFrameComplete_fair T _, fun T _ _ => postComplete_fair T _,
    fun T _ _ => postFailed_fair T _, fun T _ _ => getTaskOutputs_fair T _,
    fun _ _ _ => getTaskOutput_fair _ _ _, fun T _ _ => getNodeLog_fair T _ _,
    fun T _ _ => postScanCleanup_fair T, fun T _ _ => postCleanup_fair T _,
    fun T _ _ => getConfig_fair T, fun T _ _ => postConfig_fair T _,
    fun T _ _ => postPathMappings_fair T _, nofun⟩

/-! ## Where a path can lead -/

theorem Fills.text_prefix {s : String} {pieces : List Piece} {captures : List String}
    {path : List Char} (h : Fills (.text s :: pieces) captures path) : s.toList <+: path := by
  cases h with
  | text h => exact List.prefix_append _ _

/-- The text a pattern begins with. -/
def Route.stem (r : Route) : List Char :=
  match r.pattern with
  | .text s :: _ => s.toList
  | _ => []

theorem Route.stem_prefix {r : Route} {captures : List String} {path : List Char}
    (h : Fills r.pattern captures path) : r.stem <+: path := by
  unfold Route.stem
  split
  · rename_i s rest hpattern
    rw [hpattern] at h
    exact h.text_prefix
  · exact List.nil_prefix

theorem routes_under_api : ∀ r ∈ routes, apiPrefix <+: r.stem := by
  decide +kernel

/-- No other route for `GET` answers the status of the node. -/
theorem routes_status :
    ∀ r ∈ routes.tail, r.method = "GET" → ¬ r.stem <+: "/api/status".toList := by
  decide +kernel

/-- The one request that needs no secret. -/
def Open (req : Request) : Prop := req.method = "GET" ∧ req.path = "/api/status"

def Authorised (secret : String) (req : Request) : Prop :=
  secret ≠ "" ∧ req.authorization = some (authHeader secret)

theorem Router.under_api {router : Router} {req : Request} {r : Route} {captures : List String}
    (h : router.choose req = some (r, captures)) : apiPrefix <+: req.path.toList :=
  (routes_under_api r (router.mem h)).trans (Route.stem_prefix (router.fills h))

theorem Router.status {router : Router} {req : Request} {r : Route} {captures : List String}
    (h : router.choose req = some (r, captures)) (hopen : Open req) : r = statusRoute := by
  have hmem : r = statusRoute ∨ r ∈ routes.tail := List.mem_cons.mp (router.mem h)
  refine hmem.resolve_right fun htail => ?_
  have hmethod : r.method = "GET" := by
    rw [router.method h, hopen.1]
    decide
  have hfills := router.fills h
  rw [hopen.2] at hfills
  exact routes_status r htail hmethod (Route.stem_prefix hfills)

/-- What the check in front lets through. -/
theorem preRouting_none {secret : String} {req : Request} (h : preRouting secret req = none) :
    ¬ apiPrefix <+: req.path.toList ∨ Open req ∨ Authorised secret req := by
  unfold preRouting at h
  split at h
  · exact .inl ‹_›
  · split at h
    · exact .inr (.inl ‹_›)
    · split at h
      · cases h
      · rename_i hsecret
        split at h
        · cases h
        · rename_i header hheader
          split at h
          · rename_i hequals
            rw [constantTimeEquals_iff] at hequals
            exact .inr (.inr ⟨hsecret, hequals ▸ hheader⟩)
          · cases h

theorem preRouting_some {secret : String} {req : Request} {res : Response}
    (h : preRouting secret req = some res) : 400 ≤ res.status := by
  unfold preRouting at h
  split at h
  · cases h
  · split at h
    · cases h
    · split at h
      · cases h
        decide
      · split at h
        · cases h
          decide
        · split at h
          · cases h
          · cases h
            decide

/-! ## What a request has done -/

/-- A call and what it was answered. -/
abbrev Exchange := (c : app.Call) × app.Reply c

theorem leads_iff {e : Exchange} : e.1.leads e.2 = true ↔ e = ⟨.isLeader, true⟩ := by
  constructor
  · intro h
    obtain ⟨c, r⟩ := e
    cases c with
    | isLeader =>
        obtain rfl : r = true := h
        rfl
    | _ => cases h
  · rintro rfl
    rfl

theorem Seen.led_after {s : Seen} {es : List Exchange}
    (h : (Prog.seen (F := app) Seen.after s es).led = true) :
    s.led = true ∨ ⟨.isLeader, true⟩ ∈ es := by
  induction es generalizing s with
  | nil => exact .inl h
  | cons e es ih =>
      rcases ih h with hled | hmem
      · rcases (Bool.or_eq_true _ _).mp hled with hold | hnew
        · exact .inl hold
        · rw [leads_iff] at hnew
          rw [hnew]
          exact .inr List.mem_cons_self
      · exact .inr (List.mem_cons_of_mem _ hmem)

theorem Seen.did_after {s : Seen} {es : List Exchange}
    (h : (Prog.seen (F := app) Seen.after s es).did = false) :
    s.did = false ∧ ∀ e ∈ es, e.1.did e.2 = false := by
  induction es generalizing s with
  | nil => exact ⟨h, List.forall_mem_nil _⟩
  | cons e es ih =>
      obtain ⟨hfirst, hrest⟩ := ih h
      obtain ⟨hs, he⟩ := Bool.or_eq_false_iff.mp hfirst
      exact ⟨hs, List.forall_mem_cons.mpr ⟨he, hrest⟩⟩

theorem Seen.turnedDown_after {s : Seen} {es : List Exchange}
    (h : (Prog.seen (F := app) Seen.after s es).turnedDown = false) :
    s.turnedDown = false ∧ ∀ e ∈ es, e.1.turnedDown e.2 = false := by
  induction es generalizing s with
  | nil => exact ⟨h, List.forall_mem_nil _⟩
  | cons e es ih =>
      obtain ⟨hfirst, hrest⟩ := ih h
      obtain ⟨hs, he⟩ := Bool.or_eq_false_iff.mp hfirst
      exact ⟨hs, List.forall_mem_cons.mpr ⟨he, hrest⟩⟩

/-- All that can become of a request. -/
theorem serve_cases (T : JsonText) (router : Router) (secret : String) (req : Request) :
    (∃ res, serve T router secret req = .done res ∧ 400 ≤ res.status) ∨
    (Open req ∧ serve T router secret req = getStatus T) ∨
    (Authorised secret req ∧
      ∃ r ∈ routes, ∃ captures, serve T router secret req = r.handler T captures req) := by
  unfold serve
  cases hpre : preRouting secret req with
  | some res => exact .inl ⟨res, rfl, preRouting_some hpre⟩
  | none =>
      cases hchoose : router.choose req with
      | none => exact .inl ⟨{ status := 404 }, rfl, show 400 ≤ 404 by decide⟩
      | some choice =>
          obtain ⟨r, captures⟩ := choice
          rcases preRouting_none hpre with hother | hopen | hauthorised
          · exact absurd (Router.under_api hchoose) hother
          · obtain rfl := Router.status hchoose hopen
            exact .inr (.inl ⟨hopen, rfl⟩)
          · exact .inr (.inr ⟨hauthorised, r, router.mem hchoose, captures, rfl⟩)

theorem serve_fair (T : JsonText) (router : Router) (secret : String) (req : Request) :
    Fair start (serve T router secret req) := by
  obtain ⟨res, hserve, hres⟩ | ⟨-, hserve⟩ | ⟨-, r, hr, captures, hserve⟩ :=
    serve_cases T router secret req
  · rw [hserve]
    exact fair_refusal hres rfl
  · rw [hserve]
    exact getStatus_fair T
  · rw [hserve]
    exact routes_fair r hr T captures req

/-- Whatever the application answers to a request's calls: without the secret
nothing is called but the report of the node's status; the calls about the
farm's jobs come after the node said it leads; no id reaches a path that is not
one segment; an error answer means that nothing was done, a success that nothing
was turned down. -/
theorem request_is_allowed (T : JsonText) (router : Router) (secret : String) (req : Request)
    {es : List Exchange} {res : Response}
    (h : Prog.Answered (serve T router secret req) es res) :
    (¬ Authorised secret req → ¬ Open req → es = [] ∧ 400 ≤ res.status) ∧
    (¬ Authorised secret req → ∀ e ∈ es, e.1 = .localStatus) ∧
    (∀ before e after, es = before ++ e :: after → e.1.ofLeader = true →
      ⟨.isLeader, true⟩ ∈ before) ∧
    (∀ e ∈ es, ∀ id ∈ e.1.segments, isSafePathSegment id = true) ∧
    (400 ≤ res.status → ∀ e ∈ es, e.1.did e.2 = false) ∧
    (res.status < 400 → ∀ e ∈ es, e.1.turnedDown e.2 = false) := by
  obtain ⟨hend, hmay⟩ := (serve_fair T router secret req).answered h
  refine ⟨?_, ?_, ?_, ?_, ?_, ?_⟩
  · intro hsecret hopen
    obtain ⟨res', hserve, hres⟩ | ⟨hopen', -⟩ | ⟨hsecret', -⟩ := serve_cases T router secret req
    · rw [hserve] at h
      cases h
      exact ⟨rfl, hres⟩
    · exact absurd hopen' hopen
    · exact absurd hsecret' hsecret
  · intro hsecret
    obtain ⟨res', hserve, -⟩ | ⟨-, hserve⟩ | ⟨hsecret', -⟩ := serve_cases T router secret req
    · rw [hserve] at h
      cases h
      exact List.forall_mem_nil _
    · rw [hserve] at h
      cases h with
      | call r hrest =>
          cases hrest
          exact List.forall_mem_singleton.mpr rfl
    · exact absurd hsecret' hsecret
  · intro before e after hsplit hleader
    exact (Seen.led_after ((hmay before e after hsplit).1 hleader)).resolve_left Bool.false_ne_true
  · intro e he
    obtain ⟨before, after, hsplit⟩ := List.append_of_mem he
    exact (hmay before e after hsplit).2
  · intro hres
    rw [Seen.MayEnd, if_pos hres] at hend
    exact (Seen.did_after hend).2
  · intro hres
    rw [Seen.MayEnd, if_neg (by omega)] at hend
    exact (Seen.turnedDown_after hend).2

/-! ## The routes tried in their order -/

/-- `std::regex_match`: a segment takes all up to the next slash. -/
def fill : List Piece → List Char → Option (List String)
  | [], [] => some []
  | [], _ :: _ => none
  | .text s :: pieces, path =>
      if s.toList <+: path then fill pieces (path.drop s.toList.length) else none
  | .segment :: pieces, path =>
      let c := path.takeWhile (· ≠ '/')
      if c = [] then none
      else (fill pieces (path.dropWhile (· ≠ '/'))).map (String.ofList c :: ·)

theorem fill_fills {pieces : List Piece} {path : List Char} {captures : List String}
    (h : fill pieces path = some captures) : Fills pieces captures path := by
  induction pieces generalizing path captures with
  | nil =>
      cases path with
      | nil =>
          cases h
          exact .nil
      | cons c path => cases h
  | cons piece pieces ih =>
      cases piece with
      | text s =>
          rw [fill] at h
          split at h
          · rename_i hprefix
            obtain ⟨rest, rfl⟩ := hprefix
            rw [List.drop_left] at h
            exact .text (ih h)
          · cases h
      | segment =>
          rw [fill] at h
          split at h
          · cases h
          · rename_i hne
            obtain ⟨rest, hrest, rfl⟩ := Option.map_eq_some_iff.mp h
            have hplain : '/' ∉ (String.ofList (path.takeWhile (· ≠ '/'))).toList := by
              rw [String.toList_ofList]
              intro hmem
              have hall := List.mem_takeWhile_imp hmem
              simp at hall
            have hfills := Fills.segment (c := String.ofList (path.takeWhile (· ≠ '/'))) (by
              intro hempty
              exact hne (by simpa using congrArg String.toList hempty)) hplain (ih hrest)
            rwa [String.toList_ofList, List.takeWhile_append_dropWhile] at hfills

/-- The first route that fits. -/
def firstRoute : Router where
  choose req := routes.findSome? fun r =>
    if r.method = routeMethod req.method then (fill r.pattern req.path.toList).map (r, ·) else none
  mem h := by
    obtain ⟨r, hr, hfits⟩ := List.exists_of_findSome?_eq_some h
    split at hfits
    · obtain ⟨captures, -, heq⟩ := Option.map_eq_some_iff.mp hfits
      cases heq
      exact hr
    · cases hfits
  method h := by
    obtain ⟨r, -, hfits⟩ := List.exists_of_findSome?_eq_some h
    split at hfits
    · obtain ⟨captures, -, heq⟩ := Option.map_eq_some_iff.mp hfits
      cases heq
      assumption
    · cases hfits
  fills h := by
    obtain ⟨r, -, hfits⟩ := List.exists_of_findSome?_eq_some h
    split at hfits
    · obtain ⟨captures, hfill, heq⟩ := Option.map_eq_some_iff.mp hfits
      cases heq
      exact fill_fills hfill
    · cases hfits

/-- The window of a worker pauses a job of the leader. -/
def pauseShot : Request where
  method := "POST"
  path := "/api/jobs/shot/pause"
  authorization := some "Bearer farm"

def pauseCalls : List Exchange := [⟨.isLeader, true⟩, ⟨.control .pause "shot", ()⟩]

def noLibrary : JsonText := { parse := fun _ => none, dump := fun _ => "" }

theorem pauseShot_served :
    Prog.Answered (serve noLibrary firstRoute "farm" pauseShot) pauseCalls ok := by
  have hpre : preRouting "farm" pauseShot = none := by
    have hequals : constantTimeEquals "Bearer farm" (authHeader "farm") = true :=
      constantTimeEquals_iff.mpr (by decide)
    unfold preRouting
    rw [if_neg (by decide), if_neg (by decide), if_neg (by decide)]
    exact if_pos hequals
  have hchoose : firstRoute.choose pauseShot = some (controlRoute "pause" .pause, ["shot"]) := rfl
  unfold serve
  rw [hpre, hchoose]
  refine Prog.Answered.call (F := app) (c := .isLeader) true ?_
  exact Prog.Answered.call (F := app) (c := .control .pause "shot") () (.done ok)

/-- The request comes from the secret's holder, and the job is paused after the
node said it leads. -/
theorem pauseShot_allowed :
    Prog.Answered (serve noLibrary firstRoute "farm" pauseShot) pauseCalls ok ∧
    ∀ before e after, pauseCalls = before ++ e :: after → e.1.ofLeader = true →
      ⟨.isLeader, true⟩ ∈ before :=
  ⟨pauseShot_served, (request_is_allowed noLibrary firstRoute "farm" pauseShot
    pauseShot_served).2.2.1⟩

end MinRender.HttpServer
