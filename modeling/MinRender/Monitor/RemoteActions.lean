import MinRender.Core.ManifestCodec
import MinRender.Monitor.HttpGate

/-!
# What one node has another do

A worker has no database: what its window does and what its renders report is
posted to the leader, and the leader posts assignments and aborts to its
workers. The body is written by one side and read by the other; what is
performed there is the call the first side means, with its arguments.
-/

namespace MinRender
open Json HttpServer ManifestCodec
open MonitorApp (epochField completedBody failedBody framesBody)

namespace RemoteActions

/-! ## The requests -/

inductive Action
  -- what the leader is asked
  | control (c : JobControl) (jobId : String)
  | deleteJob (jobId : String)
  | moveJob (jobId targetJobId : String) (before : Bool)
  | setJobPriority (jobId : String) (priority : Int)
  | editJob (jobId : String) (manifest : Json) (mode : String) (priority : Int)
  | resubmitJob (jobId : String)
  | resubmitChunkAsJob (jobId : String) (frameStart frameEnd chunkSize : Int)
  | resubmitIncomplete (jobId : String)
  | reassignChunk (chunkId : Int) (targetNodeId : String)
  | stopChunk (chunkId : Int)
  | unsuspendNode (nodeId : String)
  | submit (manifest : JobManifest) (priority : Int)
  | reportCompleted (r : CompletionReport) (elapsedMs exitCode : Int)
  | reportFailed (r : FailureReport)
  | reportFrames (nodeId jobId : String) (frames : List Int) (editEpoch : Int)
  -- what any node is asked
  /-- `data` is the manifest's value, its paths translated for the node -/
  | assign (data : Json) (manifest : JobManifest) (chunk : ChunkRange) (editEpoch : Int)
  /-- the push of a job's edit gives no reason -/
  | abort (jobId : String) (reason : Option String)
  | setPeerNodeActive (active : Bool)
  | restartPeerApp
  | tryRemoteAgentRestart

structure Posted where
  method : String := "POST"
  endpoint : String
  /-- what the body is the text of, if there is one -/
  content : Option Json := none

def controlWord : JobControl → String
  | .pause => "pause"
  | .resume => "resume"
  | .cancel => "cancel"
  | .archive => "archive"
  | .retryFailed => "retry-failed"
  | .requeue => "requeue"

def jobEndpoint (jobId word : String) : String := "/api/jobs/" ++ jobId ++ "/" ++ word

def moveBody (targetJobId : String) (before : Bool) : Json :=
  .obj [("target", .str targetJobId), ("position", .str (if before then "before" else "after"))]

def editBody (manifest : Json) (mode : String) (priority : Int) : Json :=
  .obj [("manifest", manifest), ("mode", .str mode), ("priority", .int priority)]

def priorityBody (priority : Int) : Json := .obj [("priority", .int priority)]

def resubmitBody (frameStart frameEnd chunkSize : Int) : Json :=
  .obj [("frame_start", .int frameStart), ("frame_end", .int frameEnd),
    ("chunk_size", .int chunkSize)]

def incompleteBody : Json := .obj [("incomplete_only", .bool true)]

def stopBody (chunkId : Int) : Json := .obj [("chunk_id", .int chunkId)]

def reassignBody (chunkId : Int) (targetNodeId : String) : Json :=
  .obj (("chunk_id", .int chunkId) ::
    if targetNodeId = "" then [] else [("target_node", .str targetNodeId)])

def submitBody (manifest : JobManifest) (priority : Int) : Json :=
  .obj [("manifest", manifest.toJson), ("priority", .int priority)]

def assignBody (data : Json) (chunk : ChunkRange) (editEpoch : Int) : Json :=
  .obj [("manifest", data), ("frame_start", .int chunk.frameStart),
    ("frame_end", .int chunk.frameEnd), ("edit_epoch", .int editEpoch)]

def abortBody (jobId : String) (reason : Option String) : Json :=
  .obj (("job_id", .str jobId) :: (reason.map fun text => ("reason", .str text)).toList)

def Action.posted : Action → Posted
  | .control c jobId => { endpoint := jobEndpoint jobId (controlWord c) }
  | .deleteJob jobId => { method := "DELETE", endpoint := "/api/jobs/" ++ jobId }
  | .moveJob jobId targetJobId before =>
      { endpoint := jobEndpoint jobId "move", content := moveBody targetJobId before }
  | .setJobPriority jobId priority =>
      { endpoint := jobEndpoint jobId "priority", content := priorityBody priority }
  | .editJob jobId manifest mode priority =>
      { endpoint := jobEndpoint jobId "edit", content := editBody manifest mode priority }
  | .resubmitJob jobId => { endpoint := jobEndpoint jobId "resubmit" }
  | .resubmitChunkAsJob jobId frameStart frameEnd chunkSize =>
      { endpoint := jobEndpoint jobId "resubmit"
        content := resubmitBody frameStart frameEnd chunkSize }
  | .resubmitIncomplete jobId =>
      { endpoint := jobEndpoint jobId "resubmit", content := incompleteBody }
  | .reassignChunk chunkId targetNodeId =>
      { endpoint := "/api/chunks/reassign", content := reassignBody chunkId targetNodeId }
  | .stopChunk chunkId => { endpoint := "/api/chunks/stop", content := stopBody chunkId }
  | .unsuspendNode nodeId => { endpoint := "/api/nodes/" ++ nodeId ++ "/" ++ "unsuspend" }
  | .submit manifest priority =>
      { endpoint := "/api/jobs", content := submitBody manifest priority }
  | .reportCompleted r elapsedMs exitCode =>
      { endpoint := "/api/dispatch/complete", content := completedBody r elapsedMs exitCode }
  | .reportFailed r => { endpoint := "/api/dispatch/failed", content := failedBody r }
  | .reportFrames nodeId jobId frames editEpoch =>
      { endpoint := "/api/dispatch/frame-complete"
        content := framesBody nodeId jobId frames editEpoch }
  | .assign data _ chunk editEpoch =>
      { endpoint := "/api/dispatch/assign", content := assignBody data chunk editEpoch }
  | .abort jobId reason => { endpoint := "/api/render/abort", content := abortBody jobId reason }
  | .setPeerNodeActive active =>
      { endpoint := if active then "/api/node/start" else "/api/node/stop" }
  | .restartPeerApp => { endpoint := "/api/node/restart" }
  | .tryRemoteAgentRestart => { endpoint := "/api/agent/restart" }

variable (T : JsonText)

/-- The request as it arrives, with the secret in its header. -/
def Action.received (secret : String) (a : Action) : Request where
  method := a.posted.method
  path := a.posted.endpoint
  body := (a.posted.content.map T.dump).getD ""
  authorization := some (authHeader secret)

/-! ## What is meant -/

/-- The calls of the application that the action stands for, and the answer to
them: on the leader's own window these calls are made directly. -/
def Action.perform : Action → AppProg Response
  | .control c jobId => do
      ask (.control c jobId)
      return ok
  | .deleteJob jobId => do
      ask (.deleteJob jobId)
      return ok
  | .moveJob jobId targetJobId before => do
      if ← ask (.moveJob jobId targetJobId before) then return ok
      else return failure 409 "move_rejected"
  | .setJobPriority jobId priority => do
      ask (.setJobPriority jobId priority)
      return ok
  | .editJob jobId manifest mode priority => do
      let r ← ask (.applyEditLocally jobId (T.dump manifest) mode priority)
      return editResponse T r
  | .resubmitJob jobId => do
      let newId ← ask (.resubmitJob jobId)
      return resubmitResponse T newId
  | .resubmitChunkAsJob jobId frameStart frameEnd chunkSize => do
      let newId ← ask (.resubmitChunkAsJob jobId frameStart frameEnd chunkSize)
      return resubmitResponse T newId
  | .resubmitIncomplete jobId => do
      let newId ← ask (.resubmitIncomplete jobId)
      return resubmitResponse T newId
  | .reassignChunk chunkId targetNodeId => do
      ask (.reassignChunk chunkId targetNodeId)
      return ok
  | .stopChunk chunkId => do
      ask (.stopChunk chunkId)
      return ok
  | .unsuspendNode nodeId => do
      ask (.unsuspendNode nodeId)
      return ok
  | .submit manifest priority => do
      ask (.queueSubmission { manifest := readBack manifest, priority })
      return ok
  | .reportCompleted r _ _ => do
      if ← ask (.isChunkCurrent r.jobId r.frameStart r.frameEnd r.nodeId r.editEpoch) then
        ask (.queueCompletion r)
        return ok
      else return stale
  | .reportFailed r => do
      if ← ask (.isChunkCurrent r.jobId r.frameStart r.frameEnd r.nodeId r.editEpoch) then
        ask (.queueFailure r)
        return ok
      else return stale
  | .reportFrames nodeId jobId frames editEpoch => do
      if ← ask (.isJobEpochCurrent jobId editEpoch) then
        for frame in frames do
          ask (.queueFrameCompletion { nodeId, jobId, frame, editEpoch })
        return ok
      else return stale
  | .assign _ manifest chunk editEpoch => do
      if ← ask .isRendering then return failure 409 "busy"
      else if (← ask .nodeState) = .stopped then return failure 409 "stopped"
      else
        ask (.queueDispatch manifest chunk editEpoch)
        return ok
  | .abort jobId reason => do
      ask (.abandonJobRender jobId (reason.getD "job edited"))
      return ok
  | .setPeerNodeActive active => do
      ask (.setNodeState (if active then .active else .stopped))
      return ok
  | .restartPeerApp => postNodeRestart
  | .tryRemoteAgentRestart => postAgentRestart

/-- The leader alone performs it. -/
def Action.ofLeader : Action → Bool
  | .assign .. | .abort .. | .setPeerNodeActive _ | .restartPeerApp | .tryRemoteAgentRestart =>
      false
  | _ => true

def Action.served (a : Action) : AppProg Response :=
  if a.ofLeader then requireLeader T (a.perform T) else a.perform T

/-! ## The route it takes -/

theorem routes_distinct : (routes.map fun r => (r.method, r.pattern)).Nodup := by
  decide +kernel

theorem route_unique {r r' : Route} (hr : r ∈ routes) (hr' : r' ∈ routes)
    (hmethod : r.method = r'.method) (hpattern : r.pattern = r'.pattern) : r = r' :=
  List.inj_on_of_nodup_map routes_distinct hr hr' (Prod.ext hmethod hpattern)

/-- The library finds a route where one fits. -/
def Finds (router : Router) (req : Request) : Prop :=
  ∀ r ∈ routes, ∀ captures, r.method = routeMethod req.method →
    Fills r.pattern captures req.path.toList → (router.choose req).isSome = true

/-- The request takes this route, whatever the library's order. -/
structure Arrives (method endpoint : String) (r : Route) (captures : List String) : Prop where
  mem : r ∈ routes
  method : r.method = routeMethod method
  fills : Fills r.pattern captures endpoint.toList
  unique : ∀ r' ∈ routes, r'.method = r.method → ∀ captures',
    Fills r'.pattern captures' endpoint.toList → r'.pattern = r.pattern ∧ captures' = captures

theorem Arrives.choose {router : Router} {req : Request} {r : Route} {captures : List String}
    (h : Arrives req.method req.path r captures) (hfinds : Finds router req) :
    router.choose req = some (r, captures) := by
  obtain ⟨choice, hchoice⟩ := Option.isSome_iff_exists.mp
    (hfinds r h.mem captures h.method h.fills)
  obtain ⟨r', captures'⟩ := choice
  have hmethod : r'.method = r.method := (router.method hchoice).trans h.method.symm
  obtain ⟨hpattern, hcaptures⟩ :=
    h.unique r' (router.mem hchoice) hmethod captures' (router.fills hchoice)
  rw [hchoice, route_unique (router.mem hchoice) h.mem hmethod hpattern, hcaptures]

theorem fills_text {s : String} {captures : List String} {path : List Char}
    (h : Fills [.text s] captures path) : captures = [] ∧ s.toList = path := by
  cases h with
  | text h =>
      cases h
      exact ⟨rfl, (List.append_nil _).symm⟩

theorem fills_segment {s : String} {captures : List String} {path : List Char}
    (h : Fills [.text s, .segment] captures path) :
    ∃ c, captures = [c] ∧ path = s.toList ++ c.toList := by
  cases h with
  | text h =>
      cases h with
      | @segment c _ _ _ hne hplain h =>
          cases h
          exact ⟨c, rfl, by rw [List.append_nil]⟩

theorem fills_around {s t : String} {captures : List String} {path : List Char}
    (h : Fills [.text s, .segment, .text t] captures path) :
    ∃ c, captures = [c] ∧ path = s.toList ++ (c.toList ++ t.toList) := by
  cases h with
  | text h =>
      cases h with
      | @segment c _ _ _ hne hplain h =>
          obtain ⟨rfl, rfl⟩ := fills_text h
          exact ⟨c, rfl, rfl⟩

/-- Under the endpoints of one job and one node the last word decides. -/
def wordShape : List Piece → Bool
  | [.text s] =>
      !"/api/jobs/".toList.isPrefixOf s.toList && !"/api/nodes/".toList.isPrefixOf s.toList
  | [.text s, .segment, .text t] =>
      (s = "/api/jobs/" || s = "/api/nodes/") && t.toList.head? = some '/'
  | _ => false

theorem post_shapes : ∀ r ∈ routes, r.method = "POST" → wordShape r.pattern = true := by
  decide +kernel

/-- The library's coding of paths leaves these as they are. -/
def unreserved (c : Char) : Bool := c.isAlphanum || c ∈ ['-', '_', '.', '~']

/-- An id that is one segment and that arrives as it is sent. -/
def Unreserved (id : String) : Prop := id ≠ "" ∧ id.toList.all unreserved = true

instance (id : String) : Decidable (Unreserved id) := inferInstanceAs (Decidable (_ ∧ _))

theorem Unreserved.plain {id : String} (h : Unreserved id) : '/' ∉ id.toList := by
  intro hmem
  have hslash : unreserved '/' = true := List.all_eq_true.mp h.2 '/' hmem
  revert hslash
  decide

def stems : List String := ["/api/jobs/", "/api/nodes/"]

theorem stems_apart : ∀ s ∈ stems, ∀ s' ∈ stems, s.toList <+: s'.toList → s = s' := by
  decide

/-- Below a stem, only the route with the same last word fits. -/
theorem word_arrives {stem id word : String} {r : Route} (hstem : stem ∈ stems) (hr : r ∈ routes)
    (hmethod : r.method = "POST")
    (hpattern : r.pattern = [.text stem, .segment, .text ("/" ++ word)]) (hid : Unreserved id)
    (hplain : '/' ∉ word.toList) : Arrives "POST" (stem ++ id ++ "/" ++ word) r [id] := by
  have hpath : (stem ++ id ++ "/" ++ word).toList =
      stem.toList ++ (id.toList ++ ("/" ++ word).toList) := by
    simp only [String.toList_append, List.append_assoc]
  have hword : ("/" ++ word).toList = '/' :: word.toList := by
    rw [String.toList_append]
    rfl
  refine ⟨hr, hmethod, ?_, ?_⟩
  · have hend : Fills [.text ("/" ++ word)] [] ("/" ++ word).toList := by
      have htext := Fills.text (s := "/" ++ word) Fills.nil
      rwa [List.append_nil] at htext
    rw [hpattern, hpath]
    exact .text (.segment hid.1 hid.plain hend)
  · intro r' hr' hmethod' captures' hfills
    have hshape := post_shapes r' hr' (hmethod'.trans hmethod)
    rw [hpath] at hfills
    rw [hpattern]
    unfold wordShape at hshape
    split at hshape
    · -- a literal endpoint is not below a stem
      rename_i s hliteral
      rw [hliteral] at hfills
      obtain ⟨-, hs⟩ := fills_text hfills
      have hbelow : stem.toList <+: s.toList := hs ▸ List.prefix_append _ _
      rw [Bool.and_eq_true, Bool.not_eq_true', Bool.not_eq_true'] at hshape
      rcases List.mem_cons.mp hstem with rfl | hstem
      · exact absurd (List.isPrefixOf_iff_prefix.mpr hbelow) (Bool.eq_false_iff.mp hshape.1)
      · rw [List.mem_singleton.mp hstem] at hbelow
        exact absurd (List.isPrefixOf_iff_prefix.mpr hbelow) (Bool.eq_false_iff.mp hshape.2)
    · rename_i s t hshaped
      rw [hshaped] at hfills
      obtain ⟨c, rfl, heq⟩ := fills_around hfills
      obtain ⟨hs, ht⟩ := Bool.and_eq_true_iff.mp hshape
      have hs' : s ∈ stems := by
        simpa [stems] using hs
      have hsame : s = stem := by
        rcases List.prefix_or_prefix_of_prefix (List.prefix_append s.toList _)
          (heq ▸ List.prefix_append stem.toList _) with hle | hle
        · exact stems_apart s hs' stem hstem hle
        · exact (stems_apart stem hstem s hs' hle).symm
      subst hsame
      obtain ⟨rest, hrest⟩ : ∃ rest, t.toList = '/' :: rest := by
        cases hlist : t.toList with
        | nil => simp [hlist] at ht
        | cons b rest =>
            simp only [hlist, List.head?_cons, Option.some.injEq, decide_eq_true_eq] at ht
            exact ⟨rest, by rw [ht]⟩
      rw [hword, hrest] at heq
      obtain ⟨hid', -, hrest'⟩ := (List.append_cons_inj_of_notMem hid.plain hplain).mp
        (List.append_cancel_left heq)
      have ht' : t = "/" ++ word := by
        rw [← String.toList_inj, hrest, hword, hrest']
      rw [hshaped, ht', String.toList_inj.mp hid']
      exact ⟨rfl, rfl⟩
    · cases hshape

/-- A literal endpoint that is below no stem. -/
theorem literal_arrives {endpoint : String} {r : Route} (hr : r ∈ routes)
    (hmethod : r.method = "POST") (hpattern : r.pattern = [.text endpoint])
    (hbelow : ∀ s ∈ stems, ¬ s.toList <+: endpoint.toList) :
    Arrives "POST" endpoint r [] := by
  refine ⟨hr, hmethod, ?_, ?_⟩
  · have htext := Fills.text (s := endpoint) Fills.nil
    rw [List.append_nil] at htext
    rwa [hpattern]
  · intro r' hr' hmethod' captures' hfills
    have hshape := post_shapes r' hr' (hmethod'.trans hmethod)
    rw [hpattern]
    unfold wordShape at hshape
    split at hshape
    · rename_i s hliteral
      rw [hliteral] at hfills
      obtain ⟨rfl, hs⟩ := fills_text hfills
      rw [hliteral, String.toList_inj.mp hs]
      exact ⟨rfl, rfl⟩
    · rename_i s t hshaped
      rw [hshaped] at hfills
      have hs : s ∈ stems := by
        simpa [stems] using (Bool.and_eq_true_iff.mp hshape).1
      exact absurd hfills.text_prefix (hbelow s hs)
    · cases hshape

def deleteRoute : Route :=
  ⟨"DELETE", [.text "/api/jobs/", .segment], fun T captures _ => deleteJobs T (cap captures 0)⟩

theorem delete_shapes :
    ∀ r ∈ routes, r.method = "DELETE" → r.pattern = [.text "/api/jobs/", .segment] := by
  decide +kernel

theorem delete_arrives {id : String} (hid : Unreserved id) :
    Arrives "DELETE" ("/api/jobs/" ++ id) deleteRoute [id] := by
  have hmem : deleteRoute ∈ routes := by
    simp [routes, deleteRoute]
  refine ⟨hmem, rfl, ?_, ?_⟩
  · have hend : Fills [.segment] [id] id.toList := by
      have hsegment := Fills.segment hid.1 hid.plain Fills.nil
      rwa [List.append_nil] at hsegment
    rw [String.toList_append]
    exact .text hend
  · intro r' hr' hmethod' captures' hfills
    have hpattern := delete_shapes r' hr' hmethod'
    rw [hpattern, String.toList_append] at hfills
    obtain ⟨c, rfl, heq⟩ := fills_segment hfills
    rw [hpattern, String.toList_inj.mp (List.append_cancel_left heq)]
    exact ⟨rfl, rfl⟩

/-- A request with the secret that takes a route is the route's. -/
theorem serve_arrives {T : JsonText} {router : Router} {secret : String} {req : Request}
    {r : Route} {captures : List String} (h : Arrives req.method req.path r captures)
    (hfinds : Finds router req) (hsecret : secret ≠ "") (hmethod : req.method ≠ "GET")
    (hauth : req.authorization = some (authHeader secret)) :
    serve T router secret req = r.handler T captures req := by
  have happ : apiPrefix <+: req.path.toList := Router.under_api (h.choose hfinds)
  have hpre : preRouting secret req = none := by
    unfold preRouting
    rw [if_neg (not_not_intro happ), if_neg fun hopen => hmethod hopen.1, if_neg hsecret, hauth]
    exact if_pos (constantTimeEquals_iff.mpr rfl)
  unfold serve
  rw [hpre, h.choose hfinds]

/-! ## What is read of a body -/

/-- The JSON library: it reads the request's body back, with the fields of
objects in the order of their keys, writes them in that order, and reads nothing
from an empty text. -/
structure Library (T : JsonText) (a : Action) : Prop where
  parse_dump : ∀ {j}, a.posted.content = some j → T.parse (T.dump j) = some j.sorted
  dump_sorted : ∀ j, T.dump j.sorted = T.dump j
  parse_empty : T.parse "" = none

section Bodies

variable {T : JsonText} {j v : Json} {key : String}

theorem Library.dump_ne_empty {a : Action} (hT : Library T a) (h : a.posted.content = some j) :
    T.dump j ≠ "" := by
  intro hempty
  have hparse := hT.parse_dump h
  rw [hempty, hT.parse_empty] at hparse
  cases hparse

theorem reading_dump {α : Type} {read : Json → Except JsonError α} {a : α}
    {rest : α → AppProg Response} (hparse : T.parse (T.dump j) = some j.sorted)
    (h : read j.sorted = .ok a) : reading T (T.dump j) read rest = rest a := by
  unfold reading
  rw [hparse, Option.bind_some, h]
  rfl

theorem at_sorted (h : j.find? key = some v) : j.sorted.at? key = .ok v.sorted := by
  unfold Json.at?
  rw [find?_sorted, h]
  rfl

theorem at_read {α : Type} {get : Json → Except JsonError α} {a : α} (h : j.find? key = some v)
    (hget : get v.sorted = .ok a) : (j.sorted.at? key >>= get) = .ok a := by
  rw [at_sorted h]
  exact hget

theorem at_int {n : Int} (h : j.find? key = some (.int n)) (hn : IsInt n) :
    (j.sorted.at? key >>= getInt) = .ok n :=
  at_read h (getInt_int hn)

theorem at_int64 {n : Int} (h : j.find? key = some (.int n)) (hn : -2 ^ 63 ≤ n ∧ n < 2 ^ 63) :
    (j.sorted.at? key >>= getInt64) = .ok n :=
  at_read h (getInt64_int hn)

theorem at_str {text : String} (h : j.find? key = some (.str text)) :
    (j.sorted.at? key >>= getString) = .ok text :=
  at_read h rfl

theorem value_sorted {α : Type} {get : Json → Except JsonError α} {fallback : α}
    (h : j.isObject = true) :
    j.sorted.value get key fallback = j.sorted.field get key fallback := by
  cases j with
  | obj fields => rfl
  | _ => cases h

/-- A report's epoch is read back, whether it was sent or not. -/
theorem epoch_read {fields more : List (String × Json)} {editEpoch : Int}
    (hbefore : fields.lookup "edit_epoch" = none) (hafter : more.lookup "edit_epoch" = none)
    (hepoch : -1 ≤ editEpoch ∧ editEpoch < 2 ^ 63) :
    (Json.obj (fields ++ epochField editEpoch ++ more)).sorted.value getInt64 "edit_epoch" (-1) =
      .ok editEpoch := by
  refine (value_sorted rfl).trans ?_
  have hfind : (Json.obj (fields ++ epochField editEpoch ++ more)).find? "edit_epoch" =
      if 0 ≤ editEpoch then some (.int editEpoch) else none := by
    show (fields ++ epochField editEpoch ++ more).lookup "edit_epoch" = _
    rw [List.lookup_append, List.lookup_append, hbefore, hafter]
    unfold epochField
    by_cases hknown : 0 ≤ editEpoch
    · rw [if_pos hknown, if_pos hknown]
      rfl
    · rw [if_neg hknown, if_neg hknown]
      rfl
  by_cases hknown : 0 ≤ editEpoch
  · rw [if_pos hknown] at hfind
    exact field_int64 _ _ hfind (by omega)
  · rw [if_neg hknown] at hfind
    rw [field_absent _ hfind]
    congr 1
    omega

theorem move_read (targetJobId : String) (before : Bool) :
    readMove (moveBody targetJobId before).sorted = .ok (targetJobId, before) := by
  have htarget : ((moveBody targetJobId before).sorted.at? "target" >>= getString) =
      .ok targetJobId := at_str rfl
  have hposition : (moveBody targetJobId before).sorted.value getString "position" "before" =
      .ok (if before then "before" else "after") :=
    (value_sorted rfl).trans (field_str _ _ rfl)
  unfold readMove
  rw [htarget, hposition]
  cases before <;> rfl

theorem edit_read (manifest : Json) (mode : String) {priority : Int} (hpriority : IsInt priority) :
    readEdit (editBody manifest mode priority).sorted = .ok (manifest.sorted, mode, priority) := by
  have hmanifest : (editBody manifest mode priority).sorted.at? "manifest" = .ok manifest.sorted :=
    at_sorted rfl
  have hmode : (editBody manifest mode priority).sorted.value getString "mode" "continue" =
      .ok mode :=
    (value_sorted rfl).trans (field_str _ _ rfl)
  have hnumber : (editBody manifest mode priority).sorted.value getInt "priority" 50 =
      .ok priority :=
    (value_sorted rfl).trans (field_int _ _ rfl hpriority)
  unfold readEdit
  rw [hmanifest, hmode, hnumber]
  rfl

theorem resubmit_read {frameStart frameEnd chunkSize : Int} (hstart : IsInt frameStart)
    (hend : IsInt frameEnd) (hsize : IsInt chunkSize) :
    readResubmit (resubmitBody frameStart frameEnd chunkSize).sorted =
      .ok (.range frameStart frameEnd chunkSize) := by
  have hwhole : (resubmitBody frameStart frameEnd chunkSize).sorted.value getBool
      "incomplete_only" false = .ok false :=
    (value_sorted rfl).trans (field_absent _ rfl)
  have hhas : (resubmitBody frameStart frameEnd chunkSize).sorted.contains "frame_start" =
      true := by
    unfold Json.contains
    rw [find?_sorted]
    rfl
  have hstart' : ((resubmitBody frameStart frameEnd chunkSize).sorted.at? "frame_start" >>=
      getInt) = .ok frameStart := at_int rfl hstart
  have hend' : ((resubmitBody frameStart frameEnd chunkSize).sorted.at? "frame_end" >>=
      getInt) = .ok frameEnd := at_int rfl hend
  have hsize' : ((resubmitBody frameStart frameEnd chunkSize).sorted.at? "chunk_size" >>=
      getInt) = .ok chunkSize := at_int rfl hsize
  unfold readResubmit
  rw [hwhole, hstart', hend', hsize', hhas]
  rfl

theorem incomplete_read :
    readResubmit incompleteBody.sorted = .ok .incomplete := by
  have hflag : incompleteBody.sorted.value getBool "incomplete_only" false = .ok true :=
    (value_sorted rfl).trans (field_bool rfl)
  unfold readResubmit
  rw [hflag]
  rfl

/-- No target is sent where the chunk goes back to pending. -/
theorem reassign_read {chunkId : Int} (targetNodeId : String)
    (hid : -2 ^ 63 ≤ chunkId ∧ chunkId < 2 ^ 63) :
    readReassign (reassignBody chunkId targetNodeId).sorted = .ok (chunkId, targetNodeId) := by
  have hchunk : ((reassignBody chunkId targetNodeId).sorted.at? "chunk_id" >>= getInt64) =
      .ok chunkId := at_int64 rfl hid
  have htarget : (reassignBody chunkId targetNodeId).sorted.value getString "target_node" "" =
      .ok targetNodeId := by
    refine (value_sorted rfl).trans ?_
    by_cases hnone : targetNodeId = ""
    · subst hnone
      exact field_absent _ rfl
    · have hfind : (reassignBody chunkId targetNodeId).find? "target_node" =
          some (.str targetNodeId) := by
        unfold reassignBody
        rw [if_neg hnone]
        rfl
      exact field_str _ _ hfind
  unfold readReassign
  rw [hchunk, htarget]
  rfl

theorem abort_read (jobId : String) (reason : Option String) :
    readAbort (abortBody jobId reason).sorted = .ok (jobId, reason.getD "job edited") := by
  have hjob : ((abortBody jobId reason).sorted.at? "job_id" >>= getString) = .ok jobId := at_str rfl
  have hreason : (abortBody jobId reason).sorted.value getString "reason" "job edited" =
      .ok (reason.getD "job edited") := by
    refine (value_sorted ?_).trans ?_
    · rfl
    cases reason with
    | none => exact field_absent _ rfl
    | some text => exact field_str _ _ rfl
  unfold readAbort
  rw [hjob, hreason]
  rfl

/-- The types of a report's numbers. -/
def Numbers (frameStart frameEnd editEpoch : Int) : Prop :=
  IsInt frameStart ∧ IsInt frameEnd ∧ -1 ≤ editEpoch ∧ editEpoch < 2 ^ 63

theorem completed_read {r : CompletionReport} {elapsedMs exitCode : Int}
    (h : Numbers r.frameStart r.frameEnd r.editEpoch)
    (helapsed : -2 ^ 63 ≤ elapsedMs ∧ elapsedMs < 2 ^ 63) (hexit : IsInt exitCode) :
    readCompletion (completedBody r elapsedMs exitCode).sorted = .ok r := by
  obtain ⟨hstart, hend, hepoch⟩ := h
  have hnode : (completedBody r elapsedMs exitCode).sorted.value getString "node_id" "" =
      .ok r.nodeId := (value_sorted rfl).trans (field_str _ _ rfl)
  have hjob : ((completedBody r elapsedMs exitCode).sorted.at? "job_id" >>= getString) =
      .ok r.jobId := at_str rfl
  have hstart' : ((completedBody r elapsedMs exitCode).sorted.at? "frame_start" >>= getInt) =
      .ok r.frameStart := at_int rfl hstart
  have hend' : ((completedBody r elapsedMs exitCode).sorted.at? "frame_end" >>= getInt) =
      .ok r.frameEnd := at_int rfl hend
  have hread : (completedBody r elapsedMs exitCode).sorted.value getInt64 "edit_epoch" (-1) =
      .ok r.editEpoch := epoch_read rfl rfl hepoch
  have hlast : (completedBody r elapsedMs exitCode).find? "elapsed_ms" = some (.int elapsedMs) ∧
      (completedBody r elapsedMs exitCode).find? "exit_code" = some (.int exitCode) := by
    constructor
    all_goals
      show List.lookup _ (_ ++ epochField r.editEpoch ++ _) = _
      rw [List.lookup_append, List.lookup_append]
      unfold epochField
      split <;> rfl
  have helapsed' : (completedBody r elapsedMs exitCode).sorted.value getInt64 "elapsed_ms" 0 =
      .ok elapsedMs := (value_sorted rfl).trans (field_int64 _ _ hlast.1 helapsed)
  have hexit' : (completedBody r elapsedMs exitCode).sorted.value getInt "exit_code" 0 =
      .ok exitCode := (value_sorted rfl).trans (field_int _ _ hlast.2 hexit)
  unfold readCompletion
  rw [hnode, hjob, hstart', hend', helapsed', hexit', hread]
  rfl

theorem failed_read {r : FailureReport} (h : Numbers r.frameStart r.frameEnd r.editEpoch) :
    readFailure (failedBody r).sorted = .ok r := by
  obtain ⟨hstart, hend, hepoch⟩ := h
  have hnode : (failedBody r).sorted.value getString "node_id" "" = .ok r.nodeId :=
    (value_sorted rfl).trans (field_str _ _ rfl)
  have hjob : ((failedBody r).sorted.at? "job_id" >>= getString) = .ok r.jobId := at_str rfl
  have hstart' : ((failedBody r).sorted.at? "frame_start" >>= getInt) = .ok r.frameStart :=
    at_int rfl hstart
  have hend' : ((failedBody r).sorted.at? "frame_end" >>= getInt) = .ok r.frameEnd :=
    at_int rfl hend
  have hread : (failedBody r).sorted.value getInt64 "edit_epoch" (-1) = .ok r.editEpoch :=
    epoch_read rfl rfl hepoch
  have herror : (failedBody r).sorted.value getString "error" "Unknown" = .ok r.error := by
    refine (value_sorted rfl).trans (field_str _ _ ?_)
    show List.lookup "error" (_ ++ epochField r.editEpoch ++ _) = _
    rw [List.lookup_append, List.lookup_append]
    unfold epochField
    split <;> rfl
  unfold readFailure
  rw [hnode, hjob, hstart', hend', herror, hread]
  rfl

theorem frames_read (nodeId jobId : String) {frames : List Int} {editEpoch : Int}
    (hframes : ∀ frame ∈ frames, IsInt frame) (hepoch : -1 ≤ editEpoch ∧ editEpoch < 2 ^ 63) :
    readFrames (framesBody nodeId jobId frames editEpoch).sorted =
      .ok (nodeId, jobId, frames, editEpoch) := by
  have hnode : (framesBody nodeId jobId frames editEpoch).sorted.value getString "node_id" "" =
      .ok nodeId :=
    (value_sorted rfl).trans (field_str _ _ rfl)
  have hjob : ((framesBody nodeId jobId frames editEpoch).sorted.at? "job_id" >>= getString) =
      .ok jobId := at_str rfl
  have harray : ((framesBody nodeId jobId frames editEpoch).sorted.at? "frames" >>=
      getArray getInt) = .ok frames :=
    at_read rfl (getArray_same fun frame hframe => getInt_int (hframes frame hframe))
  have hread : (framesBody nodeId jobId frames editEpoch).sorted.value getInt64 "edit_epoch" (-1) =
      .ok editEpoch := by
    show (Json.obj (_ ++ epochField editEpoch)).sorted.value getInt64 "edit_epoch" (-1) = _
    rw [← List.append_nil (_ ++ epochField editEpoch)]
    exact epoch_read rfl rfl hepoch
  unfold readFrames
  rw [hnode, hjob, harray, hread]
  rfl

theorem assign_read {data : Json} {chunk : ChunkRange} {editEpoch : Int}
    (h : Numbers chunk.frameStart chunk.frameEnd editEpoch) :
    readAssignment (assignBody data chunk editEpoch).sorted =
      .ok (chunk.frameStart, chunk.frameEnd, editEpoch) := by
  obtain ⟨hstart, hend, hepoch⟩ := h
  have hstart' : ((assignBody data chunk editEpoch).sorted.at? "frame_start" >>= getInt) =
      .ok chunk.frameStart := at_int rfl hstart
  have hend' : ((assignBody data chunk editEpoch).sorted.at? "frame_end" >>= getInt) =
      .ok chunk.frameEnd := at_int rfl hend
  have hread : (assignBody data chunk editEpoch).sorted.value getInt64 "edit_epoch" (-1) =
      .ok editEpoch :=
    (value_sorted rfl).trans (field_int64 _ _ rfl (by omega))
  unfold readAssignment
  rw [hstart', hend', hread]
  rfl

theorem assign_manifest {data : Json} {manifest : JobManifest} {chunk : ChunkRange}
    {editEpoch : Int} (h : JobManifest.fromJson data.sorted = .ok manifest) :
    readManifest (assignBody data chunk editEpoch).sorted = .ok manifest :=
  at_read rfl h

theorem submit_read {manifest : JobManifest} {priority : Int}
    (hparse : T.parse (T.dump (submitBody manifest priority)) =
      some (submitBody manifest priority).sorted)
    (hmanifest : Typed manifest) (hpriority : IsInt priority)
    (hid : isSafePathSegment manifest.jobId = true) :
    postJobs T true (T.dump (submitBody manifest priority)) =
      (.ok, some { manifest := readBack manifest, priority }) := by
  have hread : ((submitBody manifest priority).sorted.at? "manifest" >>= JobManifest.fromJson) =
      .ok (readBack manifest) :=
    at_read rfl (jobManifest_read hmanifest)
  have hnumber : (submitBody manifest priority).sorted.value getInt "priority" 50 =
      .ok priority :=
    (value_sorted rfl).trans (field_int _ _ rfl hpriority)
  have hsafe : ¬ (!isSafePathSegment (readBack manifest).jobId) = true := by
    show ¬ (!isSafePathSegment manifest.jobId) = true
    rw [hid]
    exact Bool.false_ne_true
  unfold postJobs
  rw [if_neg (by simp), hparse]
  dsimp only
  rw [hread]
  dsimp only
  rw [if_neg hsafe, hnumber]

end Bodies

/-! ## What is performed -/

/-- The ids are segments that arrive as they are sent, the numbers are values of
their types, and what the sender checks holds. -/
def Action.Sendable : Action → Prop
  | .control _ jobId | .resubmitJob jobId | .resubmitIncomplete jobId | .moveJob jobId _ _ =>
      Unreserved jobId
  | .deleteJob jobId => Unreserved jobId ∧ isSafePathSegment jobId = true
  | .setJobPriority jobId priority | .editJob jobId _ _ priority =>
      Unreserved jobId ∧ IsInt priority
  | .resubmitChunkAsJob jobId frameStart frameEnd chunkSize =>
      Unreserved jobId ∧ IsInt frameStart ∧ IsInt frameEnd ∧ IsInt chunkSize
  | .reassignChunk chunkId _ | .stopChunk chunkId => -2 ^ 63 ≤ chunkId ∧ chunkId < 2 ^ 63
  | .unsuspendNode nodeId => Unreserved nodeId
  | .submit manifest priority =>
      Typed manifest ∧ IsInt priority ∧ isSafePathSegment manifest.jobId = true
  | .reportCompleted r elapsedMs exitCode =>
      Numbers r.frameStart r.frameEnd r.editEpoch ∧
        (-2 ^ 63 ≤ elapsedMs ∧ elapsedMs < 2 ^ 63) ∧ IsInt exitCode
  | .reportFailed r => Numbers r.frameStart r.frameEnd r.editEpoch
  | .reportFrames _ _ frames editEpoch =>
      (∀ frame ∈ frames, IsInt frame) ∧ -1 ≤ editEpoch ∧ editEpoch < 2 ^ 63
  | .assign data manifest chunk editEpoch =>
      JobManifest.fromJson data.sorted = .ok manifest ∧
        isSafePathSegment manifest.jobId = true ∧
        Numbers chunk.frameStart chunk.frameEnd editEpoch
  | .abort _ _ | .setPeerNodeActive _ | .restartPeerApp | .tryRemoteAgentRestart => True

/-- The action's request takes a route, whose handler does what is meant. -/
def Action.Handled (T : JsonText) (secret : String) (a : Action) : Prop :=
  ∃ r captures, Arrives a.posted.method a.posted.endpoint r captures ∧
    r.handler T captures (a.received T secret) = a.served T

section Handlers

variable {T : JsonText} {secret : String}

/-- A request about one job, by its last word. -/
theorem handled_job {a : Action} {jobId word : String}
    (handler : JsonText → String → Request → AppProg Response)
    (hmethod : a.posted.method = "POST") (hendpoint : a.posted.endpoint = jobEndpoint jobId word)
    (hmem : jobRoute word handler ∈ routes) (hid : Unreserved jobId)
    (hplain : '/' ∉ word.toList)
    (hserved : handler T jobId (a.received T secret) = a.served T) : a.Handled T secret := by
  refine ⟨jobRoute word handler, [jobId], ?_, hserved⟩
  rw [hmethod, hendpoint]
  exact word_arrives (by decide) hmem rfl rfl hid hplain

/-- A request to a literal endpoint. -/
theorem handled_literal {a : Action} (endpoint : String)
    (handler : JsonText → List String → Request → AppProg Response)
    (hmethod : a.posted.method = "POST") (hendpoint : a.posted.endpoint = endpoint)
    (hmem : Route.mk "POST" [.text endpoint] handler ∈ routes)
    (hbelow : ∀ s ∈ stems, ¬ s.toList <+: endpoint.toList)
    (hserved : handler T [] (a.received T secret) = a.served T) : a.Handled T secret := by
  refine ⟨⟨"POST", [.text endpoint], handler⟩, [], ?_, hserved⟩
  rw [hmethod, hendpoint]
  exact literal_arrives hmem rfl rfl hbelow

theorem control_handled (c : JobControl) {jobId : String} (hid : Unreserved jobId) :
    (Action.control c jobId).Handled T secret := by
  have hmem : controlRoute (controlWord c) c ∈ routes := by
    cases c <;> simp [routes, controlWord]
  have hplain : '/' ∉ (controlWord c).toList := by
    cases c <;> decide
  exact handled_job _ rfl rfl hmem hid hplain rfl

theorem delete_handled {jobId : String} (hid : Unreserved jobId)
    (hsafe : isSafePathSegment jobId = true) : (Action.deleteJob jobId).Handled T secret := by
  refine ⟨deleteRoute, [jobId], delete_arrives hid, ?_⟩
  show requireLeader T (requireSegment jobId "invalid_path" _) = _
  unfold requireSegment
  rw [hsafe]
  rfl

theorem move_handled {jobId targetJobId : String} {before : Bool}
    (hT : Library T (.moveJob jobId targetJobId before)) (hid : Unreserved jobId) :
    (Action.moveJob jobId targetJobId before).Handled T secret := by
  refine handled_job (fun T jobId req => postMove T jobId req.body) rfl rfl (by simp [routes])
    hid (by decide) ?_
  show requireLeader T (reading T (T.dump (moveBody targetJobId before)) readMove _) = _
  rw [reading_dump (hT.parse_dump rfl) (move_read targetJobId before)]
  rfl

theorem priority_handled {jobId : String} {priority : Int}
    (hT : Library T (.setJobPriority jobId priority)) (hid : Unreserved jobId)
    (hpriority : IsInt priority) : (Action.setJobPriority jobId priority).Handled T secret := by
  refine handled_job (fun T jobId req => postPriority T jobId req.body) rfl rfl (by simp [routes])
    hid (by decide) ?_
  show requireLeader T (reading T (T.dump (priorityBody priority)) _ _) = _
  rw [reading_dump (hT.parse_dump rfl) (at_int rfl hpriority)]
  rfl

theorem edit_handled {jobId mode : String} {manifest : Json} {priority : Int}
    (hT : Library T (.editJob jobId manifest mode priority)) (hid : Unreserved jobId)
    (hpriority : IsInt priority) :
    (Action.editJob jobId manifest mode priority).Handled T secret := by
  refine handled_job (fun T jobId req => postEditJob T jobId req.body) rfl rfl (by simp [routes])
    hid (by decide) ?_
  show requireLeader T (reading T (T.dump (editBody manifest mode priority)) readEdit _) = _
  rw [reading_dump (hT.parse_dump rfl) (edit_read manifest mode hpriority)]
  dsimp only
  rw [hT.dump_sorted]
  rfl

theorem resubmit_handled {a : Action} {jobId : String}
    (hmethod : a.posted.method = "POST")
    (hendpoint : a.posted.endpoint = jobEndpoint jobId "resubmit") (hid : Unreserved jobId)
    (hserved : postResubmit T jobId (a.received T secret).body = a.served T) :
    a.Handled T secret :=
  handled_job (fun T jobId req => postResubmit T jobId req.body) hmethod hendpoint
    (by simp [routes]) hid (by decide) hserved

theorem resubmitChunk_handled {jobId : String} {frameStart frameEnd chunkSize : Int}
    (hT : Library T (.resubmitChunkAsJob jobId frameStart frameEnd chunkSize))
    (hid : Unreserved jobId) (hstart : IsInt frameStart) (hend : IsInt frameEnd)
    (hsize : IsInt chunkSize) :
    (Action.resubmitChunkAsJob jobId frameStart frameEnd chunkSize).Handled T secret := by
  refine resubmit_handled rfl rfl hid ?_
  show postResubmit T jobId (T.dump (resubmitBody frameStart frameEnd chunkSize)) = _
  unfold postResubmit
  rw [if_neg (hT.dump_ne_empty rfl),
    reading_dump (hT.parse_dump rfl) (resubmit_read hstart hend hsize)]
  rfl

theorem resubmitIncomplete_handled {jobId : String} (hT : Library T (.resubmitIncomplete jobId))
    (hid : Unreserved jobId) : (Action.resubmitIncomplete jobId).Handled T secret := by
  refine resubmit_handled rfl rfl hid ?_
  show postResubmit T jobId (T.dump incompleteBody) = _
  unfold postResubmit
  rw [if_neg (hT.dump_ne_empty rfl), reading_dump (hT.parse_dump rfl) incomplete_read]
  rfl

theorem reassign_handled {chunkId : Int} {targetNodeId : String}
    (hT : Library T (.reassignChunk chunkId targetNodeId))
    (hid : -2 ^ 63 ≤ chunkId ∧ chunkId < 2 ^ 63) :
    (Action.reassignChunk chunkId targetNodeId).Handled T secret := by
  refine handled_literal "/api/chunks/reassign" (fun T _ req => postReassign T req.body) rfl rfl
    (by simp [routes]) (by decide) ?_
  show requireLeader T (reading T (T.dump (reassignBody chunkId targetNodeId)) readReassign _) = _
  rw [reading_dump (hT.parse_dump rfl) (reassign_read targetNodeId hid)]
  rfl

theorem stopChunk_handled {chunkId : Int} (hT : Library T (.stopChunk chunkId))
    (hid : -2 ^ 63 ≤ chunkId ∧ chunkId < 2 ^ 63) :
    (Action.stopChunk chunkId).Handled T secret := by
  refine handled_literal "/api/chunks/stop" (fun T _ req => postStopChunk T req.body) rfl rfl
    (by simp [routes]) (by decide) ?_
  show requireLeader T (reading T (T.dump (stopBody chunkId)) _ _) = _
  rw [reading_dump (hT.parse_dump rfl) (at_int64 rfl hid)]
  rfl

theorem unsuspend_handled {nodeId : String} (hid : Unreserved nodeId) :
    (Action.unsuspendNode nodeId).Handled T secret := by
  have harrives : Arrives "POST" ("/api/nodes/" ++ nodeId ++ "/" ++ "unsuspend")
      ⟨"POST", [.text "/api/nodes/", .segment, .text ("/" ++ "unsuspend")],
        fun T captures _ => postUnsuspend T (cap captures 0)⟩ [nodeId] :=
    word_arrives (by decide) (by simp [routes]) rfl rfl hid (by decide)
  exact ⟨_, _, harrives, rfl⟩

theorem submit_handled {manifest : JobManifest} {priority : Int}
    (hT : Library T (.submit manifest priority)) (hmanifest : Typed manifest)
    (hpriority : IsInt priority) (hid : isSafePathSegment manifest.jobId = true) :
    (Action.submit manifest priority).Handled T secret := by
  refine handled_literal "/api/jobs" (fun T _ req => postJob T req.body) rfl rfl
    (by simp [routes]) (by decide) ?_
  show postJob T (T.dump (submitBody manifest priority)) = _
  unfold postJob
  rw [submit_read (hT.parse_dump rfl) hmanifest hpriority hid]
  rfl

theorem completed_handled {r : CompletionReport} {elapsedMs exitCode : Int}
    (hT : Library T (.reportCompleted r elapsedMs exitCode))
    (h : (Action.reportCompleted r elapsedMs exitCode).Sendable) :
    (Action.reportCompleted r elapsedMs exitCode).Handled T secret := by
  obtain ⟨hnumbers, helapsed, hexit⟩ := h
  refine handled_literal "/api/dispatch/complete" (fun T _ req => postComplete T req.body) rfl rfl
    (by simp [routes]) (by decide) ?_
  show requireLeader T
    (reading T (T.dump (completedBody r elapsedMs exitCode)) readCompletion _) = _
  rw [reading_dump (hT.parse_dump rfl) (completed_read hnumbers helapsed hexit)]
  rfl

theorem failed_handled {r : FailureReport} (hT : Library T (.reportFailed r))
    (h : Numbers r.frameStart r.frameEnd r.editEpoch) :
    (Action.reportFailed r).Handled T secret := by
  refine handled_literal "/api/dispatch/failed" (fun T _ req => postFailed T req.body) rfl rfl
    (by simp [routes]) (by decide) ?_
  show requireLeader T (reading T (T.dump (failedBody r)) readFailure _) = _
  rw [reading_dump (hT.parse_dump rfl) (failed_read h)]
  rfl

theorem frames_handled {nodeId jobId : String} {frames : List Int} {editEpoch : Int}
    (hT : Library T (.reportFrames nodeId jobId frames editEpoch))
    (hframes : ∀ frame ∈ frames, IsInt frame) (hepoch : -1 ≤ editEpoch ∧ editEpoch < 2 ^ 63) :
    (Action.reportFrames nodeId jobId frames editEpoch).Handled T secret := by
  refine handled_literal "/api/dispatch/frame-complete"
    (fun T _ req => postFrameComplete T req.body) rfl rfl (by simp [routes]) (by decide) ?_
  show requireLeader T (reading T (T.dump (framesBody nodeId jobId frames editEpoch)) readFrames
    _) = _
  rw [reading_dump (hT.parse_dump rfl) (frames_read nodeId jobId hframes hepoch)]
  rfl

theorem assign_handled {data : Json} {manifest : JobManifest} {chunk : ChunkRange}
    {editEpoch : Int} (hT : Library T (.assign data manifest chunk editEpoch))
    (hread : JobManifest.fromJson data.sorted = .ok manifest)
    (hid : isSafePathSegment manifest.jobId = true)
    (h : Numbers chunk.frameStart chunk.frameEnd editEpoch) :
    (Action.assign data manifest chunk editEpoch).Handled T secret := by
  refine handled_literal "/api/dispatch/assign" (fun T _ req => postAssign T req.body) rfl rfl
    (by simp [routes]) (by decide) ?_
  show postAssign T (T.dump (assignBody data chunk editEpoch)) = _
  unfold postAssign
  simp only [reading_dump (hT.parse_dump rfl) (assign_manifest hread),
    reading_dump (hT.parse_dump rfl) (assign_read h)]
  unfold requireSegment
  rw [hid]
  rfl

theorem abort_handled {jobId : String} {reason : Option String}
    (hT : Library T (.abort jobId reason)) : (Action.abort jobId reason).Handled T secret := by
  refine handled_literal "/api/render/abort" (fun T _ req => postAbort T req.body) rfl rfl
    (by simp [routes]) (by decide) ?_
  show reading T (T.dump (abortBody jobId reason)) readAbort _ = _
  rw [reading_dump (hT.parse_dump rfl) (abort_read jobId reason)]
  rfl

theorem nodeActive_handled (active : Bool) :
    (Action.setPeerNodeActive active).Handled T secret := by
  cases active with
  | true =>
      exact handled_literal "/api/node/start" (fun _ _ _ => postNodeState .active) rfl rfl
        (by simp [routes]) (by decide) rfl
  | false =>
      exact handled_literal "/api/node/stop" (fun _ _ _ => postNodeState .stopped) rfl rfl
        (by simp [routes]) (by decide) rfl

theorem Action.Sendable.handled {a : Action} (hT : Library T a) (h : a.Sendable) :
    a.Handled T secret := by
  cases a with
  | control c jobId => exact control_handled c h
  | deleteJob jobId => exact delete_handled h.1 h.2
  | moveJob jobId targetJobId before => exact move_handled hT h
  | setJobPriority jobId priority => exact priority_handled hT h.1 h.2
  | editJob jobId manifest mode priority => exact edit_handled hT h.1 h.2
  | resubmitJob jobId => exact resubmit_handled rfl rfl h rfl
  | resubmitChunkAsJob jobId frameStart frameEnd chunkSize =>
      exact resubmitChunk_handled hT h.1 h.2.1 h.2.2.1 h.2.2.2
  | resubmitIncomplete jobId => exact resubmitIncomplete_handled hT h
  | reassignChunk chunkId targetNodeId => exact reassign_handled hT h
  | stopChunk chunkId => exact stopChunk_handled hT h
  | unsuspendNode nodeId => exact unsuspend_handled h
  | submit manifest priority => exact submit_handled hT h.1 h.2.1 h.2.2
  | reportCompleted r elapsedMs exitCode => exact completed_handled hT h
  | reportFailed r => exact failed_handled hT h
  | reportFrames nodeId jobId frames editEpoch => exact frames_handled hT h.1 h.2
  | assign data manifest chunk editEpoch => exact assign_handled hT h.1 h.2.1 h.2.2
  | abort jobId reason => exact abort_handled hT
  | setPeerNodeActive active => exact nodeActive_handled active
  | restartPeerApp =>
      exact handled_literal "/api/node/restart" (fun _ _ _ => postNodeRestart) rfl rfl
        (by simp [routes]) (by decide) rfl
  | tryRemoteAgentRestart =>
      exact handled_literal "/api/agent/restart" (fun _ _ _ => postAgentRestart) rfl rfl
        (by simp [routes]) (by decide) rfl

end Handlers

/-- Asking another node for an action does there what the call itself does: a
request with the farm's secret is answered by the action's own calls, with the
arguments it was posted with, by the leader where they are about the farm's
jobs. The library may try the routes in any order, as only one fits. -/
theorem remote_action_is_performed (T : JsonText) (router : Router) (secret : String)
    (a : Action) (hT : Library T a) (hsendable : a.Sendable) (hsecret : secret ≠ "")
    (hfinds : Finds router (a.received T secret)) :
    serve T router secret (a.received T secret) = a.served T := by
  have hhandled : a.Handled T secret := hsendable.handled hT
  obtain ⟨r, captures, harrives, hserved⟩ := hhandled
  have hmethod : a.posted.method ≠ "GET" := by
    cases a <;> simp [Action.posted]
  rw [serve_arrives harrives hfinds hsecret hmethod rfl]
  exact hserved

def movedText : String := "\x7b\"position\":\"before\",\"target\":\"title\"\x7d"

/-- The library on the body of one move. -/
def moveLibrary : JsonText where
  dump _ := movedText
  parse text := if text = movedText then some (moveBody "title" true).sorted else none

theorem moveLibrary_parse (text : String) : moveLibrary.parse text =
    if text = movedText then some (moveBody "title" true).sorted else none := rfl

def moveShot : Action := .moveJob "shot" "title" true

theorem moveLibrary_reads : Library moveLibrary moveShot where
  parse_dump h := by
    cases h
    exact (moveLibrary_parse movedText).trans (if_pos rfl)
  dump_sorted _ := rfl
  parse_empty := (moveLibrary_parse "").trans (if_neg (by decide))

/-- A job dragged above another in a worker's window is moved by the leader. -/
theorem moveShot_performed :
    serve moveLibrary firstRoute "farm" (moveShot.received moveLibrary "farm") =
      requireLeader moveLibrary do
        if ← ask (.moveJob "shot" "title" true) then return ok
        else return failure 409 "move_rejected" :=
  remote_action_is_performed moveLibrary firstRoute "farm" moveShot moveLibrary_reads
    (by decide : Unreserved "shot") (by decide) fun _ _ _ _ _ => rfl

/-! ## The reports a worker keeps until they arrive -/

/-- What a worker asks of its leader with a chunk's report. -/
def reportAction (nodeId : String) (r : PendingReport) : Action :=
  if r.state = .completed then
    .reportCompleted
      { nodeId, jobId := r.jobId, frameStart := r.frameStart, frameEnd := r.frameEnd,
        editEpoch := r.editEpoch }
      r.elapsedMs r.exitCode
  else
    .reportFailed
      { nodeId, jobId := r.jobId, frameStart := r.frameStart, frameEnd := r.frameEnd,
        editEpoch := r.editEpoch, error := r.error }

/-- A request is the action's own: its endpoint and its content. -/
def Action.IsPosted (a : Action) (host : String) (port : Int) (q : PostRequest) : Prop :=
  q.host = host ∧ q.port = port ∧ a.posted.method = "POST" ∧ a.posted.endpoint = q.path ∧
    a.posted.content = some q.body

theorem isPosted_completionRequest (nodeId host : String) (port : Int) (r : PendingReport) :
    (reportAction nodeId r).IsPosted host port
      (MonitorApp.completionRequest nodeId host port r) := by
  unfold MonitorApp.completionRequest reportAction
  split
  · exact ⟨rfl, rfl, rfl, rfl, rfl⟩
  · exact ⟨rfl, rfl, rfl, rfl, rfl⟩

theorem isPosted_frameRequest (nodeId host : String) (port : Int) (key : String × Int)
    (frames : List Int) :
    (Action.reportFrames nodeId key.1 frames key.2).IsPosted host port
      (MonitorApp.frameRequest nodeId host port key frames) :=
  ⟨rfl, rfl, rfl, rfl, rfl⟩

end RemoteActions

/-- **The report buffers lose nothing.** Whenever no flush is running, every
report filed so far is pending or was in a request answered with 200; the
pending chunk reports are in the order of filing, and what one request got
accepted is in no later request for chunk reports. Every request is the one
for the reports that count as in it, which were filed: a flush of the run posted
it to the leader's endpoint, and it asks the leader for the action with just
these reports. A flush whose posts are all answered with 200 puts nothing back,
and the render that a stale verdict abandons files no report. -/
theorem report_buffers_keep (es : List WorkerEvent) :
    let w := WorkerReports.run es
    (w.reports.batch = none → ∀ i r, w.reports.filed[i]? = some r →
      (i, r) ∈ w.reports.pending ∨ Outbox.Answered Post.isOk w.reports.sent (i, r)) ∧
    (w.frames.batch = none → ∀ i r, w.frames.filed[i]? = some r →
      (i, r) ∈ w.frames.pending ∨ Outbox.Answered Post.isOk w.frames.sent (i, r)) ∧
    w.reports.pending.Pairwise (·.1 < ·.1) ∧
    (∀ x ∈ w.reports.pending, w.reports.filed[x.1]? = some x.2) ∧
    w.reports.sent.Pairwise (Outbox.Apart Post.isOk) ∧
    (∀ a ∈ w.reports.sent, (∀ x ∈ a.entries, w.reports.filed[x.1]? = some x.2) ∧
      ∃ site, .report (.finish site) ∈ es ∧ MonitorApp.CarriesReport Prod.snd site a) ∧
    (∀ a ∈ w.frames.sent, (∀ x ∈ a.entries, w.frames.filed[x.1]? = some x.2) ∧
      ∃ site, .frame (.finish site) ∈ es ∧ MonitorApp.CarriesFrames Prod.snd site a) ∧
    (∀ nodeId host port r, (RemoteActions.reportAction nodeId r).IsPosted host port
      (MonitorApp.completionRequest nodeId host port r)) ∧
    (∀ nodeId host port key frames,
      (RemoteActions.Action.reportFrames nodeId key.1 frames key.2).IsPosted host port
        (MonitorApp.frameRequest nodeId host port key frames)) ∧
    (∀ site, (parseEndpoint site.leaderEp).1 ≠ "" →
      (∀ n, (site.outcomes n).isOk = true) →
      (w.step (.report (.finish site))).reports.pending = w.reports.pending ∧
        (w.step (.frame (.finish site))).frames.pending = w.frames.pending) ∧
    (∀ c key isLeader dbOpen, ∀ effect ∈ (MonitorApp.fenceRender c key).2,
      w.step (.effect isLeader dbOpen effect) = w) := by
  simp only [WorkerReports.run_eq]
  have hreports := Outbox.losesNothing_run WorkerReports.flushReports
    MonitorApp.keepsAll_flushCompletionReports (es.filterMap WorkerReports.reportEvent)
  have hframes := Outbox.losesNothing_run WorkerReports.flushFrames
    MonitorApp.keepsAll_flushFrameReports (es.filterMap WorkerReports.frameEvent)
  have horder := Outbox.inOrder_run WorkerReports.flushReports
    MonitorApp.orderly_flushCompletionReports (es.filterMap WorkerReports.reportEvent)
  have hknown := Outbox.known_run WorkerReports.flushReports
    MonitorApp.own_flushCompletionReports (es.filterMap WorkerReports.reportEvent)
  have hknown' := Outbox.known_run WorkerReports.flushFrames
    MonitorApp.own_flushFrameReports (es.filterMap WorkerReports.frameEvent)
  refine ⟨?_, ?_, ?_, ?_, horder.once, ?_, ?_,
    RemoteActions.isPosted_completionRequest, RemoteActions.isPosted_frameRequest, ?_, ?_⟩
  · intro hidle i r hr
    rw [← Outbox.waiting_of_idle hidle]
    exact hreports i r hr
  · intro hidle i r hr
    rw [← Outbox.waiting_of_idle hidle]
    exact hframes i r hr
  · exact (List.pairwise_append.mp horder.sorted).2.1
  · exact fun x hx => horder.known x (List.mem_append_right _ hx)
  · intro a ha
    obtain ⟨site, b, hsite, hb⟩ := Outbox.sent_run WorkerReports.flushReports _ ha
    obtain ⟨e, he, hfinish⟩ := List.mem_filterMap.mp hsite
    refine ⟨hknown.sent a ha, site, ?_, (MonitorApp.sent_flushCompletionReports hb).1⟩
    rw [← WorkerReports.of_reportEvent hfinish]
    exact he
  · intro a ha
    obtain ⟨site, b, hsite, hb⟩ := Outbox.sent_run WorkerReports.flushFrames _ ha
    obtain ⟨e, he, hfinish⟩ := List.mem_filterMap.mp hsite
    refine ⟨hknown'.sent a ha, site, ?_, (MonitorApp.sent_flushFrameReports hb).1⟩
    rw [← WorkerReports.of_frameEvent hfinish]
    exact he
  · intro site hhost hok
    constructor
    · exact Outbox.pending_finish fun b =>
        MonitorApp.flushCompletionReports_delivers Prod.snd hhost hok b
    · exact Outbox.pending_finish fun b =>
        MonitorApp.flushFrameReports_delivers Prod.snd hhost hok b
  · exact fun c key isLeader dbOpen effect h => WorkerReports.step_fenceRender _ h

end MinRender
