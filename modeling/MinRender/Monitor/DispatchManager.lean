import MinRender.Core.PeerInfo
import MinRender.Monitor.DatabaseCalls
import MinRender.Monitor.NodeFailureTracker

/-!
# The dispatch cycle

The leader's dispatch loop as programs over database calls: submissions,
reports, dead workers, completion checks and assignment, in the order `update`
runs them. What a phase reads outside the database (the swapped queues, the
peer snapshot, the clock) is an argument; what it does outside it (a local
dispatch, an assignment POST) is part of its result.
-/

namespace MinRender

structure CompletionReport where
  nodeId : String
  jobId : String
  frameStart : Int
  frameEnd : Int
  editEpoch : Int := -1
deriving DecidableEq, Repr

structure FailureReport where
  nodeId : String
  jobId : String
  frameStart : Int
  frameEnd : Int
  error : String := ""
  editEpoch : Int := -1
deriving DecidableEq, Repr

structure FrameReport where
  nodeId : String
  jobId : String
  frame : Int
  editEpoch : Int := -1
deriving DecidableEq, Repr

/-- A request to undo an assignment whose POST failed. It names only the job
and the range. -/
structure RevertRequest where
  jobId : String
  frameStart : Int
  frameEnd : Int
deriving DecidableEq, Repr

structure SubmitRequest where
  manifest : JobManifest
  priority : Int := 50
deriving DecidableEq, Repr

/-- The report queues as `processReports` takes them. -/
structure Reports where
  completions : List CompletionReport := []
  failures : List FailureReport := []
  reverts : List RevertRequest := []
  frames : List FrameReport := []
deriving DecidableEq, Repr

/-- What the dispatcher hands to a worker for an assigned chunk. -/
structure Assignment where
  peer : PeerInfo
  manifestJson : String
  chunk : ChunkRow
  editEpoch : Int
deriving DecidableEq, Repr

namespace DispatchManager
open Prog

/-! ## Submission -/

/-- The row a submission inserts. -/
def jobRowOf (T : JsonText) (manifest : JobManifest) (priority : Int) : JobRow where
  jobId := manifest.jobId
  manifestJson := T.dump manifest.toJson
  currentState := .active
  priority := priority
  submittedAtMs := manifest.submittedAtMs

def submitJobWithChunks (T : JsonText) (manifest : JobManifest) (priority : Int)
    (chunks : List ChunkRange) : DbProg String := do
  let inserted : Bool ← query (.insertJob (jobRowOf T manifest priority))
  if inserted then
    let stored : Bool ← query (.insertChunks manifest.jobId chunks)
    if stored then
      return manifest.jobId
    else
      let _ ← query (.deleteJob manifest.jobId)
      return ""
  else
    return ""

/-- The empty id where nothing was stored; `none` where the range overflows,
which leaves the job without chunks and the behaviour undefined. -/
def submitJob (T : JsonText) (manifest : JobManifest) (priority : Int) :
    DbProg (Option String) :=
  match computeChunks manifest.frameStart manifest.frameEnd manifest.chunkSize with
  | some chunks => some <$> submitJobWithChunks T manifest priority chunks
  | none => do
      let _ ← query (.insertJob (jobRowOf T manifest priority))
      return none

def processSubmissions (T : JsonText) (submissions : List SubmitRequest) :
    DbProg Unit :=
  submissions.forM fun req => do
    let _ ← submitJob T req.manifest req.priority
    return ()

/-! ## Reports -/

/-- `max_retries` of the stored manifest, 3 where there is none. -/
def maxRetriesOf (T : JsonText) (job : Option JobRow) : Int :=
  match job with
  | none => 3
  | some row =>
      match T.manifest? row.manifestJson with
      | some manifest => manifest.maxRetries
      | none => 3

def processCompletion (nowMs : Int) (r : CompletionReport) : DbProg Unit := do
  let _ ← query
    (.completeChunk r.jobId r.frameStart r.frameEnd nowMs r.nodeId r.editEpoch)
  return ()

def processFailure (T : JsonText) (nowMs : Int) (tracker : NodeFailureTracker)
    (r : FailureReport) : DbProg NodeFailureTracker := do
  let job ← query (.getJob r.jobId)
  let _ ← query (.failChunk r.jobId r.frameStart r.frameEnd
    (maxRetriesOf T job) r.nodeId r.editEpoch)
  return if r.nodeId = "" then tracker else tracker.recordFailure r.nodeId nowMs

def processRevert (r : RevertRequest) : DbProg Unit := do
  let _ ← query
    (.revertChunkToPending r.jobId r.frameStart r.frameEnd)
  return ()

/-- Whether key `a` comes before key `b` in the map of frame batches. -/
def frameKeyBefore (a b : String × Int) : Bool :=
  a.1 < b.1 ∨ a.1 = b.1 ∧ a.2 ≤ b.2

/-- The frames by job and epoch, in key order. -/
def frameBatches (frames : List FrameReport) : List ((String × Int) × List Int) :=
  let keys := ((frames.map fun f => (f.jobId, f.editEpoch)).eraseDups).insertionSort
    fun a b => frameKeyBefore a b = true
  keys.map fun key =>
    (key, (frames.filter fun f => (f.jobId, f.editEpoch) = key).map (·.frame))

def processFrames (frames : List FrameReport) : DbProg Unit :=
  (frameBatches frames).forM fun batch => do
    let current : Bool ← query (.isJobEpochCurrent batch.1.1 batch.1.2)
    if current then
      let _ ← query (.addCompletedFramesBatch batch.1.1 batch.2)
      return ()
    else
      return ()

/-- Completions, then failures, then reverts, then frame batches. -/
def processReports (T : JsonText) (nowMs : Int) (reports : Reports)
    (tracker : NodeFailureTracker) : DbProg NodeFailureTracker := do
  reports.completions.forM (processCompletion nowMs)
  let tracker ← reports.failures.foldlM (processFailure T nowMs) tracker
  reports.reverts.forM processRevert
  processFrames reports.frames
  return tracker

/-! ## Dead workers and finished jobs -/

/-- The peers whose chunks a cycle reclaims. -/
def needsReclaim (p : PeerInfo) : Bool :=
  !p.isLocal && (!p.isAlive || p.agentHealth = "needs_attention")

def detectDeadWorkers (peers : List PeerInfo) : DbProg Unit :=
  peers.forM fun p => do
    if needsReclaim p then
      let _ ← query (.reassignDeadWorkerChunks p.nodeId)
      return ()
    else
      return ()

def checkJobCompletions : DbProg Unit := do
  let jobs ← query .getAllJobs
  jobs.forM fun js => do
    if js.job.currentState ≠ .active then
      return ()
    else
      let finalState ← query (.getJobCompletionState js.job.jobId)
      match finalState with
      | none => return ()
      | some s =>
          let _ ← query (.updateJobState js.job.jobId s)
          return ()

/-! ## Assignment -/

/-- The main thread's memory of nodes dispatched to but not yet seen
rendering, with the dispatch time. -/
abbrev DispatchedNodes := List (String × Int)

def dispatchedEntryTtlMs : Int := 15000

/-- Drop the entries that a heartbeat confirmed or that outlived their TTL. -/
def expireDispatched (peers : List PeerInfo) (nowMs : Int)
    (dispatched : DispatchedNodes) : DispatchedNodes :=
  dispatched.filter fun entry =>
    let confirmed := match peers.find? (·.nodeId = entry.1) with
      | some p => p.renderState = "rendering" || !p.isAlive
      | none => false
    !confirmed && !(entry.2 < nowMs - dispatchedEntryTtlMs)

/-- The tests a peer passes before work is looked for. -/
def canTakeWork (tracker : NodeFailureTracker) (nowMs : Int)
    (dispatched : DispatchedNodes) (peer : PeerInfo) : Bool :=
  peer.isAlive && peer.nodeState ≠ "stopped" && peer.renderState ≠ "rendering" &&
    !(dispatched.any (·.1 = peer.nodeId)) && !(tracker.isSuspended peer.nodeId) &&
    !(tracker.isInCooldown peer.nodeId nowMs) && peer.agentHealth = "ok" &&
    peer.readyForWork

/-- The main thread's state across one assignment pass. -/
structure AssignState where
  dispatched : DispatchedNodes := []
  assignments : List Assignment := []
deriving DecidableEq, Repr

/-- After a successful `assignChunk`: hand the chunk over, or put it back. -/
def handOver (T : JsonText) (nowMs : Int) (s : AssignState) (a : Assignment) :
    DbProg AssignState := do
  let sent := { s with
    dispatched := (a.peer.nodeId, nowMs) :: s.dispatched.filter (·.1 ≠ a.peer.nodeId)
    assignments := s.assignments ++ [a] }
  let accepts := if a.peer.isLocal then (T.manifest? a.manifestJson).isSome
    else (parseEndpoint a.peer.endpoint).1 ≠ ""
  -- a peer without an endpoint, or the node itself without a readable manifest, gets nothing
  if accepts then
    return sent
  else
    let _ ← query
      (.revertChunkToPending a.chunk.jobId a.chunk.frameStart a.chunk.frameEnd)
    return s

/-- One dispatch step: find a chunk, read the job's epoch, assign. -/
def dispatchTo (T : JsonText) (nowMs : Int) (s : AssignState) (peer : PeerInfo) :
    DbProg AssignState := do
  let found ← query
    (.findNextPendingChunkForNode peer.tags peer.nodeId)
  match found with
  | none => return s
  | some (chunk, manifestJson) =>
      let editEpoch ← query (.getJobEditEpoch chunk.jobId)
      let assigned : Bool ← query
        (.assignChunk chunk.id peer.nodeId nowMs editEpoch)
      if assigned then
        handOver T nowMs s { peer, manifestJson, chunk, editEpoch }
      else
        return s

def assignWork (T : JsonText) (nowMs : Int) (tracker : NodeFailureTracker)
    (peers : List PeerInfo) (localInfo : PeerInfo) (dispatched : DispatchedNodes) :
    DbProg AssignState := do
  -- the node's own entry comes last
  let peers := peers ++ [localInfo]
  let dispatched := expireDispatched peers nowMs dispatched
  peers.foldlM (fun s peer =>
    if canTakeWork tracker nowMs s.dispatched peer then dispatchTo T nowMs s peer
    else return s) { dispatched }

/-! ## The cycle -/

/-- What a cycle reads outside the database. -/
structure CycleInput where
  nowMs : Int
  submissions : List SubmitRequest := []
  reports : Reports := {}
  peers : List PeerInfo := []
  localInfo : PeerInfo := {}
deriving DecidableEq, Repr

/-- What the main thread keeps from cycle to cycle. -/
structure CycleMemory where
  tracker : NodeFailureTracker := {}
  dispatched : DispatchedNodes := []
deriving DecidableEq, Repr

/-- One round of `DispatchManager::update`, the periodic snapshot apart. -/
def update (T : JsonText) (m : CycleMemory) (input : CycleInput) :
    DbProg (CycleMemory × List Assignment) := do
  processSubmissions T input.submissions
  let tracker ← processReports T input.nowMs input.reports m.tracker
  detectDeadWorkers input.peers
  checkJobCompletions
  let s ← assignWork T input.nowMs tracker input.peers input.localInfo m.dispatched
  return ({ tracker, dispatched := s.dispatched }, s.assignments)

/-! ## The calls of a cycle -/

/-- The calls a cycle makes once its submissions are stored. -/
def Upkeep : DbCall → Prop
  | .completeChunk .. | .getJob .. | .failChunk .. | .revertChunkToPending ..
  | .isJobEpochCurrent .. | .addCompletedFramesBatch .. | .reassignDeadWorkerChunks ..
  | .getAllJobs | .getJobCompletionState .. | .updateJobState ..
  | .findNextPendingChunkForNode .. | .getJobEditEpoch .. | .assignChunk .. => True
  | _ => False

/-- The phases of a cycle after the submissions. -/
def afterSubmissions (T : JsonText) (m : CycleMemory) (input : CycleInput) :
    DbProg (CycleMemory × List Assignment) := do
  let tracker ← processReports T input.nowMs input.reports m.tracker
  detectDeadWorkers input.peers
  checkJobCompletions
  let s ← assignWork T input.nowMs tracker input.peers input.localInfo m.dispatched
  return ({ tracker, dispatched := s.dispatched }, s.assignments)

variable {T : JsonText}

theorem update_eq (m : CycleMemory) (input : CycleInput) :
    update T m input =
      processSubmissions T input.submissions >>= fun _ => afterSubmissions T m input := rfl

theorem processReports_upkeep {nowMs : Int} {reports : Reports}
    {tracker : NodeFailureTracker} :
    (processReports T nowMs reports tracker).Every Upkeep := by
  refine Every.bind (Every.forM (fun r => ?_) _) fun _ => ?_
  · exact .ask trivial fun _ => trivial
  refine Every.bind (Every.foldlM (fun t r => ?_) _ _) fun _ => ?_
  · exact .ask trivial fun _ => .ask trivial fun _ => trivial
  refine Every.bind (Every.forM (fun r => ?_) _) fun _ => ?_
  · exact .ask trivial fun _ => trivial
  refine Every.bind (Every.forM (fun batch => ?_) _) fun _ => trivial
  exact .ask trivial fun current => .ite (.ask trivial fun _ => trivial) trivial

theorem detectDeadWorkers_upkeep {peers : List PeerInfo} :
    (detectDeadWorkers peers).Every Upkeep := by
  refine Every.forM (fun p => ?_) _
  exact .ite (.ask trivial fun _ => trivial) trivial

theorem checkJobCompletions_upkeep : checkJobCompletions.Every Upkeep := by
  refine .ask trivial fun jobs => Every.forM (fun js => ?_) _
  split
  · exact trivial
  · refine .ask trivial fun verdict => ?_
    cases verdict with
    | none => exact trivial
    | some s => exact .ask trivial fun _ => trivial

theorem handOver_upkeep {nowMs : Int} {s : AssignState} {a : Assignment} :
    (handOver T nowMs s a).Every Upkeep :=
  .ite trivial (.ask trivial fun _ => trivial)

theorem dispatchTo_upkeep {nowMs : Int} {s : AssignState} {peer : PeerInfo} :
    (dispatchTo T nowMs s peer).Every Upkeep := by
  refine .ask trivial fun found => ?_
  cases found with
  | none => exact trivial
  | some cm =>
      exact .ask trivial fun epoch => .ask trivial fun assigned =>
        .ite handOver_upkeep trivial

theorem assignWork_upkeep {nowMs : Int} {tracker : NodeFailureTracker}
    {peers : List PeerInfo} {localInfo : PeerInfo} {d : DispatchedNodes} :
    (assignWork T nowMs tracker peers localInfo d).Every Upkeep := by
  refine Every.foldlM (fun s peer => ?_) _ _
  exact .ite dispatchTo_upkeep trivial

theorem afterSubmissions_upkeep {m : CycleMemory} {input : CycleInput} :
    (afterSubmissions T m input).Every Upkeep :=
  processReports_upkeep.bind fun _ => detectDeadWorkers_upkeep.bind fun _ =>
    checkJobCompletions_upkeep.bind fun _ => assignWork_upkeep.bind fun _ => trivial

/-! ## The calls of its submissions -/

/-- The calls a submission makes. -/
def Submits : DbCall → Prop
  | .insertJob _ | .insertChunks .. | .deleteJob _ => True
  | _ => False

theorem submitJobWithChunks_submits {manifest : JobManifest} {priority : Int}
    {chunks : List ChunkRange} :
    (submitJobWithChunks T manifest priority chunks).Every Submits :=
  .ask trivial fun _ => .ite (.ask trivial fun _ => .ite trivial
    (.ask trivial fun _ => trivial)) trivial

theorem submitJob_submits {manifest : JobManifest} {priority : Int} :
    (submitJob T manifest priority).Every Submits := by
  unfold submitJob
  split
  · exact submitJobWithChunks_submits.bind fun _ => trivial
  · exact .ask trivial fun _ => trivial

theorem processSubmissions_submits {submissions : List SubmitRequest} :
    (processSubmissions T submissions).Every Submits := by
  refine Every.forM (fun req => ?_) _
  exact submitJob_submits.bind fun _ => trivial

/-- All the calls of a cycle. -/
theorem update_calls {m : CycleMemory} {input : CycleInput} :
    (update T m input).Every fun c => Submits c ∨ Upkeep c := by
  rw [update_eq]
  refine (processSubmissions_submits.mono fun _ => .inl).bind fun _ => ?_
  exact afterSubmissions_upkeep.mono fun _ => .inr

/-- A submission begins with its job. -/
theorem submitJob_first {P : DbCall → Prop} (hinsert : ∀ job, P (.insertJob job))
    {manifest : JobManifest} {priority : Int} :
    (submitJob T manifest priority).First P := by
  unfold submitJob
  split
  · exact First.bind (hinsert _) fun _ => trivial
  · exact hinsert _

theorem update_first {P : DbCall → Prop} (hinsert : ∀ job, P (.insertJob job))
    (hupkeep : ∀ c, Upkeep c → P c) {m : CycleMemory} {input : CycleInput} :
    (update T m input).First P := by
  rw [update_eq]
  refine First.bind (First.forM (fun req => ?_) _) fun _ => ?_
  · exact (submitJob_first hinsert).bind fun _ => trivial
  · exact (afterSubmissions_upkeep.mono hupkeep).first

/-- What a submission makes right after its first calls: the chunks follow the
job where it was stored, and its deletion follows them where they were not. -/
structure Links (T : JsonText) (A : (c : DbCall) → c.Reply → DbCall → Prop) : Prop where
  store : ∀ manifest priority chunks,
    A (.insertJob (jobRowOf T manifest priority)) true (.insertChunks manifest.jobId chunks)
  undo : ∀ jobId chunks, A (.insertChunks jobId chunks) false (.deleteJob jobId)

variable {A : (c : DbCall) → c.Reply → DbCall → Prop}

theorem submitJob_adjacent (hlinks : Links T A) {manifest : JobManifest} {priority : Int} :
    (submitJob T manifest priority).Adjacent A := by
  unfold submitJob
  split
  · rename_i chunks hchunks
    refine Adjacent.bind ?_ (fun _ => trivial) fun _ => trivial
    intro inserted
    cases inserted with
    | false => exact ⟨trivial, trivial⟩
    | true =>
        refine ⟨hlinks.store manifest priority chunks, fun stored => ?_⟩
        cases stored with
        | true => exact ⟨trivial, trivial⟩
        | false => exact ⟨hlinks.undo manifest.jobId chunks, fun _ => ⟨trivial, trivial⟩⟩
  · exact fun _ => ⟨trivial, trivial⟩

/-- Every other call of a cycle may follow any. -/
theorem update_adjacent (hlinks : Links T A) (hinsert : ∀ c r job, A c r (.insertJob job))
    (hupkeep : ∀ c', Upkeep c' → ∀ c r, A c r c') {m : CycleMemory} {input : CycleInput} :
    (update T m input).Adjacent A := by
  have hfree : ∀ manifest priority, (submitJob T manifest priority).First
      fun c' => ∀ c r, A c r c' :=
    fun _ _ => submitJob_first fun job c r => hinsert c r job
  rw [update_eq]
  refine Adjacent.bind (Adjacent.forM (fun req => ?_) (fun req => ?_) _) (fun _ => ?_) fun _ => ?_
  · exact (submitJob_adjacent hlinks).bind (fun _ => trivial) fun _ => trivial
  · exact (hfree req.manifest req.priority).bind fun _ => trivial
  · exact .of_every (afterSubmissions_upkeep.mono hupkeep)
  · exact (afterSubmissions_upkeep.mono hupkeep).first

end DispatchManager

end MinRender
