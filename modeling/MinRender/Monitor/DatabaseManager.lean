import Mathlib.Data.List.Sort
import MinRender.Core.JobTypes
import MinRender.Monitor.Schema

/-!
# The operations of `DatabaseManager`

Each operation of the leader's database as one atomic step: what it answers
and the database it leaves. Times the code takes from the clock are arguments.
Rows are returned as the application's own records, with their defaults for
the columns a query does not select.
-/

namespace MinRender

structure ChunkRow where
  id : Int := 0
  jobId : String := ""
  frameStart : Int := 0
  frameEnd : Int := 0
  state : ChunkState := .pending
  assignedTo : String := ""
  assignedAtMs : Int := 0
  completedAtMs : Int := 0
  retryCount : Int := 0
  completedFrames : List Int := []
  failedOn : List String := []
  editEpoch : Int := 0
deriving DecidableEq, Repr

structure JobRow where
  jobId : String := ""
  manifestJson : String := ""
  currentState : JobState := .active
  priority : Int := 50
  submittedAtMs : Int := 0
  editEpoch : Int := 0
deriving DecidableEq, Repr

structure JobProgress where
  total : Int := 0
  completed : Int := 0
  failed : Int := 0
  rendering : Int := 0
  pending : Int := 0
  stopped : Int := 0
  firstAssignedMs : Int := 0
  lastCompletedMs : Int := 0
deriving DecidableEq, Repr

structure JobSummary where
  job : JobRow
  progress : JobProgress
deriving DecidableEq, Repr

namespace DatabaseManager
open Table Json

/-! ## Jobs -/

def insertJob (db : Db) (job : JobRow) : Bool × Db :=
  match db.insertJobRow {
      jobId := job.jobId
      manifestJson := job.manifestJson
      currentState := job.currentState
      priority := job.priority
      submittedAtMs := job.submittedAtMs
      sortKey := some job.submittedAtMs } with
  | some db' => (true, db')
  | none => (false, db)

/-- The columns `getJob` and `getAllJobs` select; `edit_epoch` is not one. -/
def JobRow.ofRecord (j : JobRecord) : JobRow where
  jobId := j.jobId
  manifestJson := j.manifestJson
  currentState := j.currentState
  priority := j.priority
  submittedAtMs := j.submittedAtMs

def getJob (db : Db) (jobId : String) : Option JobRow :=
  (db.job? jobId).map JobRow.ofRecord

/-- `COALESCE(sort_key, submitted_at_ms)`. -/
def sortValue (j : JobRecord) : Int := j.sortKey.getD j.submittedAtMs

/-- `ORDER BY priority, COALESCE(sort_key, submitted_at_ms), submitted_at_ms`. -/
def jobOrder (a b : JobRecord) : Prop :=
  a.priority < b.priority ∨ a.priority = b.priority ∧
    (sortValue a < sortValue b ∨ sortValue a = sortValue b ∧
      a.submittedAtMs ≤ b.submittedAtMs)

instance : DecidableRel jobOrder := fun a b => by
  unfold jobOrder
  infer_instance

/-- The rows of `jobs` in display order. -/
def jobsInOrder (db : Db) : List JobRecord := db.jobs.insertionSort jobOrder

def chunksOf (db : Db) (jobId : String) : List ChunkRecord :=
  db.chunks.filter (·.jobId = jobId)

theorem mem_chunksOf {db : Db} {jobId : String} {c : ChunkRecord} :
    c ∈ chunksOf db jobId ↔ c ∈ db.chunks ∧ c.jobId = jobId := by
  unfold chunksOf
  rw [List.mem_filter, decide_eq_true_eq]

def progressOf (db : Db) (jobId : String) : JobProgress :=
  let rows := chunksOf db jobId
  let count (s : ChunkState) : Int := hits (fun c => c.state = s) rows
  { total := count .completed + count .failed + count .assigned + count .pending
    completed := count .completed
    failed := count .failed
    rendering := count .assigned
    pending := count .pending
    stopped := count .stopped
    firstAssignedMs := ((rows.filterMap (·.assignedAtMs)).min?).getD 0
    lastCompletedMs := ((rows.filterMap (·.completedAtMs)).max?).getD 0 }

def getAllJobs (db : Db) : List JobSummary :=
  (jobsInOrder db).map fun j =>
    { job := JobRow.ofRecord j, progress := progressOf db j.jobId }

def updateJobState (db : Db) (jobId : String) (newState : JobState) : Bool × Db :=
  let target (j : JobRecord) : Bool := j.jobId = jobId
  (0 < hits target db.jobs,
    db.updateJobs target fun j => { j with currentState := newState })

/-- The sort key falls back to the submission time. -/
def updateJobPriority (db : Db) (jobId : String) (priority : Int) : Bool × Db :=
  let target (j : JobRecord) : Bool := j.jobId = jobId
  (0 < hits target db.jobs,
    db.updateJobs target fun j =>
      { j with priority := priority, sortKey := some j.submittedAtMs })

def updateJobManifest (db : Db) (jobId manifestJson : String) : Bool × Db :=
  let target (j : JobRecord) : Bool := j.jobId = jobId
  (0 < hits target db.jobs,
    db.updateJobs target fun j => { j with manifestJson := manifestJson })

/-- Renumber a group in the given order with keys 1024, 2048, …. -/
def renumber (db : Db) (ids : List String) : Db :=
  ids.zipIdx.foldl (fun db idIdx =>
    db.updateJobs (·.jobId = idIdx.1) fun j =>
      { j with sortKey := some ((idIdx.2 + 1) * 1024) }) db

/-- Splice `jobId` next to `target`. -/
def splice (ids : List String) (jobId target : String) (before : Bool) :
    List String :=
  let ids := ids.filter (· ≠ jobId)
  let i := ids.idxOf target
  ids.insertIdx (if before then i else i + 1) jobId

def moveJob (db : Db) (jobId targetJobId : String) (before : Bool) : Bool × Db :=
  if jobId = targetJobId then (false, db)
  else
    match db.job? jobId, db.job? targetJobId with
    | some _, some target =>
        -- a drop into another group adopts the target's priority
        let adopted := db.updateJobs (·.jobId = jobId)
          fun j => { j with priority := target.priority }
        let group := (adopted.jobs.filter (·.priority = target.priority)).insertionSort
          jobOrder
        (true, renumber adopted
          (splice (group.map (·.jobId)) jobId targetJobId before))
    | _, _ => (false, db)

def deleteJob (db : Db) (jobId : String) : Bool × Db :=
  (0 < hits (fun j => decide (j.jobId = jobId)) db.jobs, db.deleteJobRow jobId)

/-! ## Chunks -/

/-- One transaction: all rows or none. -/
def insertRows (jobId : String) : List ChunkRange → Db → Option Db
  | [], db => some db
  | c :: cs, db =>
      (db.insertChunkRow jobId c.frameStart c.frameEnd).bind (insertRows jobId cs)

def insertChunks (db : Db) (jobId : String) (chunks : List ChunkRange) : Bool × Db :=
  match insertRows jobId chunks db with
  | some db' => (true, db')
  | none => (false, db)

/-- Rows by first frame, as `ORDER BY frame_start` lists them. -/
def byFrame (rows : List ChunkRecord) : List ChunkRecord :=
  rows.insertionSort fun a b => a.frameStart ≤ b.frameStart

def getChunksForJob (db : Db) (jobId : String) : List ChunkRow :=
  (byFrame (chunksOf db jobId)).map fun c =>
    { id := c.id
      jobId := c.jobId
      frameStart := c.frameStart
      frameEnd := c.frameEnd
      state := c.state
      assignedTo := c.assignedTo.getD ""
      assignedAtMs := c.assignedAtMs.getD 0
      completedAtMs := c.completedAtMs.getD 0
      retryCount := c.retryCount
      completedFrames := c.completedFrames
      failedOn := c.failedOn }

/-! ## Dispatch operations -/

/-- The columns the dispatch queries select. -/
def ChunkRow.toDispatch (c : ChunkRecord) : ChunkRow :=
  { id := c.id, jobId := c.jobId, frameStart := c.frameStart,
    frameEnd := c.frameEnd, state := .pending }

def pendingOf (db : Db) (jobId : String) : List ChunkRecord :=
  (chunksOf db jobId).filter (·.state = .pending)

/-- The active jobs with pending work, in dispatch order. -/
def dispatchableJobs (db : Db) : List JobRecord :=
  (jobsInOrder db).filter fun j =>
    j.currentState = .active ∧ pendingOf db j.jobId ≠ []

def findNextPendingChunk (db : Db) : Option (ChunkRow × String) :=
  (dispatchableJobs db).findSome? fun j =>
    ((byFrame (pendingOf db j.jobId)).head?).map fun c =>
      (ChunkRow.toDispatch c, j.manifestJson)

/-- The manifest parses and every tag it requires is among the node's. -/
def tagsEligible (T : JsonText) (nodeTags : List String) (manifestJson : String) :
    Bool :=
  match T.parse manifestJson with
  | none => false
  | some mj =>
      match mj.value (getArray getString) "tags_required" [] with
      | .ok tagsReq => tagsReq.all (· ∈ nodeTags)
      | .error _ => false

def findNextPendingChunkForNode (T : JsonText) (db : Db) (nodeTags : List String)
    (nodeId : String) : Option (ChunkRow × String) :=
  (dispatchableJobs db).findSome? fun j =>
    if tagsEligible T nodeTags j.manifestJson then
      ((byFrame (pendingOf db j.jobId)).find? fun c =>
        nodeId = "" ∨ nodeId ∉ c.failedOn).map fun c =>
          (ChunkRow.toDispatch c, j.manifestJson)
    else none

/-- `job_id = ? AND frame_start = ? AND frame_end = ?`. -/
def inRange (jobId : String) (frameStart frameEnd : Int) (c : ChunkRecord) : Bool :=
  c.jobId = jobId ∧ c.frameStart = frameStart ∧ c.frameEnd = frameEnd

/-- The edit-epoch fence: the row is assigned, to the reporting node if it
names itself, under the reported epoch if it carries one. -/
def fence (jobId : String) (frameStart frameEnd : Int) (nodeId : String)
    (editEpoch : Int) (c : ChunkRecord) : Bool :=
  inRange jobId frameStart frameEnd c ∧ c.state = .assigned ∧
    (nodeId = "" ∨ c.assignedTo = some nodeId) ∧
    (editEpoch < 0 ∨ c.editEpoch = editEpoch)

def assignChunk (db : Db) (chunkId : Int) (nodeId : String) (nowMs editEpoch : Int) :
    Bool × Db :=
  let target (c : ChunkRecord) : Bool := c.id = chunkId ∧ c.state = .pending
  (0 < hits target db.chunks,
    db.updateChunks target fun c =>
      { c with
        state := .assigned
        assignedTo := some nodeId
        assignedAtMs := some nowMs
        editEpoch := editEpoch })

def completeChunk (db : Db) (jobId : String) (frameStart frameEnd nowMs : Int)
    (nodeId : String) (editEpoch : Int) : Bool × Db :=
  let target := fence jobId frameStart frameEnd nodeId editEpoch
  (0 < hits target db.chunks,
    db.updateChunks target fun c =>
      { c with state := .completed, completedAtMs := some nowMs })

def isChunkCurrent (db : Db) (jobId : String) (frameStart frameEnd : Int)
    (nodeId : String) (editEpoch : Int) : Bool :=
  db.chunks.any (fence jobId frameStart frameEnd nodeId editEpoch)

/-- The first row of the range, whatever its state, gets the node on its
blacklist. -/
def blacklist (db : Db) (jobId : String) (frameStart frameEnd : Int)
    (failingNodeId : String) : Db :=
  if failingNodeId = "" then db
  else
    match db.chunks.find? (inRange jobId frameStart frameEnd) with
    | none => db
    | some row =>
        if failingNodeId ∈ row.failedOn then db
        else db.updateChunks (·.id = row.id) fun c =>
          { c with failedOn := row.failedOn ++ [failingNodeId] }

/-- What a failure leaves of a row: pending for another try, or failed. -/
def failRow (maxRetries : Int) (c : ChunkRecord) : ChunkRecord :=
  { c with
    retryCount := c.retryCount + 1
    state := if c.retryCount + 1 < maxRetries then .pending else .failed
    assignedTo := if c.retryCount + 1 < maxRetries then none else c.assignedTo
    assignedAtMs := if c.retryCount + 1 < maxRetries then none else c.assignedAtMs }

theorem failRow_id (maxRetries : Int) (c : ChunkRecord) :
    (failRow maxRetries c).id = c.id := rfl

theorem failRow_jobId (maxRetries : Int) (c : ChunkRecord) :
    (failRow maxRetries c).jobId = c.jobId := rfl

def failChunk (db : Db) (jobId : String) (frameStart frameEnd maxRetries : Int)
    (failingNodeId : String) (editEpoch : Int) : Bool × Db :=
  if isChunkCurrent db jobId frameStart frameEnd failingNodeId editEpoch then
    -- the update below names neither node nor epoch again
    let db := blacklist db jobId frameStart frameEnd failingNodeId
    let target (c : ChunkRecord) : Bool :=
      inRange jobId frameStart frameEnd c ∧ c.state = .assigned
    (0 < hits target db.chunks, db.updateChunks target (failRow maxRetries)
      (failRow_id maxRetries) (failRow_jobId maxRetries))
  else (false, db)

/-- `state = 'pending', assigned_to = NULL, assigned_at_ms = NULL`. -/
def toPending (c : ChunkRecord) : ChunkRecord :=
  { c with state := .pending, assignedTo := none, assignedAtMs := none }

theorem toPending_id (c : ChunkRecord) : (toPending c).id = c.id := rfl

theorem toPending_jobId (c : ChunkRecord) :
    (toPending c).jobId = c.jobId := rfl

/-- No condition on the row's state, node or epoch. -/
def revertChunkToPending (db : Db) (jobId : String) (frameStart frameEnd : Int) :
    Bool × Db :=
  let target := inRange jobId frameStart frameEnd
  (0 < hits target db.chunks, db.updateChunks target toPending toPending_id toPending_jobId)

def reassignDeadWorkerChunks (db : Db) (deadNodeId : String) : Nat × Db :=
  let target (c : ChunkRecord) : Bool :=
    c.assignedTo = some deadNodeId ∧ c.state = .assigned
  (hits target db.chunks, db.updateChunks target toPending toPending_id toPending_jobId)

/-- The pre-update row of a chunk that was pending or assigned. -/
def stopChunk (db : Db) (chunkId : Int) : Option ChunkRow × Db :=
  match db.chunk? chunkId with
  | none => (none, db)
  | some c =>
      let target (c : ChunkRecord) : Bool :=
        c.id = chunkId ∧ (c.state = .pending ∨ c.state = .assigned)
      if hits target db.chunks = 0 then (none, db)
      else
        (some { id := chunkId, jobId := c.jobId, frameStart := c.frameStart,
                frameEnd := c.frameEnd, state := c.state,
                assignedTo := c.assignedTo.getD "" },
          db.updateChunks target fun c =>
            { c with state := .stopped, assignedTo := none, assignedAtMs := none })

/-! ## Epochs and completion -/

def getJobEditEpoch (db : Db) (jobId : String) : Int :=
  match db.job? jobId with
  | some j => j.editEpoch
  | none => 0

def isJobEpochCurrent (db : Db) (jobId : String) (editEpoch : Int) : Bool :=
  editEpoch < 0 ∨ getJobEditEpoch db jobId = editEpoch

def bumpEditEpoch (db : Db) (jobId : String) : Int × Db :=
  let db := db.updateJobs (·.jobId = jobId) fun j =>
    { j with editEpoch := j.editEpoch + 1 }
  (getJobEditEpoch db jobId, db)

/-- `none` while a chunk is still in progress. -/
def getJobCompletionState (db : Db) (jobId : String) : Option JobState :=
  let rows := chunksOf db jobId
  if 0 < hits (fun c => c.state ≠ .completed ∧ c.state ≠ .failed ∧
      c.state ≠ .stopped) rows then none
  else if 0 < hits (fun c => c.state = .failed) rows then some .failed
  else some .completed

/-! ## Resets -/

def resetAllChunks (db : Db) (jobId : String) : Bool × Db :=
  let target (c : ChunkRecord) : Bool := c.jobId = jobId
  (0 < hits target db.chunks,
    db.updateChunks target fun c =>
      { c with
        state := .pending
        assignedTo := none
        assignedAtMs := none
        completedAtMs := none
        retryCount := 0
        completedFrames := []
        failedOn := [] })

def getAssignedNodes (db : Db) (jobId : String) : List String :=
  ((chunksOf db jobId).filter (·.state = .assigned)).filterMap (·.assignedTo)
    |>.eraseDups

def resetAssignedChunks (db : Db) (jobId : String) : Bool × Db :=
  let target (c : ChunkRecord) : Bool := c.jobId = jobId ∧ c.state = .assigned
  (true, db.updateChunks target toPending toPending_id toPending_jobId)

def rebuildChunks (db : Db) (jobId : String) (chunks : List ChunkRange) : Bool × Db :=
  insertChunks (db.deleteChunkRows jobId) jobId chunks

/-- The blacklist stays; a hit reopens the job. -/
def retryFailedChunks (db : Db) (jobId : String) : Bool × Db :=
  let target (c : ChunkRecord) : Bool := c.jobId = jobId ∧ c.state = .failed
  let db' := db.updateChunks target fun c =>
    { c with
      state := .pending
      assignedTo := none
      assignedAtMs := none
      retryCount := 0
      completedFrames := [] }
  if 0 < hits target db.chunks then (true, (updateJobState db' jobId .active).2)
  else (false, db')

/-- `state IN ('assigned', 'failed', 'stopped')`. -/
def reassignable (chunkId : Int) (c : ChunkRecord) : Bool :=
  c.id = chunkId ∧ (c.state = .assigned ∨ c.state = .failed ∨ c.state = .stopped)

/-- To pending, reopening a finished job, when no target is named; to the
named node otherwise. -/
def reassignChunk (db : Db) (chunkId : Int) (targetNodeId : String) (nowMs : Int) :
    Bool × Db :=
  let target := reassignable chunkId
  if targetNodeId = "" then
    if hits target db.chunks = 0 then (false, db)
    else
      let db := db.updateChunks target toPending toPending_id toPending_jobId
      let jobId := (db.chunk? chunkId).map (·.jobId)
      (true, db.updateJobs
        (fun j => some j.jobId = jobId ∧
          (j.currentState = .completed ∨ j.currentState = .failed))
        fun j => { j with currentState := .active })
  else
    (0 < hits target db.chunks,
      db.updateChunks target fun c =>
        { c with
          state := .assigned
          assignedTo := some targetNodeId
          assignedAtMs := some nowMs })

def markChunksCompleted (db : Db) (jobId : String) (ranges : List ChunkRange)
    (nowMs : Int) : Db :=
  ranges.foldl (fun db r =>
    db.updateChunks (inRange jobId r.frameStart r.frameEnd) fun c =>
      { c with state := .completed, completedAtMs := some nowMs }) db

/-! ## Per-frame completion -/

def sortFrames (frames : List Int) : List Int := frames.insertionSort (· ≤ ·)

def addCompletedFrames (db : Db) (jobId : String) (frame : Int) : Bool × Db :=
  match db.chunks.find? (fun c =>
      c.jobId = jobId ∧ c.frameStart ≤ frame ∧ frame ≤ c.frameEnd) with
  | none => (false, db)
  | some row =>
      let cf := if frame ∈ row.completedFrames then row.completedFrames
        else sortFrames (row.completedFrames ++ [frame])
      (true, db.updateChunks (·.id = row.id) fun c => { c with completedFrames := cf })

/-- A chunk as the batch update holds it in memory. -/
structure ChunkData where
  id : Int
  fs : Int
  fe : Int
  cf : List Int
  dirty : Bool := false
deriving DecidableEq, Repr

/-- Give a frame to the first chunk whose range has it. -/
def placeFrame (frame : Int) : List ChunkData → List ChunkData
  | [] => []
  | cd :: rest =>
      if cd.fs ≤ frame ∧ frame ≤ cd.fe then
        (if frame ∈ cd.cf then cd
          else { cd with cf := cd.cf ++ [frame], dirty := true }) :: rest
      else cd :: placeFrame frame rest

def writeBack (db : Db) (chunkData : List ChunkData) : Db :=
  chunkData.foldl (fun db cd =>
    if cd.dirty then db.updateChunks (·.id = cd.id) fun c =>
      { c with completedFrames := sortFrames cd.cf }
    else db) db

def addCompletedFramesBatch (db : Db) (jobId : String) (frames : List Int) :
    Bool × Db :=
  if frames = [] then (true, db)
  else
    let chunkData := (byFrame (chunksOf db jobId)).map fun c =>
      { id := c.id, fs := c.frameStart, fe := c.frameEnd, cf := c.completedFrames
        : ChunkData }
    (true, writeBack db (frames.foldl (fun cds f => placeFrame f cds) chunkData))

end DatabaseManager

end MinRender
