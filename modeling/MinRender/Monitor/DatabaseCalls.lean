import MinRender.Framework.Programs
import MinRender.Monitor.DatabaseManager

/-!
# Database calls

Every operation of `DatabaseManager` as a call of one interface, so that the
functions built on it are programs over atomic calls. What a call can do to a
row of either table is said once here (`RowStep`, `JobStep`); the invariants
of the later modules are case analyses on it.
-/

namespace MinRender
open DatabaseManager

/-- A call on the leader's database. -/
inductive DbCall
  | insertJob (job : JobRow)
  | getJob (jobId : String)
  | getAllJobs
  | updateJobState (jobId : String) (newState : JobState)
  | updateJobPriority (jobId : String) (priority : Int)
  | moveJob (jobId targetJobId : String) (before : Bool)
  | deleteJob (jobId : String)
  | insertChunks (jobId : String) (chunks : List ChunkRange)
  | getChunksForJob (jobId : String)
  | findNextPendingChunk
  | findNextPendingChunkForNode (nodeTags : List String) (nodeId : String)
  | assignChunk (chunkId : Int) (nodeId : String) (nowMs editEpoch : Int)
  | completeChunk (jobId : String) (frameStart frameEnd nowMs : Int)
      (nodeId : String) (editEpoch : Int)
  | failChunk (jobId : String) (frameStart frameEnd maxRetries : Int)
      (failingNodeId : String) (editEpoch : Int)
  | isChunkCurrent (jobId : String) (frameStart frameEnd : Int)
      (nodeId : String) (editEpoch : Int)
  | isJobEpochCurrent (jobId : String) (editEpoch : Int)
  | getJobEditEpoch (jobId : String)
  | bumpEditEpoch (jobId : String)
  | revertChunkToPending (jobId : String) (frameStart frameEnd : Int)
  | reassignDeadWorkerChunks (deadNodeId : String)
  | getJobCompletionState (jobId : String)
  | resetAllChunks (jobId : String)
  | updateJobManifest (jobId manifestJson : String)
  | getAssignedNodes (jobId : String)
  | resetAssignedChunks (jobId : String)
  | rebuildChunks (jobId : String) (chunks : List ChunkRange)
  | retryFailedChunks (jobId : String)
  | reassignChunk (chunkId : Int) (targetNodeId : String) (nowMs : Int)
  | stopChunk (chunkId : Int)
  | markChunksCompleted (jobId : String) (ranges : List ChunkRange) (nowMs : Int)
  | addCompletedFrames (jobId : String) (frame : Int)
  | addCompletedFramesBatch (jobId : String) (frames : List Int)
deriving DecidableEq, Repr

namespace DbCall

/-- What a call answers. -/
@[reducible] def Reply : DbCall → Type
  | insertJob .. | updateJobState .. | updateJobPriority .. | moveJob ..
  | deleteJob .. | insertChunks .. | assignChunk .. | completeChunk ..
  | failChunk .. | isChunkCurrent .. | isJobEpochCurrent ..
  | revertChunkToPending .. | resetAllChunks .. | updateJobManifest ..
  | resetAssignedChunks .. | rebuildChunks .. | retryFailedChunks ..
  | reassignChunk .. | addCompletedFrames .. | addCompletedFramesBatch .. => Bool
  | getJob .. => Option JobRow
  | getAllJobs => List JobSummary
  | getChunksForJob .. => List ChunkRow
  | findNextPendingChunk | findNextPendingChunkForNode .. =>
      Option (ChunkRow × String)
  | getJobEditEpoch .. | bumpEditEpoch .. => Int
  | reassignDeadWorkerChunks .. => Nat
  | getJobCompletionState .. => Option JobState
  | getAssignedNodes .. => List String
  | stopChunk .. => Option ChunkRow
  | markChunksCompleted .. => Unit

end DbCall

/-- The database as an object that programs call. -/
@[reducible] def database : Interface where
  Call := DbCall
  Reply := DbCall.Reply

abbrev DbProg := Prog database

/-- One database call and its answer. -/
abbrev query (c : DbCall) : DbProg c.Reply := Prog.ask (F := database) c

/-- The call's answer and the database after it. -/
def DbCall.exec (T : JsonText) : Handler database Db
  | .insertJob job, db => DatabaseManager.insertJob db job
  | .getJob jobId, db => (DatabaseManager.getJob db jobId, db)
  | .getAllJobs, db => (DatabaseManager.getAllJobs db, db)
  | .updateJobState jobId s, db => DatabaseManager.updateJobState db jobId s
  | .updateJobPriority jobId p, db => DatabaseManager.updateJobPriority db jobId p
  | .moveJob jobId target before, db => DatabaseManager.moveJob db jobId target before
  | .deleteJob jobId, db => DatabaseManager.deleteJob db jobId
  | .insertChunks jobId chunks, db => DatabaseManager.insertChunks db jobId chunks
  | .getChunksForJob jobId, db => (DatabaseManager.getChunksForJob db jobId, db)
  | .findNextPendingChunk, db => (DatabaseManager.findNextPendingChunk db, db)
  | .findNextPendingChunkForNode tags node, db =>
      (DatabaseManager.findNextPendingChunkForNode T db tags node, db)
  | .assignChunk id node nowMs epoch, db =>
      DatabaseManager.assignChunk db id node nowMs epoch
  | .completeChunk jobId fs fe nowMs node epoch, db =>
      DatabaseManager.completeChunk db jobId fs fe nowMs node epoch
  | .failChunk jobId fs fe maxRetries node epoch, db =>
      DatabaseManager.failChunk db jobId fs fe maxRetries node epoch
  | .isChunkCurrent jobId fs fe node epoch, db =>
      (DatabaseManager.isChunkCurrent db jobId fs fe node epoch, db)
  | .isJobEpochCurrent jobId epoch, db =>
      (DatabaseManager.isJobEpochCurrent db jobId epoch, db)
  | .getJobEditEpoch jobId, db => (DatabaseManager.getJobEditEpoch db jobId, db)
  | .bumpEditEpoch jobId, db => DatabaseManager.bumpEditEpoch db jobId
  | .revertChunkToPending jobId fs fe, db =>
      DatabaseManager.revertChunkToPending db jobId fs fe
  | .reassignDeadWorkerChunks node, db =>
      DatabaseManager.reassignDeadWorkerChunks db node
  | .getJobCompletionState jobId, db =>
      (DatabaseManager.getJobCompletionState db jobId, db)
  | .resetAllChunks jobId, db => DatabaseManager.resetAllChunks db jobId
  | .updateJobManifest jobId m, db => DatabaseManager.updateJobManifest db jobId m
  | .getAssignedNodes jobId, db => (DatabaseManager.getAssignedNodes db jobId, db)
  | .resetAssignedChunks jobId, db => DatabaseManager.resetAssignedChunks db jobId
  | .rebuildChunks jobId chunks, db => DatabaseManager.rebuildChunks db jobId chunks
  | .retryFailedChunks jobId, db => DatabaseManager.retryFailedChunks db jobId
  | .reassignChunk id node nowMs, db => DatabaseManager.reassignChunk db id node nowMs
  | .stopChunk id, db => DatabaseManager.stopChunk db id
  | .markChunksCompleted jobId ranges nowMs, db =>
      ((), DatabaseManager.markChunksCompleted db jobId ranges nowMs)
  | .addCompletedFrames jobId frame, db =>
      DatabaseManager.addCompletedFrames db jobId frame
  | .addCompletedFramesBatch jobId frames, db =>
      DatabaseManager.addCompletedFramesBatch db jobId frames

namespace DbCall

/-- The database after a call. -/
def after (T : JsonText) (c : DbCall) (db : Db) : Db := (exec T c db).2

end DbCall

end MinRender
