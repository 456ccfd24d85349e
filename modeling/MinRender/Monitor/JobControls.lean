import MinRender.Core.PeerInfo
import MinRender.Monitor.DatabaseCalls

/-!
# Job controls on the leader

What `MonitorApp` does to the database for each control of a job or a chunk,
as programs over database calls; HTTP threads run them next to the dispatch
cycle. Controls that also tell workers or the local renderer to stop return
whom to tell.
-/

namespace MinRender.MonitorApp

/-! ## Single calls -/

def pauseJob (jobId : String) : DbProg Unit := do
  let _ ← query (.updateJobState jobId .paused)
  return ()

def resumeJob (jobId : String) : DbProg Unit := do
  let _ ← query (.updateJobState jobId .active)
  return ()

/-- The leader's part; the local render of the job is aborted afterwards. -/
def cancelJob (jobId : String) : DbProg Unit := do
  let _ ← query (.updateJobState jobId .cancelled)
  return ()

def archiveJob (jobId : String) : DbProg Unit := do
  let _ ← query (.updateJobState jobId .archived)
  return ()

def setJobPriority (jobId : String) (priority : Int) : DbProg Unit := do
  let _ ← query (.updateJobPriority jobId priority)
  return ()

def retryFailedChunks (jobId : String) : DbProg Unit := do
  let _ ← query (.retryFailedChunks jobId)
  return ()

def reassignChunk (chunkId : Int) (targetNodeId : String) (nowMs : Int) :
    DbProg Unit := do
  let _ ← query (.reassignChunk chunkId targetNodeId nowMs)
  return ()

/-- The row as it was, where the chunk could be stopped: its node, if it has
one, is told to abort the job's render. -/
def stopChunk (chunkId : Int) : DbProg (Option ChunkRow) :=
  query (.stopChunk chunkId)

/-! ## Several calls -/

def requeueJob (jobId : String) : DbProg Unit := do
  let _ ← query (.resetAllChunks jobId)
  let _ ← query (.updateJobState jobId .active)
  return ()

inductive EditCode
  | applied | invalidManifest | jobNotFound | dbUnavailable
deriving DecidableEq, Repr

structure EditResult where
  code : EditCode
  message : String := ""
deriving DecidableEq, Repr

/-- The answer of an edit, and the nodes that were rendering the job when it
was reset. -/
structure EditOutcome where
  result : EditResult
  rendering : List String := []
  reset : Bool := false
deriving DecidableEq, Repr

/-- The manifest an edit carries, or why it is refused. -/
def editManifest (T : JsonText) (jobId manifestJson : String) :
    Except EditResult JobManifest :=
  match T.manifest? manifestJson with
  | none => .error ⟨.invalidManifest, T.what manifestJson⟩
  | some manifest =>
      if manifest.jobId ≠ jobId then
        .error ⟨.invalidManifest, "manifest job_id mismatch"⟩
      else .ok manifest

/-- The reset a restart or a startover makes, after the epoch was bumped;
`none` where the new range overflows. -/
def resetForEdit (mode jobId : String) (manifest : JobManifest) :
    DbProg (Option Unit) :=
  if mode = "restart" then do
    let _ ← query (.resetAssignedChunks jobId)
    return some ()
  else
    match computeChunks manifest.frameStart manifest.frameEnd manifest.chunkSize with
    | some chunks => do
        let _ ← query (.rebuildChunks jobId chunks)
        return some ()
    | none => return none

/-- `none` where a startover's range overflows. -/
def applyEditLocally (T : JsonText) (dbOpen : Bool)
    (jobId manifestJson mode : String) (priority : Int) :
    DbProg (Option EditOutcome) := do
  if !dbOpen then
    return some ⟨⟨.dbUnavailable, "leader database not ready"⟩, [], false⟩
  match editManifest T jobId manifestJson with
  | .error result => return some ⟨result, [], false⟩
  | .ok manifest =>
      let job : Option JobRow ← query (.getJob jobId)
      if job.isNone then
        return some ⟨⟨.jobNotFound, "no such job: " ++ jobId⟩, [], false⟩
      let _ ← query (.updateJobPriority jobId priority)
      let _ ← query (.updateJobManifest jobId manifestJson)
      if mode = "restart" ∨ mode = "startover" then
        let rendering : List String ← query (.getAssignedNodes jobId)
        let _ ← query (.bumpEditEpoch jobId)
        let reset ← resetForEdit mode jobId manifest
        match reset with
        | none => return none
        | some () =>
            let _ ← query (.updateJobState jobId .active)
            return some ⟨⟨.applied, ""⟩, rendering, true⟩
      else
        return some ⟨⟨.applied, ""⟩, [], false⟩

/-- The call by which a restart or a startover resets the chunks. -/
def IsReset (jobId : String) (call : DbCall) : Prop :=
  call = .resetAssignedChunks jobId ∨
    ∃ ranges, ranges.Nodup ∧ call = .rebuildChunks jobId ranges

theorem resetForEdit_run {T : JsonText} {mode jobId : String}
    {manifest : JobManifest} {db db' : Db} {u : Unit}
    (h : (resetForEdit mode jobId manifest).run (DbCall.exec T) db = (some u, db')) :
    ∃ reset, IsReset jobId reset ∧ db' = reset.after T db := by
  unfold resetForEdit at h
  split at h
  · cases h
    exact ⟨_, .inl rfl, rfl⟩
  · split at h
    · rename_i chunks hchunks
      cases h
      exact ⟨_, .inr ⟨chunks, computeChunks_nodup hchunks, rfl⟩, rfl⟩
    · cases h

/-- The database after an edit stored its priority and manifest. -/
def stored (T : JsonText) (jobId manifestJson : String) (priority : Int) (db : Db) :
    Db :=
  (DbCall.updateJobManifest jobId manifestJson).after T
    ((DbCall.updateJobPriority jobId priority).after T db)

/-- **An uninterrupted edit.** It is refused, or stores the manifest only, or
it also bumps the epoch, resets the chunks and reopens the job, in that
order. -/
theorem applyEditLocally_run {T : JsonText} {jobId manifestJson mode : String}
    {priority : Int} {db db' : Db} {o : EditOutcome}
    (h : (applyEditLocally T true jobId manifestJson mode priority).run
      (DbCall.exec T) db = (some o, db')) :
    (o.reset = false ∧ (db' = db ∨ db' = stored T jobId manifestJson priority db)) ∨
    (o.reset = true ∧ (db.job? jobId).isSome ∧
      ∃ reset, IsReset jobId reset ∧
        db' = (DbCall.updateJobState jobId .active).after T
          (reset.after T ((DbCall.bumpEditEpoch jobId).after T
            (stored T jobId manifestJson priority db)))) := by
  simp only [applyEditLocally, Bool.not_true, Bool.false_eq_true, if_false] at h
  cases hm : editManifest T jobId manifestJson with
  | error result =>
      rw [hm] at h
      cases h
      exact .inl ⟨rfl, .inl rfl⟩
  | ok manifest =>
      rw [hm] at h
      simp only [query] at h
      rw [Prog.ask_bind, Prog.run_call] at h
      split at h
      · cases h
        exact .inl ⟨rfl, .inl rfl⟩
      · rename_i hjob
        have hsome : (db.job? jobId).isSome := by
          simpa [DbCall.exec, DatabaseManager.getJob, Option.isSome_iff_ne_none]
            using hjob
        rw [Prog.ask_bind, Prog.run_call, Prog.ask_bind, Prog.run_call] at h
        split at h
        · rw [Prog.ask_bind, Prog.run_call, Prog.ask_bind, Prog.run_call] at h
          rw [Prog.run_bind] at h
          generalize hr : (resetForEdit mode jobId manifest).run (DbCall.exec T) _ = r
            at h
          obtain ⟨done, db₂⟩ := r
          cases done with
          | none => cases h
          | some u =>
              obtain ⟨reset, hreset, rfl⟩ := resetForEdit_run hr
              cases h
              exact .inr ⟨rfl, hsome, reset, hreset, rfl⟩
        · cases h
          exact .inl ⟨rfl, .inr rfl⟩

/-- What an edit answers on an open database, from the manifest it carries and
the job it names; `none` where a startover's range overflows. -/
def editCode (T : JsonText) (db : Db) (jobId manifestJson mode : String) :
    Option EditCode :=
  match editManifest T jobId manifestJson with
  | .error _ => some .invalidManifest
  | .ok manifest =>
      if (db.job? jobId).isNone then some .jobNotFound
      else if mode = "startover" ∧
          computeChunks manifest.frameStart manifest.frameEnd manifest.chunkSize = none
      then none
      else some .applied

theorem editManifest_code {T : JsonText} {jobId manifestJson : String}
    {result : EditResult} (h : editManifest T jobId manifestJson = .error result) :
    result.code = .invalidManifest := by
  unfold editManifest at h
  split at h
  · cases h
    rfl
  · split at h
    · cases h
      rfl
    · cases h

theorem resetForEdit_eq_none (T : JsonText) (mode jobId : String)
    (manifest : JobManifest) (db : Db) :
    ((resetForEdit mode jobId manifest).run (DbCall.exec T) db).1 = none ↔
      mode ≠ "restart" ∧
        computeChunks manifest.frameStart manifest.frameEnd manifest.chunkSize = none := by
  unfold resetForEdit
  split
  · rename_i hmode
    rw [query, Prog.ask_bind, Prog.run_call]
    simp [hmode]
  · rename_i hmode
    split
    · rename_i chunks hchunks
      rw [query, Prog.ask_bind, Prog.run_call]
      simp [hchunks]
    · rename_i hchunks
      simp [hmode, hchunks]

/-- **The answer of an uninterrupted edit.** -/
theorem applyEditLocally_code {T : JsonText} {jobId manifestJson mode : String}
    {priority : Int} {db : Db} :
    ((applyEditLocally T true jobId manifestJson mode priority).run
      (DbCall.exec T) db).1.map (·.result.code) = editCode T db jobId manifestJson mode := by
  unfold applyEditLocally editCode
  rw [Bool.not_true, if_neg Bool.false_ne_true]
  cases hm : editManifest T jobId manifestJson with
  | error result => simp [editManifest_code hm]
  | ok manifest =>
      simp only [query]
      rw [Prog.ask_bind, Prog.run_call]
      have hjob : (DbCall.exec T (.getJob jobId) db).1.isNone = (db.job? jobId).isNone := by
        simp [DbCall.exec, DatabaseManager.getJob]
      simp only [hjob]
      cases hnone : (db.job? jobId).isNone with
      | true => simp
      | false =>
          rw [if_neg Bool.false_ne_true, if_neg Bool.false_ne_true, Prog.ask_bind,
            Prog.run_call, Prog.ask_bind, Prog.run_call]
          by_cases hmode : mode = "restart" ∨ mode = "startover"
          · rw [if_pos hmode, Prog.ask_bind, Prog.run_call, Prog.ask_bind,
              Prog.run_call, Prog.run_bind]
            generalize hdb : (DbCall.exec T (.bumpEditEpoch jobId) _).2 = db'
            have hreset := resetForEdit_eq_none T mode jobId manifest db'
            cases hr : ((resetForEdit mode jobId manifest).run (DbCall.exec T) db').1 with
            | none =>
                obtain ⟨hne, hchunks⟩ := hreset.mp hr
                simp [hmode.resolve_left hne, hchunks]
            | some u =>
                have hok : ¬ (mode = "startover" ∧ computeChunks manifest.frameStart
                    manifest.frameEnd manifest.chunkSize = none) := by
                  rintro ⟨rfl, hchunks⟩
                  rw [hreset.mpr ⟨by decide, hchunks⟩] at hr
                  cases hr
                simp only [if_neg hok]
                rw [Prog.ask_bind, Prog.run_call]
                rfl
          · rw [if_neg hmode]
            have hok : ¬ (mode = "startover" ∧ computeChunks manifest.frameStart
                manifest.frameEnd manifest.chunkSize = none) :=
              fun h => hmode (.inr h.1)
            simp [hok]

/-! ## One control as a task -/

/-- A job control as an HTTP thread runs it. -/
inductive Control
  | pause (jobId : String)
  | resume (jobId : String)
  | cancel (jobId : String)
  | archive (jobId : String)
  | setPriority (jobId : String) (priority : Int)
  | requeue (jobId : String)
  | retryFailed (jobId : String)
  | reassign (chunkId : Int) (targetNodeId : String) (nowMs : Int)
  | stop (chunkId : Int)
  | edit (dbOpen : Bool) (jobId manifestJson mode : String) (priority : Int)
deriving DecidableEq, Repr

def Control.code (T : JsonText) : Control → DbProg Unit
  | .pause jobId => pauseJob jobId
  | .resume jobId => resumeJob jobId
  | .cancel jobId => cancelJob jobId
  | .archive jobId => archiveJob jobId
  | .setPriority jobId priority => setJobPriority jobId priority
  | .requeue jobId => requeueJob jobId
  | .retryFailed jobId => retryFailedChunks jobId
  | .reassign chunkId targetNodeId nowMs => reassignChunk chunkId targetNodeId nowMs
  | .stop chunkId => do
      let _ ← stopChunk chunkId
      return ()
  | .edit dbOpen jobId manifestJson mode priority => do
      let _ ← applyEditLocally T dbOpen jobId manifestJson mode priority
      return ()

/-! ## Whom to tell -/

/-- An abort request on its way to a worker. It names only the job. -/
structure AbortPush where
  nodeId : String
  host : String
  port : Int
  jobId : String
deriving DecidableEq, Repr

/-- The push to a peer, unless its endpoint is unknown or malformed. -/
def abortPush (peers : List PeerInfo) (nodeId jobId : String) : Option AbortPush :=
  match peers.find? (·.nodeId = nodeId) with
  | none => none
  | some p =>
      let (host, port) := parseEndpoint p.endpoint
      if host = "" then none else some { nodeId, host, port, jobId }

/-- The pushes of an edit: every node that was rendering the job but the
leader itself, which abandons its own render. -/
def editPushes (peers : List PeerInfo) (selfId jobId : String)
    (rendering : List String) : List AbortPush :=
  (rendering.filter (· ≠ selfId)).filterMap (abortPush peers · jobId)

end MinRender.MonitorApp
