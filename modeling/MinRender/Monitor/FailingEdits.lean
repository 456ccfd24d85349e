import MinRender.Monitor.ChunkTable
import MinRender.Monitor.JobControls

/-!
# Edits on a failing database

`applyEditLocally` makes up to seven writes, each committed by itself, and
looks at none of their answers. Here any of their statements may fail. What
the edit then leaves is compared with what it answers.
-/

namespace MinRender.FailingEdits
open DatabaseManager MonitorApp Table

/-! ## Failing statements -/

/-- The statements of an edit, each run at most once. -/
inductive Statement
  | selectJob
  | updatePriority
  | updateManifest
  /-- Stepping to the `i`-th node that renders the job. -/
  | fetchNode (i : Nat)
  | updateEpoch
  | selectEpoch
  | resetAssigned
  | deleteChunks
  | beginInsert
  | insertChunk (i : Nat)
  | commitInsert
  | updateState
deriving DecidableEq, Repr

section

variable (fails : Statement → Bool)

/-- A write of one statement: an exception is caught, and nothing changed. -/
def write (s : Statement) (db : Db) (done : Bool × Db) : Bool × Db :=
  if fails s then (false, db) else done

/-- The nodes up to the first step that fails. -/
def getAssignedNodes (db : Db) (jobId : String) : List String :=
  ((DatabaseManager.getAssignedNodes db jobId).zipIdx.takeWhile fun nodeIdx =>
    !fails (.fetchNode nodeIdx.2)).map (·.1)

/-- The epoch is read again, and that may fail by itself. -/
def bumpEditEpoch (db : Db) (jobId : String) : Int × Db :=
  if fails .updateEpoch then (0, db)
  else
    let (epoch, db') := DatabaseManager.bumpEditEpoch db jobId
    (if fails .selectEpoch then 0 else epoch, db')

def insertRows (jobId : String) : Nat → List ChunkRange → Db → Option Db
  | _, [], db => some db
  | i, c :: cs, db =>
      if fails (.insertChunk i) then none
      else (db.insertChunkRow jobId c.frameStart c.frameEnd).bind (insertRows jobId (i + 1) cs)

/-- The transaction is rolled back as the exception leaves it. -/
def insertChunks (db : Db) (jobId : String) (chunks : List ChunkRange) : Bool × Db :=
  if fails .beginInsert then (false, db)
  else
    match insertRows fails jobId 0 chunks db with
    | none => (false, db)
    | some db' => if fails .commitInsert then (false, db) else (true, db')

/-- The deletion is outside the transaction. -/
def rebuildChunks (db : Db) (jobId : String) (chunks : List ChunkRange) : Bool × Db :=
  if fails .deleteChunks then (false, db)
  else insertChunks fails (db.deleteChunkRows jobId) jobId chunks

/-- The database with these statements failing. An edit makes no other
calls. -/
def exec (T : JsonText) : Handler database Db
  | .getJob jobId, db => (if fails .selectJob then none else getJob db jobId, db)
  | .updateJobPriority jobId p, db =>
      write fails .updatePriority db (updateJobPriority db jobId p)
  | .updateJobManifest jobId m, db =>
      write fails .updateManifest db (updateJobManifest db jobId m)
  | .getAssignedNodes jobId, db => (getAssignedNodes fails db jobId, db)
  | .bumpEditEpoch jobId, db => bumpEditEpoch fails db jobId
  | .resetAssignedChunks jobId, db =>
      write fails .resetAssigned db (resetAssignedChunks db jobId)
  | .rebuildChunks jobId chunks, db => rebuildChunks fails db jobId chunks
  | .updateJobState jobId s, db => write fails .updateState db (updateJobState db jobId s)
  | c, db => DbCall.exec T c db

end

/-! ## The property -/

/-- The arguments of an edit. -/
structure Edit where
  dbOpen : Bool := true
  jobId : String
  manifestJson : String
  mode : String
  priority : Int

/-- Whether the mode resets the job. -/
def Edit.resets (e : Edit) : Prop := e.mode = "restart" ∨ e.mode = "startover"

def Edit.program (T : JsonText) (e : Edit) : DbProg (Option EditOutcome) :=
  applyEditLocally T e.dbOpen e.jobId e.manifestJson e.mode e.priority

/-- A row but for its number. -/
def unnumbered (c : ChunkRecord) : ChunkRecord := { c with id := 0 }

/-- The chunks of a job submitted with these ranges. -/
def freshRows (jobId : String) (ranges : List ChunkRange) : List ChunkRecord :=
  ranges.map fun r => .fresh 0 jobId r.frameStart r.frameEnd

/-- A restart takes the assigned chunks back, a startover has those of the new
range. -/
def ChunksUpdated (e : Edit) (manifest : JobManifest) (rows rows' : List ChunkRecord) : Prop :=
  if e.mode = "restart" then rows' = update (fun c => c.state = .assigned) toPending rows
  else ∃ ranges,
    computeChunks manifest.frameStart manifest.frameEnd manifest.chunkSize = some ranges ∧
      rows'.map unnumbered = freshRows e.jobId ranges

/-- All an edit does to the job, from `db` to `db'`. -/
structure Updated (e : Edit) (manifest : JobManifest) (db db' : Db) (j j' : JobRecord) :
    Prop where
  priority : j'.priority = e.priority
  manifestJson : j'.manifestJson = e.manifestJson
  epoch : e.resets → j'.editEpoch = j.editEpoch + 1
  state : e.resets → j'.currentState = .active
  chunks : e.resets → ChunksUpdated e manifest (chunksOf db e.jobId) (chunksOf db' e.jobId)
  kept : ¬ e.resets → j'.editEpoch = j.editEpoch ∧ j'.currentState = j.currentState ∧
    chunksOf db' e.jobId = chunksOf db e.jobId

/-- The edit is applied and all of it done, or the answer is another one and
nothing is. -/
structure Settled (T : JsonText) (e : Edit) (db : Db) (o : EditOutcome) (db' : Db) :
    Prop where
  applied : o.result.code = .applied → ∃ manifest j j',
    editManifest T e.jobId e.manifestJson = .ok manifest ∧ db.job? e.jobId = some j ∧
      db'.job? e.jobId = some j' ∧ Updated e manifest db db' j j'
  refused : o.result.code ≠ .applied → db' = db

/-- A rebuild that answers false leaves the job's rows as they are. -/
def KeepsRows (fails : Statement → Bool) (c : DbCall) (db : Db) : Prop :=
  ∀ jobId ranges, c = .rebuildChunks jobId ranges →
    (rebuildChunks fails db jobId ranges).1 = false →
      chunksOf (rebuildChunks fails db jobId ranges).2 jobId = chunksOf db jobId

/-- The edit returns, settled, and no rebuild in it loses rows. -/
def Whole (T : JsonText) (fails : Statement → Bool) (e : Edit) (db : Db) : Prop :=
  (∃ o db', (e.program T).run (exec fails T) db = (some o, db') ∧ Settled T e db o db') ∧
    (e.program T).Meets (exec fails T) (KeepsRows fails) db

/-! ## The condition -/

/-- The edit is refused before its first write. -/
def Refused (T : JsonText) (fails : Statement → Bool) (e : Edit) (db : Db) : Prop :=
  e.dbOpen = false ∨ (∃ r, editManifest T e.jobId e.manifestJson = .error r) ∨
    fails .selectJob = true ∨ db.job? e.jobId = none

/-- A statement of the insertion fails. -/
def InsertFails (fails : Statement → Bool) (ranges : List ChunkRange) : Prop :=
  fails .beginInsert = true ∨ (∃ i < ranges.length, fails (.insertChunk i) = true) ∨
    fails .commitInsert = true

/-- The statements that fail while the chunks are reset had nothing to do: no
chunk was assigned; the rows were those of the new range; there were none, and
none are new. -/
def ResetIdle (fails : Statement → Bool) (e : Edit) (manifest : JobManifest)
    (rows : List ChunkRecord) : Prop :=
  if e.mode = "restart" then
    fails .resetAssigned = true → ∀ c ∈ rows, c.state ≠ .assigned
  else ∃ ranges,
    computeChunks manifest.frameStart manifest.frameEnd manifest.chunkSize = some ranges ∧
      if fails .deleteChunks then rows.map unnumbered = freshRows e.jobId ranges
      else InsertFails fails ranges → rows = [] ∧ ranges = []

/-- The writes that fail had nothing to do: the value was stored already. The
epoch always changes. -/
structure Idle (fails : Statement → Bool) (e : Edit) (manifest : JobManifest) (j : JobRecord)
    (rows : List ChunkRecord) : Prop where
  priority : fails .updatePriority = true → j.priority = e.priority
  manifestJson : fails .updateManifest = true → j.manifestJson = e.manifestJson
  epoch : e.resets → fails .updateEpoch = false
  state : e.resets → fails .updateState = true → j.currentState = .active
  chunks : e.resets → ResetIdle fails e manifest rows

/-- The edit is refused, or every write that fails had nothing to do. -/
def Harmless (T : JsonText) (fails : Statement → Bool) (e : Edit) (db : Db) : Prop :=
  Refused T fails e db ∨ ∃ manifest j,
    editManifest T e.jobId e.manifestJson = .ok manifest ∧ db.job? e.jobId = some j ∧
      Idle fails e manifest j (chunksOf db e.jobId)

variable {T : JsonText} {fails : Statement → Bool} {e : Edit} {db : Db} {jobId : String}
  {manifest : JobManifest} {j : JobRecord}

/-! ## What the writes leave -/

theorem chunks_write {s : Statement} {b : Bool} {p f hid} :
    (write fails s db (b, db.updateJobs p f hid)).2.chunks = db.chunks := by
  unfold write
  split
  · rfl
  · rfl

theorem job?_write {s : Statement} {b : Bool} {f hid} :
    (write fails s db (b, db.updateJobs (·.jobId = jobId) f hid)).2.job? jobId =
      (db.job? jobId).map fun j => if fails s then j else f j := by
  unfold write
  split
  · simp
  · rw [Db.job?_updateJobs]
    refine Option.map_congr fun j hj => ?_
    rw [if_pos (decide_eq_true (Db.job?_eq_some.mp hj).2)]

/-- The rows of an insertion none of whose statements fails. -/
theorem insertRows_eq {ranges : List ChunkRange} {i : Nat}
    (h : ∀ k < ranges.length, fails (.insertChunk (i + k)) = false) :
    insertRows fails jobId i ranges db = DatabaseManager.insertRows jobId ranges db := by
  induction ranges generalizing i db with
  | nil => rfl
  | cons r ranges ih =>
      have hfirst : fails (.insertChunk i) = false := h 0 (Nat.zero_lt_succ _)
      have hrest : ∀ k < ranges.length, fails (.insertChunk (i + 1 + k)) = false := by
        intro k hk
        rw [Nat.add_right_comm, Nat.add_assoc]
        exact h (k + 1) (Nat.succ_lt_succ hk)
      unfold insertRows DatabaseManager.insertRows
      rw [hfirst, if_neg Bool.false_ne_true]
      congr 1
      funext db'
      exact ih hrest

theorem insertRows_none {ranges : List ChunkRange} {i k : Nat} (hk : k < ranges.length)
    (h : fails (.insertChunk (i + k)) = true) : insertRows fails jobId i ranges db = none := by
  induction ranges generalizing i k db with
  | nil => cases hk
  | cons r ranges ih =>
      unfold insertRows
      split
      · rfl
      · rename_i hfirst
        rw [Option.bind_eq_none_iff]
        intro db' _
        cases k with
        | zero => exact absurd h hfirst
        | succ k =>
            refine ih (Nat.lt_of_succ_lt_succ hk) ?_
            rw [Nat.add_right_comm, Nat.add_assoc]
            exact h

theorem insertChunks_fails {ranges : List ChunkRange} (h : InsertFails fails ranges) :
    insertChunks fails db jobId ranges = (false, db) := by
  unfold insertChunks
  split
  · rfl
  · rename_i hbegin
    split
    · rfl
    · rename_i db' hrows
      rcases h with h | ⟨k, hk, h⟩ | h
      · exact absurd h hbegin
      · rw [insertRows_none hk (by rwa [Nat.zero_add])] at hrows
        cases hrows
      · exact if_pos h

/-- The chunks of a job without chunks, after an insertion that succeeds. -/
theorem insertChunks_done {ranges : List ChunkRange} (h : ¬ InsertFails fails ranges)
    (hjob : ∃ j ∈ db.jobs, j.jobId = jobId) (hnone : chunksOf db jobId = []) :
    ∃ db', insertChunks fails db jobId ranges = (true, db') ∧ db'.jobs = db.jobs ∧
      (chunksOf db' jobId).map unnumbered = freshRows jobId ranges := by
  unfold InsertFails at h
  rw [not_or, not_or] at h
  obtain ⟨hbegin, hrows, hcommit⟩ := h
  obtain ⟨db', hdb'⟩ := insertRows_some ranges hjob
  obtain ⟨hjobs, new, hchunks, hkeys, hnew⟩ := insertRows_spec hdb'
  refine ⟨db', ?_, hjobs, ?_⟩
  · unfold insertChunks
    rw [if_neg hbegin, insertRows_eq, hdb']
    · exact if_neg hcommit
    · intro k hk
      rw [Nat.zero_add, ← Bool.not_eq_true]
      exact fun hfail => hrows ⟨k, hk, hfail⟩
  · have hall : ∀ c ∈ new, c.jobId = jobId := by
      intro c hc
      obtain ⟨id, r, -, rfl⟩ := hnew c hc
      rfl
    have hrowsOf : chunksOf db' jobId = new := by
      rw [chunksOf_append_self hchunks hall, hnone, List.nil_append]
    have hkey : ∀ c ∈ new, unnumbered c = .fresh 0 c.key.1 c.key.2.frameStart c.key.2.frameEnd := by
      intro c hc
      obtain ⟨id, r, -, rfl⟩ := hnew c hc
      rfl
    calc (chunksOf db' jobId).map unnumbered
        = new.map (fun c => .fresh 0 c.key.1 c.key.2.frameStart c.key.2.frameEnd) := by
          rw [hrowsOf, List.map_congr_left hkey]
      _ = (new.map (·.key)).map fun k => .fresh 0 k.1 k.2.frameStart k.2.frameEnd := by
          rw [List.map_map]
          rfl
      _ = freshRows jobId ranges := by
          rw [hkeys, List.map_map]
          rfl

theorem chunksOf_deleteChunkRows : chunksOf (db.deleteChunkRows jobId) jobId = [] := by
  refine List.filter_eq_nil_iff.mpr fun c hc h => ?_
  exact of_decide_eq_true (List.mem_filter.mp hc).2 (of_decide_eq_true h)

/-- The job once the priority and the manifest were written. -/
def storedJob (fails : Statement → Bool) (e : Edit) (j : JobRecord) : JobRecord :=
  { j with
    priority := if fails .updatePriority then j.priority else e.priority
    sortKey := if fails .updatePriority then j.sortKey else some j.submittedAtMs
    manifestJson := if fails .updateManifest then j.manifestJson else e.manifestJson }

/-- The job once the epoch and the state were written too. -/
def resetJob (fails : Statement → Bool) (e : Edit) (j : JobRecord) : JobRecord :=
  { storedJob fails e j with
    editEpoch := if fails .updateEpoch then j.editEpoch else j.editEpoch + 1
    currentState := if fails .updateState then j.currentState else .active }

/-- The database once the priority and the manifest were written. -/
def storedDb (fails : Statement → Bool) (e : Edit) (db : Db) : Db :=
  let db := (write fails .updatePriority db (updateJobPriority db e.jobId e.priority)).2
  (write fails .updateManifest db (updateJobManifest db e.jobId e.manifestJson)).2

/-- The database before the chunks are reset. -/
def bumpedDb (fails : Statement → Bool) (e : Edit) (db : Db) : Db :=
  (bumpEditEpoch fails (storedDb fails e db) e.jobId).2

/-- The database once the job is active again. -/
def activeDb (fails : Statement → Bool) (e : Edit) (db : Db) : Db :=
  (write fails .updateState db (updateJobState db e.jobId .active)).2

theorem storedDb_chunks : (storedDb fails e db).chunks = db.chunks :=
  chunks_write.trans chunks_write

theorem bumpedDb_chunks : (bumpedDb fails e db).chunks = db.chunks := by
  unfold bumpedDb bumpEditEpoch
  split
  · exact storedDb_chunks
  · exact storedDb_chunks

theorem activeDb_chunks : (activeDb fails e db).chunks = db.chunks := chunks_write

theorem storedDb_job? (hj : db.job? e.jobId = some j) :
    (storedDb fails e db).job? e.jobId = some (storedJob fails e j) := by
  refine job?_write.trans ?_
  rw [updateJobPriority, job?_write, hj, Option.map_some, Option.map_some]
  unfold storedJob
  cases fails .updatePriority with
  | true =>
      cases fails .updateManifest with
      | true => rfl
      | false => rfl
  | false =>
      cases fails .updateManifest with
      | true => rfl
      | false => rfl

theorem bumpedDb_job? (hj : db.job? e.jobId = some j) :
    (bumpedDb fails e db).job? e.jobId =
      some { storedJob fails e j with
        editEpoch := if fails .updateEpoch then j.editEpoch else j.editEpoch + 1 } := by
  unfold bumpedDb bumpEditEpoch
  split
  · exact storedDb_job? hj
  · have hid : (storedJob fails e j).jobId = e.jobId := (Db.job?_eq_some.mp hj).2
    unfold DatabaseManager.bumpEditEpoch
    rw [Db.job?_updateJobs, storedDb_job? hj, Option.map_some, if_pos (decide_eq_true hid)]
    rfl

theorem activeDb_job? {db₃ : Db} (hj : db.job? e.jobId = some j)
    (hjobs : db₃.jobs = (bumpedDb fails e db).jobs) :
    (activeDb fails e db₃).job? e.jobId = some (resetJob fails e j) := by
  have hsame : db₃.job? e.jobId = (bumpedDb fails e db).job? e.jobId :=
    job?_congr hjobs e.jobId
  refine job?_write.trans ?_
  rw [hsame, bumpedDb_job? hj, Option.map_some]
  unfold resetJob
  cases fails .updateState with
  | true => rfl
  | false => rfl

/-! ## What they amount to -/

/-- An edit that only stores is done where its two writes are, or had nothing
to do. -/
theorem updated_store_iff (hmode : ¬ e.resets) :
    Updated e manifest db (storedDb fails e db) j (storedJob fails e j) ↔
      Idle fails e manifest j (chunksOf db e.jobId) := by
  constructor
  · intro h
    exact {
      priority := ite_eq_right_iff.mp h.priority
      manifestJson := ite_eq_right_iff.mp h.manifestJson
      epoch := fun h => absurd h hmode
      state := fun h => absurd h hmode
      chunks := fun h => absurd h hmode }
  · intro h
    exact {
      priority := ite_eq_right_iff.mpr h.priority
      manifestJson := ite_eq_right_iff.mpr h.manifestJson
      epoch := fun h => absurd h hmode
      state := fun h => absurd h hmode
      chunks := fun h => absurd h hmode
      kept := fun _ => ⟨rfl, rfl, chunksOf_congr storedDb_chunks _⟩ }

/-- So is one that resets, given what becomes of the chunks. -/
theorem updated_reset_iff {db₃ : Db} {keeps : Prop} (hmode : e.resets)
    (hchunks : ChunksUpdated e manifest (chunksOf db e.jobId) (chunksOf db₃ e.jobId) ∧ keeps ↔
      ResetIdle fails e manifest (chunksOf db e.jobId)) :
    Updated e manifest db (activeDb fails e db₃) j (resetJob fails e j) ∧ keeps ↔
      Idle fails e manifest j (chunksOf db e.jobId) := by
  have hrows : chunksOf (activeDb fails e db₃) e.jobId = chunksOf db₃ e.jobId :=
    chunksOf_congr activeDb_chunks _
  constructor
  · rintro ⟨h, hkeeps⟩
    refine ⟨ite_eq_right_iff.mp h.priority, ite_eq_right_iff.mp h.manifestJson, fun _ => ?_,
      fun _ => ite_eq_right_iff.mp (h.state hmode),
      fun _ => hchunks.mp ⟨hrows ▸ h.chunks hmode, hkeeps⟩⟩
    rw [← Bool.not_eq_true]
    intro hfails
    have hsame : j.editEpoch = j.editEpoch + 1 := ite_eq_right_iff.mp (h.epoch hmode) hfails
    omega
  · intro h
    obtain ⟨hdone, hkeeps⟩ := hchunks.mpr (h.chunks hmode)
    refine ⟨{
      priority := ite_eq_right_iff.mpr h.priority
      manifestJson := ite_eq_right_iff.mpr h.manifestJson
      epoch := fun _ => if_neg (Bool.not_eq_true _ ▸ h.epoch hmode)
      state := fun _ => ite_eq_right_iff.mpr (h.state hmode)
      chunks := fun _ => hrows.symm ▸ hdone
      kept := fun hnot => absurd hmode hnot }, hkeeps⟩

/-- A restart takes the assigned chunks back, or there were none. -/
theorem restart_iff (fails : Statement → Bool) (manifest : JobManifest) (db : Db)
    (hmode : e.mode = "restart") :
    ChunksUpdated e manifest (chunksOf db e.jobId)
        (chunksOf (write fails .resetAssigned db (resetAssignedChunks db e.jobId)).2 e.jobId) ↔
      ResetIdle fails e manifest (chunksOf db e.jobId) := by
  have hupdate : update (fun c => decide (c.jobId = e.jobId ∧ c.state = .assigned)) toPending
      (chunksOf db e.jobId) = update (fun c => c.state = .assigned) toPending
        (chunksOf db e.jobId) := by
    refine List.map_congr_left fun c hc => ?_
    have hjob : c.jobId = e.jobId := (mem_chunksOf.mp hc).2
    simp only [hjob, true_and]
  unfold ChunksUpdated ResetIdle
  rw [if_pos hmode, if_pos hmode]
  unfold write
  split
  · rename_i hfails
    rw [eq_comm, update_eq_self_iff]
    constructor
    · intro h _ c hc hs
      have heq := h c hc (decide_eq_true hs)
      have hpending : c.state = .pending := by
        rw [← heq]
        rfl
      rw [hs] at hpending
      cases hpending
    · intro h c hc hs
      exact absurd (of_decide_eq_true hs) (h hfails c hc)
  · rename_i hruns
    refine iff_of_true ?_ fun hfails => absurd hfails hruns
    unfold resetAssignedChunks
    dsimp only
    rw [chunksOf_updateChunks, hupdate]

/-- A rebuild makes the new rows and keeps no old ones, or it answers false and
keeps them. -/
theorem rebuild_iff (fails : Statement → Bool) (hmode : e.mode ≠ "restart")
    {ranges : List ChunkRange}
    (hranges : computeChunks manifest.frameStart manifest.frameEnd manifest.chunkSize =
      some ranges) (hjob : ∃ j ∈ db.jobs, j.jobId = e.jobId) :
    ChunksUpdated e manifest (chunksOf db e.jobId)
        (chunksOf (rebuildChunks fails db e.jobId ranges).2 e.jobId) ∧
        KeepsRows fails (.rebuildChunks e.jobId ranges) db ↔
      ResetIdle fails e manifest (chunksOf db e.jobId) := by
  have hupdated : ∀ rows rows', ChunksUpdated e manifest rows rows' ↔
      rows'.map unnumbered = freshRows e.jobId ranges := by
    intro rows rows'
    unfold ChunksUpdated
    rw [if_neg hmode, hranges]
    constructor
    · rintro ⟨_, h, hrows⟩
      cases h
      exact hrows
    · exact fun h => ⟨ranges, rfl, h⟩
  have hkeeps : KeepsRows fails (.rebuildChunks e.jobId ranges) db ↔
      ((rebuildChunks fails db e.jobId ranges).1 = false →
        chunksOf (rebuildChunks fails db e.jobId ranges).2 e.jobId = chunksOf db e.jobId) := by
    constructor
    · exact fun h => h _ _ rfl
    · rintro h _ _ hcall
      cases hcall
      exact h
  have hidle : ResetIdle fails e manifest (chunksOf db e.jobId) ↔
      if fails .deleteChunks then
        (chunksOf db e.jobId).map unnumbered = freshRows e.jobId ranges
      else InsertFails fails ranges → chunksOf db e.jobId = [] ∧ ranges = [] := by
    unfold ResetIdle
    rw [if_neg hmode, hranges]
    constructor
    · rintro ⟨_, h, hrest⟩
      cases h
      exact hrest
    · exact fun h => ⟨ranges, rfl, h⟩
  rw [hupdated, hkeeps, hidle]
  unfold rebuildChunks
  split
  · exact and_iff_left fun _ => rfl
  · by_cases hinsert : InsertFails fails ranges
    · rw [insertChunks_fails hinsert]
      dsimp only
      rw [chunksOf_deleteChunkRows]
      constructor
      · rintro ⟨hnone, hsame⟩ _
        exact ⟨(hsame rfl).symm, List.map_eq_nil_iff.mp hnone.symm⟩
      · intro h
        obtain ⟨hnone, rfl⟩ := h hinsert
        exact ⟨rfl, fun _ => hnone.symm⟩
    · have hdeleted : ∃ j ∈ (db.deleteChunkRows e.jobId).jobs, j.jobId = e.jobId := hjob
      obtain ⟨db', hdb', -, hrows⟩ :=
        insertChunks_done hinsert hdeleted chunksOf_deleteChunkRows
      rw [hdb']
      exact iff_of_true ⟨hrows, fun h => nomatch h⟩ fun h => absurd h hinsert

/-! ## The edit call by call -/

/-- An edit with a manifest reads the job before anything else. -/
def afterJob (e : Edit) (edit : DbProg (Option EditOutcome)) : DbProg (Option EditOutcome) :=
  .call (.getJob e.jobId) fun job : Option JobRow =>
    if job.isNone then .done (some ⟨⟨.jobNotFound, "no such job: " ++ e.jobId⟩, [], false⟩)
    else edit

theorem program_afterJob (hopen : e.dbOpen = true)
    (hm : editManifest T e.jobId e.manifestJson = .ok manifest) :
    ∃ edit, e.program T = afterJob e edit := by
  unfold Edit.program applyEditLocally
  rw [hopen, hm]
  exact ⟨_, rfl⟩

theorem program_store (hopen : e.dbOpen = true)
    (hm : editManifest T e.jobId e.manifestJson = .ok manifest) (hmode : ¬ e.resets) :
    e.program T = afterJob e
      (.call (.updateJobPriority e.jobId e.priority) fun _ =>
        .call (.updateJobManifest e.jobId e.manifestJson) fun _ =>
          .done (some ⟨⟨.applied, ""⟩, [], false⟩)) := by
  unfold Edit.program applyEditLocally
  unfold Edit.resets at hmode
  rw [hopen, hm]
  simp only [if_neg hmode]
  rfl

theorem program_restart (hopen : e.dbOpen = true)
    (hm : editManifest T e.jobId e.manifestJson = .ok manifest) (hmode : e.mode = "restart") :
    e.program T = afterJob e
      (.call (.updateJobPriority e.jobId e.priority) fun _ =>
        .call (.updateJobManifest e.jobId e.manifestJson) fun _ =>
          .call (.getAssignedNodes e.jobId) fun rendering =>
            .call (.bumpEditEpoch e.jobId) fun _ =>
              .call (.resetAssignedChunks e.jobId) fun _ =>
                .call (.updateJobState e.jobId .active) fun _ =>
                  .done (some ⟨⟨.applied, ""⟩, rendering, true⟩)) := by
  unfold Edit.program applyEditLocally resetForEdit
  rw [hopen, hm]
  simp only [hmode, true_or, if_true]
  rfl

theorem program_startover (hopen : e.dbOpen = true)
    (hm : editManifest T e.jobId e.manifestJson = .ok manifest) (hmode : e.mode = "startover")
    {ranges : List ChunkRange}
    (hranges : computeChunks manifest.frameStart manifest.frameEnd manifest.chunkSize =
      some ranges) :
    e.program T = afterJob e
      (.call (.updateJobPriority e.jobId e.priority) fun _ =>
        .call (.updateJobManifest e.jobId e.manifestJson) fun _ =>
          .call (.getAssignedNodes e.jobId) fun rendering =>
            .call (.bumpEditEpoch e.jobId) fun _ =>
              .call (.rebuildChunks e.jobId ranges) fun _ =>
                .call (.updateJobState e.jobId .active) fun _ =>
                  .done (some ⟨⟨.applied, ""⟩, rendering, true⟩)) := by
  have hne : ("startover" : String) ≠ "restart" := by decide
  unfold Edit.program applyEditLocally resetForEdit
  rw [hopen, hm]
  simp only [hmode, or_true, if_true, if_neg hne, hranges]
  rfl

/-- A startover whose range overflows does not return. -/
theorem program_overflow (hopen : e.dbOpen = true)
    (hm : editManifest T e.jobId e.manifestJson = .ok manifest) (hmode : e.mode = "startover")
    (hranges : computeChunks manifest.frameStart manifest.frameEnd manifest.chunkSize = none) :
    e.program T = afterJob e
      (.call (.updateJobPriority e.jobId e.priority) fun _ =>
        .call (.updateJobManifest e.jobId e.manifestJson) fun _ =>
          .call (.getAssignedNodes e.jobId) fun _ =>
            .call (.bumpEditEpoch e.jobId) fun _ => .done none) := by
  have hne : ("startover" : String) ≠ "restart" := by decide
  unfold Edit.program applyEditLocally resetForEdit
  rw [hopen, hm]
  simp only [hmode, or_true, if_true, if_neg hne, hranges]
  rfl

def isRebuild : DbCall → Bool
  | .rebuildChunks .. => true
  | _ => false

/-- Only a rebuild has rows to keep. -/
theorem meets_other {c : DbCall} {k : c.Reply → DbProg (Option EditOutcome)}
    (hc : isRebuild c = false) :
    (Prog.call (F := database) c k).Meets (exec fails T) (KeepsRows fails) db ↔
      (k (exec fails T c db).1).Meets (exec fails T) (KeepsRows fails) (exec fails T c db).2 := by
  refine and_iff_right ?_
  rintro i ranges rfl
  cases hc

/-- A refused edit returns another code and writes nothing. -/
theorem whole_of_refused (h : Refused T fails e db) : Whole T fails e db := by
  have hsettled : ∀ o : EditOutcome, o.result.code ≠ .applied → Settled T e db o db :=
    fun o hne => ⟨fun heq => absurd heq hne, fun _ => rfl⟩
  cases hopen : e.dbOpen with
  | false =>
      unfold Whole Edit.program applyEditLocally
      rw [hopen]
      exact ⟨⟨_, db, rfl, hsettled _ (by decide)⟩, trivial⟩
  | true =>
      cases hm : editManifest T e.jobId e.manifestJson with
      | error result =>
          have hne : result.code ≠ .applied := by
            rw [editManifest_code hm]
            decide
          unfold Whole Edit.program applyEditLocally
          rw [hopen, hm]
          exact ⟨⟨_, db, rfl, hsettled ⟨result, [], false⟩ hne⟩, trivial⟩
      | ok manifest =>
          have hnone : (exec fails T (.getJob e.jobId) db).1 = none := by
            rcases h with h | ⟨r, h⟩ | h | h
            · rw [h] at hopen
              cases hopen
            · rw [hm] at h
              cases h
            · exact if_pos h
            · have hjob : getJob db e.jobId = none := by
                unfold getJob
                rw [h]
                rfl
              exact ite_eq_left_iff.mpr fun _ => hjob
          obtain ⟨edit, hedit⟩ := program_afterJob hopen hm
          unfold Whole
          rw [hedit, afterJob, Prog.run_call, hnone]
          refine ⟨⟨_, db, rfl, hsettled _ fun h => nomatch h⟩, ?_⟩
          refine (meets_other rfl).mpr ?_
          rw [hnone]
          trivial

/-- An edit that is not refused goes on from where it is. -/
theorem whole_afterJob (hselect : fails .selectJob = false) (hj : db.job? e.jobId = some j)
    {edit : DbProg (Option EditOutcome)} (hedit : e.program T = afterJob e edit) :
    Whole T fails e db ↔
      (∃ o db', edit.run (exec fails T) db = (some o, db') ∧ Settled T e db o db') ∧
        edit.Meets (exec fails T) (KeepsRows fails) db := by
  have hsome : (exec fails T (.getJob e.jobId) db).1 = some (JobRow.ofRecord j) := by
    have hjob : getJob db e.jobId = some (JobRow.ofRecord j) := by
      unfold getJob
      rw [hj]
      rfl
    refine (if_neg ?_).trans hjob
    rw [hselect]
    exact Bool.false_ne_true
  unfold Whole
  rw [hedit, afterJob, Prog.run_call, hsome]
  refine and_congr_right fun _ => ?_
  refine (meets_other rfl).trans ?_
  rw [hsome]
  rfl

/-- An applied edit is settled where all of it is done. -/
theorem settled_applied_iff {db' : Db} {j' : JobRecord} {rendering : List String} {reset : Bool}
    (hm : editManifest T e.jobId e.manifestJson = .ok manifest) (hj : db.job? e.jobId = some j)
    (hj' : db'.job? e.jobId = some j') :
    Settled T e db ⟨⟨.applied, ""⟩, rendering, reset⟩ db' ↔ Updated e manifest db db' j j' := by
  constructor
  · intro h
    obtain ⟨m, i, i', hm', hi, hi', hdone⟩ := h.applied rfl
    rw [hm] at hm'
    rw [hj] at hi
    rw [hj'] at hi'
    cases hm'
    cases hi
    cases hi'
    exact hdone
  · exact fun h => ⟨fun _ => ⟨manifest, j, j', hm, hj, hj', h⟩, fun hne => absurd rfl hne⟩

/-! ## The edit by modes -/

theorem whole_store_iff (hopen : e.dbOpen = true)
    (hm : editManifest T e.jobId e.manifestJson = .ok manifest)
    (hselect : fails .selectJob = false) (hj : db.job? e.jobId = some j) (hmode : ¬ e.resets) :
    Whole T fails e db ↔ Idle fails e manifest j (chunksOf db e.jobId) := by
  rw [whole_afterJob hselect hj (program_store hopen hm hmode), ← updated_store_iff hmode,
    ← settled_applied_iff hm hj (storedDb_job? hj)]
  constructor
  · rintro ⟨⟨o, db', hrun, hsettled⟩, -⟩
    cases hrun
    exact hsettled
  · intro h
    refine ⟨⟨_, _, rfl, h⟩, ?_⟩
    exact (meets_other rfl).mpr ((meets_other rfl).mpr trivial)

theorem whole_restart_iff (hopen : e.dbOpen = true)
    (hm : editManifest T e.jobId e.manifestJson = .ok manifest)
    (hselect : fails .selectJob = false) (hj : db.job? e.jobId = some j)
    (hmode : e.mode = "restart") :
    Whole T fails e db ↔ Idle fails e manifest j (chunksOf db e.jobId) := by
  have hrows : chunksOf (bumpedDb fails e db) e.jobId = chunksOf db e.jobId :=
    chunksOf_congr bumpedDb_chunks _
  have hchunks := restart_iff fails manifest (bumpedDb fails e db) hmode
  rw [hrows, ← and_true (ChunksUpdated ..)] at hchunks
  have hjobs : (write fails .resetAssigned (bumpedDb fails e db)
      (resetAssignedChunks (bumpedDb fails e db) e.jobId)).2.jobs = (bumpedDb fails e db).jobs := by
    unfold write
    split
    · rfl
    · rfl
  rw [whole_afterJob hselect hj (program_restart hopen hm hmode),
    ← updated_reset_iff (.inl hmode) hchunks, and_true]
  constructor
  · rintro ⟨⟨o, db', hrun, hsettled⟩, -⟩
    cases hrun
    exact (settled_applied_iff hm hj (activeDb_job? hj hjobs)).mp hsettled
  · intro h
    refine ⟨⟨_, _, rfl, (settled_applied_iff hm hj (activeDb_job? hj hjobs)).mpr h⟩, ?_⟩
    refine (meets_other rfl).mpr ((meets_other rfl).mpr ((meets_other rfl).mpr ?_))
    exact (meets_other rfl).mpr ((meets_other rfl).mpr ((meets_other rfl).mpr trivial))

theorem rebuildChunks_jobs (fails : Statement → Bool) (ranges : List ChunkRange)
    (hjob : ∃ j ∈ db.jobs, j.jobId = jobId) :
    (rebuildChunks fails db jobId ranges).2.jobs = db.jobs := by
  unfold rebuildChunks
  split
  · rfl
  · by_cases hinsert : InsertFails fails ranges
    · rw [insertChunks_fails hinsert]
      rfl
    · have hdeleted : ∃ j ∈ (db.deleteChunkRows jobId).jobs, j.jobId = jobId := hjob
      obtain ⟨db', hdb', hjobs, -⟩ := insertChunks_done hinsert hdeleted chunksOf_deleteChunkRows
      rw [hdb']
      exact hjobs

theorem whole_startover_iff (hopen : e.dbOpen = true)
    (hm : editManifest T e.jobId e.manifestJson = .ok manifest)
    (hselect : fails .selectJob = false) (hj : db.job? e.jobId = some j)
    (hmode : e.mode = "startover") {ranges : List ChunkRange}
    (hranges : computeChunks manifest.frameStart manifest.frameEnd manifest.chunkSize =
      some ranges) :
    Whole T fails e db ↔ Idle fails e manifest j (chunksOf db e.jobId) := by
  have hne : e.mode ≠ "restart" := by
    rw [hmode]
    decide
  have hjob : ∃ j ∈ (bumpedDb fails e db).jobs, j.jobId = e.jobId :=
    ⟨_, Db.job?_eq_some.mp (bumpedDb_job? hj)⟩
  have hrows : chunksOf (bumpedDb fails e db) e.jobId = chunksOf db e.jobId :=
    chunksOf_congr bumpedDb_chunks _
  have hchunks := rebuild_iff fails hne hranges hjob
  rw [hrows] at hchunks
  have hj' := activeDb_job? hj (rebuildChunks_jobs fails ranges hjob)
  rw [whole_afterJob hselect hj (program_startover hopen hm hmode hranges),
    ← updated_reset_iff (.inr hmode) hchunks]
  refine and_congr ?_ ?_
  · constructor
    · rintro ⟨o, db', hrun, hsettled⟩
      cases hrun
      exact (settled_applied_iff hm hj hj').mp hsettled
    · exact fun h => ⟨_, _, rfl, (settled_applied_iff hm hj hj').mpr h⟩
  · refine (meets_other rfl).trans ((meets_other rfl).trans ?_)
    refine (meets_other rfl).trans ((meets_other rfl).trans ?_)
    exact and_iff_left ((meets_other rfl).mpr trivial)

theorem not_whole_overflow (hopen : e.dbOpen = true)
    (hm : editManifest T e.jobId e.manifestJson = .ok manifest)
    (hselect : fails .selectJob = false) (hj : db.job? e.jobId = some j)
    (hmode : e.mode = "startover")
    (hranges : computeChunks manifest.frameStart manifest.frameEnd manifest.chunkSize = none) :
    ¬ Whole T fails e db := by
  rw [whole_afterJob hselect hj (program_overflow hopen hm hmode hranges)]
  rintro ⟨⟨o, db', hrun, -⟩, -⟩
  cases hrun

/-- Whatever fails, an edit that is not refused is whole where the writes that
fail had nothing to do. -/
theorem whole_iff_idle (hopen : e.dbOpen = true)
    (hm : editManifest T e.jobId e.manifestJson = .ok manifest)
    (hselect : fails .selectJob = false) (hj : db.job? e.jobId = some j) :
    Whole T fails e db ↔ Idle fails e manifest j (chunksOf db e.jobId) := by
  by_cases hmode : e.resets
  · rcases hmode with hmode | hmode
    · exact whole_restart_iff hopen hm hselect hj hmode
    · cases hranges : computeChunks manifest.frameStart manifest.frameEnd manifest.chunkSize with
      | some ranges => exact whole_startover_iff hopen hm hselect hj hmode hranges
      | none =>
          refine iff_of_false (not_whole_overflow hopen hm hselect hj hmode hranges) ?_
          intro h
          have hidle := h.chunks (.inr hmode)
          unfold ResetIdle at hidle
          rw [if_neg (by rw [hmode]; decide), hranges] at hidle
          obtain ⟨_, heq, -⟩ := hidle
          cases heq
  · exact whole_store_iff hopen hm hselect hj hmode

/-- **An edit is whole exactly when it is refused or the writes that fail had
nothing to do.** For every database, every edit and any statements failing. -/
theorem whole_iff_harmless (T : JsonText) (fails : Statement → Bool) (e : Edit) (db : Db) :
    Whole T fails e db ↔ Harmless T fails e db := by
  by_cases hrefused : Refused T fails e db
  · exact iff_of_true (whole_of_refused hrefused) (.inl hrefused)
  · have hnot := hrefused
    unfold Refused at hnot
    rw [not_or, not_or, not_or, Bool.not_eq_false, Bool.not_eq_true] at hnot
    obtain ⟨hopen, hmanifest, hselect, hjob⟩ := hnot
    obtain ⟨j, hj⟩ := Option.ne_none_iff_exists'.mp hjob
    cases hm : editManifest T e.jobId e.manifestJson with
    | error r => exact absurd ⟨r, hm⟩ hmanifest
    | ok manifest =>
        rw [whole_iff_idle hopen hm hselect hj]
        constructor
        · exact fun h => .inr ⟨manifest, j, hm, hj, h⟩
        · rintro (h | ⟨m, i, hm', hi, h⟩)
          · exact absurd h hrefused
          · rw [hm] at hm'
            rw [hj] at hi
            cases hm'
            cases hi
            exact h

/-- A job with one chunk. -/
def shotDb : Db :=
  (DbCall.insertChunks "shot" [⟨1, 10⟩]).after shotText
    ((DbCall.insertJob { jobId := "shot", manifestJson := shotManifest }).after shotText .empty)

/-- A startover with a longer range. -/
def longer : Edit where
  jobId := "shot"
  manifestJson := longerManifest
  mode := "startover"
  priority := 50

/-- **An edit is applied without its chunks**: they are deleted, and the
transaction that would insert the new ones does not begin. -/
theorem failed_insertion_loses_chunks : ¬ ∀ T fails e db, Whole T fails e db := by
  intro h
  have hwhole := h shotText (· = .beginInsert) longer shotDb
  have hparsed : (editManifest shotText longer.jobId longer.manifestJson).toOption.isSome := by
    decide
  have hstored : (shotDb.job? longer.jobId).isSome := by decide
  have hrows : chunksOf shotDb longer.jobId ≠ [] := by decide
  obtain ⟨j, hj⟩ := Option.isSome_iff_exists.mp hstored
  cases hm : editManifest shotText longer.jobId longer.manifestJson with
  | error r =>
      rw [hm] at hparsed
      cases hparsed
  | ok manifest =>
      have hidle := ((whole_iff_idle rfl hm (by decide) hj).mp hwhole).chunks (.inr rfl)
      unfold ResetIdle at hidle
      rw [if_neg (by decide)] at hidle
      obtain ⟨ranges, -, hinsert⟩ := hidle
      rw [if_neg (by decide)] at hinsert
      exact hrows (hinsert (.inl (by decide))).1

end MinRender.FailingEdits
