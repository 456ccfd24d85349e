import MinRender.Framework.Table

/-!
# The leader's database

The two tables of `createSchema` and the statements the application runs on
them. A `Db` carries what the schema enforces (primary keys, the autoincrement
id, the foreign key) as fields, so every statement below is one that keeps
them.
-/

namespace MinRender

/-- The values of `chunks.state`. -/
inductive ChunkState
  | pending | assigned | completed | failed | stopped
deriving DecidableEq, Repr

/-- The text in the column. -/
def ChunkState.text : ChunkState → String
  | .pending => "pending"
  | .assigned => "assigned"
  | .completed => "completed"
  | .failed => "failed"
  | .stopped => "stopped"

/-- The values of `jobs.current_state`. -/
inductive JobState
  | active | paused | cancelled | completed | failed | archived
deriving DecidableEq, Repr

/-- A row of `jobs`. -/
structure JobRecord where
  jobId : String
  manifestJson : String
  currentState : JobState := .active
  priority : Int := 50
  submittedAtMs : Int
  sortKey : Option Int := none
  editEpoch : Int := 0
deriving DecidableEq, Repr

/-- A row of `chunks`. The two JSON array columns are kept as the lists they
encode. -/
structure ChunkRecord where
  id : Int
  jobId : String
  frameStart : Int
  frameEnd : Int
  state : ChunkState := .pending
  assignedTo : Option String := none
  assignedAtMs : Option Int := none
  completedAtMs : Option Int := none
  retryCount : Int := 0
  completedFrames : List Int := []
  failedOn : List String := []
  editEpoch : Int := 0
deriving DecidableEq, Repr

/-- A row as `INSERT INTO chunks (job_id, frame_start, frame_end)` makes it. -/
def ChunkRecord.fresh (id : Int) (jobId : String) (frameStart frameEnd : Int) :
    ChunkRecord :=
  { id, jobId, frameStart, frameEnd }

/-- The open database. `nextChunkId` is the next AUTOINCREMENT value. -/
structure Db where
  jobs : List JobRecord
  chunks : List ChunkRecord
  nextChunkId : Int
  jobKey : (jobs.map (·.jobId)).Nodup
  chunkKey : (chunks.map (·.id)).Nodup
  autoincrement : ∀ c ∈ chunks, c.id < nextChunkId
  foreignKey : ∀ c ∈ chunks, ∃ j ∈ jobs, j.jobId = c.jobId

namespace Db

/-- The rows are all of a database; its other fields are proofs. -/
@[ext]
theorem ext {a b : Db} (hjobs : a.jobs = b.jobs) (hchunks : a.chunks = b.chunks)
    (hnext : a.nextChunkId = b.nextChunkId) : a = b := by
  cases a
  cases b
  cases hjobs
  cases hchunks
  cases hnext
  rfl

/-- The database `createSchema` leaves. -/
def empty : Db where
  jobs := []
  chunks := []
  nextChunkId := 1
  jobKey := List.nodup_nil
  chunkKey := List.nodup_nil
  autoincrement := by simp
  foreignKey := by simp

/-! ## Statements -/

/-- `UPDATE jobs SET f WHERE p`, not touching the key. -/
def updateJobs (db : Db) (p : JobRecord → Bool) (f : JobRecord → JobRecord)
    (hid : ∀ j, (f j).jobId = j.jobId := by intro _; with_reducible rfl) : Db where
  jobs := Table.update p f db.jobs
  chunks := db.chunks
  nextChunkId := db.nextChunkId
  jobKey := by
    rw [Table.map_update _ hid]
    exact db.jobKey
  chunkKey := db.chunkKey
  autoincrement := db.autoincrement
  foreignKey := by
    intro c hc
    obtain ⟨j, hj, hjc⟩ := db.foreignKey c hc
    refine ⟨if p j then f j else j, Table.mem_update.mpr ⟨j, hj, rfl⟩, ?_⟩
    split
    · rw [hid, hjc]
    · exact hjc

/-- `UPDATE chunks SET f WHERE p`, not touching the keys. -/
def updateChunks (db : Db) (p : ChunkRecord → Bool)
    (f : ChunkRecord → ChunkRecord)
    (hid : ∀ c, (f c).id = c.id := by intro _; with_reducible rfl)
    (hjob : ∀ c, (f c).jobId = c.jobId := by intro _; with_reducible rfl) : Db where
  jobs := db.jobs
  chunks := Table.update p f db.chunks
  nextChunkId := db.nextChunkId
  jobKey := db.jobKey
  chunkKey := by
    rw [Table.map_update _ hid]
    exact db.chunkKey
  autoincrement := by
    intro c hc
    obtain ⟨s, hs, rfl⟩ := Table.mem_update.mp hc
    have hlt := db.autoincrement s hs
    split
    · rw [hid]
      exact hlt
    · exact hlt
  foreignKey := by
    intro c hc
    obtain ⟨s, hs, rfl⟩ := Table.mem_update.mp hc
    obtain ⟨j, hj, hjs⟩ := db.foreignKey s hs
    refine ⟨j, hj, ?_⟩
    split
    · rw [hjob, hjs]
    · exact hjs

/-- `INSERT INTO jobs`; `none` where the key is taken. -/
def insertJobRow (db : Db) (row : JobRecord) : Option Db :=
  if h : row.jobId ∈ db.jobs.map (·.jobId) then none
  else some {
    jobs := db.jobs ++ [row]
    chunks := db.chunks
    nextChunkId := db.nextChunkId
    jobKey := by
      rw [List.map_append]
      exact List.nodup_append.mpr ⟨db.jobKey, by simp, by
        intro a ha b hb
        simp only [List.map_cons, List.map_nil, List.mem_singleton] at hb
        rintro rfl
        exact h (hb ▸ ha)⟩
    chunkKey := db.chunkKey
    autoincrement := db.autoincrement
    foreignKey := fun c hc =>
      let ⟨j, hj, hjc⟩ := db.foreignKey c hc
      ⟨j, List.mem_append_left _ hj, hjc⟩ }

/-- `INSERT INTO chunks (job_id, frame_start, frame_end)`, the other columns
at their defaults; `none` where the job does not exist. -/
def insertChunkRow (db : Db) (jobId : String) (frameStart frameEnd : Int) :
    Option Db :=
  if h : ∃ j ∈ db.jobs, j.jobId = jobId then some {
    jobs := db.jobs
    chunks := db.chunks ++ [.fresh db.nextChunkId jobId frameStart frameEnd]
    nextChunkId := db.nextChunkId + 1
    jobKey := db.jobKey
    chunkKey := by
      rw [List.map_append]
      refine List.nodup_append.mpr ⟨db.chunkKey, by simp, ?_⟩
      intro a ha b hb
      obtain ⟨c, hc, rfl⟩ := List.mem_map.mp ha
      simp only [List.map_cons, List.map_nil, List.mem_singleton] at hb
      subst hb
      exact Int.ne_of_lt (db.autoincrement c hc)
    autoincrement := by
      intro c hc
      rcases List.mem_append.mp hc with hc | hc
      · exact Int.lt_add_one_of_le (Int.le_of_lt (db.autoincrement c hc))
      · rw [List.mem_singleton.mp hc]
        exact Int.lt_add_one_of_le (Int.le_refl _)
    foreignKey := by
      intro c hc
      rcases List.mem_append.mp hc with hc | hc
      · exact db.foreignKey c hc
      · rw [List.mem_singleton.mp hc]
        exact h }
  else none

/-- `DELETE FROM jobs WHERE job_id = ?`, cascading to the job's chunks. -/
def deleteJobRow (db : Db) (jobId : String) : Db where
  jobs := db.jobs.filter (·.jobId ≠ jobId)
  chunks := db.chunks.filter (·.jobId ≠ jobId)
  nextChunkId := db.nextChunkId
  jobKey := db.jobKey.sublist (List.filter_sublist.map _)
  chunkKey := db.chunkKey.sublist (List.filter_sublist.map _)
  autoincrement := fun c hc => db.autoincrement c (List.mem_filter.mp hc).1
  foreignKey := by
    intro c hc
    obtain ⟨hc, hne⟩ := List.mem_filter.mp hc
    obtain ⟨j, hj, hjc⟩ := db.foreignKey c hc
    exact ⟨j, List.mem_filter.mpr ⟨hj, by simpa [hjc] using hne⟩, hjc⟩

/-- `DELETE FROM chunks WHERE job_id = ?`. -/
def deleteChunkRows (db : Db) (jobId : String) : Db where
  jobs := db.jobs
  chunks := db.chunks.filter (·.jobId ≠ jobId)
  nextChunkId := db.nextChunkId
  jobKey := db.jobKey
  chunkKey := db.chunkKey.sublist (List.filter_sublist.map _)
  autoincrement := fun c hc => db.autoincrement c (List.mem_filter.mp hc).1
  foreignKey := fun c hc => db.foreignKey c (List.mem_filter.mp hc).1

/-! ## Reading rows -/

/-- The row of `jobs` under a key. -/
def job? (db : Db) (jobId : String) : Option JobRecord :=
  Table.row? (·.jobId) jobId db.jobs

/-- The row of `chunks` under an id. -/
def chunk? (db : Db) (id : Int) : Option ChunkRecord :=
  Table.row? (·.id) id db.chunks

variable {db : Db}

@[simp] theorem updateJobs_jobs {p f hid} :
    (db.updateJobs p f hid).jobs = Table.update p f db.jobs := rfl

@[simp] theorem updateChunks_chunks {p f hid hjob} :
    (db.updateChunks p f hid hjob).chunks = Table.update p f db.chunks := rfl

theorem job?_eq_some {jobId : String} {j : JobRecord} :
    db.job? jobId = some j ↔ j ∈ db.jobs ∧ j.jobId = jobId :=
  Table.row?_eq_some db.jobKey

theorem job?_eq_none {jobId : String} :
    db.job? jobId = none ↔ ∀ j ∈ db.jobs, j.jobId ≠ jobId :=
  Table.row?_eq_none

theorem chunk?_eq_some {id : Int} {c : ChunkRecord} :
    db.chunk? id = some c ↔ c ∈ db.chunks ∧ c.id = id :=
  Table.row?_eq_some db.chunkKey

/-- A chunk is determined by its id. -/
theorem chunk_ext {c d : ChunkRecord} (hc : c ∈ db.chunks) (hd : d ∈ db.chunks)
    (h : c.id = d.id) : c = d :=
  List.inj_on_of_nodup_map db.chunkKey hc hd h

/-- Every chunk has its job. -/
theorem job_of_chunk {c : ChunkRecord} (hc : c ∈ db.chunks) :
    ∃ j, db.job? c.jobId = some j := by
  obtain ⟨j, hj, hjc⟩ := db.foreignKey c hc
  exact ⟨j, job?_eq_some.mpr ⟨hj, hjc⟩⟩

/-- `UPDATE jobs` seen through the key. -/
theorem job?_updateJobs {p f hid} {jobId : String} :
    (db.updateJobs p f hid).job? jobId =
      (db.job? jobId).map fun j => if p j then f j else j :=
  Table.row?_update hid jobId db.jobs

@[simp] theorem job?_updateChunks {p f hid hjob} {jobId : String} :
    (db.updateChunks p f hid hjob).job? jobId = db.job? jobId := rfl

end Db

end MinRender
