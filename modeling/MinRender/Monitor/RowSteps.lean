import MinRender.Monitor.DatabaseCalls

/-!
# What a database call does to the rows

`RowStep call c c'` lists every way a call turns a chunk row `c` into `c'`,
with the condition the statement tests, and `JobStep` does the same for jobs.
`chunks_evolve` and `jobs_evolve` prove the lists complete: a call keeps the
rows it does not delete, evolves each by a listed step, and appends new ones.
-/

namespace MinRender
open DatabaseManager Table

/-- A chunk's job and range. -/
def ChunkRecord.key (c : ChunkRecord) : String × ChunkRange :=
  (c.jobId, ⟨c.frameStart, c.frameEnd⟩)

/-! ## Steps of a chunk row -/

inductive RowStep : DbCall → ChunkRecord → ChunkRecord → Prop
  | same {call c} : RowStep call c c
  | assign {c id node nowMs epoch} (hid : c.id = id) (hs : c.state = .pending) :
      RowStep (.assignChunk id node nowMs epoch) c
        { c with state := .assigned, assignedTo := some node,
                 assignedAtMs := some nowMs, editEpoch := epoch }
  | complete {c jobId fs fe nowMs node epoch}
      (hf : fence jobId fs fe node epoch c = true) :
      RowStep (.completeChunk jobId fs fe nowMs node epoch) c
        { c with state := .completed, completedAtMs := some nowMs }
  | blacklist {c jobId fs fe mr node epoch} (failedOn : List String)
      (hr : inRange jobId fs fe c = true) :
      RowStep (.failChunk jobId fs fe mr node epoch) c
        { c with failedOn := failedOn }
  | fail {c jobId fs fe mr node epoch} (failedOn : List String)
      (hr : inRange jobId fs fe c = true) (hs : c.state = .assigned) :
      RowStep (.failChunk jobId fs fe mr node epoch) c
        (failRow mr { c with failedOn := failedOn })
  | revert {c jobId fs fe} (hr : inRange jobId fs fe c = true) :
      RowStep (.revertChunkToPending jobId fs fe) c (toPending c)
  | reclaim {c node} (ha : c.assignedTo = some node) (hs : c.state = .assigned) :
      RowStep (.reassignDeadWorkerChunks node) c (toPending c)
  | stop {c id} (hid : c.id = id) (hs : c.state = .pending ∨ c.state = .assigned) :
      RowStep (.stopChunk id) c
        { c with state := .stopped, assignedTo := none, assignedAtMs := none }
  | resetAll {c jobId} (hj : c.jobId = jobId) :
      RowStep (.resetAllChunks jobId) c
        { toPending c with completedAtMs := none, retryCount := 0,
                           completedFrames := [], failedOn := [] }
  | resetAssigned {c jobId} (hj : c.jobId = jobId) (hs : c.state = .assigned) :
      RowStep (.resetAssignedChunks jobId) c (toPending c)
  | retry {c jobId} (hj : c.jobId = jobId) (hs : c.state = .failed) :
      RowStep (.retryFailedChunks jobId) c
        { toPending c with retryCount := 0, completedFrames := [] }
  | requeue {c id nowMs} (hr : reassignable id c = true) :
      RowStep (.reassignChunk id "" nowMs) c (toPending c)
  | reassign {c id node nowMs} (hn : node ≠ "") (hr : reassignable id c = true) :
      RowStep (.reassignChunk id node nowMs) c
        { c with state := .assigned, assignedTo := some node,
                 assignedAtMs := some nowMs }
  | markCompleted {c jobId ranges nowMs} :
      RowStep (.markChunksCompleted jobId ranges nowMs) c
        { c with state := .completed, completedAtMs := some nowMs }
  | frame {c jobId frame} (cf : List Int) :
      RowStep (.addCompletedFrames jobId frame) c { c with completedFrames := cf }
  | frames {c jobId frames} (cf : List Int) :
      RowStep (.addCompletedFramesBatch jobId frames) c
        { c with completedFrames := cf }

/-- The rows a call inserts: pending, with the table's defaults. -/
def NewRow (call : DbCall) (c : ChunkRecord) : Prop :=
  ∃ jobId ranges, (call = .insertChunks jobId ranges ∨
      call = .rebuildChunks jobId ranges) ∧
    ∃ id, ∃ r ∈ ranges, c = .fresh id jobId r.frameStart r.frameEnd

/-- The rows a call does not delete. -/
def DbCall.keepsRow : DbCall → ChunkRecord → Bool
  | .deleteJob jobId, c => c.jobId ≠ jobId
  | .rebuildChunks jobId _, c => c.jobId ≠ jobId
  | _, _ => true

/-! ## Steps of a job row -/

inductive JobStep : DbCall → JobRecord → JobRecord → Prop
  | same {call j} : JobStep call j j
  | state {j jobId s} (hj : j.jobId = jobId) :
      JobStep (.updateJobState jobId s) j { j with currentState := s }
  | priority {j jobId p} (hj : j.jobId = jobId) :
      JobStep (.updateJobPriority jobId p) j
        { j with priority := p, sortKey := some j.submittedAtMs }
  | manifest {j jobId m} (hj : j.jobId = jobId) :
      JobStep (.updateJobManifest jobId m) j { j with manifestJson := m }
  | bump {j jobId} (hj : j.jobId = jobId) :
      JobStep (.bumpEditEpoch jobId) j { j with editEpoch := j.editEpoch + 1 }
  | retried {j jobId} (hj : j.jobId = jobId) :
      JobStep (.retryFailedChunks jobId) j { j with currentState := .active }
  | reopened {j id nowMs}
      (hs : j.currentState = .completed ∨ j.currentState = .failed) :
      JobStep (.reassignChunk id "" nowMs) j { j with currentState := .active }
  | moved {j jobId target before} (p : Int) (key : Option Int) :
      JobStep (.moveJob jobId target before) j
        { j with priority := p, sortKey := key }

/-- The job row a call inserts. -/
def NewJob (call : DbCall) (j : JobRecord) : Prop :=
  ∃ job : JobRow, call = .insertJob job ∧ j =
    { jobId := job.jobId, manifestJson := job.manifestJson,
      currentState := job.currentState, priority := job.priority,
      submittedAtMs := job.submittedAtMs, sortKey := some job.submittedAtMs }

/-- The jobs a call does not delete. -/
def DbCall.keepsJob : DbCall → JobRecord → Bool
  | .deleteJob jobId, j => j.jobId ≠ jobId
  | _, _ => true

theorem JobStep.jobId_eq {call : DbCall} {j j' : JobRecord}
    (h : JobStep call j j') : j'.jobId = j.jobId := by
  cases h <;> rfl

theorem RowStep.id_eq {call : DbCall} {c c' : ChunkRecord}
    (h : RowStep call c c') : c'.id = c.id := by
  cases h <;> rfl

theorem RowStep.jobId_eq {call : DbCall} {c c' : ChunkRecord}
    (h : RowStep call c c') : c'.jobId = c.jobId := by
  cases h <;> rfl

/-- No call moves a row to another job or range. -/
theorem RowStep.key_eq {call : DbCall} {c c' : ChunkRecord}
    (h : RowStep call c c') : c'.key = c.key := by
  cases h <;> rfl

/-! ## The operations with more than one statement -/

/-- What a successful insertion appends. -/
theorem insertRows_spec {jobId : String} :
    ∀ {ranges : List ChunkRange} {db db' : Db},
      insertRows jobId ranges db = some db' →
      db'.jobs = db.jobs ∧ ∃ new, db'.chunks = db.chunks ++ new ∧
        new.map (·.key) = ranges.map (jobId, ·) ∧
        ∀ c ∈ new, ∃ id, ∃ r ∈ ranges, c = .fresh id jobId r.frameStart r.frameEnd
  | [], db, db', h => by
      cases h
      exact ⟨rfl, [], by simp, rfl, by simp⟩
  | r :: rs, db, db', h => by
      simp only [insertRows, Db.insertChunkRow] at h
      split at h
      case isFalse => simp at h
      case isTrue =>
        obtain ⟨hjobs, new, hchunks, hkeys, hnew⟩ := insertRows_spec h
        refine ⟨hjobs, .fresh db.nextChunkId jobId r.frameStart r.frameEnd :: new,
          by simp [hchunks], by rw [List.map_cons, List.map_cons, hkeys]; rfl, ?_⟩
        intro c hc
        rcases List.mem_cons.mp hc with rfl | hc
        · exact ⟨_, r, List.mem_cons_self, rfl⟩
        · obtain ⟨id, r', hr', rfl⟩ := hnew c hc
          exact ⟨id, r', List.mem_cons_of_mem _ hr', rfl⟩

/-- Rows can be inserted for a stored job. -/
theorem insertRows_some {jobId : String} : ∀ (ranges : List ChunkRange) {db : Db},
    (∃ j ∈ db.jobs, j.jobId = jobId) → ∃ db', insertRows jobId ranges db = some db'
  | [], db, _ => ⟨db, rfl⟩
  | r :: ranges, db, hjob => by
      simp only [insertRows, Db.insertChunkRow, dif_pos hjob, Option.bind_some]
      exact insertRows_some ranges hjob

theorem insertChunks_spec (db : Db) (jobId : String) (ranges : List ChunkRange) :
    (insertChunks db jobId ranges).2.jobs = db.jobs ∧
      ∃ new, (insertChunks db jobId ranges).2.chunks = db.chunks ++ new ∧
        (new = [] ∨ new.map (·.key) = ranges.map (jobId, ·)) ∧
        ∀ c ∈ new, ∃ id, ∃ r ∈ ranges, c = .fresh id jobId r.frameStart r.frameEnd := by
  unfold insertChunks
  cases h : insertRows jobId ranges db with
  | none => exact ⟨rfl, [], by simp, .inl rfl, by simp⟩
  | some db' =>
      obtain ⟨hjobs, new, hchunks, hkeys, hnew⟩ := insertRows_spec h
      exact ⟨hjobs, new, hchunks, .inr hkeys, hnew⟩

/-- A job is inserted where its id is free, and nothing happens where it is
taken. -/
theorem insertJob_cases (db : Db) (job : JobRow) :
    (db.job? job.jobId).isSome ∧ insertJob db job = (false, db) ∨
      db.job? job.jobId = none ∧ (insertJob db job).1 = true ∧
        (insertJob db job).2.chunks = db.chunks ∧
        (insertJob db job).2.jobs = db.jobs ++ [{ jobId := job.jobId
                                                  manifestJson := job.manifestJson
                                                  currentState := job.currentState
                                                  priority := job.priority
                                                  submittedAtMs := job.submittedAtMs
                                                  sortKey := some job.submittedAtMs }] := by
  by_cases htaken : job.jobId ∈ db.jobs.map (·.jobId)
  · obtain ⟨j, hj, hid⟩ := List.mem_map.mp htaken
    have hsome : db.job? job.jobId = some j := Db.job?_eq_some.mpr ⟨hj, hid⟩
    refine .inl ⟨by rw [hsome]; rfl, ?_⟩
    unfold insertJob Db.insertJobRow
    rw [dif_pos htaken]
  · have hnone : db.job? job.jobId = none :=
      Db.job?_eq_none.mpr fun j hj hid => htaken (List.mem_map.mpr ⟨j, hj, hid⟩)
    refine .inr ⟨hnone, ?_⟩
    unfold insertJob Db.insertJobRow
    rw [dif_neg htaken]
    exact ⟨rfl, rfl, rfl⟩

/-- A fold of updates that each step rows by `R` steps rows by `R`. -/
private theorem forall₂_foldl {ι : Type} {R : ChunkRecord → ChunkRecord → Prop}
    (hrefl : ∀ c, R c c) (htrans : ∀ a b c, R a b → R b c → R a c)
    {f : Db → ι → Db}
    (hf : ∀ db i, List.Forall₂ R db.chunks (f db i).chunks ∧
      (f db i).jobs = db.jobs) :
    ∀ (is : List ι) (db : Db), List.Forall₂ R db.chunks (is.foldl f db).chunks ∧
      (is.foldl f db).jobs = db.jobs
  | [], db => ⟨List.forall₂_same.mpr fun c _ => hrefl c, rfl⟩
  | i :: is, db => by
      obtain ⟨hrows, hjobs⟩ := forall₂_foldl hrefl htrans hf is (f db i)
      obtain ⟨hrow, hjob⟩ := hf db i
      exact ⟨Table.forall₂_trans htrans hrow hrows, hjobs.trans hjob⟩

/-- The row as it was, or marked completed. -/
def Marked (nowMs : Int) (c c' : ChunkRecord) : Prop :=
  c' = c ∨ c' = { c with state := .completed, completedAtMs := some nowMs }

theorem markChunksCompleted_spec (db : Db) (jobId : String)
    (ranges : List ChunkRange) (nowMs : Int) :
    List.Forall₂ (Marked nowMs)
      db.chunks (markChunksCompleted db jobId ranges nowMs).chunks ∧
    (markChunksCompleted db jobId ranges nowMs).jobs = db.jobs := by
  have hrefl : ∀ c, Marked nowMs c c := fun c => .inl rfl
  refine forall₂_foldl hrefl ?_ (fun db r => ?_) ranges db
  · rintro a b c (rfl | rfl) (rfl | rfl) <;> simp [Marked]
  · exact ⟨Evolves.forall₂_update hrefl fun c _ _ => .inr rfl, rfl⟩

/-- The row with another list of completed frames. -/
def Reframed (c c' : ChunkRecord) : Prop :=
  ∃ cf, c' = { c with completedFrames := cf }

theorem writeBack_spec (db : Db) (chunkData : List ChunkData) :
    List.Forall₂ Reframed db.chunks (writeBack db chunkData).chunks ∧
    (writeBack db chunkData).jobs = db.jobs := by
  have hrefl : ∀ c, Reframed c c := fun c => ⟨c.completedFrames, rfl⟩
  refine forall₂_foldl hrefl ?_ (fun db cd => ?_) chunkData db
  · rintro a b c ⟨cf, rfl⟩ ⟨cf', rfl⟩
    exact ⟨cf', rfl⟩
  · by_cases hd : cd.dirty = true
    · rw [if_pos hd]
      exact ⟨Evolves.forall₂_update hrefl fun c _ _ => ⟨_, rfl⟩, rfl⟩
    · rw [if_neg hd]
      exact ⟨List.forall₂_same.mpr fun c _ => hrefl c, rfl⟩

/-- The job with another sort key. -/
def Rekeyed (j j' : JobRecord) : Prop := ∃ key, j' = { j with sortKey := key }

theorem renumber_spec (db : Db) (ids : List String) :
    List.Forall₂ Rekeyed db.jobs (renumber db ids).jobs ∧
      (renumber db ids).chunks = db.chunks := by
  have hrefl : ∀ j, Rekeyed j j := fun j => ⟨j.sortKey, rfl⟩
  unfold renumber
  generalize ids.zipIdx = xs
  induction xs generalizing db with
  | nil => exact ⟨List.forall₂_same.mpr fun j _ => hrefl j, rfl⟩
  | cons x xs ih =>
      obtain ⟨hjobs, hchunks⟩ := ih (db.updateJobs (·.jobId = x.1) fun j =>
        { j with sortKey := some ((x.2 + 1) * 1024) })
      refine ⟨Table.forall₂_trans ?_ (Evolves.forall₂_update hrefl ?_) hjobs,
        hchunks⟩
      · rintro a b c ⟨k, rfl⟩ ⟨k', rfl⟩
        exact ⟨k', rfl⟩
      · exact fun j _ _ => ⟨_, rfl⟩

/-! ## Completeness -/

/-- The blacklist grows on the first row of the range only. -/
theorem blacklist_spec (db : Db) (jobId : String) (fs fe : Int) (node : String) :
    List.Forall₂ (fun c c' => c' = c ∨ inRange jobId fs fe c = true ∧
        ∃ l, c' = { c with failedOn := l })
      db.chunks (blacklist db jobId fs fe node).chunks := by
  have hsame : List.Forall₂ (fun c c' => c' = c ∨ inRange jobId fs fe c = true ∧
      ∃ l, c' = { c with failedOn := l }) db.chunks db.chunks :=
    List.forall₂_same.mpr fun c _ => .inl rfl
  unfold blacklist
  split
  · exact hsame
  · split
    · exact hsame
    · rename_i row hrow
      split
      · exact hsame
      · refine Evolves.forall₂_update (fun c => .inl rfl) fun c hc hp => ?_
        have hid : c.id = row.id := of_decide_eq_true hp
        have heq : c = row := db.chunk_ext hc (List.mem_of_find?_eq_some hrow) hid
        exact .inr ⟨heq ▸ List.find?_some hrow, _, rfl⟩

theorem blacklist_jobs (db : Db) (jobId : String) (fs fe : Int) (node : String) :
    (blacklist db jobId fs fe node).jobs = db.jobs := by
  unfold blacklist
  split
  · rfl
  · split
    · rfl
    · split <;> rfl

theorem failChunk_evolves (db : Db) (jobId : String) (fs fe mr : Int)
    (node : String) (epoch : Int) :
    List.Forall₂ (RowStep (.failChunk jobId fs fe mr node epoch)) db.chunks
      (failChunk db jobId fs fe mr node epoch).2.chunks := by
  unfold failChunk
  split
  case isFalse => exact List.forall₂_same.mpr fun c _ => .same
  case isTrue =>
    have hlist := blacklist_spec db jobId fs fe node
    simp only [Db.updateChunks_chunks, update]
    rw [List.forall₂_map_right_iff]
    refine hlist.imp fun c c' hcc => ?_
    split
    · rename_i hp
      obtain ⟨hr, hs⟩ := of_decide_eq_true hp
      rcases hcc with rfl | ⟨hin, l, rfl⟩
      · exact .fail c'.failedOn hr hs
      · exact .fail l hin hs
    · rcases hcc with rfl | ⟨hin, l, rfl⟩
      · exact .same
      · exact .blacklist l hin

/-- A failure is accepted exactly when it passes the fence. -/
theorem failChunk_reply (db : Db) (jobId : String) (fs fe mr : Int) (node : String)
    (epoch : Int) :
    (failChunk db jobId fs fe mr node epoch).1 = isChunkCurrent db jobId fs fe node epoch := by
  unfold failChunk
  split
  · rename_i hcurrent
    rw [hcurrent]
    obtain ⟨c, hc, hf⟩ := List.any_eq_true.mp hcurrent
    obtain ⟨hr, hs, -⟩ := of_decide_eq_true hf
    obtain ⟨b, hb, hstep⟩ := (Evolves.of_forall₂ (N := fun _ => False)
      (blacklist_spec db jobId fs fe node)).persists hc rfl
    refine decide_eq_true (hits_pos.mpr ⟨b, hb, decide_eq_true ?_⟩)
    rcases hstep with rfl | ⟨-, l, rfl⟩
    · exact ⟨hr, hs⟩
    · exact ⟨hr, hs⟩
  · rename_i hstale
    exact (Bool.eq_false_iff.mpr hstale).symm

/-- What an accepted failure leaves of an assigned row of the range. -/
theorem failChunk_row {db : Db} {jobId : String} {fs fe : Int} {node : String} {epoch : Int}
    {c : ChunkRecord} (mr : Int) (hc : c ∈ db.chunks)
    (hcurrent : isChunkCurrent db jobId fs fe node epoch = true)
    (hr : inRange jobId fs fe c = true) (hs : c.state = .assigned) :
    ∃ l, failRow mr { c with failedOn := l } ∈
      (failChunk db jobId fs fe mr node epoch).2.chunks := by
  -- the blacklist entry leaves everything else of the row
  have hlisted : ∃ l, { c with failedOn := l } ∈ (blacklist db jobId fs fe node).chunks := by
    obtain ⟨b, hb, hstep⟩ := (Evolves.of_forall₂ (N := fun _ => False)
      (blacklist_spec db jobId fs fe node)).persists hc rfl
    rcases hstep with rfl | ⟨-, l, rfl⟩
    · exact ⟨b.failedOn, hb⟩
    · exact ⟨l, hb⟩
  obtain ⟨l, hb⟩ := hlisted
  refine ⟨l, ?_⟩
  unfold failChunk
  rw [if_pos hcurrent, Db.updateChunks_chunks, mem_update]
  exact ⟨_, hb, if_pos (decide_eq_true ⟨hr, hs⟩)⟩

/-- **The chunk steps are complete.** -/
theorem chunks_evolve (T : JsonText) (call : DbCall) (db : Db) :
    Evolves call.keepsRow (RowStep call) (NewRow call)
      db.chunks (call.after T db).chunks := by
  have hrefl : ∀ c, RowStep call c c := fun c => .same
  cases call with
  | getJob | getAllJobs | getChunksForJob | findNextPendingChunk
  | findNextPendingChunkForNode | isChunkCurrent | isJobEpochCurrent
  | getJobEditEpoch | getJobCompletionState | getAssignedNodes
  | updateJobState | updateJobPriority | updateJobManifest | bumpEditEpoch =>
      exact .refl hrefl
  | insertJob job =>
      simp only [DbCall.after, DbCall.exec, insertJob, Db.insertJobRow]
      split
      · rename_i h
        split at h
        · simp at h
        · cases h
          exact .refl hrefl
      · exact .refl hrefl
  | moveJob jobId target before =>
      simp only [DbCall.after, DbCall.exec, moveJob]
      split
      · exact .refl hrefl
      · split
        · simp only [(renumber_spec _ _).2]
          exact .refl hrefl
        · exact .refl hrefl
  | deleteJob jobId => exact .of_delete hrefl
  | insertChunks jobId ranges =>
      obtain ⟨-, new, hchunks, -, hnew⟩ := insertChunks_spec db jobId ranges
      simp only [DbCall.after, DbCall.exec, hchunks]
      exact .of_append hrefl fun c hc => ⟨jobId, ranges, .inl rfl, hnew c hc⟩
  | rebuildChunks jobId ranges =>
      obtain ⟨-, new, hchunks, -, hnew⟩ :=
        insertChunks_spec (db.deleteChunkRows jobId) jobId ranges
      simp only [DbCall.after, DbCall.exec, rebuildChunks, hchunks]
      exact .of_filter hrefl fun c hc => ⟨jobId, ranges, .inr rfl, hnew c hc⟩
  | assignChunk id node nowMs epoch =>
      exact .of_update hrefl fun c _ hp => by
        obtain ⟨hid, hs⟩ := of_decide_eq_true hp
        exact .assign hid hs
  | completeChunk jobId fs fe nowMs node epoch =>
      exact .of_update hrefl fun c _ hp => .complete hp
  | failChunk jobId fs fe mr node epoch =>
      exact .of_forall₂ (failChunk_evolves db jobId fs fe mr node epoch)
  | revertChunkToPending jobId fs fe =>
      exact .of_update hrefl fun c _ hp => .revert hp
  | reassignDeadWorkerChunks node =>
      exact .of_update hrefl fun c _ hp => by
        obtain ⟨ha, hs⟩ := of_decide_eq_true hp
        exact .reclaim ha hs
  | stopChunk id =>
      simp only [DbCall.after, DbCall.exec, stopChunk]
      split
      · exact .refl hrefl
      · split
        · exact .refl hrefl
        · exact .of_update hrefl fun c _ hp => by
            obtain ⟨hid, hs⟩ := of_decide_eq_true hp
            exact .stop hid hs
  | resetAllChunks jobId =>
      exact .of_update hrefl fun c _ hp => .resetAll (of_decide_eq_true hp)
  | resetAssignedChunks jobId =>
      exact .of_update hrefl fun c _ hp => by
        obtain ⟨hj, hs⟩ := of_decide_eq_true hp
        exact .resetAssigned hj hs
  | retryFailedChunks jobId =>
      simp only [DbCall.after, DbCall.exec, retryFailedChunks]
      split <;> exact .of_update hrefl fun c _ hp => by
        obtain ⟨hj, hs⟩ := of_decide_eq_true hp
        exact .retry hj hs
  | reassignChunk id node nowMs =>
      simp only [DbCall.after, DbCall.exec, reassignChunk]
      split
      · rename_i hn
        subst hn
        split
        · exact .refl hrefl
        · exact .of_update hrefl fun c _ hp => .requeue hp
      · rename_i hn
        exact .of_update hrefl fun c _ hp => .reassign hn hp
  | markChunksCompleted jobId ranges nowMs =>
      refine .of_forall₂ ((markChunksCompleted_spec db jobId ranges nowMs).1.imp ?_)
      rintro c c' (rfl | rfl)
      · exact .same
      · exact .markCompleted
  | addCompletedFrames jobId frame =>
      simp only [DbCall.after, DbCall.exec, addCompletedFrames]
      split
      · exact .refl hrefl
      · exact .of_update hrefl fun c _ _ => .frame _
  | addCompletedFramesBatch jobId frames =>
      simp only [DbCall.after, DbCall.exec, addCompletedFramesBatch]
      split
      · exact .refl hrefl
      · refine .of_forall₂ ((writeBack_spec _ _).1.imp ?_)
        rintro c c' ⟨cf, rfl⟩
        exact .frames cf

theorem moveJob_evolves (db : Db) (jobId target : String) (before : Bool) :
    List.Forall₂ (JobStep (.moveJob jobId target before)) db.jobs
      (moveJob db jobId target before).2.jobs := by
  have hsame : List.Forall₂ (JobStep (.moveJob jobId target before)) db.jobs
      db.jobs := List.forall₂_same.mpr fun j _ => .same
  unfold moveJob
  split
  · exact hsame
  · split
    · rename_i t _ ht
      have hkeys := fun ids => (renumber_spec (db.updateJobs (·.jobId = jobId)
        fun j => { j with priority := t.priority }) ids).1
      simp only [Db.updateJobs_jobs, update, List.forall₂_map_left_iff] at hkeys
      refine (hkeys _).imp fun j j' hj => ?_
      obtain ⟨key, rfl⟩ := hj
      split
      · exact .moved t.priority key
      · exact .moved j.priority key
    · exact hsame

theorem failChunk_jobs (db : Db) (jobId : String) (fs fe mr : Int)
    (node : String) (epoch : Int) :
    (failChunk db jobId fs fe mr node epoch).2.jobs = db.jobs := by
  unfold failChunk
  split
  · exact blacklist_jobs db jobId fs fe node
  · rfl

/-- **The job steps are complete.** -/
theorem jobs_evolve (T : JsonText) (call : DbCall) (db : Db) :
    Evolves call.keepsJob (JobStep call) (NewJob call)
      db.jobs (call.after T db).jobs := by
  have hrefl : ∀ j, JobStep call j j := fun j => .same
  cases call with
  | getJob | getAllJobs | getChunksForJob | findNextPendingChunk
  | findNextPendingChunkForNode | isChunkCurrent | isJobEpochCurrent
  | getJobEditEpoch | getJobCompletionState | getAssignedNodes | assignChunk
  | completeChunk | revertChunkToPending | reassignDeadWorkerChunks
  | resetAllChunks | resetAssignedChunks =>
      exact .refl hrefl
  | insertJob job =>
      simp only [DbCall.after, DbCall.exec, insertJob, Db.insertJobRow]
      split
      · rename_i h
        split at h
        · simp at h
        · cases h
          exact .of_append hrefl fun j hj => ⟨job, rfl, List.mem_singleton.mp hj⟩
      · exact .refl hrefl
  | updateJobState jobId s =>
      exact .of_update hrefl fun j _ hp => .state (of_decide_eq_true hp)
  | updateJobPriority jobId p =>
      exact .of_update hrefl fun j _ hp => .priority (of_decide_eq_true hp)
  | updateJobManifest jobId m =>
      exact .of_update hrefl fun j _ hp => .manifest (of_decide_eq_true hp)
  | bumpEditEpoch jobId =>
      exact .of_update hrefl fun j _ hp => .bump (of_decide_eq_true hp)
  | moveJob jobId target before =>
      exact .of_forall₂ (moveJob_evolves db jobId target before)
  | deleteJob jobId => exact .of_delete hrefl
  | insertChunks jobId ranges =>
      simp only [DbCall.after, DbCall.exec, (insertChunks_spec db jobId ranges).1]
      exact .refl hrefl
  | rebuildChunks jobId ranges =>
      simp only [DbCall.after, DbCall.exec, rebuildChunks,
        (insertChunks_spec (db.deleteChunkRows jobId) jobId ranges).1]
      exact .refl hrefl
  | failChunk jobId fs fe mr node epoch =>
      simp only [DbCall.after, DbCall.exec, failChunk_jobs]
      exact .refl hrefl
  | stopChunk id =>
      simp only [DbCall.after, DbCall.exec, stopChunk]
      split
      · exact .refl hrefl
      · split <;> exact .refl hrefl
  | retryFailedChunks jobId =>
      simp only [DbCall.after, DbCall.exec, retryFailedChunks]
      split
      · exact .of_update hrefl fun j _ hp => .retried (of_decide_eq_true hp)
      · exact .refl hrefl
  | reassignChunk id node nowMs =>
      simp only [DbCall.after, DbCall.exec, reassignChunk]
      split
      · rename_i hn
        subst hn
        split
        · exact .refl hrefl
        · exact .of_update hrefl fun j _ hp => .reopened (of_decide_eq_true hp).2
      · exact .refl hrefl
  | markChunksCompleted jobId ranges nowMs =>
      simp only [DbCall.after, DbCall.exec,
        (markChunksCompleted_spec db jobId ranges nowMs).2]
      exact .refl hrefl
  | addCompletedFrames jobId frame =>
      simp only [DbCall.after, DbCall.exec, addCompletedFrames]
      split <;> exact .refl hrefl
  | addCompletedFramesBatch jobId frames =>
      simp only [DbCall.after, DbCall.exec, addCompletedFramesBatch]
      split
      · exact .refl hrefl
      · simp only [(writeBack_spec _ _).2]
        exact .refl hrefl

variable {T : JsonText} {call : DbCall} {db : Db} {jobId : String}

/-! ## The chunks of a job -/

theorem chunksOf_congr {db' : Db} (h : db'.chunks = db.chunks) (jobId : String) :
    chunksOf db' jobId = chunksOf db jobId := by
  unfold chunksOf
  rw [h]

theorem chunksOf_append {db' : Db} {new : List ChunkRecord}
    (h : db'.chunks = db.chunks ++ new) (hnew : ∀ c ∈ new, c.jobId ≠ jobId) :
    chunksOf db' jobId = chunksOf db jobId := by
  have hnone : new.filter (fun c => c.jobId = jobId) = [] :=
    List.filter_eq_nil_iff.mpr fun c hc hj => hnew c hc (of_decide_eq_true hj)
  unfold chunksOf
  rw [h, List.filter_append, hnone, List.append_nil]

theorem chunksOf_append_self {db' : Db} {new : List ChunkRecord}
    (h : db'.chunks = db.chunks ++ new) (hnew : ∀ c ∈ new, c.jobId = jobId) :
    chunksOf db' jobId = chunksOf db jobId ++ new := by
  have hall : new.filter (fun c => c.jobId = jobId) = new :=
    List.filter_eq_self.mpr fun c hc => decide_eq_true (hnew c hc)
  unfold chunksOf
  rw [h, List.filter_append, hall]

theorem chunksOf_eq_nil (h : db.job? jobId = none) : chunksOf db jobId = [] := by
  refine List.filter_eq_nil_iff.mpr fun c hc hj => ?_
  obtain ⟨j, hjob⟩ := db.job_of_chunk hc
  rw [of_decide_eq_true hj, h] at hjob
  cases hjob

theorem chunksOf_of_update {db' : Db} {p : ChunkRecord → Bool} {f : ChunkRecord → ChunkRecord}
    (hf : ∀ c, (f c).jobId = c.jobId) (h : db'.chunks = update p f db.chunks) :
    chunksOf db' jobId = update p f (chunksOf db jobId) := by
  unfold chunksOf
  rw [h]
  unfold update
  rw [List.filter_map]
  refine congrArg _ (List.filter_congr fun c _ => ?_)
  have hjob : (if p c then f c else c).jobId = c.jobId := by
    split
    · exact hf c
    · rfl
  rw [Function.comp_apply, hjob]

theorem chunksOf_updateChunks {p : ChunkRecord → Bool} {f : ChunkRecord → ChunkRecord}
    {hid : ∀ c, (f c).id = c.id} {hjob : ∀ c, (f c).jobId = c.jobId} :
    chunksOf (db.updateChunks p f hid hjob) jobId = update p f (chunksOf db jobId) :=
  chunksOf_of_update hjob rfl

/-! ## The job under a key -/

theorem job?_congr {db' : Db} (h : db'.jobs = db.jobs) (jobId : String) :
    db'.job? jobId = db.job? jobId := by
  unfold Db.job?
  rw [h]

theorem job?_append {db' : Db} {new j : JobRecord} (h : db'.jobs = db.jobs ++ [new])
    (hj : db.job? jobId = some j) : db'.job? jobId = some j := by
  obtain ⟨hmem, hid⟩ := Db.job?_eq_some.mp hj
  refine Db.job?_eq_some.mpr ⟨?_, hid⟩
  rw [h]
  exact List.mem_append_left _ hmem

/-- A stored job takes one of its steps, unless the call deletes it. -/
theorem job?_after_some {j : JobRecord} (h : db.job? jobId = some j) :
    call = .deleteJob jobId ∨
      ∃ j', (call.after T db).job? jobId = some j' ∧ JobStep call j j' := by
  obtain ⟨hj, hid⟩ := Db.job?_eq_some.mp h
  by_cases hk : call.keepsJob j = true
  · obtain ⟨j', hj', hstep⟩ := (jobs_evolve T call db).persists hj hk
    exact .inr ⟨j', Db.job?_eq_some.mpr ⟨hj', hstep.jobId_eq.trans hid⟩, hstep⟩
  · cases call with
    | deleteJob i =>
        have hi : j.jobId = i := by simpa [DbCall.keepsJob] using hk
        exact .inl (by rw [← hid, hi])
    | _ => exact absurd rfl hk

/-- A job that is not stored appears only by being inserted. -/
theorem job?_after_none (h : db.job? jobId = none) :
    (call.after T db).job? jobId = none ∨
      ∃ j', (call.after T db).job? jobId = some j' ∧ NewJob call j' := by
  cases hj : (call.after T db).job? jobId with
  | none => exact .inl rfl
  | some j' =>
      obtain ⟨hmem, hid⟩ := Db.job?_eq_some.mp hj
      rcases (jobs_evolve T call db).mem hmem with hnew | ⟨j, hj, -, hstep⟩
      · exact .inr ⟨j', rfl, hnew⟩
      · exact absurd (hstep.jobId_eq ▸ hid) (Db.job?_eq_none.mp h j hj)

/-- A stored chunk takes one of its steps, unless the call deletes it. -/
theorem chunk?_after_some {id : Int} {c : ChunkRecord} (h : db.chunk? id = some c)
    (hk : call.keepsRow c = true) :
    ∃ c', (call.after T db).chunk? id = some c' ∧ RowStep call c c' := by
  obtain ⟨hc, hid⟩ := Db.chunk?_eq_some.mp h
  obtain ⟨c', hc', hstep⟩ := (chunks_evolve T call db).persists hc hk
  exact ⟨c', Db.chunk?_eq_some.mpr ⟨hc', hstep.id_eq.trans hid⟩, hstep⟩

theorem NewJob.editEpoch_eq {j : JobRecord} (h : NewJob call j) : j.editEpoch = 0 := by
  obtain ⟨job, -, rfl⟩ := h
  rfl

/-- Only a bump moves a job's epoch. -/
theorem JobStep.editEpoch_eq {j j' : JobRecord} (h : JobStep call j j')
    (hb : call ≠ .bumpEditEpoch j.jobId) : j'.editEpoch = j.editEpoch := by
  cases h with
  | bump hj => exact absurd (by rw [hj]) hb
  | _ => rfl

theorem getJobEditEpoch_after (hbump : call ≠ .bumpEditEpoch jobId)
    (hdel : call ≠ .deleteJob jobId) :
    getJobEditEpoch (call.after T db) jobId = getJobEditEpoch db jobId := by
  unfold getJobEditEpoch
  cases h : db.job? jobId with
  | some j =>
      rcases job?_after_some h with hc | ⟨j', hj', hstep⟩
      · exact absurd hc hdel
      · rw [hj']
        exact hstep.editEpoch_eq (by rwa [(Db.job?_eq_some.mp h).2])
  | none =>
      rcases job?_after_none h with hn | ⟨j', hj', hnew⟩
      · rw [hn]
      · rw [hj']
        exact hnew.editEpoch_eq

theorem getJobEditEpoch_bump {other : String} :
    getJobEditEpoch ((DbCall.bumpEditEpoch jobId).after T db) other =
      if other = jobId ∧ (db.job? jobId).isSome then getJobEditEpoch db other + 1
      else getJobEditEpoch db other := by
  simp only [DbCall.after, DbCall.exec, bumpEditEpoch, getJobEditEpoch,
    Db.job?_updateJobs]
  cases h : db.job? other with
  | none =>
      by_cases hid : other = jobId
      · simp [← hid, h]
      · simp [hid]
  | some j =>
      have hj := (Db.job?_eq_some.mp h).2
      by_cases hid : other = jobId
      · subst hid
        simp [h, hj]
      · simp [hid, hj]

end MinRender
