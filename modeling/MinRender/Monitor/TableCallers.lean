import MinRender.Monitor.ChunkTable
import MinRender.Monitor.FinishedJobs

/-!
# The callers of the database

Runs of `DatabaseManager` calls, with the ranges their callers give them: a
submission inserts what `computeChunks` returns, a resubmission what it read
of another job earlier, and an edit rebuilds with `computeChunks`. Snapshots
are of earlier states.
-/

namespace MinRender.TableCallers
open DatabaseManager DispatchManager Table

/-- The database, the lists of ranges its callers have read, and the snapshots
taken of it. -/
structure World where
  db : Db := Db.empty
  listed : List (List ChunkRange) := []
  snapshots : List Db := []

inductive Event
  /-- any call that inserts no chunks -/
  | call (c : DbCall)
  /-- `submitJob`, its second call -/
  | submit (jobId : String) (frameStart frameEnd chunkSize : Int)
  /-- `resubmitIncomplete` reads the chunks of its source job -/
  | list (jobId : String)
  /-- `submitJobWithChunks`, its second call -/
  | submitWithChunks (jobId : String) (i : Nat)
  /-- `applyEditLocally` rebuilds the chunks -/
  | rebuild (jobId : String) (frameStart frameEnd chunkSize : Int)
  | snapshot
  | restore (i : Nat)
deriving DecidableEq, Repr

/-- The ranges of a job's chunks, as `resubmitIncomplete` collects them. -/
def allRanges (db : Db) (jobId : String) : List ChunkRange :=
  (getChunksForJob db jobId).map fun c => ⟨c.frameStart, c.frameEnd⟩

/-- The call inserts chunks. -/
def Inserts : DbCall → Bool
  | .insertChunks .. | .rebuildChunks .. => true
  | _ => false

/-- The ranges an event inserts into a job as it stands. -/
def inserted (w : World) : Event → Option (String × List ChunkRange)
  | .submit jobId fs fe size => (computeChunks fs fe size).map (jobId, ·)
  | .submitWithChunks jobId i => w.listed[i]?.map (jobId, ·)
  | _ => none

def step (T : JsonText) (w : World) : Event → Option World
  | .call c => if Inserts c then none else some { w with db := c.after T w.db }
  | .list jobId => some { w with listed := w.listed ++ [allRanges w.db jobId] }
  | .rebuild jobId fs fe size =>
      (computeChunks fs fe size).map fun chunks =>
        { w with db := (DbCall.rebuildChunks jobId chunks).after T w.db }
  | .snapshot => some { w with snapshots := w.snapshots ++ [w.db] }
  | .restore i => w.snapshots[i]?.map fun db => { w with db := db }
  | e => (inserted w e).map fun (jobId, chunks) =>
      { w with db := (DbCall.insertChunks jobId chunks).after T w.db }

def machine (T : JsonText) : Machine World Event := ⟨step T⟩

/-- What is inserted into a job is apart from what the job has. -/
def InsertsApart (w : World) (e : Event) (_ : World) : Prop :=
  ∀ jobId ranges, inserted w e = some (jobId, ranges) → ApartFrom w.db jobId ranges

/-- The invariant holds after the step. -/
def Represented (_ : World) (_ : Event) (w' : World) : Prop := ChunkTable w'.db

/-! ## What was read earlier -/

variable {T : JsonText} {w w' : World} {e : Event}

theorem allRanges_eq (db : Db) (jobId : String) :
    allRanges db jobId = (byFrame (chunksOf db jobId)).map fun c => c.key.2 := by
  unfold allRanges getChunksForJob
  rw [List.map_map]
  rfl

theorem perm_byFrame (rows : List ChunkRecord) : (byFrame rows).Perm rows :=
  List.perm_insertionSort _ rows

/-- The ranges read of a job can be the chunks of another. -/
theorem allRanges_ok {db : Db} (h : ChunkTable db) (jobId : String) :
    RangesOk (allRanges db jobId) := by
  rw [allRanges_eq]
  constructor
  · intro r hr
    obtain ⟨c, hc, rfl⟩ := List.mem_map.mp hr
    have hmem : c ∈ chunksOf db jobId := (perm_byFrame _).mem_iff.mp hc
    exact (h.rows c (mem_chunksOf.mp hmem).1).range
  · -- in table order first
    have hrows : (chunksOf db jobId).Pairwise fun c c' => c.key.2.Apart c'.key.2 := by
      have hall := List.pairwise_map.mp h.apart
      refine (hall.sublist List.filter_sublist).imp_of_mem ?_
      intro c c' hc hc' hapart
      exact hapart ((mem_chunksOf.mp hc).2.trans (mem_chunksOf.mp hc').2.symm)
    rw [List.pairwise_map]
    refine ((perm_byFrame _).pairwise_iff ?_).mpr hrows
    intro c c' hapart
    exact hapart.symm

/-! ## One step -/

/-- The table, and everything of it that is kept elsewhere. -/
structure Inv (w : World) : Prop where
  table : ChunkTable w.db
  listed : ∀ ranges ∈ w.listed, RangesOk ranges
  snapshots : ∀ db ∈ w.snapshots, ChunkTable db

theorem inv_start : Inv {} :=
  ⟨chunkTable_empty, fun _ h => (nomatch h), fun _ h => (nomatch h)⟩

theorem inserted_ok (hw : Inv w) {jobId : String} {ranges : List ChunkRange}
    (h : inserted w e = some (jobId, ranges)) : RangesOk ranges := by
  cases e with
  | submit i fs fe size =>
      obtain ⟨chunks, hchunks, hpair⟩ := Option.map_eq_some_iff.mp h
      cases hpair
      exact computeChunks_ok hchunks
  | submitWithChunks i n =>
      obtain ⟨chunks, hchunks, hpair⟩ := Option.map_eq_some_iff.mp h
      cases hpair
      exact hw.listed _ (List.mem_of_getElem? hchunks)
  | _ => cases h

/-- Only insertions into a job as it stands can break the table. -/
theorem table_step_iff (hw : Inv w) (hstep : (machine T).step w e = some w') :
    ChunkTable w'.db ↔ InsertsApart w e w' := by
  by_cases hins : ∃ jobId ranges, inserted w e = some (jobId, ranges)
  · obtain ⟨jobId, ranges, hins⟩ := hins
    have hdb : w'.db = (DbCall.insertChunks jobId ranges).after T w.db := by
      cases e with
      | submit | submitWithChunks =>
          simp only [machine, step, hins, Option.map_some, Option.some.injEq] at hstep
          rw [← hstep]
      | _ => cases hins
    rw [hdb, chunkTable_insert_iff hw.table (inserted_ok hw hins)]
    constructor
    · intro hapart jobId' ranges' hins'
      rw [hins] at hins'
      cases hins'
      exact hapart
    · exact fun h => h jobId ranges hins
  · refine iff_of_true ?_ fun jobId ranges h => absurd ⟨jobId, ranges, h⟩ hins
    cases e with
    | call c =>
        simp only [machine, step] at hstep
        split at hstep
        · cases hstep
        · rename_i hno
          cases hstep
          refine chunkTable_after hw.table fun jobId ranges => ⟨?_, ?_⟩ <;>
          · rintro rfl
            exact hno rfl
    | list => cases hstep; exact hw.table
    | snapshot => cases hstep; exact hw.table
    | rebuild jobId fs fe size =>
        obtain ⟨chunks, hchunks, rfl⟩ := Option.map_eq_some_iff.mp hstep
        exact chunkTable_rebuild hw.table (computeChunks_ok hchunks)
    | restore i =>
        obtain ⟨db, hdb, rfl⟩ := Option.map_eq_some_iff.mp hstep
        exact hw.snapshots db (List.mem_of_getElem? hdb)
    | submit | submitWithChunks =>
        obtain ⟨p, hp, -⟩ := Option.map_eq_some_iff.mp hstep
        exact absurd ⟨p.1, p.2, hp⟩ hins

/-- What is kept elsewhere stays good. -/
theorem inv_step (hw : Inv w) (hstep : (machine T).step w e = some w')
    (h : ChunkTable w'.db) : Inv w' := by
  have hkept : (w'.listed = w.listed ∨ ∃ i, w'.listed = w.listed ++ [allRanges w.db i]) ∧
      (w'.snapshots = w.snapshots ∨ w'.snapshots = w.snapshots ++ [w.db]) := by
    cases e with
    | call c =>
        simp only [machine, step] at hstep
        split at hstep
        · cases hstep
        · cases hstep
          exact ⟨.inl rfl, .inl rfl⟩
    | list i =>
        cases hstep
        exact ⟨.inr ⟨i, rfl⟩, .inl rfl⟩
    | snapshot =>
        cases hstep
        exact ⟨.inl rfl, .inr rfl⟩
    | rebuild | submit | submitWithChunks | restore =>
        obtain ⟨p, -, rfl⟩ := Option.map_eq_some_iff.mp hstep
        exact ⟨.inl rfl, .inl rfl⟩
  refine ⟨h, ?_, ?_⟩
  · intro ranges hr
    rcases hkept.1 with heq | ⟨i, heq⟩ <;> rw [heq] at hr
    · exact hw.listed ranges hr
    · rcases List.mem_append.mp hr with hr | hr
      · exact hw.listed ranges hr
      · rw [List.mem_singleton.mp hr]
        exact allRanges_ok hw.table i
  · intro db hdb
    rcases hkept.2 with heq | heq <;> rw [heq] at hdb
    · exact hw.snapshots db hdb
    · rcases List.mem_append.mp hdb with hdb | hdb
      · exact hw.snapshots db hdb
      · rw [List.mem_singleton.mp hdb]
        exact hw.table

/-- **The representation invariant holds along a run exactly where every
insertion is apart from the chunks its job has by then.** -/
theorem represented_iff (T : JsonText) (es : List Event) :
    (machine T).Along Represented {} es ↔ (machine T).Along InsertsApart {} es := by
  constructor
  · refine Machine.Along.mono (I := Inv) ?_ inv_start
    intro w e w' hw hstep htable
    exact ⟨(table_step_iff hw hstep).mp htable, inv_step hw hstep htable⟩
  · refine Machine.Along.mono (I := Inv) ?_ inv_start
    intro w e w' hw hstep hapart
    have htable := (table_step_iff hw hstep).mpr hapart
    exact ⟨htable, inv_step hw hstep htable⟩

/-- A job of frame 1 is edited to frames 1 to 3 before its own chunk is in. -/
def editedMidway : List Event :=
  [.call (.insertJob (jobRowOf shotText FinishedJobs.oneFrame 50)), .rebuild "shot" 1 3 1]

/-- Frame 1 is then in two chunks. -/
theorem submission_overlaps :
    ¬ ∀ es, (machine shotText).Along Represented {} es := by
  intro h
  refine Machine.Along.refute editedMidway (.submit "shot" 1 1 1)
    (fun _ u => decide ¬ (u.db.chunks.map (·.key)).Pairwise KeyApart) ?_ (by decide) (h _)
  intro t u hbad hgood
  exact of_decide_eq_true hbad hgood.apart

/-- A library in which every text is the same job edited to frames 1 to 3. -/
def editText : JsonText where
  parse _ := some (.obj [("frame_end", .int 3), ("job_id", .str "shot")])
  dump _ := shotManifest

/-- The main thread submits the job, and between its two calls an HTTP thread
starts it over. -/
def submissionMidway : List (Sched FinishedJobs.Thread FinishedJobs.Task) :=
  [.start none ({}, FinishedJobs.round [⟨FinishedJobs.oneFrame, 50⟩]), .step none,
    .start (some 0) (.edit true "shot" shotManifest "startover" 50)] ++
    List.replicate 6 (.step (some 0)) ++ [.step none]

/-- The programs of the two threads reach such a table. -/
theorem threads_overlap :
    ∃ es w, (FinishedJobs.machine editText).run FinishedJobs.start es = some w ∧
      ¬ ChunkTable w.shared := by
  have hrun : ((FinishedJobs.machine editText).run FinishedJobs.start submissionMidway).any
      (fun w => decide ¬ (w.shared.chunks.map (·.key)).Pairwise KeyApart) = true := by
    decide
  rw [Option.any_eq_true] at hrun
  obtain ⟨w, hw, hbad⟩ := hrun
  exact ⟨_, w, hw, fun htable => of_decide_eq_true hbad htable.apart⟩

end MinRender.TableCallers
