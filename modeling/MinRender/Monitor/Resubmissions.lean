import MinRender.Framework.Runs
import MinRender.Monitor.DispatchManager
import MinRender.Monitor.RowSteps

/-!
# Resubmitting what is incomplete

An HTTP thread copies a job: it reads the chunks of the source, inserts the new
job with all their ranges, and then marks those that were completed. The new
job is active and its chunks are pending before the last call, and the dispatch
cycle runs between any two.
-/

namespace MinRender

namespace DispatchManager

/-! ## The next version of a job -/

/-- `rfind("-v")`: the characters before it, and those after it. -/
def rfindVersion : List Char → Option (List Char × List Char)
  | [] => none
  | c :: cs =>
      match rfindVersion cs with
      | some (front, digits) => some (c :: front, digits)
      | none => if c = '-' ∧ cs.head? = some 'v' then some ([], cs.tail) else none

/-- The id without its version, if it ends in one. -/
def baseSlug (jobId : String) : String :=
  match rfindVersion jobId.toList with
  | some (front, digits) =>
      if digits ≠ [] ∧ digits.all Char.isDigit then String.ofList front else jobId
  | none => jobId

def versioned (base : String) (suffix : Nat) : String := base ++ "-v" ++ toString suffix

/-- The first version no job has. After `tries` of them it is the last one
tried, which a job has. -/
def chooseJobId (base : String) : Nat → Nat → DbProg String
  | 0, suffix => return versioned base (suffix - 1)
  | tries + 1, suffix => do
      let job : Option JobRow ← query (.getJob (versioned base suffix))
      if job.isNone then return versioned base suffix
      else chooseJobId base tries (suffix + 1)

/-! ## `resubmitIncomplete` -/

def rangeOf (c : ChunkRow) : ChunkRange := ⟨c.frameStart, c.frameEnd⟩

def completedRanges (rows : List ChunkRow) : List ChunkRange :=
  (rows.filter (·.state = .completed)).map rangeOf

/-- From the choice of the new id on. -/
def resubmitAs (T : JsonText) (nowMs markedMs : Int) (manifest : JobManifest) (priority : Int)
    (rows : List ChunkRow) (newJobId : String) : DbProg String := do
  let result : String ← submitJobWithChunks T
    { manifest with jobId := newJobId, submittedAtMs := nowMs } priority (rows.map rangeOf)
  if result = "" then return ""
  else
    let _ ← query (.markChunksCompleted newJobId (completedRanges rows) markedMs)
    return newJobId

/-- From the reading of the source's chunks on: nothing is left to resubmit
where all are completed. -/
def resubmitRows (T : JsonText) (nowMs markedMs : Int) (manifest : JobManifest)
    (priority : Int) (rows : List ChunkRow) : DbProg String :=
  if rows.all (·.state = .completed) then return ""
  else do
    -- versions 2 to 999
    let newJobId ← chooseJobId (baseSlug manifest.jobId) 998 2
    resubmitAs T nowMs markedMs manifest priority rows newJobId

/-- The id of the new job, empty where there is none. -/
def resubmitIncomplete (T : JsonText) (dbOpen : Bool) (nowMs markedMs : Int)
    (sourceJobId : String) : DbProg String := do
  if !dbOpen then return ""
  else
    let job : Option JobRow ← query (.getJob sourceJobId)
    match job with
    | none => return ""
    | some row =>
        match T.manifest? row.manifestJson with
        | none => return ""
        | some manifest =>
            let rows : List ChunkRow ← query (.getChunksForJob sourceJobId)
            resubmitRows T nowMs markedMs manifest row.priority rows

end DispatchManager

namespace Resubmissions
open DatabaseManager DispatchManager Table

/-! ## A resubmission next to the dispatch cycle -/

/-- The database, what is left of the dispatch cycle and of the resubmission,
and what it has done so far: the chunks it read, the job it inserted, whether
it marked. `rendered` has the ranges of that job completed since. -/
structure World where
  db : Db
  cycle : DbProg Unit := .done ()
  request : DbProg String
  read : List ChunkRow := []
  newJob : Option String := none
  marked : Bool := false
  rendered : List ChunkRange := []

inductive Event
  /-- The main thread begins a round. -/
  | start (memory : CycleMemory) (input : CycleInput)
  /-- The main thread's next call. -/
  | cycle
  /-- The HTTP thread's next call. -/
  | request

/-- What a call of the resubmission adds to what it has done. -/
def World.noted (w : World) : (c : DbCall) → c.Reply → World
  | .getChunksForJob _, rows => { w with read := rows }
  | .insertJob job, true => { w with newJob := some job.jobId }
  | .markChunksCompleted .., _ => { w with marked := true }
  | _, _ => w

/-- The range a call of the cycle completes in the new job. -/
def World.completes (w : World) : (c : DbCall) → c.Reply → List ChunkRange
  | .completeChunk jobId fs fe .., true => if w.newJob = some jobId then [⟨fs, fe⟩] else []
  | _, _ => []

def step (T : JsonText) (w : World) : Event → Option World
  | .start memory input =>
      match w.cycle with
      | .done () => some { w with
          cycle := do
            let _ ← DispatchManager.update T memory input
            return () }
      | .call _ _ => none
  | .cycle =>
      match w.cycle with
      | .done () => none
      | .call c k =>
          let (reply, db) := c.exec T w.db
          some { w with
            db
            cycle := k reply
            rendered := w.rendered ++ w.completes c reply }
  | .request =>
      match w.request with
      | .done _ => none
      | .call c k =>
          let (reply, db) := c.exec T w.db
          some { w.noted c reply with db, request := k reply }

def machine (T : JsonText) : Machine World Event := ⟨step T⟩

/-- Any database, no cycle, and a request that was just received. -/
def start (T : JsonText) (dbOpen : Bool) (nowMs markedMs : Int) (sourceJobId : String) (db : Db) :
    World where
  db
  request := resubmitIncomplete T dbOpen nowMs markedMs sourceJobId

/-! ## The property -/

/-- A chunk's range. -/
def range (c : ChunkRecord) : ChunkRange := ⟨c.frameStart, c.frameEnd⟩

/-- What a step must leave. -/
structure KeepsFinished (sourceJobId : String) (w : World) (e : Event) (w' : World) : Prop where
  /-- The resubmission leaves the source job as it is. -/
  source : e = .request → w'.db.job? sourceJobId = w.db.job? sourceJobId ∧
    chunksOf w'.db sourceJobId = chunksOf w.db sourceJobId
  /-- Once it has answered, the new job has the ranges of the source. -/
  ranges : ∀ newId, w'.request = .done newId → newId ≠ "" →
    (chunksOf w'.db newId).map range = w'.read.map rangeOf
  /-- Of those not rendered since, the chunks completed in the source are. -/
  completed : ∀ newId, w'.request = .done newId → newId ≠ "" →
    ∀ c ∈ chunksOf w'.db newId, range c ∉ w'.rendered →
      (c.state = .completed ↔ range c ∈ completedRanges w'.read)
  /-- None completed in the source is ever assigned. -/
  unassigned : ∀ newId, w'.newJob = some newId → ∀ c ∈ chunksOf w'.db newId,
    range c ∈ completedRanges w'.read → c.state ≠ .assigned

/-! ## The condition -/

/-- What the next call of the cycle finds: an assignment hits no pending chunk
of the new job whose range was completed; once the new job is marked, a revert
names no such range. -/
def Spares (w : World) : DbCall → Prop
  | .assignChunk id .. => ∀ newId, w.newJob = some newId → ∀ c ∈ chunksOf w.db newId,
      c.id = id → c.state = .pending → range c ∉ completedRanges w.read
  | .revertChunkToPending jobId fs fe => w.newJob = some jobId → w.marked = true →
      ⟨fs, fe⟩ ∉ completedRanges w.read
  | _ => True

def Careful (w : World) (e : Event) (_ : World) : Prop :=
  e = .cycle → w.cycle.First (Spares w)

variable {T : JsonText} {nowMs markedMs : Int} {sourceJobId : String} {db : Db}
  {w w' : World}

/-! ## The rows of a job -/

/-- What the marking leaves of a row. -/
def mark (nowMs : Int) (c : ChunkRecord) : ChunkRecord :=
  { c with state := .completed, completedAtMs := some nowMs }

/-- The marking is one update of the job's rows with a range of the list. -/
theorem markChunksCompleted_chunks (jobId : String) (ranges : List ChunkRange) (nowMs : Int) :
    (markChunksCompleted db jobId ranges nowMs).chunks =
      Table.update (fun c => c.jobId = jobId ∧ range c ∈ ranges) (mark nowMs) db.chunks := by
  induction ranges generalizing db with
  | nil =>
      refine (Table.update_eq_self_iff.mpr fun c _ h => ?_).symm
      exact absurd (of_decide_eq_true h).2 List.not_mem_nil
  | cons r ranges ih =>
      have hrest : (markChunksCompleted db jobId (r :: ranges) nowMs).chunks =
          Table.update (fun c => c.jobId = jobId ∧ range c ∈ ranges) (mark nowMs)
            (Table.update (inRange jobId r.frameStart r.frameEnd) (mark nowMs) db.chunks) :=
        ih
      rw [hrest]
      unfold Table.update
      rw [List.map_map]
      refine List.map_congr_left fun c _ => ?_
      have hfirst : inRange jobId r.frameStart r.frameEnd c = decide (c.jobId = jobId ∧
          range c = r) := by
        unfold inRange range
        cases r
        simp
      rw [Function.comp_apply, hfirst]
      by_cases hr : c.jobId = jobId ∧ range c = r
      · -- marked by the first range, and again by a later one
        have hmem : c.jobId = jobId ∧ range c ∈ r :: ranges := ⟨hr.1, hr.2 ▸ List.mem_cons_self⟩
        rw [if_pos (decide_eq_true hr), if_pos (decide_eq_true hmem)]
        split
        · rfl
        · rfl
      · have hmem : (c.jobId = jobId ∧ range c ∈ r :: ranges) ↔
            c.jobId = jobId ∧ range c ∈ ranges := by
          rw [List.mem_cons]
          constructor
          · rintro ⟨hj, h | h⟩
            · exact absurd ⟨hj, h⟩ hr
            · exact ⟨hj, h⟩
          · exact fun h => ⟨h.1, .inr h.2⟩
        have hmiss : ¬ decide (c.jobId = jobId ∧ range c = r) = true :=
          fun h => hr (of_decide_eq_true h)
        rw [if_neg hmiss]
        simp only [hmem]

/-- A call that deletes and inserts no rows of the job keeps its ranges. -/
theorem ranges_after {call : DbCall} {jobId : String}
    (hkeep : ∀ c ∈ chunksOf db jobId, call.keepsRow c = true)
    (hnew : ∀ c, NewRow call c → c.jobId ≠ jobId) :
    (chunksOf (call.after T db) jobId).map range = (chunksOf db jobId).map range := by
  obtain ⟨rows, new, hrows, hafter, hnews⟩ := chunks_evolve T call db
  have hnone : new.filter (fun c => c.jobId = jobId) = [] :=
    List.filter_eq_nil_iff.mpr fun c hc h => hnew c (hnews c hc) (of_decide_eq_true h)
  have hkept : (db.chunks.filter call.keepsRow).filter (fun c => c.jobId = jobId) =
      chunksOf db jobId := by
    rw [List.filter_comm]
    exact List.filter_eq_self.mpr hkeep
  have hof : List.Forall₂ (RowStep call) (chunksOf db jobId)
      (rows.filter fun c => c.jobId = jobId) := by
    rw [← hkept]
    refine List.rel_filter ?_ hrows
    intro a b hstep
    dsimp only
    rw [hstep.jobId_eq]
  have hrange : ∀ a b, RowStep call a b → range b = range a :=
    fun a b hstep => congrArg (·.2) hstep.key_eq
  have hchunks : chunksOf (call.after T db) jobId = rows.filter fun c => c.jobId = jobId := by
    unfold chunksOf
    rw [hafter, List.filter_append, hnone, List.append_nil]
  rw [hchunks]
  exact map_eq_of_forall₂ range hrange hof

/-- What an insertion into a stored job answers and appends. -/
theorem insertChunks_stored {jobId : String} (hjob : (db.job? jobId).isSome)
    (ranges : List ChunkRange) :
    (insertChunks db jobId ranges).1 = true ∧ (insertChunks db jobId ranges).2.jobs = db.jobs ∧
      ∃ new, (insertChunks db jobId ranges).2.chunks = db.chunks ++ new ∧
        new.map range = ranges ∧ ∀ c ∈ new, c.jobId = jobId ∧ c.state = .pending := by
  obtain ⟨j, hj⟩ := Option.isSome_iff_exists.mp hjob
  obtain ⟨db', hdb'⟩ := insertRows_some ranges ⟨j, Db.job?_eq_some.mp hj⟩
  obtain ⟨hjobs, new, hchunks, hkeys, hnew⟩ := insertRows_spec hdb'
  unfold insertChunks
  rw [hdb']
  refine ⟨rfl, hjobs, new, hchunks, ?_, fun c hc => ?_⟩
  · calc new.map range = (new.map (·.key)).map (·.2) := by
          rw [List.map_map]
          rfl
      _ = ranges := by
          rw [hkeys, List.map_map]
          exact List.map_id ranges
  · obtain ⟨id, r, -, rfl⟩ := hnew c hc
    exact ⟨rfl, rfl⟩

/-! ## The thread of the cycle -/

/-- The job was just stored. -/
def Stored (jobId : String) : (c : DbCall) → c.Reply → Prop
  | .insertJob job, inserted => inserted = true ∧ job.jobId = jobId
  | _, _ => False

/-- Its chunks were just refused. -/
def NotStored (jobId : String) : (c : DbCall) → c.Reply → Prop
  | .insertChunks i _, stored => stored = false ∧ i = jobId
  | _, _ => False

/-- What a submission's calls come right after. -/
def Follows (c : DbCall) (r : c.Reply) : DbCall → Prop
  | .insertChunks jobId _ => Stored jobId c r
  | .deleteJob jobId => NotStored jobId c r
  | _ => True

/-- What they find: the job of the chunks, which is not the new one, and never
one to delete. -/
def Ready (newJob : Option String) (db : Db) : DbCall → Prop
  | .insertChunks jobId _ => (db.job? jobId).isSome ∧ newJob ≠ some jobId
  | .deleteJob _ => False
  | _ => True

/-- What is left of a cycle. -/
structure CycleOk (newJob : Option String) (db : Db) (cycle : DbProg Unit) : Prop where
  calls : cycle.Every fun c => Submits c ∨ Upkeep c
  adjacent : cycle.Adjacent Follows
  ready : cycle.First (Ready newJob db)

theorem follows_upkeep {c' : DbCall} (h : Upkeep c') (c : DbCall) (r : c.Reply) :
    Follows c r c' := by
  cases c' with
  | insertChunks | deleteJob => exact h.elim
  | _ => trivial

theorem ready_upkeep {newJob : Option String} {c : DbCall} (h : Upkeep c) :
    Ready newJob db c := by
  cases c with
  | insertChunks | deleteJob => exact h.elim
  | _ => trivial

theorem cycleOk_start (newJob : Option String) (memory : CycleMemory) (input : CycleInput) :
    CycleOk newJob db (do
      let _ ← DispatchManager.update T memory input
      return ()) where
  calls := update_calls.bind fun _ => trivial
  adjacent := by
    refine Prog.Adjacent.bind ?_ (fun _ => trivial) fun _ => trivial
    refine update_adjacent ⟨fun _ _ _ => ⟨rfl, rfl⟩, fun _ _ => ⟨rfl, rfl⟩⟩ ?_ ?_
    · exact fun _ _ _ => trivial
    · exact fun _ h c r => follows_upkeep h c r
  ready := by
    refine Prog.First.bind ?_ fun _ => trivial
    exact update_first (fun _ => trivial) fun _ => ready_upkeep

/-- A call that is ready keeps the jobs. -/
theorem job?_isSome_after {newJob : Option String} {call : DbCall} {jobId : String}
    (hready : Ready newJob db call) (h : (db.job? jobId).isSome) :
    ((call.after T db).job? jobId).isSome := by
  obtain ⟨j, hj⟩ := Option.isSome_iff_exists.mp h
  rcases @job?_after_some T call _ _ _ hj with rfl | ⟨j', hj', -⟩
  · exact hready.elim
  · rw [hj']
    rfl

/-- The cycle goes on ready, where the new job is in the table. -/
theorem cycleOk_next {newJob : Option String} {c : DbCall} {k : c.Reply → DbProg Unit}
    (h : CycleOk newJob db (.call c k))
    (hnew : ∀ newId, newJob = some newId → (db.job? newId).isSome) :
    CycleOk newJob (c.after T db) (k (c.exec T db).1) := by
  refine ⟨h.calls.2 _, (h.adjacent _).2, (h.adjacent (c.exec T db).1).1.mono fun c' hfollows => ?_⟩
  have hready : Ready newJob db c := h.ready
  cases c' with
  | insertChunks jobId ranges =>
      cases c with
      | insertJob job =>
          obtain ⟨hstored, rfl⟩ := hfollows
          rcases insertJob_cases db job with ⟨-, hrefused⟩ | ⟨hnone, -, -, hjobs⟩
          · have hfalse : (insertJob db job).1 = true := hstored
            rw [hrefused] at hfalse
            cases hfalse
          · constructor
            · have hmem : ∃ j ∈ (insertJob db job).2.jobs, j.jobId = job.jobId := by
                rw [hjobs]
                exact ⟨_, List.mem_append_right _ List.mem_cons_self, rfl⟩
              obtain ⟨j, hj⟩ := hmem
              rw [show ((DbCall.insertJob job).after T db).job? job.jobId = some j from
                Db.job?_eq_some.mpr hj]
              rfl
            · intro heq
              have hsome := hnew _ heq
              rw [hnone] at hsome
              cases hsome
      | _ => exact hfollows.elim
  | deleteJob jobId =>
      cases c with
      | insertChunks i ranges =>
          obtain ⟨hrefused, -⟩ := hfollows
          have htrue := (insertChunks_stored hready.1 ranges).1
          have hfalse : (insertChunks db i ranges).1 = false := hrefused
          rw [hfalse] at htrue
          cases htrue
      | _ => exact hfollows.elim
  | _ => trivial

/-! ## The thread of the resubmission -/

/-- What is left of a resubmission, by what it has done: the chunks it read, the
job it inserted, whether it marked, and the ranges that job has by then. -/
inductive Phase (T : JsonText) (nowMs markedMs : Int) (sourceJobId : String) :
    DbProg String → List ChunkRow → Option String → Bool → List ChunkRange → Prop
  | reading : Phase T nowMs markedMs sourceJobId
      (resubmitIncomplete T true nowMs markedMs sourceJobId) [] none false []
  | listing (manifest : JobManifest) (priority : Int) : Phase T nowMs markedMs sourceJobId
      (.call (.getChunksForJob sourceJobId) fun rows =>
        resubmitRows T nowMs markedMs manifest priority rows) [] none false []
  | choosing (manifest : JobManifest) (priority : Int) {rows : List ChunkRow} (hrows : rows ≠ [])
      (base : String) (tries suffix : Nat) : Phase T nowMs markedMs sourceJobId
      (chooseJobId base tries suffix >>= resubmitAs T nowMs markedMs manifest priority rows)
      rows none false []
  | storing {rows : List ChunkRow} {newId : String} {k : Bool → DbProg String}
      (hne : newId ≠ "")
      (hk : k true = .call (.markChunksCompleted newId (completedRanges rows) markedMs)
        fun _ => .done newId) : Phase T nowMs markedMs sourceJobId
      (.call (.insertChunks newId (rows.map rangeOf)) k) rows (some newId) false []
  | marking {rows : List ChunkRow} {newId : String} (hne : newId ≠ "") :
      Phase T nowMs markedMs sourceJobId
      (.call (.markChunksCompleted newId (completedRanges rows) markedMs) fun _ => .done newId)
      rows (some newId) false (rows.map rangeOf)
  | answered {rows : List ChunkRow} {newId : String} (hne : newId ≠ "") :
      Phase T nowMs markedMs sourceJobId
      (.done newId) rows (some newId) true (rows.map rangeOf)
  | refused {rows : List ChunkRow} : Phase T nowMs markedMs sourceJobId
      (.done "") rows none false []

/-- The ranges the new job has. -/
def rangesNow (w : World) : List ChunkRange :=
  match w.newJob with
  | some newId => (chunksOf w.db newId).map range
  | none => []

/-- A chunk of the new job: pending until it is marked and completed then, where
its range was completed in the source; else not completed without a render. -/
structure RowOk (read : List ChunkRow) (marked : Bool) (rendered : List ChunkRange)
    (c : ChunkRecord) : Prop where
  finished : range c ∈ completedRanges read → c.state = if marked then .completed else .pending
  others : range c ∉ completedRanges read → range c ∉ rendered → c.state ≠ .completed

/-- What holds between any two calls of a careful run. -/
structure Inv (T : JsonText) (nowMs markedMs : Int) (sourceJobId : String) (w : World) :
    Prop where
  phase : Phase T nowMs markedMs sourceJobId w.request w.read w.newJob w.marked (rangesNow w)
  cycle : CycleOk w.newJob w.db w.cycle
  source : w.read ≠ [] → (w.db.job? sourceJobId).isSome
  newJob : ∀ newId, w.newJob = some newId →
    (w.db.job? newId).isSome ∧ newId ≠ sourceJobId
  rows : ∀ newId, w.newJob = some newId → ∀ c ∈ chunksOf w.db newId,
    RowOk w.read w.marked w.rendered c
  rendered : ∀ r ∈ w.rendered, r ∉ completedRanges w.read
  unrendered : w.newJob = none → w.rendered = []

theorem RowOk.not_assigned {read : List ChunkRow} {marked : Bool} {rendered : List ChunkRange}
    {c : ChunkRecord} (h : RowOk read marked rendered c) (hin : range c ∈ completedRanges read) :
    c.state ≠ .assigned := by
  rw [h.finished hin]
  split
  · exact fun hs => nomatch hs
  · exact fun hs => nomatch hs

theorem chooseJobId_call (base : String) (tries suffix : Nat) (manifest : JobManifest)
    (priority : Int) (rows : List ChunkRow) (newId : String) :
    chooseJobId base tries suffix >>= resubmitAs T nowMs markedMs manifest priority rows ≠
      .done newId := by
  cases tries with
  | zero => exact fun h => nomatch h
  | succ tries => exact fun h => nomatch h

/-- A resubmission that has answered with an id has inserted that job and marked
it. -/
theorem phase_done {rows : List ChunkRow} {job : Option String} {marked : Bool}
    {ranges : List ChunkRange} {newId : String} {p : DbProg String}
    (h : Phase T nowMs markedMs sourceJobId p rows job marked ranges) (hp : p = .done newId)
    (hne : newId ≠ "") : job = some newId ∧ marked = true ∧ ranges = rows.map rangeOf := by
  cases h with
  | reading => cases hp
  | choosing => exact (chooseJobId_call _ _ _ _ _ _ _ hp).elim
  | answered =>
      cases hp
      exact ⟨rfl, rfl, rfl⟩
  | refused =>
      cases hp
      exact absurd rfl hne
  | _ => cases hp

/-- One that has marked has answered. -/
theorem phase_marked {rows : List ChunkRow} {job : Option String} {ranges : List ChunkRange}
    {p : DbProg String} (h : Phase T nowMs markedMs sourceJobId p rows job true ranges) :
    ∃ newId, p = .done newId ∧ newId ≠ "" ∧ job = some newId ∧ ranges = rows.map rangeOf := by
  cases h with
  | answered hne => exact ⟨_, rfl, hne, rfl, rfl⟩

/-- The invariant gives the property. -/
theorem keepsFinished_of_inv {e : Event} (hw : Inv T nowMs markedMs sourceJobId w')
    (hsource : e = .request → w'.db.job? sourceJobId = w.db.job? sourceJobId ∧
      chunksOf w'.db sourceJobId = chunksOf w.db sourceJobId) :
    KeepsFinished sourceJobId w e w' := by
  refine ⟨hsource, ?_, ?_, ?_⟩
  · intro newId hreq hne
    obtain ⟨hnew, -, hranges⟩ := phase_done hw.phase hreq hne
    unfold rangesNow at hranges
    rw [hnew] at hranges
    exact hranges
  · intro newId hreq hne c hc hfresh
    obtain ⟨hnew, hmarked, -⟩ := phase_done hw.phase hreq hne
    have hrow := hw.rows newId hnew c hc
    constructor
    · intro hs
      by_contra hnot
      exact hrow.others hnot hfresh hs
    · intro hin
      rw [hrow.finished hin, hmarked]
      rfl
  · exact fun newId hnew c hc hin => (hw.rows newId hnew c hc).not_assigned hin

/-! ## A step of the cycle -/

/-- A careful call leaves a finished chunk of the new job as it is. -/
theorem finished_after {newId : String} {call : DbCall} {c c' : ChunkRecord}
    (hnew : w.newJob = some newId) (hcalls : Submits call ∨ Upkeep call)
    (hc : c ∈ chunksOf w.db newId) (hspares : Spares w call)
    (hrow : RowOk w.read w.marked w.rendered c) (hin : range c ∈ completedRanges w.read)
    (hstep : RowStep call c c') : c'.state = c.state := by
  have hassigned : c.state ≠ .assigned := hrow.not_assigned hin
  cases hstep with
  | same | blacklist | frame | frames => rfl
  | assign hid hs => exact absurd hin (hspares newId hnew c hc hid hs)
  | complete hf => exact absurd (of_decide_eq_true hf).2.1 hassigned
  | fail failedOn hr hs => exact absurd hs hassigned
  | reclaim ha hs => exact absurd hs hassigned
  | revert hr =>
      obtain ⟨hj, rfl, rfl⟩ := of_decide_eq_true hr
      have hjob : w.newJob = some _ := hnew.trans (congrArg some (mem_chunksOf.mp hc).2.symm)
      rw [hj] at hjob
      cases hmarked : w.marked with
      | true => exact absurd hin (hspares hjob hmarked)
      | false =>
          rw [hrow.finished hin, hmarked]
          rfl
  | _ =>
      rcases hcalls with h | h
      · exact h.elim
      · exact h.elim

theorem completes_true (jobId : String) (fs fe nowMs : Int) (node : String) (epoch : Int) :
    w.completes (.completeChunk jobId fs fe nowMs node epoch) true =
      if w.newJob = some jobId then [⟨fs, fe⟩] else [] := rfl

/-- What is noted was assigned in the new job. -/
theorem of_mem_completes {call : DbCall} {r : ChunkRange}
    (h : r ∈ w.completes call (call.exec T w.db).1) :
    ∃ newId, w.newJob = some newId ∧ ∃ c ∈ chunksOf w.db newId,
      range c = r ∧ c.state = .assigned := by
  cases call with
  | completeChunk jobId fs fe nowMs node epoch =>
      cases hreply : ((DbCall.completeChunk jobId fs fe nowMs node epoch).exec T w.db).1 with
      | false =>
          rw [hreply] at h
          exact absurd h List.not_mem_nil
      | true =>
          rw [hreply, completes_true] at h
          split at h
          · rename_i hnew
            obtain ⟨c, hc, hf⟩ := hits_pos.mp (of_decide_eq_true hreply)
            obtain ⟨hr, hs, -⟩ := of_decide_eq_true hf
            obtain ⟨hj, rfl, rfl⟩ := of_decide_eq_true hr
            rw [List.mem_singleton.mp h]
            exact ⟨jobId, hnew, c, mem_chunksOf.mpr ⟨hc, hj⟩, rfl, hs⟩
          · exact absurd h List.not_mem_nil
  | _ => exact absurd h List.not_mem_nil

/-- A chunk is completed by a completion, which is noted. -/
theorem completed_after {newId : String} {call : DbCall} {c c' : ChunkRecord}
    (hnew : w.newJob = some newId) (hcalls : Submits call ∨ Upkeep call)
    (hc : c ∈ chunksOf w.db newId) (hstep : RowStep call c c') (hs : c'.state = .completed) :
    c.state = .completed ∨ range c ∈ w.completes call (call.exec T w.db).1 := by
  obtain ⟨hmem, hjob⟩ := mem_chunksOf.mp hc
  cases hstep with
  | same | blacklist | frame | frames => exact .inl hs
  | @complete _ jobId fs fe nowMs node epoch hf =>
      obtain ⟨hr, -⟩ := of_decide_eq_true hf
      obtain ⟨hj, rfl, rfl⟩ := of_decide_eq_true hr
      have hreply : ((DbCall.completeChunk jobId c.frameStart c.frameEnd nowMs node epoch).exec T
          w.db).1 = true :=
        decide_eq_true (hits_pos.mpr ⟨c, hmem, hf⟩)
      right
      rw [hreply, completes_true, if_pos (by rw [hnew, ← hjob, hj])]
      exact List.mem_singleton.mpr rfl
  | fail failedOn hr hs' =>
      unfold failRow at hs
      dsimp only at hs
      split at hs
      · cases hs
      · cases hs
  | assign | revert | reclaim => cases hs
  | _ =>
      rcases hcalls with h | h
      · exact h.elim
      · exact h.elim

/-- A careful step leaves a row of the new job as it should be. -/
theorem rowOk_after {c : DbCall} {newId : String} {d d' : ChunkRecord}
    (hnew : w.newJob = some newId) (hcalls : Submits c ∨ Upkeep c)
    (hd : d ∈ chunksOf w.db newId) (hspares : Spares w c)
    (hrow : RowOk w.read w.marked w.rendered d) (hstep : RowStep c d d') :
    RowOk w.read w.marked (w.rendered ++ w.completes c (c.exec T w.db).1) d' := by
  have hrange : range d' = range d := congrArg (·.2) hstep.key_eq
  constructor
  · intro hin
    rw [hrange] at hin
    exact (finished_after hnew hcalls hd hspares hrow hin hstep).trans (hrow.finished hin)
  · intro hnot hfresh hs
    rw [hrange] at hnot hfresh
    rw [List.mem_append, not_or] at hfresh
    rcases completed_after (T := T) hnew hcalls hd hstep hs with hwas | hnoted
    · exact hrow.others hnot hfresh.1 hwas
    · exact hfresh.2 hnoted

/-- **A careful step of the cycle.** -/
theorem inv_cycle {c : DbCall} {k : c.Reply → DbProg Unit} (hw : Inv T nowMs markedMs sourceJobId w)
    (hcycle : w.cycle = .call c k) (hspares : Spares w c) :
    Inv T nowMs markedMs sourceJobId { w with
      db := c.after T w.db
      cycle := k (c.exec T w.db).1
      rendered := w.rendered ++ w.completes c (c.exec T w.db).1 } := by
  have hok : CycleOk w.newJob w.db (.call c k) := hcycle ▸ hw.cycle
  have hready : Ready w.newJob w.db c := hok.ready
  have hcalls : Submits c ∨ Upkeep c := hok.calls.1
  have hkeep : ∀ d, c.keepsRow d = true := by
    intro d
    cases c with
    | deleteJob => exact hready.elim
    | rebuildChunks =>
        rcases hcalls with h | h
        · exact h.elim
        · exact h.elim
    | _ => rfl
  have hnone : ∀ newId, w.newJob = some newId → ∀ d, NewRow c d → d.jobId ≠ newId := by
    rintro newId hnew d ⟨jobId, ranges, hcall | hcall, id, r, -, rfl⟩ hd
    · subst hcall
      exact hready.2 (hnew.trans (congrArg some hd.symm))
    · subst hcall
      rcases hcalls with h | h
      · exact h.elim
      · exact h.elim
  have hranges : ∀ newId, w.newJob = some newId →
      (chunksOf (c.after T w.db) newId).map range = (chunksOf w.db newId).map range :=
    fun newId hnew => ranges_after (fun d _ => hkeep d) (hnone newId hnew)
  have hcompletes : ∀ r ∈ w.completes c (c.exec T w.db).1, r ∉ completedRanges w.read := by
    intro r hr hin
    obtain ⟨newId, hnew, d, hd, rfl, hs⟩ := of_mem_completes hr
    exact (hw.rows newId hnew d hd).not_assigned hin hs
  refine ⟨?_, ?_, ?_, ?_, ?_, ?_, ?_⟩
  · have hnow : rangesNow { w with
        db := c.after T w.db
        cycle := k (c.exec T w.db).1
        rendered := w.rendered ++ w.completes c (c.exec T w.db).1 } = rangesNow w := by
      unfold rangesNow
      dsimp only
      split
      · exact hranges _ ‹_›
      · rfl
    rw [hnow]
    exact hw.phase
  · exact cycleOk_next hok fun newId hnew => (hw.newJob newId hnew).1
  · exact fun hread => job?_isSome_after hready (hw.source hread)
  · exact fun newId hnew => ⟨job?_isSome_after hready (hw.newJob newId hnew).1,
      (hw.newJob newId hnew).2⟩
  · intro newId (hnew : w.newJob = some newId) d' hd'
    obtain ⟨hmem', hjob'⟩ := mem_chunksOf.mp hd'
    rcases (chunks_evolve T c w.db).mem hmem' with hfresh | ⟨d, hd, -, hstep⟩
    · exact absurd hjob' (hnone newId hnew d' hfresh)
    · have hdmem : d ∈ chunksOf w.db newId :=
        mem_chunksOf.mpr ⟨hd, hstep.jobId_eq ▸ hjob'⟩
      have hrow := hw.rows newId hnew d hdmem
      exact rowOk_after hnew hcalls hdmem hspares hrow hstep
  · intro r hr
    rcases List.mem_append.mp hr with hr | hr
    · exact hw.rendered r hr
    · exact hcompletes r hr
  · intro hnew
    have hnil : w.completes c (c.exec T w.db).1 = [] := by
      refine List.eq_nil_iff_forall_not_mem.mpr fun r hr => ?_
      obtain ⟨newId, hsome, -⟩ := of_mem_completes hr
      rw [hnew] at hsome
      cases hsome
    exact List.append_eq_nil_iff.mpr ⟨hw.unrendered hnew, hnil⟩

/-! ## A step of the resubmission -/

/-- The world after a call of the resubmission. -/
def World.asked (T : JsonText) (w : World) (c : DbCall) (k : c.Reply → DbProg String) : World :=
  { w.noted c (c.exec T w.db).1 with
    db := c.after T w.db
    request := k (c.exec T w.db).1 }

/-- A call of the resubmission leaves the source job as it is. -/
def LeavesSource (sourceJobId : String) (db db' : Db) : Prop :=
  db'.job? sourceJobId = db.job? sourceJobId ∧ chunksOf db' sourceJobId = chunksOf db sourceJobId

/-- Another thread's insertion of a job leaves a cycle ready. -/
theorem cycleOk_inserted {newId : String} {cycle : DbProg Unit} (h : CycleOk none db cycle)
    (hnone : db.job? newId = none) {db' : Db}
    (hkept : ∀ jobId, (db.job? jobId).isSome → (db'.job? jobId).isSome) :
    CycleOk (some newId) db' cycle := by
  refine ⟨h.calls, h.adjacent, h.ready.mono fun c hready => ?_⟩
  cases c with
  | insertChunks jobId ranges =>
      refine ⟨hkept _ hready.1, ?_⟩
      rintro ⟨⟩
      have hsome := hready.1
      rw [hnone] at hsome
      cases hsome
  | deleteJob => exact hready.elim
  | _ => trivial

/-- A change of chunks leaves it ready. -/
theorem CycleOk.congr {newJob : Option String} {cycle : DbProg Unit} {db' : Db}
    (h : CycleOk newJob db cycle) (hjobs : db'.jobs = db.jobs) : CycleOk newJob db' cycle := by
  refine ⟨h.calls, h.adjacent, h.ready.mono fun c hready => ?_⟩
  cases c with
  | insertChunks jobId ranges =>
      refine ⟨?_, hready.2⟩
      rw [job?_congr hjobs]
      exact hready.1
  | deleteJob => exact hready.elim
  | _ => trivial

/-- A call that only reads the job table. -/
theorem Inv.goOn {request : DbProg String} (hw : Inv T nowMs markedMs sourceJobId w)
    (hphase : Phase T nowMs markedMs sourceJobId request w.read w.newJob w.marked (rangesNow w)) :
    Inv T nowMs markedMs sourceJobId { w with request } :=
  ⟨hphase, hw.cycle, hw.source, hw.newJob, hw.rows, hw.rendered, hw.unrendered⟩

/-- The reading of the source's chunks. -/
theorem inv_listed (manifest : JobManifest) (priority : Int)
    (hw : Inv T nowMs markedMs sourceJobId w) (hnew : w.newJob = none)
    (hmarked : w.marked = false) : Inv T nowMs markedMs sourceJobId { w with
      read := getChunksForJob w.db sourceJobId
      request := resubmitRows T nowMs markedMs manifest priority
        (getChunksForJob w.db sourceJobId) } where
  phase := by
    have hranges : rangesNow { w with
        read := getChunksForJob w.db sourceJobId
        request := resubmitRows T nowMs markedMs manifest priority
          (getChunksForJob w.db sourceJobId) } = [] := by
      unfold rangesNow
      rw [hnew]
    rw [hranges]
    dsimp only
    rw [hnew, hmarked]
    unfold resubmitRows
    split
    · exact .refused
    · rename_i hincomplete
      refine .choosing manifest priority ?_ (baseSlug manifest.jobId) 998 2
      intro hnil
      rw [hnil] at hincomplete
      exact hincomplete rfl
  cycle := hw.cycle
  source := by
    intro hread
    obtain ⟨row, hrow⟩ := List.exists_mem_of_ne_nil _ hread
    obtain ⟨c, hc, -⟩ := List.mem_map.mp hrow
    obtain ⟨hmem, hjob⟩ := mem_chunksOf.mp ((List.mem_insertionSort _).mp hc)
    obtain ⟨j, hj⟩ := w.db.job_of_chunk hmem
    rw [hjob] at hj
    rw [hj]
    rfl
  newJob := hw.newJob
  rows := by
    intro newId hsome
    rw [hnew] at hsome
    cases hsome
  rendered := by
    intro r hr
    rw [hw.unrendered hnew] at hr
    cases hr
  unrendered := hw.unrendered

/-- The insertion of the new job. -/
theorem inv_inserted {newId : String} {new : JobRecord} {db' : Db} {request : DbProg String}
    (hw : Inv T nowMs markedMs sourceJobId w) (hnew : w.newJob = none)
    (hread : w.read ≠ []) (hnone : w.db.job? newId = none) (hid : new.jobId = newId)
    (hchunks : db'.chunks = w.db.chunks) (hjobs : db'.jobs = w.db.jobs ++ [new])
    (hrequest : Phase T nowMs markedMs sourceJobId request w.read (some newId) w.marked []) :
    Inv T nowMs markedMs sourceJobId { w with db := db', newJob := some newId, request } ∧
      LeavesSource sourceJobId w.db db' := by
  have hkept : ∀ jobId, (w.db.job? jobId).isSome → (db'.job? jobId).isSome := by
    intro jobId hsome
    obtain ⟨j, hj⟩ := Option.isSome_iff_exists.mp hsome
    rw [job?_append hjobs hj]
    rfl
  have hempty : chunksOf db' newId = [] :=
    (chunksOf_congr hchunks newId).trans (chunksOf_eq_nil hnone)
  have hstored : (db'.job? newId).isSome := by
    have hmem : new ∈ db'.jobs := by
      rw [hjobs]
      exact List.mem_append_right _ List.mem_cons_self
    rw [Db.job?_eq_some.mpr ⟨hmem, hid⟩]
    rfl
  have hsource := hw.source hread
  obtain ⟨j, hj⟩ := Option.isSome_iff_exists.mp hsource
  have hcycle := hw.cycle
  rw [hnew] at hcycle
  refine ⟨⟨?_, cycleOk_inserted hcycle hnone hkept, fun hread => hkept _ (hw.source hread), ?_, ?_,
    hw.rendered, fun hnone => nomatch hnone⟩, ?_, chunksOf_congr hchunks _⟩
  · have hranges : rangesNow { w with db := db', newJob := some newId, request } = [] := by
      unfold rangesNow
      dsimp only
      rw [hempty]
      rfl
    rw [hranges]
    exact hrequest
  · rintro _ ⟨⟩
    refine ⟨hstored, ?_⟩
    rintro rfl
    rw [hnone] at hsource
    cases hsource
  · rintro _ ⟨⟩ c hc
    have hc : c ∈ chunksOf db' newId := hc
    rw [hempty] at hc
    cases hc
  · rw [hj, job?_append hjobs hj]

/-- The insertion of its chunks. -/
theorem inv_stored {newId : String} {k : Bool → DbProg String}
    (hw : Inv T nowMs markedMs sourceJobId w) (hnew : w.newJob = some newId)
    (hmarked : w.marked = false) (hranges : rangesNow w = []) (hnonempty : newId ≠ "")
    (hk : k true = .call (.markChunksCompleted newId (completedRanges w.read) markedMs)
      fun _ => .done newId) :
    Inv T nowMs markedMs sourceJobId { w with
      db := (insertChunks w.db newId (w.read.map rangeOf)).2
      request := k (insertChunks w.db newId (w.read.map rangeOf)).1 } ∧
      LeavesSource sourceJobId w.db (insertChunks w.db newId (w.read.map rangeOf)).2 := by
  obtain ⟨hstored, hne⟩ := hw.newJob newId hnew
  obtain ⟨htrue, hjobs, new, hchunks, hrange, hrows⟩ :=
    insertChunks_stored hstored (w.read.map rangeOf)
  have hempty : chunksOf w.db newId = [] := by
    unfold rangesNow at hranges
    rw [hnew] at hranges
    exact List.map_eq_nil_iff.mp hranges
  have hnow : chunksOf (insertChunks w.db newId (w.read.map rangeOf)).2 newId = new := by
    rw [chunksOf_append_self hchunks fun c hc => (hrows c hc).1, hempty, List.nil_append]
  have hsame : ∀ jobId, (insertChunks w.db newId (w.read.map rangeOf)).2.job? jobId =
      w.db.job? jobId :=
    job?_congr hjobs
  have hother : ∀ c ∈ new, c.jobId ≠ sourceJobId := fun c hc => (hrows c hc).1 ▸ hne
  refine ⟨⟨?_, hw.cycle.congr hjobs, ?_, ?_, ?_, hw.rendered, hw.unrendered⟩,
    hsame _, chunksOf_append hchunks hother⟩
  · have hranges' : rangesNow { w with
        db := (insertChunks w.db newId (w.read.map rangeOf)).2
        request := k (insertChunks w.db newId (w.read.map rangeOf)).1 } =
          w.read.map rangeOf := by
      unfold rangesNow
      dsimp only
      rw [hnew]
      dsimp only
      rw [hnow, hrange]
    rw [hranges']
    dsimp only
    rw [htrue, hk, hnew, hmarked]
    exact .marking hnonempty
  · intro hread
    rw [hsame]
    exact hw.source hread
  · intro jobId hjob
    rw [hsame]
    exact hw.newJob jobId hjob
  · intro jobId (hjob : w.newJob = some jobId) c hc
    rw [hnew] at hjob
    cases hjob
    have hc : c ∈ new := hnow ▸ hc
    have hs := (hrows c hc).2
    exact ⟨fun _ => by rw [hs, hmarked]; rfl, fun _ _ => by rw [hs]; exact fun h => nomatch h⟩

/-- The marking. -/
theorem inv_marked {newId : String} (hw : Inv T nowMs markedMs sourceJobId w)
    (hnew : w.newJob = some newId) (hranges : rangesNow w = w.read.map rangeOf)
    (hnonempty : newId ≠ "") : Inv T nowMs markedMs sourceJobId { w with
      db := markChunksCompleted w.db newId (completedRanges w.read) markedMs
      marked := true
      request := .done newId } ∧
      LeavesSource sourceJobId w.db
        (markChunksCompleted w.db newId (completedRanges w.read) markedMs) := by
  have hjobs := (markChunksCompleted_spec w.db newId (completedRanges w.read) markedMs).2
  have hchunks : (markChunksCompleted w.db newId (completedRanges w.read) markedMs).chunks =
      Table.update (fun c => c.jobId = newId ∧ range c ∈ completedRanges w.read) (mark markedMs)
        w.db.chunks :=
    markChunksCompleted_chunks newId (completedRanges w.read) markedMs
  have hupdate : ∀ jobId, chunksOf (markChunksCompleted w.db newId (completedRanges w.read)
      markedMs) jobId = Table.update (fun c => c.jobId = newId ∧ range c ∈ completedRanges w.read)
        (mark markedMs) (chunksOf w.db jobId) :=
    fun jobId => chunksOf_of_update (fun _ => rfl) hchunks
  have hsame : ∀ jobId, (markChunksCompleted w.db newId (completedRanges w.read)
      markedMs).job? jobId = w.db.job? jobId :=
    job?_congr hjobs
  have hne := (hw.newJob newId hnew).2
  refine ⟨⟨?_, hw.cycle.congr hjobs, ?_, ?_, ?_, hw.rendered, hw.unrendered⟩, hsame _, ?_⟩
  · have hnow : rangesNow { w with
        db := markChunksCompleted w.db newId (completedRanges w.read) markedMs
        marked := true
        request := .done newId } = w.read.map rangeOf := by
      unfold rangesNow at hranges ⊢
      dsimp only
      rw [hnew] at hranges ⊢
      dsimp only at hranges ⊢
      have hmark : ∀ c, range (mark markedMs c) = range c := fun _ => rfl
      rw [hupdate, map_update range hmark, hranges]
    rw [hnow]
    dsimp only
    rw [hnew]
    exact .answered hnonempty
  · intro hread
    rw [hsame]
    exact hw.source hread
  · intro jobId hjob
    rw [hsame]
    exact hw.newJob jobId hjob
  · intro jobId (hjob : w.newJob = some jobId) c' hc'
    rw [hnew] at hjob
    cases hjob
    have hc' : c' ∈ Table.update (fun c => c.jobId = newId ∧ range c ∈ completedRanges w.read)
        (mark markedMs) (chunksOf w.db newId) := hupdate newId ▸ hc'
    obtain ⟨c, hc, rfl⟩ := mem_update.mp hc'
    have hrow := hw.rows newId hnew c hc
    by_cases hin : range c ∈ completedRanges w.read
    · rw [if_pos (decide_eq_true ⟨(mem_chunksOf.mp hc).2, hin⟩)]
      exact ⟨fun _ => rfl, fun hnot => absurd hin hnot⟩
    · have hmiss : ¬ decide (c.jobId = newId ∧ range c ∈ completedRanges w.read) = true :=
        fun h => hin (of_decide_eq_true h).2
      rw [if_neg hmiss]
      exact ⟨fun h => absurd h hin, hrow.others⟩
  · rw [hupdate]
    refine update_eq_self_iff.mpr fun c hc h => ?_
    exact absurd ((of_decide_eq_true h).1.symm.trans (mem_chunksOf.mp hc).2) hne

theorem versioned_ne_empty (base : String) (suffix : Nat) : versioned base suffix ≠ "" := by
  intro h
  have hlength := congrArg String.length h
  unfold versioned at hlength
  rw [String.length_append, String.length_append] at hlength
  have hdash : "-v".length = 2 := rfl
  have hempty : "".length = 0 := rfl
  rw [hdash, hempty] at hlength
  omega

/-- The insertion of the job, refused where the id was taken meanwhile. -/
theorem inv_chosen (manifest : JobManifest) (priority : Int) {newId : String}
    (hw : Inv T nowMs markedMs sourceJobId w) (hnew : w.newJob = none) (hmarked : w.marked = false)
    (hranges : rangesNow w = []) (hread : w.read ≠ []) (hne : newId ≠ "")
    {c : DbCall} {k : c.Reply → DbProg String}
    (hp : (Prog.call c k : DbProg String) =
      resubmitAs T nowMs markedMs manifest priority w.read newId) :
    Inv T nowMs markedMs sourceJobId (w.asked T c k) ∧
      LeavesSource sourceJobId w.db (w.asked T c k).db := by
  cases hp
  generalize hjob : jobRowOf T { manifest with jobId := newId, submittedAtMs := nowMs } priority =
    job
  have hid : job.jobId = newId := by
    rw [← hjob]
    rfl
  unfold World.asked DbCall.after
  have hexec : (DbCall.insertJob job).exec T w.db = insertJob w.db job := rfl
  rw [hexec]
  rcases insertJob_cases w.db job with ⟨-, hrefused⟩ | ⟨hnone, htrue, hchunks, hjobs⟩
  · rw [hrefused]
    refine ⟨hw.goOn ?_, rfl, rfl⟩
    rw [hnew, hmarked, hranges]
    exact .refused
  · rw [htrue]
    subst hid
    refine inv_inserted (w := w) hw hnew hread hnone rfl hchunks hjobs ?_
    rw [hmarked]
    exact .storing hne (if_neg hne)

/-- **A step of the resubmission.** -/
theorem inv_request {c : DbCall} {k : c.Reply → DbProg String}
    (hw : Inv T nowMs markedMs sourceJobId w) (hrequest : w.request = .call c k) :
    Inv T nowMs markedMs sourceJobId (w.asked T c k) ∧
      LeavesSource sourceJobId w.db (w.asked T c k).db := by
  have hphase := hw.phase
  rw [hrequest] at hphase
  generalize hread : w.read = rows at hphase
  generalize hnew : w.newJob = job at hphase
  generalize hmarked : w.marked = marked at hphase
  generalize hranges : rangesNow w = ranges at hphase
  generalize hp : (Prog.call c k : DbProg String) = p at hphase
  cases hphase with
  | reading =>
      cases hp
      refine ⟨hw.goOn ?_, rfl, rfl⟩
      rw [hread, hnew, hmarked, hranges]
      generalize ((DbCall.getJob sourceJobId).exec T w.db).1 = reply
      cases reply with
      | none => exact .refused
      | some row =>
          dsimp only [Prog.bind]
          split
          · exact .refused
          · exact .listing _ _
  | listing manifest priority =>
      cases hp
      exact ⟨inv_listed manifest priority hw hnew hmarked, rfl, rfl⟩
  | choosing manifest priority hrows base tries suffix =>
      subst hread
      cases tries with
      | zero =>
          exact inv_chosen manifest priority hw hnew hmarked hranges hrows
            (versioned_ne_empty base (suffix - 1)) hp
      | succ tries =>
          cases hp
          refine ⟨hw.goOn ?_, rfl, rfl⟩
          rw [hnew, hmarked, hranges]
          generalize ((DbCall.getJob (versioned base suffix)).exec T w.db).1 = reply
          cases reply with
          | none => exact .choosing manifest priority hrows base 0 (suffix + 1)
          | some row => exact .choosing manifest priority hrows base tries (suffix + 1)
  | storing hne hk =>
      cases hp
      subst hread
      exact inv_stored hw hnew hmarked hranges hne hk
  | marking hne =>
      cases hp
      subst hread
      exact inv_marked hw hnew hranges hne
  | answered => cases hp
  | refused => cases hp

/-! ## Runs -/

theorem inv_start (T : JsonText) (dbOpen : Bool) (nowMs markedMs : Int) (sourceJobId : String)
    (db : Db) : Inv T nowMs markedMs sourceJobId
      (start T dbOpen nowMs markedMs sourceJobId db) where
  phase := by
    cases dbOpen with
    | true => exact .reading
    | false => exact .refused
  cycle := ⟨trivial, trivial, trivial⟩
  source := fun hread => absurd rfl hread
  newJob := fun _ h => nomatch h
  rows := fun _ h => nomatch h
  rendered := fun _ h => nomatch h
  unrendered := fun _ => rfl

/-- **A careful step keeps finished work**, and the invariant. -/
theorem keeps_of_careful {e : Event} (hw : Inv T nowMs markedMs sourceJobId w)
    (hstep : step T w e = some w') (hcareful : Careful w e w') :
    KeepsFinished sourceJobId w e w' ∧ Inv T nowMs markedMs sourceJobId w' := by
  cases e with
  | start memory input =>
      unfold step at hstep
      cases hcycle : w.cycle with
      | call c k =>
          rw [hcycle] at hstep
          cases hstep
      | done u =>
          rw [hcycle] at hstep
          cases hstep
          have hw' : Inv T nowMs markedMs sourceJobId { w with
              cycle := do
                let _ ← DispatchManager.update T memory input
                return () } :=
            ⟨hw.phase, cycleOk_start w.newJob memory input, hw.source, hw.newJob, hw.rows,
              hw.rendered, hw.unrendered⟩
          exact ⟨keepsFinished_of_inv hw' fun h => (nomatch h), hw'⟩
  | cycle =>
      unfold step at hstep
      have hspares := hcareful rfl
      cases hcycle : w.cycle with
      | done u =>
          rw [hcycle] at hstep
          cases hstep
      | call c k =>
          rw [hcycle] at hstep hspares
          cases hstep
          have hw' := inv_cycle hw hcycle hspares
          exact ⟨keepsFinished_of_inv hw' fun h => (nomatch h), hw'⟩
  | request =>
      unfold step at hstep
      cases hrequest : w.request with
      | done answer =>
          rw [hrequest] at hstep
          cases hstep
      | call c k =>
          rw [hrequest] at hstep
          cases hstep
          obtain ⟨hw', hsource⟩ := inv_request hw hrequest
          exact ⟨keepsFinished_of_inv hw' fun _ => hsource, hw'⟩

/-- **A step that keeps finished work is careful.** -/
theorem careful_of_keeps {e : Event} (hw : Inv T nowMs markedMs sourceJobId w)
    (hstep : step T w e = some w') (hkeeps : KeepsFinished sourceJobId w e w') :
    Careful w e w' := by
  rintro rfl
  unfold step at hstep
  cases hcycle : w.cycle with
  | done u => trivial
  | call call k =>
      rw [hcycle] at hstep
      cases hstep
      cases call with
      | assignChunk id node nowMs epoch =>
          intro newId hnew c hc hid hs hin
          obtain ⟨hmem, hjob⟩ := mem_chunksOf.mp hc
          have hassigned : ∃ d ∈ chunksOf ((DbCall.assignChunk id node nowMs epoch).after T w.db)
              newId, range d = range c ∧ d.state = .assigned :=
            ⟨_, mem_chunksOf.mpr ⟨mem_update.mpr ⟨c, hmem, if_pos (decide_eq_true ⟨hid, hs⟩)⟩,
              hjob⟩, rfl, rfl⟩
          obtain ⟨d, hd, hrange, hds⟩ := hassigned
          exact hkeeps.unassigned newId hnew d hd (hrange ▸ hin) hds
      | revertChunkToPending jobId fs fe =>
          intro hnew hmarked hin
          have hphase := hw.phase
          rw [hmarked] at hphase
          obtain ⟨newId, hrequest, hne, hnew', hranges⟩ := phase_marked hphase
          rw [hnew] at hnew'
          cases hnew'
          -- the new job has a chunk of that range
          have hrange : (⟨fs, fe⟩ : ChunkRange) ∈ (chunksOf w.db jobId).map range := by
            unfold rangesNow at hranges
            rw [hnew] at hranges
            dsimp only at hranges
            rw [hranges]
            obtain ⟨row, hrow, heq⟩ := List.mem_map.mp hin
            exact List.mem_map.mpr ⟨row, (List.mem_filter.mp hrow).1, heq⟩
          obtain ⟨c, hc, heq⟩ := List.mem_map.mp hrange
          cases heq
          obtain ⟨hmem, hjob⟩ := mem_chunksOf.mp hc
          have hreverted : toPending c ∈ chunksOf ((DbCall.revertChunkToPending jobId
              c.frameStart c.frameEnd).after T w.db) jobId :=
            mem_chunksOf.mpr
              ⟨mem_update.mpr ⟨c, hmem, if_pos (decide_eq_true ⟨hjob, rfl, rfl⟩)⟩, hjob⟩
          have hfresh : range c ∉ w.rendered := fun hr => hw.rendered _ hr hin
          have hs := (hkeeps.completed jobId hrequest hne _ hreverted
            (fun hr => hfresh (List.append_nil w.rendered ▸ hr))).mpr hin
          cases hs
      | _ => trivial

/-- **A resubmission keeps finished work exactly in the careful runs.** From any
database, for any request and any cycles next to it. -/
theorem keeps_iff_careful (T : JsonText) (dbOpen : Bool) (nowMs markedMs : Int)
    (sourceJobId : String) (db : Db) (es : List Event) :
    (machine T).Along (KeepsFinished sourceJobId)
        (start T dbOpen nowMs markedMs sourceJobId db) es ↔
      (machine T).Along Careful (start T dbOpen nowMs markedMs sourceJobId db) es := by
  have hstart := inv_start T dbOpen nowMs markedMs sourceJobId db
  constructor
  · refine Machine.Along.mono (I := Inv T nowMs markedMs sourceJobId) ?_ hstart
    intro w e w' hw hstep hkeeps
    have hcareful := careful_of_keeps hw hstep hkeeps
    exact ⟨hcareful, (keeps_of_careful hw hstep hcareful).2⟩
  · refine Machine.Along.mono (I := Inv T nowMs markedMs sourceJobId) ?_ hstart
    exact fun w e w' hw hstep hcareful => keeps_of_careful hw hstep hcareful

/-- A failed job with a completed chunk and one that is not. -/
def halfDone : Db :=
  let job : JobRow := { jobId := "shot", manifestJson := shotManifest, currentState := .failed }
  let stored := (DbCall.insertJob job).after shotText .empty
  let chunked := (DbCall.insertChunks "shot" [⟨1, 10⟩, ⟨11, 20⟩]).after shotText stored
  (DbCall.markChunksCompleted "shot" [⟨1, 10⟩] 5).after shotText chunked

/-- A peer that can take work. -/
def idlePeer : PeerInfo :=
  { nodeId := "n1", endpoint := "10.0.0.1:8420", isAlive := true, agentHealth := "ok",
    readyForWork := true }

/-- The resubmission of it, up to its marking, and then a cycle. -/
def dispatchedEarly : List Event :=
  [.request, .request, .request, .request, .request,
    .start {} { nowMs := 10, peers := [idlePeer] }, .cycle, .cycle, .cycle, .cycle]

/-- **A finished range is rendered again**: the cycle assigns it in the new job
before it is marked. -/
theorem completed_range_is_assigned :
    ¬ ∀ T dbOpen nowMs markedMs sourceJobId db es, (machine T).Along (KeepsFinished sourceJobId)
      (start T dbOpen nowMs markedMs sourceJobId db) es := by
  intro h
  refine Machine.Along.refute dispatchedEarly .cycle
    (fun _ w => w.newJob.any fun newId => (chunksOf w.db newId).any fun c =>
      decide (range c ∈ completedRanges w.read) && decide (c.state = .assigned)) ?_ ?_
    (h shotText true 7 8 "shot" halfDone _)
  · intro w w' hbad hgood
    rw [Option.any_eq_true] at hbad
    obtain ⟨newId, hnew, hbad⟩ := hbad
    rw [List.any_eq_true] at hbad
    obtain ⟨c, hc, hbad⟩ := hbad
    rw [Bool.and_eq_true] at hbad
    exact hgood.unassigned newId hnew c hc (of_decide_eq_true hbad.1) (of_decide_eq_true hbad.2)
  · decide

end Resubmissions

end MinRender
