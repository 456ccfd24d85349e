import MinRender.Core.ManifestCodec
import MinRender.Monitor.RemoteActions
import MinRender.Ui.ListModels

/-!
# What a worker shows of the farm

Only the leader has the database. Its own job list is read from there; a worker
gets the text of that list, as it was at the leader's last refresh, and the
chunks of a job as they are when it asks. What both show of a job is the same,
and a worker's list is never older than the one it had.
-/

namespace MinRender
open DatabaseManager Json

namespace MonitorApp

/-- A chunk in the answer to `GET /api/jobs/:id`. -/
def chunkJson (c : ChunkRow) : Json :=
  .obj [("id", .int c.id), ("frame_start", .int c.frameStart), ("frame_end", .int c.frameEnd),
    ("state", .str c.state.text), ("assigned_to", .str c.assignedTo),
    ("assigned_at_ms", .int c.assignedAtMs), ("completed_at_ms", .int c.completedAtMs),
    ("retry_count", .int c.retryCount),
    ("completed_frames", .arr (c.completedFrames.map .int)),
    ("failed_on", .arr (c.failedOn.map .str))]

/-- `none` where the job is unknown, and where its manifest does not parse. -/
def getCachedJobDetailJson (T : JsonText) (db : Db) (jobId : String) : Option Json := do
  let job ← getJob db jobId
  let manifest ← T.parse job.manifestJson
  return .obj [("job_id", .str job.jobId), ("current_state", .str job.currentState.text),
    ("priority", .int job.priority), ("submitted_at_ms", .int job.submittedAtMs),
    ("manifest", manifest), ("chunks", .arr ((getChunksForJob db jobId).map chunkJson))]

/-- `cj.contains(key) && cj[key].is_array()`, and the values there. -/
def readArray {α : Type} (get : Json → Except JsonError α) (key : String) (cj : Json) :
    Except JsonError (List α) :=
  match cj.find? key with
  | some (.arr xs) => xs.mapM get
  | _ => .ok []

def chunkOfJson (cj : Json) : Except JsonError ChunksModel.Row := do
  let id ← cj.value getInt64 "id" 0
  let frameStart ← cj.value getInt "frame_start" 0
  let frameEnd ← cj.value getInt "frame_end" 0
  let state ← cj.value getString "state" "pending"
  let assignedTo ← cj.value getString "assigned_to" ""
  let assignedAtMs ← cj.value getInt64 "assigned_at_ms" 0
  let completedAtMs ← cj.value getInt64 "completed_at_ms" 0
  let retryCount ← cj.value getInt "retry_count" 0
  let completedFrames ← readArray getInt "completed_frames" cj
  let _ ← readArray getString "failed_on" cj
  return { id, frameStart, frameEnd, state, assignedTo, assignedAtMs, completedAtMs, retryCount,
           completedFrames }

/-- The worker's part of `getChunksForJob`: nothing where the answer cannot be
read. -/
def chunksOfBody (T : JsonText) (body : Option String) : List ChunksModel.Row :=
  match body.bind T.parse with
  | none => []
  | some j =>
      match j.find? "chunks" with
      | some (.arr cs) => ((cs.mapM chunkOfJson).toOption).getD []
      | _ => []

end MonitorApp

/-- What the chunk list takes from a row. -/
def ChunkRow.shown (c : ChunkRow) : ChunksModel.Row where
  id := c.id
  frameStart := c.frameStart
  frameEnd := c.frameEnd
  state := c.state.text
  assignedTo := c.assignedTo
  assignedAtMs := c.assignedAtMs
  completedAtMs := c.completedAtMs
  retryCount := c.retryCount
  completedFrames := c.completedFrames

namespace WorkerViews
open MonitorApp ManifestCodec
open HttpServer hiding getJob
open RemoteActions (Unreserved Arrives Finds stems stems_apart fills_text fills_segment)

/-! ## One answer -/

/-- A 64-bit value. -/
def IsInt64 (n : Int) : Prop := -2 ^ 63 ≤ n ∧ n < 2 ^ 63

/-- The types of what an entry of the list carries. -/
structure EntryTyped (s : JobSummary) (m : JobManifest) : Prop where
  priority : IsInt s.job.priority
  submittedAtMs : IsInt64 s.job.submittedAtMs
  frameStart : IsInt m.frameStart
  frameEnd : IsInt m.frameEnd
  chunkSize : IsInt m.chunkSize
  total : IsInt s.progress.total
  completed : IsInt s.progress.completed
  failed : IsInt s.progress.failed
  rendering : IsInt s.progress.rendering
  stopped : IsInt s.progress.stopped
  firstAssignedMs : IsInt64 s.progress.firstAssignedMs
  lastCompletedMs : IsInt64 s.progress.lastCompletedMs

structure ChunkTyped (c : ChunkRow) : Prop where
  id : IsInt64 c.id
  frameStart : IsInt c.frameStart
  frameEnd : IsInt c.frameEnd
  assignedAtMs : IsInt64 c.assignedAtMs
  completedAtMs : IsInt64 c.completedAtMs
  retryCount : IsInt c.retryCount
  completedFrames : ∀ f ∈ c.completedFrames, IsInt f

/-- The entry a worker makes: of the manifest, what the list carries. -/
def summaryInfo (s : JobSummary) (m : JobManifest) : JobInfo :=
  { jobInfo s m with
    manifest := {
      jobId := s.job.jobId
      templateId := m.templateId
      submittedBy := m.submittedBy
      submittedAtMs := s.job.submittedAtMs
      frameStart := m.frameStart
      frameEnd := m.frameEnd
      chunkSize := m.chunkSize
      outputDir := m.outputDir
      flags := ((outputStem m).map fun stem => { isOutput := true, value := some stem }).toList } }

section Reads

variable {s : JobSummary} {m : JobManifest} {c : ChunkRow} {j : Json} {key : String}

/-- The texts that are only there where the job has them. -/
theorem find?_outputDir :
    (jobJson s m).find? "output_dir" = m.outputDir.map .str := by
  unfold jobJson
  cases m.outputDir with
  | some dir => rfl
  | none =>
      cases outputStem m with
      | some stem => rfl
      | none => rfl

theorem find?_outputStem :
    (jobJson s m).find? "output_stem" = (outputStem m).map .str := by
  unfold jobJson
  cases m.outputDir with
  | some dir =>
      cases outputStem m with
      | some stem => rfl
      | none => rfl
  | none =>
      cases outputStem m with
      | some stem => rfl
      | none => rfl

theorem text?_option {a : Option String} (h : j.find? key = a.map .str) :
    text? key j.sorted = a := by
  unfold text?
  rw [find?_sorted, h]
  cases a with
  | some t => rfl
  | none => rfl

/-- A worker reads an entry of the leader's list. -/
theorem jobInfo_read (h : EntryTyped s m) :
    jobInfoOfJson (jobJson s m).sorted = .ok (summaryInfo s m) := by
  have hobj : (jobJson s m).sorted.isObject = true := rfl
  unfold jobInfoOfJson
  simp only [value_eq_field hobj]
  rw [field_str "job_id" s.job.jobId rfl, field_str "template_id" m.templateId rfl,
    field_str "submitted_by" m.submittedBy rfl,
    field_int64 "submitted_at_ms" s.job.submittedAtMs rfl h.submittedAtMs,
    field_int "frame_start" m.frameStart rfl h.frameStart,
    field_int "frame_end" m.frameEnd rfl h.frameEnd,
    field_int "chunk_size" m.chunkSize rfl h.chunkSize,
    field_str "current_state" s.job.currentState.text rfl,
    field_int "priority" s.job.priority rfl h.priority,
    field_int "total_chunks" s.progress.total rfl h.total,
    field_int "completed_chunks" s.progress.completed rfl h.completed,
    field_int "failed_chunks" s.progress.failed rfl h.failed,
    field_int "rendering_chunks" s.progress.rendering rfl h.rendering,
    field_int "stopped_chunks" s.progress.stopped rfl h.stopped,
    field_int64 "first_assigned_ms" s.progress.firstAssignedMs rfl h.firstAssignedMs,
    field_int64 "last_completed_ms" s.progress.lastCompletedMs rfl h.lastCompletedMs,
    text?_option find?_outputDir, text?_option find?_outputStem]
  unfold summaryInfo
  cases outputStem m with
  | some stem => rfl
  | none => rfl

theorem readArray_sorted {α : Type} {get : Json → Except JsonError α} {write : α → Json}
    {xs : List α} (h : j.find? key = some (.arr (xs.map write)))
    (hget : ∀ x ∈ xs, get (write x).sorted = .ok x) :
    readArray get key j.sorted = .ok xs := by
  have hread : getArray get (Json.arr (xs.map write)).sorted = .ok xs := getArray_same hget
  unfold readArray
  rw [find?_sorted, h]
  exact hread

theorem chunk_read (h : ChunkTyped c) : chunkOfJson (chunkJson c).sorted = .ok c.shown := by
  have hobj : (chunkJson c).sorted.isObject = true := rfl
  have hframes : readArray getInt "completed_frames" (chunkJson c).sorted =
      .ok c.completedFrames :=
    readArray_sorted rfl fun f hf => getInt_int (h.completedFrames f hf)
  have hfailed : readArray getString "failed_on" (chunkJson c).sorted = .ok c.failedOn :=
    readArray_sorted rfl fun _ _ => rfl
  unfold chunkOfJson
  simp only [value_eq_field hobj]
  rw [field_int64 "id" c.id rfl h.id, field_int "frame_start" c.frameStart rfl h.frameStart,
    field_int "frame_end" c.frameEnd rfl h.frameEnd, field_str "state" c.state.text rfl,
    field_str "assigned_to" c.assignedTo rfl,
    field_int64 "assigned_at_ms" c.assignedAtMs rfl h.assignedAtMs,
    field_int64 "completed_at_ms" c.completedAtMs rfl h.completedAtMs,
    field_int "retry_count" c.retryCount rfl h.retryCount, hframes, hfailed]
  rfl

end Reads

/-! ## The lists -/

section Lists

variable {T : JsonText} {db : Db}

/-- Reading an array entry by entry. -/
theorem mapM_sorted {α β : Type} {read : Json → Except JsonError β} {write : α → Json}
    {view : α → β} {xs : List α} (h : ∀ a ∈ xs, read (write a).sorted = .ok (view a)) :
    (sortedAll (xs.map write)).mapM read = .ok (xs.map view) :=
  getArray_sorted h

/-- The values of a database that an answer carries have their columns' types,
and every manifest can be read. -/
structure DbTyped (T : JsonText) (db : Db) : Prop where
  entries : ∀ e ∈ listed T (getAllJobs db), EntryTyped e.1 e.2
  chunks : ∀ jobId, ∀ c ∈ getChunksForJob db jobId, ChunkTyped c
  manifests : ∀ j ∈ db.jobs, T.parse j.manifestJson ≠ none

/-- The library reads back the texts the leader makes of a database. -/
structure Library (T : JsonText) (db : Db) : Prop where
  jobs : T.parse (T.dump (cachedJobsJson T (getAllJobs db))) =
    some (cachedJobsJson T (getAllJobs db)).sorted
  detail : ∀ jobId j, getCachedJobDetailJson T db jobId = some j →
    T.parse (T.dump j) = some j.sorted

/-- The list a worker makes of the leader's. -/
def summaries (T : JsonText) (db : Db) : List JobInfo :=
  (listed T (getAllJobs db)).map fun e => summaryInfo e.1 e.2

theorem jobs_read (h : DbTyped T db) :
    jobsOfBody (cachedJobsJson T (getAllJobs db)).sorted = .ok (summaries T db) :=
  mapM_sorted fun e he => jobInfo_read (h.entries e he)

/-- The chunks a worker gets are the leader's. -/
theorem chunks_read (h : DbTyped T db) (hlib : Library T db) (jobId : String) :
    chunksOfBody T ((getCachedJobDetailJson T db jobId).map T.dump) =
      (getChunksForJob db jobId).map (·.shown) := by
  cases hdetail : getCachedJobDetailJson T db jobId with
  | some j =>
      unfold chunksOfBody
      rw [Option.map_some, Option.bind_some, hlib.detail jobId j hdetail]
      dsimp only
      obtain ⟨job, hjob, hdetail⟩ := Option.bind_eq_some_iff.mp hdetail
      obtain ⟨manifest, -, hdetail⟩ := Option.bind_eq_some_iff.mp hdetail
      have hread : (sortedAll ((getChunksForJob db jobId).map chunkJson)).mapM chunkOfJson =
          .ok ((getChunksForJob db jobId).map (·.shown)) :=
        mapM_sorted fun c hc => chunk_read (h.chunks jobId c hc)
      rw [find?_sorted, ← Option.some.inj hdetail]
      show ((sortedAll _).mapM chunkOfJson).toOption.getD [] = _
      rw [hread]
      rfl
  | none =>
      -- the job is unknown, and has no chunks
      have hunknown : db.job? jobId = none := by
        by_contra hsome
        obtain ⟨j, hj⟩ := Option.ne_none_iff_exists'.mp hsome
        obtain ⟨hmem, -⟩ := Db.job?_eq_some.mp hj
        obtain ⟨manifest, hparse⟩ := Option.ne_none_iff_exists'.mp (h.manifests j hmem)
        unfold getCachedJobDetailJson getJob at hdetail
        rw [hj] at hdetail
        simp [JobRow.ofRecord, hparse] at hdetail
      have hchunks : chunksOf db jobId = [] := by
        refine List.eq_nil_iff_forall_not_mem.mpr fun c hc => ?_
        obtain ⟨hmem, hid⟩ := mem_chunksOf.mp hc
        obtain ⟨j, hj, hjc⟩ := db.foreignKey c hmem
        have hsome : db.job? jobId = some j := Db.job?_eq_some.mpr ⟨hj, hjc.trans hid⟩
        rw [hunknown] at hsome
        cases hsome
      unfold getChunksForJob
      rw [hchunks]
      rfl

end Lists

/-! ## The same job on both -/

/-- What the job list and the frame preview show of two entries is the same, up to
when the job was submitted: a worker has the row's time of it, the leader the
manifest's. -/
structure SameShown (a b : JobInfo) : Prop where
  roles : ∀ role, role ≠ .createdAt → JobsModel.roleData a role = JobsModel.roleData b role
  template : a.manifest.templateId = b.manifest.templateId
  frames : a.manifest.frameStart = b.manifest.frameStart ∧ a.manifest.frameEnd = b.manifest.frameEnd
  outputDir : a.manifest.outputDir = b.manifest.outputDir
  outputStem : outputStem a.manifest = outputStem b.manifest

theorem outputStem_ne_empty {m : JobManifest} {stem : String} (h : outputStem m = some stem) :
    stem ≠ "" := by
  obtain ⟨f, -, hf⟩ := List.exists_of_findSome?_eq_some h
  split at hf
  · exact of_decide_eq_true (Option.filter_eq_some_iff.mp hf).2
  · cases hf

/-- The flag made of the text stands for the flags it was taken from. -/
theorem outputStem_summaryInfo {s : JobSummary} {m : JobManifest} :
    outputStem (summaryInfo s m).manifest = outputStem m := by
  have hflags : (summaryInfo s m).manifest.flags =
      ((outputStem m).map fun stem => { isOutput := true, value := some stem }).toList := rfl
  cases hstem : outputStem m with
  | some stem =>
      unfold outputStem
      rw [hflags, hstem]
      simp [outputStem_ne_empty hstem]
  | none =>
      unfold outputStem
      rw [hflags, hstem]
      rfl

theorem summaryInfo_sameShown {s : JobSummary} {m : JobManifest} (hid : m.jobId = s.job.jobId) :
    SameShown (summaryInfo s m) (jobInfo s m) where
  roles role hrole := by
    cases role with
    | jobId | name | slug => exact congrArg QVariant.string hid.symm
    | createdAt => exact absurd rfl hrole
    | _ => rfl
  template := rfl
  frames := ⟨rfl, rfl⟩
  outputDir := rfl
  outputStem := outputStem_summaryInfo

theorem summaries_sameShown {T : JsonText} {db : Db} (h : OwnManifests T db) :
    List.Forall₂ SameShown (summaries T db) (cachedJobs T (getAllJobs db)) := by
  unfold summaries cachedJobs
  rw [List.forall₂_map_left_iff, List.forall₂_map_right_iff, List.forall₂_same]
  intro e he
  obtain ⟨j, hj, -, hm, hej⟩ := mem_listed.mp he
  refine summaryInfo_sameShown ?_
  rw [h j hj e.2 hm, hej]
  rfl

/-! ## The request for a job's chunks -/

/-- The request as it arrives at the leader, with the library's choice of a route. -/
structure Arrival where
  path : String
  router : Router

def Arrival.request (a : Arrival) : Request where
  method := "GET"
  path := a.path

/-- What the worker asks for; the id becomes part of the path as it is. -/
def detailEndpoint (jobId : String) : String := "/api/jobs/" ++ jobId

def detailRoute : Route :=
  ⟨"GET", [.text "/api/jobs/", .segment], fun T captures _ => HttpServer.getJob T (cap captures 0)⟩

/-- The answer of the leader. No other route for `GET` answers with chunks. -/
def detailAnswer (T : JsonText) (db : Db) (a : Arrival) : Option String :=
  match a.router.choose a.request with
  | some (r, captures) =>
      if r.pattern = detailRoute.pattern then
        (getCachedJobDetailJson T db (cap captures 0)).map T.dump
      else none
  | none => none

/-- The texts of a pattern are in the path. -/
theorem mem_of_text {pieces : List Piece} {captures : List String} {path : List Char}
    (h : Fills pieces captures path) {t : String} (ht : .text t ∈ pieces) {c : Char}
    (hc : c ∈ t.toList) : c ∈ path := by
  induction h with
  | nil => cases ht
  | text h ih =>
      rcases List.mem_cons.mp ht with heq | ht
      · rw [← Piece.text.inj heq]
        exact List.mem_append_left _ hc
      · exact List.mem_append_right _ (ih ht)
  | segment hne hplain h ih =>
      rcases List.mem_cons.mp ht with heq | ht
      · cases heq
      · exact List.mem_append_right _ (ih ht)

/-- A route for `GET` is the one for a job, is a text that no job's endpoint is, or
has a slash after the id. -/
def detailShape : List Piece → Bool
  | [.text s] => !"/api/jobs/".toList.isPrefixOf s.toList
  | .text s :: .segment :: rest =>
      s = "/api/jobs/" && rest = [] ||
        (s = "/api/jobs/" || s = "/api/nodes/") &&
          rest.any fun
            | .text t => t.toList.contains '/'
            | .segment => false
  | _ => false

theorem get_shapes : ∀ r ∈ routes, r.method = "GET" → detailShape r.pattern = true := by
  decide +kernel

theorem detail_arrives {id : String} (hid : Unreserved id) :
    Arrives "GET" (detailEndpoint id) detailRoute [id] := by
  have hpath : (detailEndpoint id).toList = "/api/jobs/".toList ++ id.toList :=
    String.toList_append
  refine ⟨by simp [routes, detailRoute], rfl, ?_, ?_⟩
  · have hend : Fills [.segment] [id] id.toList := by
      have hsegment := Fills.segment hid.1 hid.plain Fills.nil
      rwa [List.append_nil] at hsegment
    rw [hpath]
    exact .text hend
  · intro r' hr' hmethod' captures' hfills
    have hshape := get_shapes r' hr' hmethod'
    rw [hpath] at hfills
    unfold detailShape at hshape
    split at hshape
    · -- a literal endpoint is not below the job's
      rename_i s hliteral
      rw [hliteral] at hfills
      obtain ⟨-, hs⟩ := fills_text hfills
      have hbelow : "/api/jobs/".toList <+: s.toList := hs ▸ List.prefix_append _ _
      rw [Bool.not_eq_true'] at hshape
      exact absurd (List.isPrefixOf_iff_prefix.mpr hbelow) (Bool.eq_false_iff.mp hshape)
    · rename_i s rest hshaped
      rw [hshaped] at hfills
      have hs : s ∈ stems := by
        simp only [Bool.or_eq_true, Bool.and_eq_true, decide_eq_true_eq] at hshape
        rcases hshape with ⟨rfl, -⟩ | ⟨rfl | rfl, -⟩ <;> simp [stems]
      have hsame : s = "/api/jobs/" := by
        rcases List.prefix_or_prefix_of_prefix hfills.text_prefix
          (List.prefix_append "/api/jobs/".toList id.toList) with hle | hle
        · exact stems_apart s hs _ (by simp [stems]) hle
        · exact (stems_apart _ (by simp [stems]) s hs hle).symm
      subst hsame
      by_cases hrest : rest = []
      · rw [hrest] at hfills
        obtain ⟨c, rfl, heq⟩ := fills_segment hfills
        rw [hshaped, hrest, String.toList_inj.mp (List.append_cancel_left heq)]
        exact ⟨rfl, rfl⟩
      · -- what follows the id has a slash
        simp only [hrest, decide_false, Bool.and_false, Bool.false_or,
          Bool.and_eq_true, List.any_eq_true] at hshape
        obtain ⟨-, piece, hpiece, hslash⟩ := hshape
        refine absurd ?_ hid.plain
        cases piece with
        | segment => cases hslash
        | text t =>
            have htail : Fills (.segment :: rest) captures' id.toList := by
              generalize hwhole : "/api/jobs/".toList ++ id.toList = whole at hfills
              cases hfills with
              | text h =>
                  rw [List.append_cancel_left hwhole]
                  exact h
            exact mem_of_text htail (List.mem_cons_of_mem _ hpiece)
              (List.contains_iff_mem.mp hslash)
    · cases hshape

/-- An unreserved id arrives as it is sent, and the library finds the route. -/
def Arrival.Carries (a : Arrival) (jobId : String) : Prop :=
  a.path = detailEndpoint jobId ∧ Finds a.router a.request

theorem detailAnswer_carried {T : JsonText} {db : Db} {a : Arrival} {jobId : String}
    (hid : Unreserved jobId) (h : a.Carries jobId) :
    detailAnswer T db a = (getCachedJobDetailJson T db jobId).map T.dump := by
  have harrives : Arrives a.request.method a.request.path detailRoute [jobId] := by
    rw [show a.request.path = detailEndpoint jobId from h.1]
    exact detail_arrives hid
  unfold detailAnswer
  rw [harrives.choose h.2]
  exact if_pos rfl

/-! ## Runs -/

/-- The leader with its database, its list and the text of it, and a worker
with its list and the chunks of the job it looks at. -/
structure World where
  db : Db
  leaderJobs : List JobInfo
  leaderJson : String
  workerJobs : List JobInfo
  workerChunks : List ChunksModel.Row

/-- Both as they are when they have just refreshed. -/
def World.start (T : JsonText) (db : Db) : World where
  db := db
  leaderJobs := cachedJobs T (getAllJobs db)
  leaderJson := T.dump (cachedJobsJson T (getAllJobs db))
  workerJobs := summaries T db
  workerChunks := []

inductive Event
  | database (c : DbCall)
  | leaderRefresh
  /-- the worker's refresh; `answered` is whether the leader's answer arrives -/
  | workerRefresh (answered : Bool)
  /-- the worker looks at a job; nothing arrives where the leader does not answer -/
  | openJob (jobId : String) (arrival : Option Arrival)

def step (T : JsonText) (w : World) : Event → World
  | .database c => { w with db := c.after T w.db }
  | .leaderRefresh =>
      { w with
        leaderJobs := cachedJobs T (getAllJobs w.db)
        leaderJson := T.dump (cachedJobsJson T (getAllJobs w.db)) }
  | .workerRefresh answered =>
      match if answered then (T.parse w.leaderJson).bind fun j => (jobsOfBody j).toOption
        else none with
      | some jobs => { w with workerJobs := jobs }
      | none => w
  | .openJob _ arrival =>
      { w with workerChunks := chunksOfBody T (arrival.bind (detailAnswer T w.db)) }

/-- The world after the first `k` events. -/
def after (T : JsonText) (w : World) (es : List Event) (k : Nat) : World :=
  (es.take k).foldl (step T) w

def IsLeaderRefresh : Event → Bool
  | .leaderRefresh => true
  | _ => false

def IsAnswered : Event → Bool
  | .workerRefresh answered => answered
  | _ => false

/-- How many events it took up to the last one of a kind among the first `k`; no
event where there is none. -/
def last (kind : Event → Bool) (es : List Event) : Nat → Nat
  | 0 => 0
  | k + 1 => if (es[k]?).any kind then k + 1 else last kind es k

section Runs

variable {T : JsonText} {w : World} {es : List Event} {kind : Event → Bool} {k : Nat} {e : Event}

theorem last_le (k : Nat) : last kind es k ≤ k := by
  induction k with
  | zero => exact Nat.le_refl 0
  | succ k ih =>
      unfold last
      split
      · exact Nat.le_refl _
      · exact ih.trans (Nat.le_succ k)

theorem last_mono : Monotone (last kind es) := by
  refine monotone_nat_of_le_succ fun k => ?_
  rw [last]
  split
  · exact (last_le k).trans (Nat.le_succ k)
  · exact Nat.le_refl _

theorem last_at (h : es[k]? = some e) (hkind : kind e = true) : last kind es (k + 1) = k + 1 := by
  rw [last, h, Option.any_some, if_pos hkind]

theorem last_past (h : es[k]? = some e) (hkind : kind e = false) :
    last kind es (k + 1) = last kind es k := by
  rw [last, h, Option.any_some, hkind, if_neg Bool.false_ne_true]

theorem after_succ (h : es[k]? = some e) : after T w es (k + 1) = step T (after T w es k) e := by
  unfold after
  rw [List.take_add_one, h, Option.toList_some, List.foldl_append]
  rfl

theorem step_db (h : ∀ c, e ≠ .database c) : (step T w e).db = w.db := by
  cases e with
  | database c => exact absurd rfl (h c)
  | workerRefresh answered =>
      unfold step
      dsimp only
      split
      · rfl
      · rfl
  | _ => rfl

/-- What the two hold after `k` events. -/
structure Holds (T : JsonText) (db : Db) (es : List Event) (k : Nat) : Prop where
  leaderJobs : (after T (.start T db) es k).leaderJobs =
    cachedJobs T (getAllJobs (after T (.start T db) es (last IsLeaderRefresh es k)).db)
  leaderJson : (after T (.start T db) es k).leaderJson =
    T.dump (cachedJobsJson T
      (getAllJobs (after T (.start T db) es (last IsLeaderRefresh es k)).db))
  workerJobs : (after T (.start T db) es k).workerJobs =
    summaries T (after T (.start T db) es
      (last IsLeaderRefresh es (last IsAnswered es k))).db

/-- An event that is no refresh leaves both lists. -/
theorem Holds.keep {db : Db} (h : Holds T db es k) (hk : es[k]? = some e)
    (hleader : IsLeaderRefresh e = false) (hworker : IsAnswered e = false)
    (hjobs : ∀ w, (step T w e).leaderJobs = w.leaderJobs ∧ (step T w e).leaderJson = w.leaderJson ∧
      (step T w e).workerJobs = w.workerJobs) : Holds T db es (k + 1) := by
  obtain ⟨hjobs, hjson, hworkerJobs⟩ := hjobs (after T (.start T db) es k)
  constructor
  · rw [last_past hk hleader, after_succ hk, hjobs]
    exact h.leaderJobs
  · rw [last_past hk hleader, after_succ hk, hjson]
    exact h.leaderJson
  · rw [last_past hk hworker, after_succ hk, hworkerJobs]
    exact h.workerJobs

theorem holds (T : JsonText) (db : Db) (es : List Event)
    (htyped : ∀ k ≤ es.length, DbTyped T (after T (.start T db) es k).db)
    (hlib : ∀ k ≤ es.length, Library T (after T (.start T db) es k).db) :
    ∀ k ≤ es.length, Holds T db es k := by
  intro k
  induction k with
  | zero => exact fun _ => ⟨rfl, rfl, rfl⟩
  | succ k ih =>
      intro hk
      have h := ih (Nat.le_of_succ_le hk)
      have hget : es[k]? = some es[k] := List.getElem?_eq_getElem hk
      generalize es[k] = e at hget
      cases e with
      | database c => exact h.keep hget rfl rfl fun _ => ⟨rfl, rfl, rfl⟩
      | openJob jobId arrival => exact h.keep hget rfl rfl fun _ => ⟨rfl, rfl, rfl⟩
      | leaderRefresh =>
          have hdb : (after T (.start T db) es (k + 1)).db = (after T (.start T db) es k).db := by
            rw [after_succ hget]
            rfl
          constructor
          · rw [last_at hget rfl, hdb, after_succ hget]
            rfl
          · rw [last_at hget rfl, hdb, after_succ hget]
            rfl
          · rw [last_past hget rfl, after_succ hget]
            exact h.workerJobs
      | workerRefresh answered =>
          cases answered with
          | false => exact h.keep hget rfl rfl fun _ => ⟨rfl, rfl, rfl⟩
          | true =>
              -- the text is that of an earlier database
              have hle : last IsLeaderRefresh es k ≤ es.length :=
                (last_le k).trans (Nat.le_of_succ_le hk)
              have hread : (T.parse (after T (.start T db) es k).leaderJson).bind
                  (fun j => (jobsOfBody j).toOption) =
                  some (summaries T
                    (after T (.start T db) es (last IsLeaderRefresh es k)).db) := by
                rw [h.leaderJson, (hlib _ hle).jobs, Option.bind_some, jobs_read (htyped _ hle)]
                rfl
              have hstep : after T (.start T db) es (k + 1) =
                  { after T (.start T db) es k with
                    workerJobs := summaries T
                      (after T (.start T db) es (last IsLeaderRefresh es k)).db } := by
                rw [after_succ hget]
                unfold step
                dsimp only
                rw [if_pos rfl, hread]
              constructor
              · rw [last_past hget rfl, hstep]
                exact h.leaderJobs
              · rw [last_past hget rfl, hstep]
                exact h.leaderJson
              · rw [last_at hget rfl, last_past hget rfl, hstep]

/-- A manifest is stored only under the id it names, so the stored ones keep naming
their rows. -/
theorem ownManifests_foldl :
    ∀ {w : World}, OwnManifests T w.db → (∀ c, .database c ∈ es → storesOwn T c = true) →
      OwnManifests T (es.foldl (step T) w).db := by
  induction es with
  | nil => exact fun hown _ => hown
  | cons e es ih =>
      intro w hown hcalls
      refine ih ?_ fun c hc => hcalls c (List.mem_cons_of_mem e hc)
      by_cases he : ∃ c, e = .database c
      · obtain ⟨c, rfl⟩ := he
        exact hown.after (hcalls c List.mem_cons_self)
      · rw [step_db fun c h => he ⟨c, h⟩]
        exact hown

end Runs

/-! ## A paused job -/

def shotDb (state : JobState) : Db where
  jobs := [{
    jobId := "shot", manifestJson := shotManifest, currentState := state, submittedAtMs := 0 }]
  chunks := [.fresh 1 "shot" 1 250]
  nextChunkId := 2
  jobKey := List.nodup_singleton _
  chunkKey := List.nodup_singleton _
  autoincrement := by decide
  foreignKey := fun c hc => ⟨_, List.mem_cons_self, by rw [List.mem_singleton.mp hc]; rfl⟩

def shotSummary (state : JobState) : JobSummary where
  job := { jobId := "shot", manifestJson := shotManifest, currentState := state }
  progress := { total := 1, pending := 1 }

def shotDetail (state : JobState) : Json :=
  .obj [("job_id", .str "shot"), ("current_state", .str state.text), ("priority", .int 50),
    ("submitted_at_ms", .int 0), ("manifest", .obj [("job_id", .str "shot")]),
    ("chunks", .arr [chunkJson { id := 1, jobId := "shot", frameStart := 1, frameEnd := 250 }])]

def listText (state : String) : String :=
  "[\x7b\"chunk_size\":1,\"completed_chunks\":0,\"current_state\":\"" ++ state ++
  "\",\"failed_chunks\":0,\"first_assigned_ms\":0,\"frame_end\":250,\"frame_start\":1," ++
  "\"job_id\":\"shot\",\"last_completed_ms\":0,\"pending_chunks\":1,\"priority\":50," ++
  "\"rendering_chunks\":0,\"stopped_chunks\":0,\"submitted_at_ms\":0,\"submitted_by\":\"\"," ++
  "\"template_id\":\"\",\"total_chunks\":1\x7d]"

def detailText (state : String) : String :=
  "\x7b\"chunks\":[\x7b\"assigned_at_ms\":0,\"assigned_to\":\"\",\"completed_at_ms\":0," ++
  "\"completed_frames\":[],\"failed_on\":[],\"frame_end\":250,\"frame_start\":1,\"id\":1," ++
  "\"retry_count\":0,\"state\":\"pending\"\x7d],\"current_state\":\"" ++ state ++
  "\",\"job_id\":\"shot\",\"manifest\":" ++ shotManifest ++
  ",\"priority\":50,\"submitted_at_ms\":0\x7d"

/-- A library reduced to the texts of the job while it is active and paused. -/
def shotTexts : JsonText where
  dump
    | .arr [jj] => listText ((text? "current_state" jj).getD "")
    | j => detailText ((text? "current_state" j).getD "")
  parse text :=
    if text = shotManifest then some (.obj [("job_id", .str "shot")])
    else if text = listText "active" then
      some (Json.arr [jobJson (shotSummary .active) { jobId := "shot" }]).sorted
    else if text = listText "paused" then
      some (Json.arr [jobJson (shotSummary .paused) { jobId := "shot" }]).sorted
    else if text = detailText "active" then some (shotDetail .active).sorted
    else if text = detailText "paused" then some (shotDetail .paused).sorted
    else none

theorem shot_manifest? : shotTexts.manifest? shotManifest = some { jobId := "shot" } := rfl

def Shown (state : JobState) : Prop := state = .active ∨ state = .paused

theorem shot_listed {state : JobState} (h : Shown state) :
    listed shotTexts (getAllJobs (shotDb state)) = [(shotSummary state, { jobId := "shot" })] := by
  rcases h with rfl | rfl
  · rfl
  · rfl

theorem shot_typed {state : JobState} (h : Shown state) : DbTyped shotTexts (shotDb state) where
  entries e he := by
    rw [shot_listed h, List.mem_singleton] at he
    rw [he]
    have h0 : IsInt 0 := by decide
    have h1 : IsInt 1 := by decide
    have h50 : IsInt 50 := by decide
    have h250 : IsInt 250 := by decide
    have hzero : IsInt64 0 := ⟨by decide, by decide⟩
    exact ⟨h50, hzero, h1, h250, h1, h1, h0, h0, h0, h0, hzero, hzero⟩
  chunks jobId c hc := by
    obtain ⟨r, hr, rfl⟩ := List.mem_map.mp hc
    obtain ⟨hr, -⟩ := mem_chunksOf.mp ((List.mem_insertionSort _).mp hr)
    rw [List.mem_singleton.mp hr]
    exact ⟨⟨by decide, by decide⟩, by decide, by decide, ⟨by decide, by decide⟩,
      ⟨by decide, by decide⟩, by decide, fun f hf => nomatch hf⟩
  manifests j hj := by
    rw [List.mem_singleton.mp hj]
    exact nofun

theorem shot_ownManifests {state : JobState} : OwnManifests shotTexts (shotDb state) := by
  intro j hj m hm
  rw [List.mem_singleton.mp hj] at hm ⊢
  rw [← Option.some.inj (shot_manifest?.symm.trans hm)]

theorem shot_texts_apart : listText "active" ≠ shotManifest ∧ listText "paused" ≠ shotManifest ∧
    listText "paused" ≠ listText "active" ∧ detailText "active" ≠ shotManifest ∧
    detailText "paused" ≠ shotManifest ∧ detailText "active" ≠ listText "active" ∧
    detailText "active" ≠ listText "paused" ∧ detailText "paused" ≠ listText "active" ∧
    detailText "paused" ≠ listText "paused" ∧ detailText "paused" ≠ detailText "active" := by
  decide +kernel

theorem shot_parse :
    shotTexts.parse (listText "active") =
      some (Json.arr [jobJson (shotSummary .active) { jobId := "shot" }]).sorted ∧
    shotTexts.parse (listText "paused") =
      some (Json.arr [jobJson (shotSummary .paused) { jobId := "shot" }]).sorted ∧
    shotTexts.parse (detailText "active") = some (shotDetail .active).sorted ∧
    shotTexts.parse (detailText "paused") = some (shotDetail .paused).sorted := by
  obtain ⟨h1, h2, h3, h4, h5, h6, h7, h8, h9, h10⟩ := shot_texts_apart
  unfold shotTexts
  dsimp only
  refine ⟨?_, ?_, ?_, ?_⟩
  · rw [if_neg h1, if_pos rfl]
  · rw [if_neg h2, if_neg h3, if_pos rfl]
  · rw [if_neg h4, if_neg h6, if_neg h7, if_pos rfl]
  · rw [if_neg h5, if_neg h8, if_neg h9, if_neg h10, if_pos rfl]

theorem shot_library {state : JobState} (h : Shown state) : Library shotTexts (shotDb state) where
  jobs := by
    unfold cachedJobsJson
    rw [shot_listed h]
    rcases h with rfl | rfl
    · exact shot_parse.1
    · exact shot_parse.2.1
  detail jobId j hj := by
    by_cases hid : jobId = "shot"
    · subst hid
      rcases h with rfl | rfl
      · have hdetail : j = shotDetail .active := (Option.some.inj hj).symm
        rw [hdetail]
        exact shot_parse.2.2.1
      · have hdetail : j = shotDetail .paused := (Option.some.inj hj).symm
        rw [hdetail]
        exact shot_parse.2.2.2
    · have hnone : getJob (shotDb state) jobId = none := by
        refine Option.map_eq_none_iff.mpr (List.find?_eq_none.mpr fun r hr => ?_)
        rw [List.mem_singleton.mp hr]
        simpa using Ne.symm hid
      unfold getCachedJobDetailJson at hj
      rw [hnone] at hj
      cases hj

end WorkerViews

end MinRender
