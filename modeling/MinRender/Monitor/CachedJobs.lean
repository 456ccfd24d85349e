import MinRender.Monitor.DispatchManager
import MinRender.Monitor.JobControls
import MinRender.Monitor.RenderCoordinator
import MinRender.Monitor.RowSteps

/-!
# The cached job list

What a refresh of the job list stores, on the leader from its database and on
a worker from the leader's answer to `GET /api/jobs`, and what a node does to
its own render after a refresh. The cached text is kept as the value it stands
for.
-/

namespace MinRender
open DatabaseManager

structure JobInfo where
  manifest : JobManifest := {}
  currentState : String := "active"
  currentPriority : Int := 50
  totalChunks : Int := 0
  completedChunks : Int := 0
  failedChunks : Int := 0
  renderingChunks : Int := 0
  stoppedChunks : Int := 0
  firstAssignedMs : Int := 0
  lastCompletedMs : Int := 0
deriving DecidableEq, Repr

/-- The text of `jobs.current_state`. -/
def JobState.text : JobState → String
  | .active => "active"
  | .paused => "paused"
  | .cancelled => "cancelled"
  | .completed => "completed"
  | .failed => "failed"
  | .archived => "archived"

theorem JobState.text_eq_cancelled {s : JobState} :
    s.text = "cancelled" ↔ s = .cancelled := by
  cases s <;> decide

namespace MonitorApp
open Json

/-! ## The leader's list -/

/-- The jobs a list shows: archived ones are hidden, and so is a job whose
manifest cannot be read. -/
def listed (T : JsonText) (summaries : List JobSummary) : List (JobSummary × JobManifest) :=
  summaries.filterMap fun s =>
    if s.job.currentState = .archived then none
    else (T.manifest? s.job.manifestJson).map (s, ·)

/-- An entry of the leader's own cache. -/
def jobInfo (s : JobSummary) (manifest : JobManifest) : JobInfo where
  manifest := manifest
  currentState := s.job.currentState.text
  currentPriority := s.job.priority
  totalChunks := s.progress.total
  completedChunks := s.progress.completed
  failedChunks := s.progress.failed
  renderingChunks := s.progress.rendering
  stoppedChunks := s.progress.stopped
  firstAssignedMs := s.progress.firstAssignedMs
  lastCompletedMs := s.progress.lastCompletedMs

/-- The value of the first output flag that has one. -/
def outputStem (manifest : JobManifest) : Option String :=
  manifest.flags.findSome? fun f =>
    if f.isOutput then f.value.filter (· ≠ "") else none

/-- An entry of the list that workers get. It carries the row's id. -/
def jobJson (s : JobSummary) (manifest : JobManifest) : Json :=
  .obj ([("job_id", .str s.job.jobId),
    ("template_id", .str manifest.templateId),
    ("current_state", .str s.job.currentState.text),
    ("priority", .int s.job.priority),
    ("submitted_at_ms", .int s.job.submittedAtMs),
    ("submitted_by", .str manifest.submittedBy),
    ("frame_start", .int manifest.frameStart),
    ("frame_end", .int manifest.frameEnd),
    ("chunk_size", .int manifest.chunkSize),
    ("total_chunks", .int s.progress.total),
    ("completed_chunks", .int s.progress.completed),
    ("failed_chunks", .int s.progress.failed),
    ("rendering_chunks", .int s.progress.rendering),
    ("pending_chunks", .int s.progress.pending),
    ("stopped_chunks", .int s.progress.stopped),
    ("first_assigned_ms", .int s.progress.firstAssignedMs),
    ("last_completed_ms", .int s.progress.lastCompletedMs)] ++
    (manifest.outputDir.map fun dir => ("output_dir", .str dir)).toList ++
    ((outputStem manifest).map fun stem => ("output_stem", .str stem)).toList)

def cachedJobs (T : JsonText) (summaries : List JobSummary) : List JobInfo :=
  (listed T summaries).map fun e => jobInfo e.1 e.2

def cachedJobsJson (T : JsonText) (summaries : List JobSummary) : Json :=
  .arr ((listed T summaries).map fun e => jobJson e.1 e.2)

/-! ## The worker's list -/

/-- What a range-based loop over a value visits. -/
def elements : Json → List Json
  | .arr xs => xs
  | .obj fields => fields.map (·.2)
  | .null => []
  | j => [j]

/-- `jj.contains(key) && jj[key].is_string()`, and the text there. -/
def text? (key : String) (jj : Json) : Option String :=
  match jj.find? key with
  | some (.str s) => some s
  | _ => none

/-- One entry as a worker reads it. -/
def jobInfoOfJson (jj : Json) : Except JsonError JobInfo := do
  let jobId ← jj.value getString "job_id" ""
  let templateId ← jj.value getString "template_id" ""
  let submittedBy ← jj.value getString "submitted_by" ""
  let submittedAtMs ← jj.value getInt64 "submitted_at_ms" 0
  let frameStart ← jj.value getInt "frame_start" 1
  let frameEnd ← jj.value getInt "frame_end" 250
  let chunkSize ← jj.value getInt "chunk_size" 1
  let currentState ← jj.value getString "current_state" "active"
  let currentPriority ← jj.value getInt "priority" 50
  let totalChunks ← jj.value getInt "total_chunks" 0
  let completedChunks ← jj.value getInt "completed_chunks" 0
  let failedChunks ← jj.value getInt "failed_chunks" 0
  let renderingChunks ← jj.value getInt "rendering_chunks" 0
  let stoppedChunks ← jj.value getInt "stopped_chunks" 0
  let firstAssignedMs ← jj.value getInt64 "first_assigned_ms" 0
  let lastCompletedMs ← jj.value getInt64 "last_completed_ms" 0
  let flags := match text? "output_stem" jj with
    | some stem => [{ isOutput := true, value := some stem }]
    | none => []
  return {
    manifest := { jobId, templateId, submittedBy, submittedAtMs, frameStart, frameEnd,
                  chunkSize, outputDir := text? "output_dir" jj, flags }
    currentState, currentPriority, totalChunks, completedChunks, failedChunks,
    renderingChunks, stoppedChunks, firstAssignedMs, lastCompletedMs }

/-- The whole answer; one entry that cannot be read spoils it. -/
def jobsOfBody (body : Json) : Except JsonError (List JobInfo) :=
  (elements body).mapM jobInfoOfJson

/-! ## After a refresh -/

/-- The reason to abort the current render, from the list just stored. -/
def renderGone (jobs : List JobInfo) (c : RenderCoordinator) : Option String :=
  if c.activeRender.isNone ∨ c.currentJobId = "" then none
  else
    match jobs.find? (·.manifest.jobId = c.currentJobId) with
    | some info => if info.currentState ≠ "cancelled" then none else some "job cancelled"
    | none => some "job removed"

def abortRenderIfJobGone (jobs : List JobInfo) (c : RenderCoordinator) :
    RenderCoordinator × List RenderEffect :=
  match renderGone jobs c with
  | none => (c, [])
  | some reason =>
      let jobId := c.currentJobId
      let (c, effects) := c.abortCurrentRender reason
      (c.purgeJob jobId, effects)

/-- With a reason the render ends and the agent is told it; without one
nothing changes. -/
theorem abortRenderIfJobGone_spec (jobs : List JobInfo) (c : RenderCoordinator) :
    (∃ reason, renderGone jobs c = some reason ∧
      (abortRenderIfJobGone jobs c).1.activeRender = none ∧
      .sendAbort reason ∈ (abortRenderIfJobGone jobs c).2) ∨
    (renderGone jobs c = none ∧ abortRenderIfJobGone jobs c = (c, [])) := by
  unfold abortRenderIfJobGone
  cases hgone : renderGone jobs c with
  | none => exact .inr ⟨rfl, rfl⟩
  | some reason =>
      have hactive : c.activeRender.isSome := by
        unfold renderGone at hgone
        split at hgone
        · cases hgone
        · rename_i hactive
          simpa [Option.isSome_iff_ne_none] using (not_or.mp hactive).1
      obtain ⟨ar, har⟩ := Option.isSome_iff_exists.mp hactive
      refine .inl ⟨reason, rfl, ?_, ?_⟩
      · simp [RenderCoordinator.abortCurrentRender, RenderCoordinator.failChunk,
          RenderCoordinator.finish, RenderCoordinator.purgeJob, har]
      · simp [RenderCoordinator.abortCurrentRender, har]

/-! ## What the lists say of a job -/

variable {T : JsonText} {db : Db}

/-- The state a list of the database shows for a job. -/
def shown (T : JsonText) (db : Db) (jobId : String) : Option JobState :=
  (db.job? jobId).bind fun j =>
    if j.currentState = .archived ∨ (T.manifest? j.manifestJson).isNone then none
    else some j.currentState

/-- What is made of a job's render, by the state a list shows. -/
def verdict : Option JobState → Option String
  | some s => if s ≠ .cancelled then none else some "job cancelled"
  | none => some "job removed"

/-- Every stored manifest that can be read names its own row. -/
def OwnManifests (T : JsonText) (db : Db) : Prop :=
  ∀ j ∈ db.jobs, ∀ m, T.manifest? j.manifestJson = some m → m.jobId = j.jobId

/-- The list has the database's jobs, under their ids and states. -/
def Lists (T : JsonText) (db : Db) (jobs : List JobInfo) : Prop :=
  List.Forall₂
    (fun e info => info.manifest.jobId = e.1.job.jobId ∧
      info.currentState = e.1.job.currentState.text)
    (listed T (getAllJobs db)) jobs

theorem mem_listed {e : JobSummary × JobManifest} :
    e ∈ listed T (getAllJobs db) ↔ ∃ j ∈ db.jobs, j.currentState ≠ .archived ∧
      T.manifest? j.manifestJson = some e.2 ∧
      e.1 = { job := JobRow.ofRecord j, progress := progressOf db j.jobId } := by
  unfold listed getAllJobs jobsInOrder
  simp only [List.mem_filterMap, List.mem_map, List.mem_insertionSort]
  constructor
  · rintro ⟨_, ⟨j, hj, rfl⟩, he⟩
    split at he
    · cases he
    · rename_i hstate
      obtain ⟨m, hm, rfl⟩ := Option.map_eq_some_iff.mp he
      exact ⟨j, hj, hstate, hm, rfl⟩
  · rintro ⟨j, hj, hstate, hm, he⟩
    refine ⟨_, ⟨j, hj, rfl⟩, (if_neg hstate).trans ?_⟩
    exact Option.map_eq_some_iff.mpr ⟨e.2, hm, by rw [← he]⟩

/-- The entry found under an id. -/
theorem find_listed (jobId : String) :
    ((listed T (getAllJobs db)).find? (·.1.job.jobId = jobId)).map (·.1.job.currentState) =
      shown T db jobId := by
  show (Table.row? (·.1.job.jobId) jobId (listed T (getAllJobs db))).map _ = _
  unfold shown
  cases hrow : Table.row? (·.1.job.jobId) jobId (listed T (getAllJobs db)) with
  | some e =>
      obtain ⟨he, hid⟩ := Table.row?_mem hrow
      obtain ⟨j, hj, hstate, hm, hej⟩ := mem_listed.mp he
      have hjob : db.job? jobId = some j :=
        Db.job?_eq_some.mpr ⟨hj, by rw [← hid, hej]; rfl⟩
      rw [hjob, Option.bind_some, if_neg (by simp [hstate, hm]), Option.map_some, hej]
      rfl
  | none =>
      cases hjob : db.job? jobId with
      | none => rfl
      | some j =>
          obtain ⟨hj, hid⟩ := Db.job?_eq_some.mp hjob
          rw [Option.bind_some, if_pos, Option.map_none]
          by_contra hshown
          obtain ⟨hstate, hsome⟩ := not_or.mp hshown
          obtain ⟨m, hm⟩ := Option.ne_none_iff_exists'.mp (by simpa using hsome)
          have hmem : (⟨⟨JobRow.ofRecord j, progressOf db j.jobId⟩, m⟩ :
              JobSummary × JobManifest) ∈ listed T (getAllJobs db) :=
            mem_listed.mpr ⟨j, hj, hstate, hm, rfl⟩
          exact Table.row?_eq_none.mp hrow _ hmem hid

/-- A refresh decides by the state found under the current job. -/
theorem renderGone_of_find {jobs : List JobInfo} {c : RenderCoordinator}
    {state : Option JobState} (hjob : c.currentJobId ≠ "")
    (hfind : (jobs.find? (·.manifest.jobId = c.currentJobId)).map (·.currentState) =
      state.map JobState.text) :
    renderGone jobs c = verdict state := by
  have hactive : ¬ c.activeRender.isNone := by
    intro hnone
    unfold RenderCoordinator.currentJobId at hjob
    rw [Option.isNone_iff_eq_none.mp hnone] at hjob
    exact hjob rfl
  unfold renderGone
  rw [if_neg (by simp [hactive, hjob])]
  cases hf : jobs.find? (·.manifest.jobId = c.currentJobId) with
  | none =>
      rw [hf] at hfind
      rw [Option.map_eq_none_iff.mp hfind.symm]
      rfl
  | some info =>
      rw [hf] at hfind
      obtain ⟨s, hs, htext⟩ := Option.map_eq_some_iff.mp hfind.symm
      rw [hs]
      have htext : info.currentState = s.text := htext.symm
      simp only [htext, verdict, ne_eq, JobState.text_eq_cancelled]

theorem Lists.find {jobs : List JobInfo} (h : Lists T db jobs) (jobId : String) :
    (jobs.find? (·.manifest.jobId = jobId)).map (·.currentState) =
      (shown T db jobId).map JobState.text := by
  rw [← find_listed]
  unfold Lists at h
  generalize listed T (getAllJobs db) = entries at h
  induction h with
  | nil => rfl
  | @cons e info es infos he _ ih =>
      obtain ⟨hid, hstate⟩ := he
      by_cases hfound : e.1.job.jobId = jobId
      · rw [List.find?_cons_of_pos (by simpa [hid] using hfound),
          List.find?_cons_of_pos (by simpa using hfound)]
        exact congrArg some hstate
      · rw [List.find?_cons_of_neg (by simpa [hid] using hfound),
          List.find?_cons_of_neg (by simpa using hfound)]
        exact ih

/-- **A refresh decides by what its list shows.** -/
theorem Lists.renderGone {jobs : List JobInfo} (h : Lists T db jobs)
    {c : RenderCoordinator} (hjob : c.currentJobId ≠ "") :
    renderGone jobs c = verdict (shown T db c.currentJobId) :=
  renderGone_of_find hjob (h.find c.currentJobId)

/-- The leader's own list is of its database. -/
theorem lists_cachedJobs (h : OwnManifests T db) : Lists T db (cachedJobs T (getAllJobs db)) := by
  unfold Lists cachedJobs
  rw [List.forall₂_map_right_iff]
  refine List.forall₂_same.mpr fun e he => ⟨?_, rfl⟩
  obtain ⟨j, hj, -, hm, hej⟩ := mem_listed.mp he
  rw [hej]
  exact h j hj e.2 hm

/-- A worker reads every entry the leader writes, under the row's id and
state. -/
theorem jobInfoOfJson_jobJson (s : JobSummary) (manifest : JobManifest) :
    ∃ info, jobInfoOfJson (jobJson s manifest) = .ok info ∧
      info.manifest.jobId = s.job.jobId ∧
      info.currentState = s.job.currentState.text :=
  ⟨_, rfl, rfl, rfl⟩

/-- **A worker gets the leader's list.** -/
theorem lists_jobsOfBody (db : Db) :
    ∃ jobs, jobsOfBody (cachedJobsJson T (getAllJobs db)) = .ok jobs ∧ Lists T db jobs := by
  unfold jobsOfBody cachedJobsJson elements Lists
  induction listed T (getAllJobs db) with
  | nil => exact ⟨[], rfl, .nil⟩
  | cons e rest ih =>
      obtain ⟨jobs, hjobs, hlists⟩ := ih
      obtain ⟨info, hinfo, hid, hstate⟩ := jobInfoOfJson_jobJson e.1 e.2
      refine ⟨info :: jobs, ?_, .cons ⟨hid, hstate⟩ hlists⟩
      simp only at hjobs
      rw [List.map_cons, List.mapM_cons, hinfo, hjobs]
      rfl

/-! ## Stored manifests name their rows -/

/-- A call stores a manifest only under the id it names. -/
def storesOwn (T : JsonText) : DbCall → Bool
  | .insertJob job => (T.manifest? job.manifestJson).all (·.jobId = job.jobId)
  | .updateJobManifest jobId manifestJson => (T.manifest? manifestJson).all (·.jobId = jobId)
  | _ => true

theorem OwnManifests.after (h : OwnManifests T db) {c : DbCall}
    (hc : storesOwn T c = true) : OwnManifests T (c.after T db) := by
  refine (jobs_evolve T c db).forall_mem h (fun j j' hstep hj => ?_) fun j hnew => ?_
  · cases hstep with
    | manifest hid =>
        intro m hm
        have hown : m.jobId = _ := of_decide_eq_true (Option.all_eq_true _ _ |>.mp hc m hm)
        rw [hown]
        exact hid.symm
    | _ => exact hj
  · obtain ⟨job, rfl, rfl⟩ := hnew
    intro m hm
    exact of_decide_eq_true (Option.all_eq_true _ _ |>.mp hc m hm)

end MonitorApp

end MinRender
