import MinRender.Monitor.DispatchManager
import MinRender.Monitor.JobControls
import MinRender.Monitor.RowSteps

/-!
# Finished jobs have no open work

The dispatch cycle on the main thread against the job controls on any number
of HTTP threads, every database call one atomic step. A finished job with open
chunks is a debt: a control that reopens chunks first and the job second owes
the second call, and repays it before it ends.
-/

namespace MinRender.FinishedJobs
open DatabaseManager DispatchManager MonitorApp Table

/-- A job state the dispatcher never takes work from again by itself. -/
def Finished (s : JobState) : Prop := s = .completed ∨ s = .failed

instance (s : JobState) : Decidable (Finished s) := by
  unfold Finished
  infer_instance

/-- A chunk still to be rendered. -/
def Open (s : ChunkState) : Prop := s = .pending ∨ s = .assigned

instance (s : ChunkState) : Decidable (Open s) := by
  unfold Open
  infer_instance

/-- The job is finished but has an open chunk. -/
def Debt (jobId : String) (db : Db) : Prop :=
  (∃ j, db.job? jobId = some j ∧ Finished j.currentState) ∧
    ∃ c ∈ db.chunks, c.jobId = jobId ∧ Open c.state

/-! ## The threads -/

/-- The main thread, or an HTTP thread. -/
abbrev Thread := Option Nat

/-- What a thread takes up: a round of the dispatch cycle, or a control. -/
@[reducible] def Task : Thread → Type
  | none => CycleMemory × CycleInput
  | some _ => Control

def code (T : JsonText) : (t : Thread) → Task t → DbProg Unit
  | none, (memory, input) => do
      let _ ← DispatchManager.update T memory input
      return ()
  | some _, control => control.code T

abbrev World := Pool database Db Thread

def machine (T : JsonText) : Machine World (Sched Thread Task) :=
  Pool.machine (DbCall.exec T) (code T)

/-- An empty database and idle threads. -/
def start : World := { shared := Db.empty, thread := fun _ => .done () }

/-! ## The two properties -/

/-- Whenever no operation is midway, no finished job has an open chunk. -/
def NoOpenWork (_ : World) (_ : Sched Thread Task) (w' : World) : Prop :=
  w'.Quiet → ∀ jobId, ¬ Debt jobId w'.shared

/-- What the writes that can reopen work must find: a completion verdict that
still holds; a chunk reassigned to a named node, or reverted, that is open
already or whose job is not finished. -/
def FindsNoFinishedJob (c : DbCall) (db : Db) : Prop :=
  match c with
  | .updateJobState jobId s =>
      Finished s → (getJobCompletionState db jobId).isSome = true
  | .reassignChunk id target _ =>
      target ≠ "" → ∀ c ∈ db.chunks, reassignable id c = true →
        Open c.state ∨ ∀ j, db.job? c.jobId = some j → ¬ Finished j.currentState
  | .revertChunkToPending jobId fs fe =>
      ∀ c ∈ db.chunks, inRange jobId fs fe c = true →
        Open c.state ∨ ∀ j, db.job? c.jobId = some j → ¬ Finished j.currentState
  | _ => True

/-- The next call meets its condition. -/
def Timely (w : World) (e : Sched Thread Task) (_ : World) : Prop :=
  Pool.Calls (fun _ c db => FindsNoFinishedJob c db) w e

/-! ## Causing and paying a debt -/

/-- The calls that open chunks of a job whatever its state. -/
def Causes (jobId : String) (c : DbCall) : Prop :=
  c = .resetAllChunks jobId ∨ ∃ ranges, c = .rebuildChunks jobId ranges

/-- The calls that reopen the job. -/
def Pays (jobId : String) (c : DbCall) : Prop :=
  ∃ s, c = .updateJobState jobId s ∧ ¬ Finished s

/-- What insertions rely on: the job is not finished. -/
def Ready (c : DbCall) (db : Db) : Prop :=
  match c with
  | .insertChunks jobId _ => ∀ j, db.job? jobId = some j → ¬ Finished j.currentState
  | _ => True

variable {T : JsonText} {db : Db} {call : DbCall} {jobId : String}

theorem job_ne_finished_retry {c : ChunkRecord} (hc : c ∈ db.chunks)
    (hj : c.jobId = jobId) (hs : c.state = .failed) {j : JobRecord}
    (h : ((DbCall.retryFailedChunks jobId).after T db).job? jobId = some j) :
    ¬ Finished j.currentState := by
  have hhit : 0 < hits (fun c : ChunkRecord => decide (c.jobId = jobId ∧
      c.state = .failed)) db.chunks :=
    hits_pos.mpr ⟨c, hc, decide_eq_true ⟨hj, hs⟩⟩
  simp only [DbCall.after, DbCall.exec, DatabaseManager.retryFailedChunks, hhit,
    if_true, updateJobState, Db.job?_updateJobs, Db.job?_updateChunks] at h
  obtain ⟨j₀, hj₀, rfl⟩ := Option.map_eq_some_iff.mp h
  have hid := (Db.job?_eq_some.mp hj₀).2
  simp [hid, Finished]

theorem job_ne_finished_requeue {c : ChunkRecord} {id nowMs : Int}
    (hc : c ∈ db.chunks) (hr : reassignable id c = true) {j : JobRecord}
    (h : ((DbCall.reassignChunk id "" nowMs).after T db).job? c.jobId = some j) :
    ¬ Finished j.currentState := by
  have hhit : hits (reassignable id) db.chunks ≠ 0 := by
    intro h0
    rw [hits_eq_zero] at h0
    rw [h0 c hc] at hr
    cases hr
  have hid : c.id = id := (of_decide_eq_true hr).1
  -- the reset row still names the job
  have hrow : ((db.updateChunks (reassignable id) toPending toPending_id
      toPending_jobId).chunk? id).map (·.jobId) = some c.jobId := by
    have hmem : toPending c ∈ (db.updateChunks (reassignable id) toPending
        toPending_id toPending_jobId).chunks :=
      mem_update.mpr ⟨c, hc, by rw [if_pos hr]⟩
    rw [Db.chunk?_eq_some.mpr ⟨hmem, hid⟩]
    rfl
  simp only [DbCall.after, DbCall.exec, DatabaseManager.reassignChunk, if_true,
    if_neg hhit, hrow, Db.job?_updateJobs, Db.job?_updateChunks] at h
  obtain ⟨j₀, hj₀, rfl⟩ := Option.map_eq_some_iff.mp h
  have hid := (Db.job?_eq_some.mp hj₀).2
  split
  · simp [Finished]
  · rename_i hnot
    intro hfin
    exact hnot (decide_eq_true ⟨by rw [hid], hfin⟩)

/-! ## One call -/

/-- How a call opens a row. -/
theorem RowStep.open_cases {c c' : ChunkRecord} (h : RowStep call c c')
    (ho : Open c'.state) :
    Open c.state ∨ Causes c.jobId call ∨
    (call = .retryFailedChunks c.jobId ∧ c.state = .failed) ∨
    (∃ id nowMs, call = .reassignChunk id "" nowMs ∧ reassignable id c = true) ∨
    (∃ id node nowMs, node ≠ "" ∧ call = .reassignChunk id node nowMs ∧
      reassignable id c = true) ∨
    (∃ fs fe, call = .revertChunkToPending c.jobId fs fe ∧
      inRange c.jobId fs fe c = true) := by
  cases h with
  | same | blacklist | frame | frames => exact .inl ho
  | assign hid hs => exact .inl (.inl hs)
  | fail failedOn hr hs => exact .inl (.inr hs)
  | reclaim ha hs | resetAssigned hj hs => exact .inl (.inr hs)
  | complete hf => rcases ho with ho | ho <;> cases ho
  | markCompleted => rcases ho with ho | ho <;> cases ho
  | stop hid hs => rcases ho with ho | ho <;> cases ho
  | revert hr =>
      have hj := (of_decide_eq_true hr).1
      subst hj
      exact .inr (.inr (.inr (.inr (.inr ⟨_, _, rfl, hr⟩))))
  | resetAll hj =>
      subst hj
      exact .inr (.inl (.inl rfl))
  | retry hj hs =>
      subst hj
      exact .inr (.inr (.inl ⟨rfl, hs⟩))
  | requeue hr => exact .inr (.inr (.inr (.inl ⟨_, _, rfl, hr⟩)))
  | reassign hn hr => exact .inr (.inr (.inr (.inr (.inl ⟨_, _, _, hn, rfl, hr⟩))))

/-- Only `updateJobState` finishes a stored job. -/
theorem JobStep.finished_cases {j j' : JobRecord} (h : JobStep call j j')
    (hf : Finished j'.currentState) :
    Finished j.currentState ∨
      ∃ s, call = .updateJobState j.jobId s ∧ Finished s := by
  cases h with
  | same | priority | manifest | bump | moved => exact .inl hf
  | state hj => exact .inr ⟨_, by rw [hj], hf⟩
  | retried => rcases hf with hf | hf <;> cases hf
  | reopened => rcases hf with hf | hf <;> cases hf

/-- A job with a completion verdict has no open chunk. -/
theorem not_open_of_verdict (h : (getJobCompletionState db jobId).isSome = true)
    {c : ChunkRecord} (hc : c ∈ db.chunks) (hj : c.jobId = jobId) :
    ¬ Open c.state := by
  intro ho
  have hhit : 0 < hits (fun c : ChunkRecord => decide (c.state ≠ .completed ∧
      c.state ≠ .failed ∧ c.state ≠ .stopped)) (chunksOf db jobId) := by
    refine hits_pos.mpr ⟨c, mem_chunksOf.mpr ⟨hc, hj⟩, ?_⟩
    rcases ho with ho | ho <;> simp [ho]
  simp only [getJobCompletionState, hhit, if_true] at h
  cases h

/-- A stored job that a call leaves finished, and that is not one the call
finishes, was finished before. -/
theorem finished_before {j j' : JobRecord}
    (hstate : ∀ s, call = .updateJobState jobId s → ¬ Finished s)
    (hj : db.job? jobId = some j) (hj' : (call.after T db).job? jobId = some j')
    (hf : Finished j'.currentState) : Finished j.currentState := by
  have hid := (Db.job?_eq_some.mp hj).2
  rcases @job?_after_some T call _ _ _ hj with hdel | ⟨j'', hj'', hstep⟩
  · subst hdel
    obtain ⟨hmem, hid'⟩ := Db.job?_eq_some.mp hj'
    exact absurd hid' (by simpa using (List.mem_filter.mp hmem).2)
  · rw [hj'] at hj''
    cases hj''
    rcases JobStep.finished_cases hstep hf with hold | ⟨s, hcall, hs⟩
    · exact hold
    · exact absurd hs (hstate s (hid ▸ hcall))

theorem job?_insertChunks {ranges : List ChunkRange} {i : String} :
    ((DbCall.insertChunks i ranges).after T db).job? jobId = db.job? jobId :=
  job?_congr (insertChunks_spec db i ranges).1 jobId

/-- **A timely call makes a debt only by causing it.** -/
theorem debt_after (hready : Ready call db) (hcond : FindsNoFinishedJob call db)
    (h : Debt jobId (call.after T db)) : Debt jobId db ∨ Causes jobId call := by
  obtain ⟨⟨j', hj', hfin'⟩, c', hc', hcj', hopen'⟩ := h
  rcases (chunks_evolve T call db).mem hc' with hnew | ⟨c, hc, hkeep, hrow⟩
  · -- a new row: of a job that is not finished, or of a rebuild
    obtain ⟨i, ranges, hcall, id, r, -, rfl⟩ := hnew
    have hi : i = jobId := hcj'
    subst hi
    rcases hcall with rfl | rfl
    · exact absurd hfin' (hready j' (job?_insertChunks.symm.trans hj'))
    · exact .inr (.inr ⟨ranges, rfl⟩)
  · have hcj : c.jobId = jobId := hrow.jobId_eq ▸ hcj'
    subst hcj
    obtain ⟨j, hj⟩ := db.job_of_chunk hc
    by_cases hset : ∃ s, call = .updateJobState c.jobId s ∧ Finished s
    · -- the verdict still holds, so the row was closed, and it stays as it is
      obtain ⟨s, rfl, hs⟩ := hset
      have hsame : c' = c := by
        cases hrow
        rfl
      exact absurd (hsame ▸ hopen') (not_open_of_verdict (hcond hs) hc rfl)
    · have hf : Finished j.currentState :=
        finished_before (fun s hs hf => hset ⟨s, hs, hf⟩) hj hj' hfin'
      rcases RowStep.open_cases hrow hopen' with
        ho | hcs | ⟨hcall, hs⟩ | ⟨id, nowMs, rfl, hr⟩ | ⟨id, node, nowMs, hn, rfl, hr⟩ |
        ⟨fs, fe, hcall, hr⟩
      · exact .inl ⟨⟨j, hj, hf⟩, c, hc, rfl, ho⟩
      · exact .inr hcs
      · subst hcall
        exact absurd hfin' (job_ne_finished_retry hc rfl hs hj')
      · exact absurd hfin' (job_ne_finished_requeue hc hr hj')
      · rcases hcond hn c hc hr with ho | hno
        · exact .inl ⟨⟨j, hj, hf⟩, c, hc, rfl, ho⟩
        · exact absurd hf (hno j hj)
      · subst hcall
        rcases hcond c hc hr with ho | hno
        · exact .inl ⟨⟨j, hj, hf⟩, c, hc, rfl, ho⟩
        · exact absurd hf (hno j hj)

/-- Paying clears the debt. -/
theorem not_debt_of_pays (h : Pays jobId call) : ¬ Debt jobId (call.after T db) := by
  obtain ⟨s, rfl, hs⟩ := h
  rintro ⟨⟨j', hj', hf⟩, -⟩
  simp only [DbCall.after, DbCall.exec, updateJobState, Db.job?_updateJobs] at hj'
  obtain ⟨j, hj, rfl⟩ := Option.map_eq_some_iff.mp hj'
  rw [if_pos (decide_eq_true (Db.job?_eq_some.mp hj).2)] at hf
  exact hs hf

/-! ## The programs -/

/-- Insertions come right after the insertion of their job, which is not
finished. -/
def Stores (jobId : String) : (c : DbCall) → c.Reply → Prop
  | .insertJob job, inserted =>
      inserted = true ∧ job.jobId = jobId ∧ ¬ Finished job.currentState
  | _, _ => False

/-- What may follow a call in its thread. -/
def MayFollow (c : DbCall) (r : c.Reply) (c' : DbCall) : Prop :=
  ∀ jobId ranges, c' = .insertChunks jobId ranges → Stores jobId c r

/-- A call that may follow any other and causes no debt. -/
def Steady (c : DbCall) : Prop :=
  (∀ jobId ranges, c ≠ .insertChunks jobId ranges) ∧ ∀ d, ¬ Causes d c

theorem Steady.mayFollow {c' : DbCall} (h : Steady c') (c : DbCall) (r : c.Reply) :
    MayFollow c r c' := fun jobId ranges hc => absurd hc (h.1 jobId ranges)

theorem ready_after_insertJob {job : JobRow} {ranges : List ChunkRange}
    (hstored : Stores jobId (.insertJob job) ((DbCall.insertJob job).exec T db).1) :
    Ready (.insertChunks jobId ranges) ((DbCall.insertJob job).after T db) := by
  obtain ⟨hins, rfl, hs⟩ := hstored
  intro j hj
  rcases insertJob_cases db job with ⟨-, hrefused⟩ | ⟨hfree, -, -, hjobs⟩
  · have hfalse : (insertJob db job).1 = false := by rw [hrefused]
    exact absurd (hins.symm.trans hfalse) Bool.noConfusion
  · obtain ⟨hmem, hid⟩ := Db.job?_eq_some.mp hj
    have hrow := List.mem_append.mp (hjobs ▸ hmem)
    rcases hrow with hold | hnew
    · exact absurd hid (Db.job?_eq_none.mp hfree j hold)
    · rw [List.mem_singleton.mp hnew]
      exact hs

theorem ready_next {c c' : DbCall} (h : MayFollow c (c.exec T db).1 c') :
    Ready c' (c.after T db) := by
  cases c' with
  | insertChunks jobId ranges =>
      have hs := h jobId ranges rfl
      cases c with
      | insertJob job => exact ready_after_insertJob hs
      | _ => exact hs.elim
  | _ => exact trivial

theorem Steady.of_upkeep {c : DbCall} (h : Upkeep c) : Steady c := by
  cases c with
  | completeChunk | getJob | failChunk | revertChunkToPending | isJobEpochCurrent
  | addCompletedFramesBatch | reassignDeadWorkerChunks | getAllJobs
  | getJobCompletionState | updateJobState | findNextPendingChunkForNode
  | getJobEditEpoch | assignChunk => simp [Steady, Causes]
  | _ => exact h.elim

theorem not_causes_of_submits {c : DbCall} (h : Submits c) (d : String) : ¬ Causes d c := by
  cases c with
  | insertJob | insertChunks | deleteJob => simp [Causes]
  | _ => exact h.elim

theorem links_mayFollow : Links T MayFollow where
  store manifest priority chunks := by
    rintro jobId ranges ⟨rfl, -⟩
    exact ⟨rfl, rfl, by simp [jobRowOf, Finished]⟩
  undo jobId chunks := by
    rintro _ _ ⟨⟩

theorem mayFollow_insertJob (c : DbCall) (r : c.Reply) (job : JobRow) :
    MayFollow c r (.insertJob job) := by
  rintro _ _ ⟨⟩

theorem main_adjacent {task : CycleMemory × CycleInput} :
    (code T none task).Adjacent MayFollow := by
  refine Prog.Adjacent.bind ?_ (fun _ => trivial) fun _ => trivial
  exact update_adjacent links_mayFollow mayFollow_insertJob
    fun c' hc' c r => (Steady.of_upkeep hc').mayFollow c r

theorem main_first {task : CycleMemory × CycleInput} :
    (code T none task).First fun c' => ∀ c r, MayFollow c r c' := by
  refine Prog.First.bind ?_ fun _ => trivial
  exact update_first (fun job c r => mayFollow_insertJob c r job)
    fun c' hc' c r => (Steady.of_upkeep hc').mayFollow c r

theorem main_repays {task : CycleMemory × CycleInput} :
    (code T none task).Repays Causes Pays := by
  refine .of_every (Prog.Every.bind (update_calls.mono ?_) fun _ => trivial)
  rintro c (hsubmits | hupkeep) d
  · exact not_causes_of_submits hsubmits d
  · exact (Steady.of_upkeep hupkeep).2 d

/-! ## The controls -/

/-- A control inserts nothing by itself and finishes no job. -/
def ControlCall (c : DbCall) : Prop :=
  (∀ job, c ≠ .insertJob job) ∧ (∀ jobId ranges, c ≠ .insertChunks jobId ranges) ∧
    ∀ jobId s, c = .updateJobState jobId s → ¬ Finished s

theorem resetForEdit_calls {mode jobId : String} {manifest : JobManifest} :
    (resetForEdit mode jobId manifest).Every ControlCall := by
  refine .ite (.ask (by simp [ControlCall]) fun _ => trivial) ?_
  split
  · exact .ask (by simp [ControlCall]) fun _ => trivial
  · exact trivial

theorem applyEditLocally_calls {dbOpen : Bool} {jobId manifestJson mode : String}
    {priority : Int} :
    (applyEditLocally T dbOpen jobId manifestJson mode priority).Every ControlCall := by
  refine .ite trivial ?_
  cases editManifest T jobId manifestJson with
  | error result => exact trivial
  | ok manifest =>
      refine .ask (by simp [ControlCall]) fun job => .ite trivial ?_
      refine .ask (by simp [ControlCall]) fun _ =>
        .ask (by simp [ControlCall]) fun _ => .ite ?_ trivial
      refine .ask (by simp [ControlCall]) fun rendering =>
        .ask (by simp [ControlCall]) fun _ =>
          resetForEdit_calls.bind fun reset => ?_
      cases reset with
      | none => exact trivial
      | some u =>
          exact .ask (by simp [ControlCall, Finished]) fun _ => trivial

theorem control_calls (control : Control) : (control.code T).Every ControlCall := by
  cases control with
  | edit dbOpen jobId manifestJson mode priority =>
      exact applyEditLocally_calls.bind fun _ => trivial
  | requeue jobId =>
      exact .ask (by simp [ControlCall]) fun _ =>
        .ask (by simp [ControlCall, Finished]) fun _ => trivial
  | _ => exact .ask (by simp [ControlCall, Finished]) fun _ => trivial

theorem pays_active (d : String) : Pays d (.updateJobState d .active) :=
  ⟨.active, rfl, by simp [Finished]⟩

/-- A reset is repaid when what follows it reopens the job. -/
theorem resetForEdit_repays {mode jobId : String} {manifest : JobManifest}
    {f : Option Unit → DbProg (Option EditOutcome)}
    (hnone : (f none).Repays Causes Pays) (hsome : (f (some ())).Repays Causes Pays)
    (hpays : (f (some ())).Surely (Pays jobId)) :
    (resetForEdit mode jobId manifest >>= f).Repays Causes Pays := by
  unfold resetForEdit
  split
  · exact ⟨fun d hd => by simp [Causes] at hd, fun _ => hsome⟩
  · split
    · refine ⟨fun d hd _ => ?_, fun _ => hsome⟩
      obtain hd | ⟨ranges, hd⟩ := hd
      · cases hd
      · cases hd
        exact hpays
    · exact hnone

theorem applyEditLocally_repays {dbOpen : Bool} {jobId manifestJson mode : String}
    {priority : Int} :
    (applyEditLocally T dbOpen jobId manifestJson mode priority).Repays
      Causes Pays := by
  refine .ite trivial ?_
  cases editManifest T jobId manifestJson with
  | error result => exact trivial
  | ok manifest =>
      refine .ask (by simp [Causes]) fun job => .ite trivial ?_
      refine .ask (by simp [Causes]) fun _ =>
        .ask (by simp [Causes]) fun _ => .ite ?_ trivial
      refine .ask (by simp [Causes]) fun rendering =>
        .ask (by simp [Causes]) fun _ => ?_
      exact resetForEdit_repays trivial (.ask (by simp [Causes]) fun _ => trivial)
        (.inl (pays_active jobId))

theorem control_repays (control : Control) :
    (control.code T).Repays Causes Pays := by
  cases control with
  | edit dbOpen jobId manifestJson mode priority =>
      exact applyEditLocally_repays.bind fun _ => trivial
  | requeue jobId =>
      refine ⟨fun d hd _ => ?_, fun _ =>
        .ask (by simp [Causes]) fun _ => trivial⟩
      obtain hd | ⟨ranges, hd⟩ := hd
      · cases hd
        exact .inl (pays_active jobId)
      · cases hd
  | _ => exact .ask (by simp [Causes]) fun _ => trivial

/-- A control does not finish the job whose chunks are about to be inserted. -/
theorem ready_stable {c' : DbCall} (h : ControlCall call) (hr : Ready c' db) :
    Ready c' (call.after T db) := by
  cases c' with
  | insertChunks jobId ranges =>
      intro j' hj' hf
      cases hj : db.job? jobId with
      | none =>
          rcases @job?_after_none T call _ _ hj with hn | ⟨_, _, hnew⟩
          · rw [hn] at hj'
            cases hj'
          · obtain ⟨job, hcall, -⟩ := hnew
            exact h.1 job hcall
      | some j => exact hr j hj (finished_before (h.2.2 jobId) hj hj' hf)
  | _ => exact trivial

theorem ready_of_free {c' : DbCall} (h : ∀ c r, MayFollow c r c') : Ready c' db := by
  cases c' with
  | insertChunks jobId ranges => exact (h .getAllJobs [] jobId ranges rfl).elim
  | _ => exact trivial

theorem ControlCall.mayFollow {c' : DbCall} (h : ControlCall c') (c : DbCall)
    (r : c.Reply) : MayFollow c r c' := fun jobId ranges hc =>
  absurd hc (h.2.1 jobId ranges)

/-! ## The pool -/

theorem code_adjacent : ∀ (t : Thread) (task : Task t),
    (code T t task).Adjacent MayFollow
  | none, _ => main_adjacent
  | some _, control =>
      .of_every ((control_calls control).mono fun _ h => h.mayFollow)

theorem code_first : ∀ (t : Thread) (task : Task t),
    (code T t task).First fun c' => ∀ c r, MayFollow c r c'
  | none, _ => main_first
  | some _, control => ((control_calls control).mono fun _ h => h.mayFollow).first

theorem code_repays : ∀ (t : Thread) (task : Task t),
    (code T t task).Repays Causes Pays
  | none, _ => main_repays
  | some _, control => control_repays control

theorem code_control : ∀ (t : Thread) (task : Task t), t ≠ none →
    (code T t task).Every ControlCall
  | none, _ => fun h => absurd rfl h
  | some _, control => fun _ => control_calls control

/-- **The invariant.** Every finished job with open chunks is owed a reopening,
and every thread keeps to its program: insertions meet their job as they left
it, and debts are repaid. -/
structure Inv (w : World) : Prop where
  covered : Pool.Covered Debt Pays w
  ready : ∀ t, (w.thread t).First fun c => Ready c w.shared
  adjacent : ∀ t, (w.thread t).Adjacent MayFollow
  repays : ∀ t, (w.thread t).Repays Causes Pays
  control : ∀ t, t ≠ none → (w.thread t).Every ControlCall

theorem inv_start : Inv start where
  covered := by
    rintro d ⟨⟨j, hj, -⟩, -⟩
    cases hj
  ready := fun _ => trivial
  adjacent := fun _ => trivial
  repays := fun _ => trivial
  control := fun _ _ => trivial

theorem inv_step {w w' : World} {e : Sched Thread Task}
    (hstep : (machine T).step w e = some w') (hw : Inv w) (ht : Timely w e w') :
    Inv w' where
  covered := by
    refine Pool.covered_step hstep ?_ (fun c s d hp => not_debt_of_pays hp) hw.repays
      hw.covered
    rintro i c k d rfl hi hd
    have hready : Ready c w.shared := by
      have := hw.ready i
      rwa [hi] at this
    have hcond : FindsNoFinishedJob c w.shared := by
      simpa [Timely, Pool.Calls, hi] using ht
    exact debt_after hready hcond hd
  ready := by
    refine Pool.handoff (A := MayFollow) ?_ (fun c s c' => ready_next) ?_
      hw.adjacent hstep hw.ready
    · exact fun t task => (code_first t task).mono fun c h s => ready_of_free h
    · rintro i j c s c' k k' hi hj hne rfl hr
      by_cases hmain : j = none
      · -- the dispatch thread waits while a control calls
        have hcall := hw.control i (hmain ▸ hne)
        rw [hi] at hcall
        exact ready_stable hcall.1 hr
      · have hcall := hw.control j hmain
        rw [hj] at hcall
        exact ready_of_free hcall.1.mayFollow
  adjacent := Pool.thread_all code_adjacent (fun _ _ _ r h => (h r).2) hstep
    hw.adjacent
  repays := Pool.thread_all code_repays (fun _ _ _ r h => h.2 r) hstep hw.repays
  control := by
    refine Pool.thread_all (Q := fun t p => t ≠ none → p.Every ControlCall)
      code_control ?_ hstep hw.control
    intro t c k r h ht
    exact (h ht).2 r

/-- **Finished jobs have no open work in any run whose writes find none
finished.** From an empty database, for every interleaving of dispatch cycles
with any number of job controls: while every completion verdict still holds
when it is written, and no chunk of a finished job is handed to a named node
or reverted, no finished job has a pending or assigned chunk whenever no
operation is midway. -/
theorem no_open_work_of_timely (T : JsonText) (es : List (Sched Thread Task)) :
    (machine T).Along Timely start es → (machine T).Along NoOpenWork start es := by
  refine Machine.Along.mono (I := Inv) ?_ inv_start
  intro w e w' hw hstep ht
  have hw' := inv_step hstep hw ht
  exact ⟨fun hq jobId => hw'.covered.quiet hq jobId, hw'⟩

/-- One frame, one chunk. -/
def oneFrame : JobManifest := { jobId := "shot", frameStart := 1, frameEnd := 1 }

/-- A round that takes in submissions; the leader itself takes no work. -/
def round (submissions : List SubmitRequest) : CycleInput :=
  { nowMs := 1000, submissions, localInfo := { nodeState := "stopped" } }

/-- A job is submitted, its only chunk stopped, and the job is found
completed; then a requeue reopens both. -/
def requeueAfterStop : List (Sched Thread Task) :=
  [.start none ({}, round [⟨oneFrame, 50⟩]), .step none, .step none, .step none,
    .step none, .start (some 0) (.stop 1), .step (some 0),
    .start none ({}, round []), .step none, .step none, .step none,
    .start (some 0) (.requeue "shot"), .step (some 0), .step (some 0)]

instance (c : DbCall) (db : Db) : Decidable (FindsNoFinishedJob c db) := by
  unfold FindsNoFinishedJob
  split <;> infer_instance

theorem no_open_work_after_requeue :
    (machine shotText).Along NoOpenWork start requeueAfterStop := by
  refine no_open_work_of_timely shotText _ ?_
  refine Machine.Along.of_check (fun w e _ => match e with
    | .start _ _ => true
    | .step i => match w.thread i with
        | .done _ => true
        | .call c _ => decide (FindsNoFinishedJob c w.shared)) ?_ (by decide)
  intro w e w' htest
  cases e with
  | start i t => exact trivial
  | step i =>
      simp only [Timely, Pool.Calls]
      cases hi : w.thread i with
      | done u => exact trivial
      | call c k =>
          simp only [hi] at htest
          exact of_decide_eq_true htest

/-- The chunk is handed to a node by name instead: the job stays completed,
and the node's render is of a job no one looks at again. -/
def reassignAfterStop : List (Sched Thread Task) :=
  requeueAfterStop.take 11 ++ [.start (some 0) (.reassign 1 "w2" 2000)]

/-- **A completed job with open work**: one of its chunks is handed to a named
node, and the job stays completed. -/
theorem reassign_leaves_job_completed :
    ¬ ∀ es, (machine shotText).Along NoOpenWork start es := by
  intro h
  refine Machine.Along.refute_run reassignAfterStop (.step (some 0))
    (fun _ u => ((u.thread none).ended && (u.thread (some 0)).ended) &&
      ((u.shared.job? "shot").any fun j => Finished j.currentState) &&
      u.shared.chunks.any fun c => c.jobId = "shot" ∧ Open c.state) ?_ ?_ (h _)
  · intro t u hrun hstep hbad hgood
    rw [Bool.and_eq_true, Bool.and_eq_true, Bool.and_eq_true] at hbad
    obtain ⟨⟨⟨hmain, hhttp⟩, hjob⟩, hchunk⟩ := hbad
    have hfull : (machine shotText).run start (reassignAfterStop ++ [.step (some 0)]) =
        some u := by
      rw [Machine.run_append, hrun]
      simp [Machine.run_cons, hstep]
    have hquiet : u.Quiet := by
      refine Pool.quiet_of_run [none, some 0] (fun _ => rfl) ?_ hfull ?_
      · decide
      · simp [hmain, hhttp]
    rw [Option.any_eq_true] at hjob
    obtain ⟨j, hj, hf⟩ := hjob
    obtain ⟨c, hc, hco⟩ := List.any_eq_true.mp hchunk
    obtain ⟨hcj, ho⟩ := of_decide_eq_true hco
    exact hgood hquiet "shot" ⟨⟨j, hj, of_decide_eq_true hf⟩, c, hc, hcj, ho⟩
  · decide

end MinRender.FinishedJobs
