import MinRender.Monitor.CompletedFrames
import MinRender.Monitor.DispatchManager
import MinRender.Monitor.RowSteps

/-!
# Reports that outlive what they report on

A worker buffers its reports and sends them until the leader answers, so a
report may arrive at any time after its dispatch and more than once; the
leader queues it if its fence lets it pass, and looks again when it drains the
queues. The state machine here keeps, with every report, the render it comes
from, and compares what that render belongs to with what the report meets: a
job deleted and stored anew, and a job requeued.
-/

namespace MinRender.LateReports
open DatabaseManager DispatchManager Table

/-! ## Renders and their reports -/

/-- A dispatched render; `serial` numbers the dispatches. -/
structure Render where
  jobId : String
  frameStart : Int
  frameEnd : Int
  nodeId : String
  editEpoch : Int
  serial : Nat
deriving DecidableEq, Repr

def Render.completion (r : Render) : CompletionReport :=
  { nodeId := r.nodeId, jobId := r.jobId, frameStart := r.frameStart,
    frameEnd := r.frameEnd, editEpoch := r.editEpoch }

def Render.failure (r : Render) (error : String) : FailureReport :=
  { nodeId := r.nodeId, jobId := r.jobId, frameStart := r.frameStart,
    frameEnd := r.frameEnd, error, editEpoch := r.editEpoch }

def Render.frame (r : Render) (frame : Int) : FrameReport :=
  { nodeId := r.nodeId, jobId := r.jobId, frame, editEpoch := r.editEpoch }

/-! ## The leader -/

/-- The report queues, each report as its render and what it adds to it. -/
structure Queues where
  completions : List Render := []
  failures : List (Render × String) := []
  frames : List (Render × Int) := []
deriving DecidableEq, Repr

/-- Frames that passed the epoch check and are about to be written: a batch of
the drained queue, or one frame of the leader's own render. -/
inductive Adding
  | batch (jobId : String) (frames : List (Render × Int))
  | single (r : Render) (frame : Int)
deriving DecidableEq, Repr

structure Leader where
  db : Db
  /-- Every render dispatched so far, the last first. -/
  renders : List Render := []
  /-- How many renders had been dispatched when a job was last deleted. -/
  deletedAt : String → Nat := fun _ => 0
  /-- How many had been dispatched when its chunks were last reset by a requeue. -/
  requeuedAt : String → Nat := fun _ => 0
  queued : Queues := {}
  /-- What the running drain has taken and not handled yet. -/
  draining : Queues := {}
  adding : Option Adding := none

/-- How the leader's own render ends. -/
inductive Outcome
  | completed (nowMs : Int)
  | failed (maxRetries : Int)

inductive Event
  /-- A database call of any thread, assignments and reports apart. -/
  | call (c : DbCall)
  /-- `assignChunk` under the epoch read before it, and its dispatch. -/
  | assign (chunkId : Int) (nodeId : String) (nowMs editEpoch : Int)
  /-- `POST /api/dispatch/complete` arrives. -/
  | postComplete (r : Render)
  /-- `POST /api/dispatch/failed` arrives. -/
  | postFailed (r : Render) (error : String)
  /-- `POST /api/dispatch/frame-complete` arrives, with the frames of one job
  and epoch. -/
  | postFrames (jobId : String) (editEpoch : Int) (frames : List (Render × Int))
  /-- `processReports` takes the queues. -/
  | drain
  | drainCompletion (nowMs : Int)
  /-- `maxRetries` is that of the manifest read before. -/
  | drainFailure (maxRetries : Int)
  /-- The epoch check of the next batch of frames. -/
  | checkBatch (jobId : String) (editEpoch : Int)
  /-- The leader's own render ends, or reports a frame. -/
  | ownOutcome (r : Render) (o : Outcome)
  | checkOwnFrame (r : Render) (frame : Int)
  /-- The frames that passed are written. -/
  | addFrames

/-- The calls this machine has events of its own for. -/
def ownEvent : DbCall → Bool
  | .assignChunk .. | .completeChunk .. | .failChunk .. | .addCompletedFrames ..
  | .addCompletedFramesBatch .. => true
  | _ => false

/-- The database after a call, and the marks it leaves. -/
def Leader.after (T : JsonText) (s : Leader) (c : DbCall) : Leader :=
  let s' := { s with db := c.after T s.db }
  match c with
  | .deleteJob jobId =>
      { s' with deletedAt := Function.update s.deletedAt jobId s.renders.length }
  | .resetAllChunks jobId =>
      { s' with requeuedAt := Function.update s.requeuedAt jobId s.renders.length }
  | _ => s'

def Render.ofRow (c : ChunkRecord) (nodeId : String) (editEpoch : Int) (serial : Nat) :
    Render :=
  { jobId := c.jobId, frameStart := c.frameStart, frameEnd := c.frameEnd,
    nodeId, editEpoch, serial }

/-- The fence's verdict on an outcome report, at the handler. -/
def passes (db : Db) (r : Render) : Bool :=
  isChunkCurrent db r.jobId r.frameStart r.frameEnd r.nodeId r.editEpoch

/-- A frame of the batch of a job and epoch. -/
def inBatch (jobId : String) (editEpoch : Int) (f : Render × Int) : Bool :=
  f.1.jobId = jobId ∧ f.1.editEpoch = editEpoch

def outcomeCall (r : Render) : Outcome → DbCall
  | .completed nowMs =>
      .completeChunk r.jobId r.frameStart r.frameEnd nowMs r.nodeId r.editEpoch
  | .failed maxRetries =>
      .failChunk r.jobId r.frameStart r.frameEnd maxRetries r.nodeId r.editEpoch

def step (T : JsonText) (s : Leader) : Event → Option Leader
  | .call c => if ownEvent c then none else some (s.after T c)
  | .assign chunkId nodeId nowMs editEpoch =>
      (s.db.chunk? chunkId).map fun c =>
        let r := (DbCall.assignChunk chunkId nodeId nowMs editEpoch).exec T s.db
        { s with
          db := r.2
          renders := if r.1 = true then
              .ofRow c nodeId editEpoch s.renders.length :: s.renders
            else s.renders }
  | .postComplete r =>
      if r ∉ s.renders then none
      else if passes s.db r then
        some { s with queued.completions := s.queued.completions ++ [r] }
      else some s
  | .postFailed r error =>
      if r ∉ s.renders then none
      else if passes s.db r then
        some { s with queued.failures := s.queued.failures ++ [(r, error)] }
      else some s
  | .postFrames jobId editEpoch frames =>
      if ¬ ∀ f ∈ frames, f.1 ∈ s.renders ∧ inBatch jobId editEpoch f then none
      else if isJobEpochCurrent s.db jobId editEpoch then
        some { s with queued.frames := s.queued.frames ++ frames }
      else some s
  | .drain =>
      -- one drain at a time; reports that arrive meanwhile are queued anew
      if s.draining = {} ∧ s.adding = none then
        some { s with queued := {}, draining := s.queued }
      else none
  | .drainCompletion nowMs =>
      match s.draining.completions with
      | [] => none
      | r :: rest =>
          some { s with
            db := (outcomeCall r (.completed nowMs)).after T s.db
            draining.completions := rest }
  | .drainFailure maxRetries =>
      match s.draining.completions, s.draining.failures with
      -- failures wait until the completions are through
      | [], r :: rest =>
          some { s with
            db := (outcomeCall r.1 (.failed maxRetries)).after T s.db
            draining.failures := rest }
      | _, _ => none
  | .checkBatch jobId editEpoch =>
      let batch := s.draining.frames.filter (inBatch jobId editEpoch)
      if s.draining.completions ≠ [] ∨ s.draining.failures ≠ [] ∨ s.adding ≠ none ∨
          batch = [] then none
      else
        let s' := { s with
          draining.frames := s.draining.frames.filter (!inBatch jobId editEpoch ·) }
        if isJobEpochCurrent s.db jobId editEpoch then
          some { s' with adding := some (.batch jobId batch) }
        else some s'
  | .ownOutcome r o =>
      -- the leader's own outcomes skip the queues, but come between no check and its write
      if r ∉ s.renders ∨ s.adding ≠ none then none
      else some { s with db := (outcomeCall r o).after T s.db }
  | .checkOwnFrame r frame =>
      if r ∉ s.renders ∨ s.adding ≠ none then none
      else if isJobEpochCurrent s.db r.jobId r.editEpoch then
        some { s with adding := some (.single r frame) }
      else some s
  | .addFrames =>
      match s.adding with
      | none => none
      | some (.batch jobId frames) =>
          some { s with
            db := (DbCall.addCompletedFramesBatch jobId
              (frames.map (·.2))).after T s.db
            adding := none }
      | some (.single r frame) =>
          some { s with
            db := (DbCall.addCompletedFrames r.jobId frame).after T s.db
            adding := none }

def machine (T : JsonText) : Machine Leader Event := ⟨step T⟩

def start : Leader := { db := Db.empty }

/-! ## Stale reports -/

section Stale

variable (stale : Leader → Render → Prop)

/-- No report of a stale render changes a chunk row, in the step that would
write it. The frames of a batch are taken one by one, in their order. -/
def ChangesNothing (T : JsonText) (s : Leader) (e : Event) (s' : Leader) : Prop :=
  match e with
  | .drainCompletion _ =>
      ∀ r ∈ s.draining.completions.head?, stale s r → s'.db.chunks = s.db.chunks
  | .drainFailure _ =>
      ∀ r ∈ s.draining.failures.head?, stale s r.1 → s'.db.chunks = s.db.chunks
  | .ownOutcome r _ => stale s r → s'.db.chunks = s.db.chunks
  | .addFrames =>
      match s.adding with
      | none => True
      | some (.single r _) => stale s r → s'.db.chunks = s.db.chunks
      | some (.batch jobId frames) =>
          ∀ before f later, frames = before ++ f :: later → stale s f.1 →
            ((DbCall.addCompletedFramesBatch jobId ((before ++ [f]).map (·.2))).after T
                s.db).chunks =
              ((DbCall.addCompletedFramesBatch jobId (before.map (·.2))).after T
                s.db).chunks
  | .call _ | .assign .. => True
  | _ => s'.db.chunks = s.db.chunks

/-- A report of a stale render meets nothing of its own: no chunk row passes
the fence for its outcome, and the row of a frame lists it, before or by an
earlier report of the batch. -/
def MeetsNothing (s : Leader) (e : Event) (_ : Leader) : Prop :=
  match e with
  | .drainCompletion _ => ∀ r ∈ s.draining.completions.head?, stale s r → passes s.db r = false
  | .drainFailure _ => ∀ r ∈ s.draining.failures.head?, stale s r.1 → passes s.db r.1 = false
  | .ownOutcome r _ => stale s r → passes s.db r = false
  | .addFrames =>
      match s.adding with
      | none => True
      | some (.single r frame) => stale s r →
          ∀ c, rowOfFrame s.db r.jobId frame = some c → frame ∈ c.completedFrames
      | some (.batch jobId frames) =>
          ∀ before f later, frames = before ++ f :: later → stale s f.1 →
            ∀ c, batchRowOfFrame s.db jobId f.2 = some c →
              f.2 ∈ c.completedFrames ∨ f.2 ∈ before.map (·.2)
  | _ => True

end Stale

/-- The render's job was deleted after its dispatch. -/
def OfDeletedJob (s : Leader) (r : Render) : Prop := r.serial < s.deletedAt r.jobId

/-- The render's job was requeued after its dispatch. -/
def BeforeRequeue (s : Leader) (r : Render) : Prop := r.serial < s.requeuedAt r.jobId

/-! ## What an outcome report changes -/

variable {T : JsonText} {db : Db} {s s' : Leader} {e : Event}

theorem passes_eq_false {r : Render} : passes db r = false ↔
    ∀ c ∈ db.chunks, fence r.jobId r.frameStart r.frameEnd r.nodeId r.editEpoch c = false := by
  unfold passes isChunkCurrent
  rw [List.any_eq_false]
  simp

theorem completed_same_iff {r : Render} (nowMs : Int) :
    ((outcomeCall r (.completed nowMs)).after T db).chunks = db.chunks ↔
      passes db r = false := by
  show update (fence r.jobId r.frameStart r.frameEnd r.nodeId r.editEpoch)
    (fun c => { c with state := .completed, completedAtMs := some nowMs }) db.chunks =
      db.chunks ↔ _
  rw [update_eq_self_iff, passes_eq_false]
  constructor
  · intro hsame c hc
    by_contra hf
    have hf : fence r.jobId r.frameStart r.frameEnd r.nodeId r.editEpoch c = true := by
      simpa using hf
    have hassigned : c.state = .assigned := (of_decide_eq_true hf).2.1
    have hcompleted : ChunkState.completed = c.state :=
      congrArg ChunkRecord.state (hsame c hc hf)
    rw [hassigned] at hcompleted
    cases hcompleted
  · intro hnone c hc hf
    rw [hnone c hc] at hf
    cases hf

/-- The failure of a chunk that passes the fence counts a retry on its row. -/
theorem failChunk_retries {jobId node : String} {fs fe epoch : Int} {c : ChunkRecord}
    (maxRetries : Int) (hc : c ∈ db.chunks) (hf : fence jobId fs fe node epoch c = true) :
    ∃ c' ∈ (failChunk db jobId fs fe maxRetries node epoch).2.chunks,
      c'.id = c.id ∧ c'.retryCount = c.retryCount + 1 := by
  have hcurrent : isChunkCurrent db jobId fs fe node epoch = true :=
    List.any_eq_true.mpr ⟨c, hc, hf⟩
  obtain ⟨hrange, hassigned, -⟩ := of_decide_eq_true hf
  obtain ⟨l, hrow⟩ := failChunk_row maxRetries hc hcurrent hrange hassigned
  exact ⟨_, hrow, rfl, rfl⟩

theorem failed_same_iff {r : Render} (maxRetries : Int) :
    ((outcomeCall r (.failed maxRetries)).after T db).chunks = db.chunks ↔
      passes db r = false := by
  show (failChunk db r.jobId r.frameStart r.frameEnd maxRetries r.nodeId
    r.editEpoch).2.chunks = db.chunks ↔ _
  constructor
  · intro hsame
    rw [passes_eq_false]
    intro c hc
    by_contra hf
    obtain ⟨c', hc', hid, hretry⟩ :=
      failChunk_retries maxRetries hc (by simpa using hf)
    rw [hsame] at hc'
    rw [db.chunk_ext hc' hc hid] at hretry
    omega
  · intro hstale
    unfold passes at hstale
    unfold failChunk
    rw [if_neg (by simp [hstale])]

theorem outcome_same_iff {r : Render} : ∀ o : Outcome,
    ((outcomeCall r o).after T db).chunks = db.chunks ↔ passes db r = false
  | .completed nowMs => completed_same_iff nowMs
  | .failed maxRetries => failed_same_iff maxRetries

/-! ## What a step does -/

theorem drainCompletion_db {nowMs : Int} (h : step T s (.drainCompletion nowMs) = some s') :
    ∃ r rest, s.draining.completions = r :: rest ∧
      s'.db = (outcomeCall r (.completed nowMs)).after T s.db := by
  simp only [step] at h
  split at h
  · cases h
  · rename_i r rest hq
    exact ⟨r, rest, hq, by rw [← Option.some.inj h]⟩

theorem drainFailure_db {maxRetries : Int}
    (h : step T s (.drainFailure maxRetries) = some s') :
    ∃ r rest, s.draining.failures = r :: rest ∧
      s'.db = (outcomeCall r.1 (.failed maxRetries)).after T s.db := by
  simp only [step] at h
  split at h
  · rename_i r rest _ hq
    exact ⟨r, rest, hq, by rw [← Option.some.inj h]⟩
  · cases h

theorem ownOutcome_db {r : Render} {o : Outcome} (h : step T s (.ownOutcome r o) = some s') :
    s'.db = (outcomeCall r o).after T s.db := by
  simp only [step] at h
  split at h
  · cases h
  · rw [← Option.some.inj h]

/-- Posts and checks. -/
def quiet : Event → Bool
  | .postComplete .. | .postFailed .. | .postFrames .. | .drain | .checkBatch ..
  | .checkOwnFrame .. => true
  | _ => false

theorem quiet_db (hq : quiet e = true) (h : step T s e = some s') : s'.db = s.db := by
  cases e with
  | postComplete r | postFailed r error | checkOwnFrame r frame =>
      simp only [step] at h
      split at h
      · cases h
      · split at h <;> cases h <;> rfl
  | postFrames jobId editEpoch frames =>
      simp only [step] at h
      split at h
      · cases h
      · split at h <;> cases h <;> rfl
  | checkBatch jobId editEpoch =>
      simp only [step] at h
      split at h
      · cases h
      · split at h <;> cases h <;> rfl
  | drain =>
      simp only [step] at h
      split at h
      · cases h
        rfl
      · cases h
  | _ => cases hq

/-- **Step by step the two agree**, whatever makes a render stale. -/
theorem changesNothing_iff (stale : Leader → Render → Prop) (h : step T s e = some s') :
    MeetsNothing stale s e s' ↔ ChangesNothing stale T s e s' := by
  cases e with
  | call c => exact Iff.rfl
  | assign => exact Iff.rfl
  | postComplete | postFailed | postFrames | drain | checkBatch | checkOwnFrame =>
      have hdb := quiet_db rfl h
      exact ⟨fun _ => congrArg Db.chunks hdb, fun _ => trivial⟩
  | drainCompletion nowMs =>
      obtain ⟨r, rest, hq, hdb⟩ := drainCompletion_db h
      simp only [MeetsNothing, ChangesNothing, hq, hdb, List.head?_cons, Option.mem_def,
        Option.some.injEq, forall_eq', outcome_same_iff]
  | drainFailure maxRetries =>
      obtain ⟨r, rest, hq, hdb⟩ := drainFailure_db h
      simp only [MeetsNothing, ChangesNothing, hq, hdb, List.head?_cons, Option.mem_def,
        Option.some.injEq, forall_eq', outcome_same_iff]
  | ownOutcome r o =>
      simp only [MeetsNothing, ChangesNothing, ownOutcome_db h, outcome_same_iff]
  | addFrames =>
      simp only [step] at h
      unfold MeetsNothing ChangesNothing
      cases hadd : s.adding with
      | none => exact Iff.rfl
      | some a =>
          rw [hadd] at h
          cases a with
          | single r frame =>
              cases h
              exact imp_congr_right fun _ => addCompletedFrames_same_iff.symm
          | batch jobId frames =>
              refine forall_congr' fun before => forall_congr' fun f => forall_congr' fun later =>
                imp_congr_right fun _ => imp_congr_right fun _ => ?_
              rw [List.map_append]
              exact (addCompletedFramesBatch_same_iff _).symm

/-! ## Runs -/

/-- **No report crosses incarnations exactly while it meets nothing of its
own.** For every interleaving of assignments, database calls, report posts and
drains: no completion, failure or frame report of a render whose job was
deleted after its dispatch changes a chunk row, if and only if, whenever one is
handled, no row passes the fence for its outcome, and the row of its frame
lists the frame already. -/
theorem deleted_jobs_reports_iff (T : JsonText) (es : List Event) :
    (machine T).Along (ChangesNothing OfDeletedJob T) start es ↔
      (machine T).Along (MeetsNothing OfDeletedJob) start es :=
  (Machine.Along.congr (I := fun _ => True) (fun _ _ _ _ _ => trivial)
    (fun _ _ _ _ h => changesNothing_iff OfDeletedJob h) trivial).symm

/-- A job is deleted while its render's report is under way, and stored anew
under the same id; the same node gets the same chunk. -/
def storedAnew : List Event :=
  [.call (.insertJob { jobId := "shot" }), .call (.insertChunks "shot" [⟨1, 1⟩]),
    .assign 1 "w1" 1000 0, .call (.deleteJob "shot"),
    .call (.insertJob { jobId := "shot" }), .call (.insertChunks "shot" [⟨1, 1⟩]),
    .assign 2 "w1" 2000 0, .postComplete ⟨"shot", 1, 1, "w1", 0, 0⟩, .drain]

instance (s : Leader) (r : Render) : Decidable (OfDeletedJob s r) := by
  unfold OfDeletedJob
  infer_instance

instance (s : Leader) (r : Render) : Decidable (BeforeRequeue s r) := by
  unfold BeforeRequeue
  infer_instance

/-- **A report crosses over**: that of the deleted job's render completes the
new job's chunk. -/
theorem report_crosses_incarnations :
    ¬ ∀ es, (machine shotText).Along (ChangesNothing OfDeletedJob shotText) start es := by
  intro h
  refine Machine.Along.refute storedAnew (.drainCompletion 3000)
    (fun t u => (t.draining.completions.head?.any fun r => decide (OfDeletedJob t r)) &&
      decide (u.db.chunks ≠ t.db.chunks)) ?_ (by decide) (h _)
  intro t u hbad hgood
  obtain ⟨hstale, hchanged⟩ := Bool.and_eq_true_iff.mp hbad
  obtain ⟨r, hr, hdeleted⟩ := Option.any_eq_true _ _ |>.mp hstale
  exact of_decide_eq_true hchanged (hgood r hr (of_decide_eq_true hdeleted))

/-- **A requeue stays clean exactly while a late report meets nothing of its
own.** For every interleaving: no completion, failure or frame report of a
render dispatched before a requeue of its job changes a chunk row after it, if
and only if, whenever one is handled, no row passes the fence for its outcome,
and the row of its frame lists the frame already. -/
theorem requeued_jobs_reports_iff (T : JsonText) (es : List Event) :
    (machine T).Along (ChangesNothing BeforeRequeue T) start es ↔
      (machine T).Along (MeetsNothing BeforeRequeue) start es :=
  (Machine.Along.congr (I := fun _ => True) (fun _ _ _ _ _ => trivial)
    (fun _ _ _ _ h => changesNothing_iff BeforeRequeue h) trivial).symm

/-- A job is requeued while a frame of its render is under way. -/
def requeuedMeanwhile : List Event :=
  [.call (.insertJob { jobId := "shot" }), .call (.insertChunks "shot" [⟨1, 1⟩]),
    .assign 1 "w1" 1000 0, .call (.resetAllChunks "shot"),
    .call (.updateJobState "shot" .active),
    .postFrames "shot" 0 [(⟨"shot", 1, 1, "w1", 0, 0⟩, 1)], .drain, .checkBatch "shot" 0]

/-- A stale frame is about to be written to a row that lists none. -/
def WritesStaleFrame (t : Leader) : Bool :=
  t.adding.any fun a =>
    match a with
    | .batch jobId frames => frames.head?.any fun f =>
        BeforeRequeue t f.1 ∧
          ((DbCall.addCompletedFramesBatch jobId [f.2]).after shotText t.db).chunks ≠
            ((DbCall.addCompletedFramesBatch jobId []).after shotText t.db).chunks
    | .single .. => false

/-- **A frame survives the requeue**: the epoch has not moved, so the frame is
written to the pending row. -/
theorem frame_survives_requeue :
    ¬ ∀ es, (machine shotText).Along (ChangesNothing BeforeRequeue shotText) start es := by
  intro h
  refine Machine.Along.refute requeuedMeanwhile .addFrames
    (fun t _ => WritesStaleFrame t) ?_ (by decide) (h _)
  intro t u hbad hgood
  obtain ⟨a, hadd, hbad⟩ := (Option.any_eq_true _ _).mp hbad
  cases a with
  | single r frame => cases hbad
  | batch jobId frames =>
      obtain ⟨f, hf, hbad⟩ := (Option.any_eq_true _ _).mp hbad
      obtain ⟨hstale, hchanged⟩ := of_decide_eq_true hbad
      obtain ⟨rest, rfl⟩ := List.head?_eq_some_iff.mp hf
      simp only [ChangesNothing, hadd] at hgood
      exact hchanged (hgood [] f rest rfl hstale)

end MinRender.LateReports
