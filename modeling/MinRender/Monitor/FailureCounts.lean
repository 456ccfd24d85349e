import MinRender.Framework.Runs
import MinRender.Monitor.DeadWorkers
import MinRender.Monitor.RetryBudget

/-!
# Failures on the row and in the tracker

A failure has two effects on the leader: the row, through `failChunk`, and the
count of the node that failed, through `recordFailure`. A report over HTTP
waits in a queue after its pre-check, and is counted when it is drained
whether or not the row still takes it; a failure of the leader's own render
goes to the row alone.
-/

namespace MinRender.FailureCounts
open DatabaseManager DispatchManager

/-! ## The leader -/

/-- A call that the property is about. -/
inductive Mark
  /-- `failChunk` on behalf of a node returned true -/
  | accepted (nodeId : String)
  /-- `recordFailure` was called for a node -/
  | recorded (nodeId : String)
deriving DecidableEq, Repr

structure Leader where
  db : Db
  tracker : NodeFailureTracker := {}
  /-- the queue of failures, the oldest first -/
  failures : List FailureReport := []
  log : List Mark := []

inductive Event
  /-- `POST /api/dispatch/failed` -/
  | post (r : FailureReport)
  /-- the oldest failure is drained; `max_retries` was read before -/
  | drain (maxRetries nowMs : Int)
  /-- `reportCompletion` for a failed render of the leader itself -/
  | own (jobId : String) (chunk : ChunkRange) (maxRetries editEpoch : Int)
  /-- any other call, of whatever thread -/
  | call (c : DbCall)
  /-- the tracker's record of a node is cleared in the UI -/
  | clearNode (nodeId : String)
deriving DecidableEq, Repr

/-- The row's part of a failure. -/
def Leader.failChunk (w : Leader) (nodeId jobId : String) (frameStart frameEnd maxRetries : Int)
    (editEpoch : Int) : Leader :=
  let r := DatabaseManager.failChunk w.db jobId frameStart frameEnd maxRetries nodeId editEpoch
  { w with
    db := r.2
    log := if r.1 then w.log ++ [.accepted nodeId] else w.log }

/-- The tracker's part of a failure. -/
def Leader.recordFailure (w : Leader) (nodeId : String) (nowMs : Int) : Leader :=
  { w with
    tracker := w.tracker.recordFailure nodeId nowMs
    log := w.log ++ [.recorded nodeId] }

/-- One failure of the queue. -/
def Leader.processFailure (w : Leader) (r : FailureReport) (maxRetries nowMs : Int) : Leader :=
  let w := w.failChunk r.nodeId r.jobId r.frameStart r.frameEnd maxRetries r.editEpoch
  if r.nodeId = "" then w else w.recordFailure r.nodeId nowMs

def step (T : JsonText) (leader : String) (w : Leader) : Event → Option Leader
  | .post r =>
      if isChunkCurrent w.db r.jobId r.frameStart r.frameEnd r.nodeId r.editEpoch then
        some { w with failures := w.failures ++ [r] }
      else some w
  | .drain maxRetries nowMs =>
      match w.failures with
      | [] => none
      | r :: rest => some ({ w with failures := rest }.processFailure r maxRetries nowMs)
  | .own jobId chunk maxRetries editEpoch =>
      some (w.failChunk leader jobId chunk.frameStart chunk.frameEnd maxRetries editEpoch)
  | .call c =>
      if RetryBudget.isFailure c then none else some { w with db := c.after T w.db }
  | .clearNode nodeId => some { w with tracker := w.tracker.clearNode nodeId }

def machine (T : JsonText) (leader : String) : Machine Leader Event := ⟨step T leader⟩

/-! ## Counted once -/

/-- For every node as many failures are recorded as accepted. -/
def CountedOnce (w : Leader) (_ : Event) (w' : Leader) : Prop :=
  ∀ nodeId, nodeId ≠ "" →
    w'.log.count (.recorded nodeId) + w.log.count (.accepted nodeId) =
      w.log.count (.recorded nodeId) + w'.log.count (.accepted nodeId)

/-- A failure that names its node is drained while it is current, and a failure
of the leader's own render is not current. -/
def OnTime (leader : String) (w : Leader) (e : Event) (_ : Leader) : Prop :=
  match e with
  | .drain _ _ => ∀ r rest, w.failures = r :: rest → r.nodeId ≠ "" →
      isChunkCurrent w.db r.jobId r.frameStart r.frameEnd r.nodeId r.editEpoch = true
  | .own jobId chunk _ editEpoch => leader ≠ "" →
      isChunkCurrent w.db jobId chunk.frameStart chunk.frameEnd leader editEpoch = false
  | _ => True

variable {T : JsonText} {leader : String} {w w' : Leader} {e : Event}

/-! ## What the two parts count -/

theorem count_failChunk {nodeId jobId n : String} {fs fe maxRetries epoch : Int} :
    (w.failChunk nodeId jobId fs fe maxRetries epoch).log.count (.recorded n) =
        w.log.count (.recorded n) ∧
      (w.failChunk nodeId jobId fs fe maxRetries epoch).log.count (.accepted n) =
        w.log.count (.accepted n) +
          if isChunkCurrent w.db jobId fs fe nodeId epoch = true ∧ nodeId = n then 1 else 0 := by
  have hlog : (w.failChunk nodeId jobId fs fe maxRetries epoch).log =
      if isChunkCurrent w.db jobId fs fe nodeId epoch then w.log ++ [.accepted nodeId]
      else w.log := by
    unfold Leader.failChunk
    dsimp only
    rw [failChunk_reply]
  rw [hlog]
  by_cases hcurrent : isChunkCurrent w.db jobId fs fe nodeId epoch = true
  · rw [if_pos hcurrent, List.count_append, List.count_append]
    by_cases hn : nodeId = n
    · subst hn
      simp [hcurrent]
    · simp [hcurrent, hn]
  · rw [if_neg hcurrent]
    simp [hcurrent]

theorem count_recordFailure {nodeId n : String} {nowMs : Int} :
    (w.recordFailure nodeId nowMs).log.count (.recorded n) =
        w.log.count (.recorded n) + (if nodeId = n then 1 else 0) ∧
      (w.recordFailure nodeId nowMs).log.count (.accepted n) = w.log.count (.accepted n) := by
  unfold Leader.recordFailure
  dsimp only
  rw [List.count_append, List.count_append]
  by_cases hn : nodeId = n
  · subst hn
    simp
  · simp [hn]

/-- A drained failure is counted as often as accepted exactly when it is current. -/
theorem counted_processFailure {r : FailureReport} {maxRetries nowMs : Int} :
    CountedOnce w e (w.processFailure r maxRetries nowMs) ↔
      (r.nodeId ≠ "" →
        isChunkCurrent w.db r.jobId r.frameStart r.frameEnd r.nodeId r.editEpoch = true) := by
  have hrow := fun n => @count_failChunk w r.nodeId r.jobId n r.frameStart r.frameEnd maxRetries
    r.editEpoch
  unfold Leader.processFailure CountedOnce
  dsimp only
  by_cases hnode : r.nodeId = ""
  · refine iff_of_true (fun n hn => ?_) fun h => absurd hnode h
    obtain ⟨hrecorded, haccepted⟩ := hrow n
    have hother : ¬ (isChunkCurrent w.db r.jobId r.frameStart r.frameEnd r.nodeId
        r.editEpoch = true ∧ r.nodeId = n) := fun h => hn (h.2 ▸ hnode)
    rw [if_neg hother] at haccepted
    rw [if_pos hnode]
    omega
  · rw [if_neg hnode]
    constructor
    · intro h _
      obtain ⟨hrecorded, haccepted⟩ := hrow r.nodeId
      obtain ⟨hmore, hsame⟩ := @count_recordFailure
        (w.failChunk r.nodeId r.jobId r.frameStart r.frameEnd maxRetries r.editEpoch)
        r.nodeId r.nodeId nowMs
      have heq := h r.nodeId hnode
      by_contra hstale
      rw [if_neg fun hc => hstale hc.1] at haccepted
      rw [if_pos rfl] at hmore
      omega
    · intro h n hn
      obtain ⟨hrecorded, haccepted⟩ := hrow n
      obtain ⟨hmore, hsame⟩ := @count_recordFailure
        (w.failChunk r.nodeId r.jobId r.frameStart r.frameEnd maxRetries r.editEpoch)
        r.nodeId n nowMs
      by_cases heq : r.nodeId = n
      · rw [if_pos ⟨h hnode, heq⟩] at haccepted
        rw [if_pos heq] at hmore
        omega
      · rw [if_neg fun hc => heq hc.2] at haccepted
        rw [if_neg heq] at hmore
        omega

/-- A failure of the leader's own is never counted. -/
theorem counted_own {jobId : String} {fs fe maxRetries epoch : Int} :
    CountedOnce w e (w.failChunk leader jobId fs fe maxRetries epoch) ↔
      (leader ≠ "" → isChunkCurrent w.db jobId fs fe leader epoch = false) := by
  have hrow := fun n => @count_failChunk w leader jobId n fs fe maxRetries epoch
  unfold CountedOnce
  constructor
  · intro h hleader
    obtain ⟨hrecorded, haccepted⟩ := hrow leader
    have heq := h leader hleader
    rw [Bool.eq_false_iff]
    intro hcurrent
    rw [if_pos ⟨hcurrent, rfl⟩] at haccepted
    omega
  · intro h n hn
    obtain ⟨hrecorded, haccepted⟩ := hrow n
    have hnot : ¬ (isChunkCurrent w.db jobId fs fe leader epoch = true ∧ leader = n) := by
      rintro ⟨hcurrent, rfl⟩
      rw [h hn] at hcurrent
      cases hcurrent
    rw [if_neg hnot] at haccepted
    omega

theorem counted_of_log (h : w'.log = w.log) : CountedOnce w e w' := by
  intro n _
  rw [h]

theorem counted_step_iff (hstep : step T leader w e = some w') :
    OnTime leader w e w' ↔ CountedOnce w e w' := by
  cases e with
  | post r =>
      refine iff_of_true trivial (counted_of_log ?_)
      unfold step at hstep
      dsimp only at hstep
      split at hstep
      · cases hstep
        rfl
      · cases hstep
        rfl
  | drain maxRetries nowMs =>
      unfold step at hstep
      dsimp only at hstep
      unfold OnTime
      dsimp only
      split at hstep
      · cases hstep
      · rename_i r rest hfailures
        cases hstep
        have hiff := @counted_processFailure { w with failures := rest }
          (.drain maxRetries nowMs) r maxRetries nowMs
        refine Iff.trans ?_ hiff.symm
        constructor
        · exact fun h => h r rest hfailures
        · intro h r' rest' heq
          rw [hfailures] at heq
          cases heq
          exact h
  | own jobId chunk maxRetries epoch =>
      cases hstep
      exact counted_own.symm
  | call c =>
      refine iff_of_true trivial (counted_of_log ?_)
      unfold step at hstep
      dsimp only at hstep
      split at hstep
      · cases hstep
      · cases hstep
        rfl
  | clearNode nodeId =>
      cases hstep
      exact iff_of_true trivial (counted_of_log rfl)

/-- **Every accepted failure is counted once, and no other, exactly along the
runs whose failures are drained on time** and in which the leader's own renders
do not fail a chunk they hold. -/
theorem counted_iff_onTime (T : JsonText) (leader : String) (w : Leader) (es : List Event) :
    (machine T leader).Along CountedOnce w es ↔
      (machine T leader).Along (OnTime leader) w es := by
  have hkeeps : (machine T leader).Keeps fun _ => True := fun _ _ _ _ _ => trivial
  exact (Machine.Along.congr hkeeps (fun _ _ _ _ hstep => counted_step_iff hstep) trivial).symm

/-- `w1` has the one chunk of `shot`, and posts its failure twice because the
first answer was lost. -/
def postedTwice : List Event :=
  [.call (.assignChunk 1 "w1" 1000 0),
    .post ⟨"w1", "shot", 1, 10, "exit code 1", 0⟩, .post ⟨"w1", "shot", 1, 10, "exit code 1", 0⟩,
    .drain 3 2000]

/-- **A failure is counted twice**: the second copy is rejected by the row and
counted by the tracker. -/
theorem stale_failure_is_counted :
    ¬ ∀ T leader w es, (machine T leader).Along CountedOnce w es := by
  intro h
  refine Machine.Along.refute postedTwice (.drain 3 2000)
    (fun w w' => decide (w'.log.count (.recorded "w1") + w.log.count (.accepted "w1") ≠
      w.log.count (.recorded "w1") + w'.log.count (.accepted "w1"))) ?_ ?_
    (h shotText "n1" { db := RetryBudget.shotDb } _)
  · intro t u hbad hgood
    exact of_decide_eq_true hbad (hgood "w1" (by decide))
  · decide

end MinRender.FailureCounts
