import MinRender.Agent.Agent
import MinRender.Core.JobTypes
import MinRender.Core.PathMapping

/-!
# The render coordinator of a node

Queued dispatches, the active render and the finished renders whose staged
frames wait for their output directory. A call returns the coordinator after
it and, in order, what it makes others do: reports to the application,
messages to the agent, an agent to start. Clocks, the agent's connection and
the outcome of a staged copy are read from the call's surroundings.
-/

namespace MinRender

structure PendingDispatch where
  manifest : JobManifest
  chunk : ChunkRange
  editEpoch : Int := -1
deriving DecidableEq, Repr

structure ActiveRender where
  manifest : JobManifest
  chunk : ChunkRange
  editEpoch : Int := -1
  ackReceived : Bool := false
  completedFrames : List Int := []
  stagingDir : String := ""
  originalOutputDir : String := ""
deriving DecidableEq, Repr

/-- A finished render whose staged frames could not be copied yet. -/
structure PendingDelivery where
  jobId : String
  chunk : ChunkRange
  editEpoch : Int := -1
  stagingDir : String
  outputDir : String
  firstAttempt : Int
  lastAttempt : Int
deriving DecidableEq, Repr

/-- The states a completion is reported in. -/
inductive ReportState
  | completed | failed | abandoned
deriving DecidableEq, Repr

/-- What a call makes others do. -/
inductive RenderEffect
  | completion (jobId : String) (chunk : ChunkRange) (state : ReportState)
      (editEpoch : Int)
  | frameCompletion (jobId : String) (frame editEpoch : Int)
  | sendTask (t : TaskMessage)
  | sendAbort (reason : String)
  | spawnAgent (started : Bool)
  | clearReady
  | markNeedsAttention
deriving DecidableEq, Repr

/-- Where application data lives, and the system's tag in path names. -/
structure AppData where
  os : String := "lin"
  dir : String := ""
deriving DecidableEq, Repr

/-- What a call reads around it: the clock in milliseconds, the agent's
connection when a dispatch is taken and again when a lost pipe is looked for,
whether its process runs, whether spawning it and creating a staging directory
succeed, where application data lives, and whether a staged directory can be
delivered. -/
structure Surroundings where
  nowMs : Int := 0
  connected : Bool := true
  stillConnected : Bool := true
  processAlive : Bool := true
  spawns : Bool := true
  stages : Bool := true
  appData : AppData := {}
  delivers : (stagingDir outputDir : String) → Bool := fun _ _ => true

structure RenderCoordinator where
  dispatchQueue : List PendingDispatch := []
  deletedJobs : List String := []
  activeRender : Option ActiveRender := none
  pendingDeliveries : List PendingDelivery := []
  stopped : Bool := false
  stagingEnabled : Bool := false
  /-- when the pipe was lost, while the grace period runs -/
  disconnectGrace : Option Int := none
  /-- when a dispatch began to wait for an agent, and was last tried -/
  requeue : Option (Int × Int) := none
deriving DecidableEq, Repr

namespace RenderCoordinator

def disconnectGraceSeconds : Int := 30

def deliveryRetrySeconds : Int := 30

def deliveryTimeoutSeconds : Int := 600

/-- `duration_cast<seconds>` of the milliseconds from `since` to `now`. -/
def secondsBetween (since now : Int) : Int := (now - since).tdiv 1000

/-- The queue and the deleted jobs outlive a farm restart. -/
def init (c : RenderCoordinator) : RenderCoordinator :=
  { c with activeRender := none, pendingDeliveries := [], stopped := false }

def queueDispatch (c : RenderCoordinator) (manifest : JobManifest)
    (chunk : ChunkRange) (editEpoch : Int) : RenderCoordinator :=
  { c with dispatchQueue := c.dispatchQueue ++ [⟨manifest, chunk, editEpoch⟩] }

def purgeJob (c : RenderCoordinator) (jobId : String) : RenderCoordinator :=
  { c with dispatchQueue := c.dispatchQueue.filter (·.manifest.jobId ≠ jobId) }

def markJobDeleted (c : RenderCoordinator) (jobId : String) : RenderCoordinator :=
  { c with deletedJobs := jobId :: c.deletedJobs.filter (· ≠ jobId) }

def setStopped (c : RenderCoordinator) (stopped : Bool) : RenderCoordinator :=
  { c with stopped }

def setStagingEnabled (c : RenderCoordinator) (enabled : Bool) : RenderCoordinator :=
  { c with stagingEnabled := enabled }

/-- Empty while nothing renders. -/
def currentJobId (c : RenderCoordinator) : String :=
  match c.activeRender with
  | some ar => ar.manifest.jobId
  | none => ""

/-! ## Ending the active render -/

/-- The active render is dropped and reported in a state. -/
def finish (c : RenderCoordinator) (ar : ActiveRender) (state : ReportState) :
    RenderCoordinator × List RenderEffect :=
  ({ c with activeRender := none },
    [.completion ar.manifest.jobId ar.chunk state ar.editEpoch])

def failChunk (c : RenderCoordinator) : RenderCoordinator × List RenderEffect :=
  match c.activeRender with
  | none => (c, [])
  | some ar => { c with disconnectGrace := none }.finish ar .failed

def abortCurrentRender (c : RenderCoordinator) (reason : String) :
    RenderCoordinator × List RenderEffect :=
  match c.activeRender with
  | none => (c, [])
  | some _ =>
      let (c, effects) := c.failChunk
      (c, .sendAbort reason :: effects)

def abandonCurrentRender (c : RenderCoordinator) (reason : String) :
    RenderCoordinator × List RenderEffect :=
  match c.activeRender with
  | none => (c, [])
  | some ar =>
      let (c, effects) := { c with disconnectGrace := none }.finish ar .abandoned
      (c, .sendAbort reason :: effects)

/-! ## Starting a render -/

/-- The staging directory of a chunk. -/
def stagingPath (appData : AppData) (jobId : String) (chunk : ChunkRange) : String :=
  let base := joinPath appData.os appData.dir "staging"
  joinPath appData.os (joinPath appData.os base jobId) chunk.rangeStr

/-- The part of the task message that names the chunk. -/
def buildTaskJson (manifest : JobManifest) (chunk : ChunkRange) : TaskMessage where
  jobId := manifest.jobId
  frameStart := chunk.frameStart
  frameEnd := chunk.frameEnd

/-- The active render of a dispatch, staged where staging is on and the job
has an output directory. -/
def renderOf (c : RenderCoordinator) (d : PendingDispatch) (env : Surroundings) :
    ActiveRender :=
  let ar : ActiveRender :=
    { manifest := d.manifest, chunk := d.chunk, editEpoch := d.editEpoch }
  match d.manifest.outputDir with
  | some dir =>
      if c.stagingEnabled ∧ dir ≠ "" ∧ env.stages then
        { ar with
          stagingDir := stagingPath env.appData d.manifest.jobId d.chunk
          originalOutputDir := dir }
      else ar
  | none => ar

def startRender (c : RenderCoordinator) (d : PendingDispatch) (env : Surroundings) :
    RenderCoordinator × List RenderEffect :=
  ({ c with
      requeue := none
      disconnectGrace := none
      activeRender := some (c.renderOf d env) },
    [.clearReady, .sendTask (buildTaskJson d.manifest d.chunk)])

/-- No agent is connected: spawn one the first time, put the dispatch back,
fail it after ten seconds. -/
def awaitAgent (c : RenderCoordinator) (d : PendingDispatch) (env : Surroundings) :
    RenderCoordinator × List RenderEffect :=
  let fail : RenderEffect :=
    .completion d.manifest.jobId d.chunk .failed d.editEpoch
  match c.requeue with
  | none =>
      if env.spawns then
        ({ c with
            requeue := some (env.nowMs, env.nowMs)
            dispatchQueue := c.dispatchQueue ++ [d] }, [.spawnAgent true])
      else (c, [.spawnAgent false, .markNeedsAttention, fail])
  | some (start, _) =>
      -- the clock runs from the first dispatch that found no agent
      if 10 ≤ secondsBetween start env.nowMs then ({ c with requeue := none }, [fail])
      else
        ({ c with
            requeue := some (start, env.nowMs)
            dispatchQueue := c.dispatchQueue ++ [d] }, [])

/-- While waiting for an agent, the queue is looked at every two seconds. -/
def throttled (c : RenderCoordinator) (nowMs : Int) : Bool :=
  match c.requeue with
  | some (_, last) => nowMs - last < 2000
  | none => false

/-- Take the next dispatch, unless a render is active. -/
def takeDispatch (c : RenderCoordinator) (env : Surroundings) :
    RenderCoordinator × List RenderEffect :=
  if c.activeRender.isSome ∨ c.throttled env.nowMs then (c, [])
  else
    match c.dispatchQueue with
    | [] => (c, [])
    | d :: rest =>
        let c := { c with dispatchQueue := rest }
        if c.stopped then
          (c, [.completion d.manifest.jobId d.chunk .abandoned d.editEpoch])
        else if env.connected then c.startRender d env
        else c.awaitAgent d env

/-! ## The agent's pipe -/

/-- Whether a lost pipe ends the render now. -/
def pipeLost (env : Surroundings) (since : Int) : Bool :=
  !env.stillConnected && (!env.processAlive ||
    disconnectGraceSeconds ≤ secondsBetween since env.nowMs)

/-- A lost pipe starts a grace period; the render fails when the process is
gone or the period is over, and goes on when the agent is back. -/
def checkPipe (c : RenderCoordinator) (env : Surroundings) :
    RenderCoordinator × List RenderEffect :=
  if c.activeRender.isNone then (c, [])
  else
    let grace := match c.disconnectGrace with
      | some since => some since
      | none => if env.stillConnected then none else some env.nowMs
    match grace with
    | none => (c, [])
    | some since =>
        -- the agent is back on its pipe: the render goes on
        if env.stillConnected then ({ c with disconnectGrace := none }, [])
        else if pipeLost env since then c.failChunk
        else ({ c with disconnectGrace := some since }, [])

/-! ## Staged frames -/

/-- One held delivery: dropped with its job, left alone between attempts, or
tried again and reported. -/
def retryDelivery (deletedJobs : List String) (env : Surroundings)
    (p : PendingDelivery) : Option PendingDelivery × List RenderEffect :=
  if p.jobId ∈ deletedJobs then (none, [])
  else if secondsBetween p.lastAttempt env.nowMs < deliveryRetrySeconds then
    (some p, [])
  else if env.delivers p.stagingDir p.outputDir then
    (none, [.completion p.jobId p.chunk .completed p.editEpoch])
  else if deliveryTimeoutSeconds ≤ secondsBetween p.firstAttempt env.nowMs then
    (none, [.completion p.jobId p.chunk .failed p.editEpoch])
  else (some { p with lastAttempt := env.nowMs }, [])

/-- `updatePendingDeliveries` over time: the held deliveries are tried one
after the other, each in surroundings of its own. -/
def retryDeliveries (c : RenderCoordinator) (env : Nat → Surroundings) :
    RenderCoordinator × List RenderEffect :=
  let tried := c.pendingDeliveries.mapIdx fun i => retryDelivery c.deletedJobs (env i)
  ({ c with pendingDeliveries := tried.filterMap (·.1) }, tried.flatMap (·.2))

def updatePendingDeliveries (c : RenderCoordinator) (env : Surroundings) :
    RenderCoordinator × List RenderEffect :=
  c.retryDeliveries fun _ => env

/-- Held deliveries, then the next dispatch, then the pipe, each in
surroundings of its own. -/
def updateThrough (c : RenderCoordinator) (deliveries : Nat → Surroundings)
    (queue pipe : Surroundings) : RenderCoordinator × List RenderEffect :=
  let (c, delivered) := c.retryDeliveries deliveries
  let (c, taken) := c.takeDispatch queue
  let (c, lost) := c.checkPipe pipe
  (c, delivered ++ taken ++ lost)

/-- `update` while nothing around it changes. -/
def update (c : RenderCoordinator) (env : Surroundings) :
    RenderCoordinator × List RenderEffect :=
  c.updateThrough (fun _ => env) env env

theorem update_eq (c : RenderCoordinator) (env : Surroundings) :
    c.update env =
      let (c, delivered) := c.updatePendingDeliveries env
      let (c, taken) := c.takeDispatch env
      let (c, lost) := c.checkPipe env
      (c, delivered ++ taken ++ lost) := rfl

/-! ## Messages from the agent -/

/-- Report the active render as completed once its frames are delivered, or
hold it. -/
def onChunkCompleted (c : RenderCoordinator) (env : Surroundings)
    (ar : ActiveRender) : RenderCoordinator × List RenderEffect :=
  if ar.stagingDir ≠ "" ∧ ar.originalOutputDir ≠ "" ∧
      !env.delivers ar.stagingDir ar.originalOutputDir then
    ({ c with
        activeRender := none
        pendingDeliveries := c.pendingDeliveries ++
          [{ jobId := ar.manifest.jobId
             chunk := ar.chunk
             editEpoch := ar.editEpoch
             stagingDir := ar.stagingDir
             outputDir := ar.originalOutputDir
             firstAttempt := env.nowMs
             lastAttempt := env.nowMs }] }, [])
  else c.finish ar .completed

/-- A message is taken to be about the active render: neither the job nor the
range it names is read. -/
def handleAgentMessage {τ : Type} (c : RenderCoordinator) (env : Surroundings)
    (m : AgentToMonitor τ) : RenderCoordinator × List RenderEffect :=
  match c.activeRender with
  | none => (c, [])
  | some ar =>
      match m with
      | .ack _ => ({ c with activeRender := some { ar with ackReceived := true } }, [])
      | .frameCompleted _ frame =>
          if 0 ≤ frame then
            ({ c with activeRender := some { ar with
                completedFrames := ar.completedFrames.insert frame } },
              [.frameCompletion ar.manifest.jobId frame ar.editEpoch])
          else (c, [])
      | .completed _ => c.onChunkCompleted env ar
      | .failed _ _ => c.failChunk
      | .pong | .status _ | .progress _ | .stdout _ _ => (c, [])

end RenderCoordinator

/-! ## Calls -/

/-- A call on the coordinator by its own node, new dispatches apart. -/
inductive RenderCall
  | init
  | update (env : Surroundings)
  | agentMessage (m : AgentToMonitor TaskMessage) (env : Surroundings)
  | abort (reason : String)
  | abandon (reason : String)
  | purge (jobId : String)
  | markDeleted (jobId : String)
  | setStopped (stopped : Bool)
  | setStaging (enabled : Bool)

def RenderCall.apply (c : RenderCoordinator) :
    RenderCall → RenderCoordinator × List RenderEffect
  | .init => (c.init, [])
  | .update env => c.update env
  | .agentMessage m env => c.handleAgentMessage env m
  | .abort reason => c.abortCurrentRender reason
  | .abandon reason => c.abandonCurrentRender reason
  | .purge jobId => (c.purgeJob jobId, [])
  | .markDeleted jobId => (c.markJobDeleted jobId, [])
  | .setStopped stopped => (c.setStopped stopped, [])
  | .setStaging enabled => (c.setStagingEnabled enabled, [])

/-- Abandon the job's render and drop its queued dispatches. -/
def MonitorApp.abandonJobRender (c : RenderCoordinator) (jobId reason : String) :
    RenderCoordinator × List RenderEffect :=
  let (c, effects) :=
    if c.activeRender.isSome ∧ c.currentJobId = jobId then c.abandonCurrentRender reason
    else (c, [])
  (c.purgeJob jobId, effects)

/-! ## What the parts of an update do -/

namespace RenderCoordinator

variable {c : RenderCoordinator} {env : Surroundings}

/-- The report of a dispatch that is not rendered. -/
def report (d : PendingDispatch) (state : ReportState) : RenderEffect :=
  .completion d.manifest.jobId d.chunk state d.editEpoch

/-- Whether an update takes the first dispatch, if there is one. -/
def Free (c : RenderCoordinator) (env : Surroundings) : Prop :=
  c.activeRender = none ∧ c.throttled env.nowMs = false

instance : Decidable (c.Free env) := inferInstanceAs (Decidable (_ ∧ _))

/-- All that can come of taking a dispatch, with what led to it. -/
inductive Taken (c : RenderCoordinator) (env : Surroundings)
    (r : RenderCoordinator × List RenderEffect) : Prop
  | nothing (h : ¬ c.Free env ∨ c.dispatchQueue = []) (hr : r = (c, []))
  | abandoned (d : PendingDispatch) (rest : List PendingDispatch) (hfree : c.Free env)
      (hq : c.dispatchQueue = d :: rest) (hstopped : c.stopped = true)
      (hr : r = ({ c with dispatchQueue := rest }, [report d .abandoned]))
  | started (d : PendingDispatch) (rest : List PendingDispatch) (hfree : c.Free env)
      (hq : c.dispatchQueue = d :: rest) (hgoing : c.stopped = false)
      (hagent : env.connected = true)
      (hr : r = startRender { c with dispatchQueue := rest } d env)
  | spawned (d : PendingDispatch) (rest : List PendingDispatch) (hfree : c.Free env)
      (hq : c.dispatchQueue = d :: rest) (hgoing : c.stopped = false)
      (hagent : env.connected = false)
      (hr : r = ({ c with
        dispatchQueue := rest ++ [d]
        requeue := some (env.nowMs, env.nowMs) }, [.spawnAgent true]))
  | unspawned (d : PendingDispatch) (rest : List PendingDispatch) (hfree : c.Free env)
      (hq : c.dispatchQueue = d :: rest) (hgoing : c.stopped = false)
      (hagent : env.connected = false)
      (hr : r = ({ c with dispatchQueue := rest },
        [.spawnAgent false, .markNeedsAttention, report d .failed]))
  | timedOut (d : PendingDispatch) (rest : List PendingDispatch) (hfree : c.Free env)
      (hq : c.dispatchQueue = d :: rest) (hgoing : c.stopped = false)
      (hagent : env.connected = false) (start last : Int)
      (hclock : c.requeue = some (start, last)) (hten : 10 ≤ secondsBetween start env.nowMs)
      (hr : r = ({ c with dispatchQueue := rest, requeue := none }, [report d .failed]))
  | waiting (d : PendingDispatch) (rest : List PendingDispatch) (hfree : c.Free env)
      (hq : c.dispatchQueue = d :: rest) (hgoing : c.stopped = false)
      (hagent : env.connected = false) (start last : Int)
      (hclock : c.requeue = some (start, last))
      (hr : r = ({ c with
        dispatchQueue := rest ++ [d]
        requeue := some (start, env.nowMs) }, []))

/-- **Every way a dispatch is taken.** -/
theorem takeDispatch_taken (c : RenderCoordinator) (env : Surroundings) :
    Taken c env (c.takeDispatch env) := by
  by_cases hbusy : c.activeRender.isSome = true ∨ c.throttled env.nowMs = true
  · refine .nothing (.inl fun hfree => ?_) (by rw [takeDispatch, if_pos hbusy])
    rcases hbusy with hactive | hwait
    · rw [hfree.1] at hactive
      cases hactive
    · rw [hfree.2] at hwait
      cases hwait
  have hfree : c.Free env := by
    obtain ⟨hidle, hnow⟩ := not_or.mp hbusy
    exact ⟨by simpa using hidle, Bool.eq_false_iff.mpr hnow⟩
  cases hq : c.dispatchQueue with
  | nil => exact .nothing (.inr hq) (by rw [takeDispatch, if_neg hbusy, hq])
  | cons d rest =>
      rw [takeDispatch, if_neg hbusy, hq]
      dsimp only
      by_cases hstopped : c.stopped = true
      · exact .abandoned d rest hfree hq hstopped (if_pos hstopped)
      rw [if_neg hstopped]
      have hgoing : c.stopped = false := Bool.eq_false_iff.mpr hstopped
      by_cases hagent : env.connected = true
      · exact .started d rest hfree hq hgoing hagent (if_pos hagent)
      rw [if_neg hagent]
      have hagent : env.connected = false := Bool.eq_false_iff.mpr hagent
      unfold awaitAgent
      cases hclock : c.requeue with
      | none =>
          by_cases hspawns : env.spawns = true
          · exact .spawned d rest hfree hq hgoing hagent (if_pos hspawns)
          · refine .unspawned d rest hfree hq hgoing hagent ((if_neg hspawns).trans ?_)
            rw [← hclock]
            rfl
      | some clock =>
          obtain ⟨start, last⟩ := clock
          by_cases hten : 10 ≤ secondsBetween start env.nowMs
          · exact .timedOut d rest hfree hq hgoing hagent start last hclock hten (if_pos hten)
          · exact .waiting d rest hfree hq hgoing hagent start last hclock (if_neg hten)

/-- A chunk fails where one is rendered. -/
theorem failChunk_cases (c : RenderCoordinator) :
    c.failChunk = (c, []) ∨ ∃ ar, c.activeRender = some ar ∧ c.failChunk =
      ({ c with disconnectGrace := none, activeRender := none },
        [.completion ar.manifest.jobId ar.chunk .failed ar.editEpoch]) := by
  unfold failChunk
  cases har : c.activeRender with
  | none => exact .inl rfl
  | some ar => exact .inr ⟨ar, rfl, rfl⟩

/-- Watching the pipe starts or ends a grace period, or fails the chunk. -/
theorem checkPipe_cases (c : RenderCoordinator) (env : Surroundings) :
    (∃ grace, c.checkPipe env = ({ c with disconnectGrace := grace }, [])) ∨
      c.checkPipe env = c.failChunk := by
  unfold checkPipe
  split
  · exact .inl ⟨c.disconnectGrace, rfl⟩
  dsimp only
  split
  · exact .inl ⟨c.disconnectGrace, rfl⟩
  rename_i since _
  split
  · exact .inl ⟨none, rfl⟩
  split
  · exact .inr rfl
  · exact .inl ⟨some since, rfl⟩

/-- A delivery that is tried is reported, as completed or as failed, or not. -/
theorem mem_retryDelivery {deletedJobs : List String} {p : PendingDelivery} {e : RenderEffect}
    (h : e ∈ (retryDelivery deletedJobs env p).2) :
    e = .completion p.jobId p.chunk .completed p.editEpoch ∨
      e = .completion p.jobId p.chunk .failed p.editEpoch := by
  unfold retryDelivery at h
  split at h
  · cases h
  split at h
  · cases h
  split at h
  · exact .inl (List.mem_singleton.mp h)
  split at h
  · exact .inr (List.mem_singleton.mp h)
  · cases h

end RenderCoordinator

/-! ## What a coordinator holds -/

/-- A dispatch by what its report will name. -/
structure Held where
  jobId : String
  chunk : ChunkRange
  editEpoch : Int
deriving DecidableEq, Repr

def PendingDispatch.held (d : PendingDispatch) : Held :=
  ⟨d.manifest.jobId, d.chunk, d.editEpoch⟩

def ActiveRender.held (ar : ActiveRender) : Held :=
  ⟨ar.manifest.jobId, ar.chunk, ar.editEpoch⟩

namespace RenderCoordinator

/-- The active render and the queued dispatches. -/
def held (c : RenderCoordinator) : List Held :=
  c.activeRender.toList.map (·.held) ++ c.dispatchQueue.map (·.held)

variable {c : RenderCoordinator} {env : Surroundings} {x : Held}

theorem mem_held : x ∈ c.held ↔
    (∃ ar, c.activeRender = some ar ∧ ar.held = x) ∨
      ∃ d ∈ c.dispatchQueue, d.held = x := by
  simp only [held, List.mem_append, List.mem_map, Option.mem_toList]

/-- A new dispatch is held from then on. -/
theorem mem_held_queueDispatch {d : PendingDispatch} :
    x ∈ (c.queueDispatch d.manifest d.chunk d.editEpoch).held ↔
      x ∈ c.held ∨ x = d.held := by
  simp only [mem_held, queueDispatch, List.mem_append, List.mem_singleton]
  constructor
  · rintro (h | ⟨d', h | rfl, rfl⟩)
    · exact .inl (.inl h)
    · exact .inl (.inr ⟨d', h, rfl⟩)
    · exact .inr rfl
  · rintro ((h | ⟨d', h, rfl⟩) | rfl)
    · exact .inl h
    · exact .inr ⟨d', .inl h, rfl⟩
    · exact .inr ⟨d, .inr rfl, rfl⟩

theorem renderOf_held (d : PendingDispatch) : (c.renderOf d env).held = d.held := by
  unfold renderOf
  simp only []
  split
  · split <;> rfl
  · rfl

theorem held_startRender {d : PendingDispatch}
    (h : x ∈ (c.startRender d env).1.held) : x ∈ c.held ∨ x = d.held := by
  rcases mem_held.mp h with ⟨ar, har, hx⟩ | hqueue
  · cases har
    exact .inr (hx.symm.trans (renderOf_held d))
  · exact .inl (mem_held.mpr (.inr hqueue))

/-- The same render, and no dispatch that was not queued. -/
theorem held_of_queue {c' : RenderCoordinator} (h : x ∈ c'.held)
    (har : c'.activeRender = c.activeRender) (hq : c'.dispatchQueue ⊆ c.dispatchQueue) :
    x ∈ c.held := by
  rcases mem_held.mp h with ⟨ar, har', hx⟩ | ⟨d, hd, hx⟩
  · exact mem_held.mpr (.inl ⟨ar, har ▸ har', hx⟩)
  · exact mem_held.mpr (.inr ⟨d, hq hd, hx⟩)

theorem held_takeDispatch (h : x ∈ (c.takeDispatch env).1.held) : x ∈ c.held := by
  have hrest : ∀ {d : PendingDispatch} {rest : List PendingDispatch},
      c.dispatchQueue = d :: rest → rest ⊆ c.dispatchQueue :=
    fun hq => hq ▸ List.subset_cons_self _ _
  have hback : ∀ {d : PendingDispatch} {rest : List PendingDispatch},
      c.dispatchQueue = d :: rest → rest ++ [d] ⊆ c.dispatchQueue :=
    fun hq => hq ▸ (List.perm_append_singleton _ _).subset
  cases takeDispatch_taken c env with
  | nothing _ hr =>
      rw [hr] at h
      exact h
  | abandoned d rest _ hq _ hr =>
      rw [hr] at h
      exact held_of_queue h rfl (hrest hq)
  | started d rest _ hq _ _ hr =>
      rw [hr] at h
      rcases held_startRender h with hx | rfl
      · exact held_of_queue hx rfl (hrest hq)
      · exact mem_held.mpr (.inr ⟨d, hq ▸ List.mem_cons_self, rfl⟩)
  | spawned d rest _ hq _ _ hr =>
      rw [hr] at h
      exact held_of_queue h rfl (hback hq)
  | unspawned d rest _ hq _ _ hr =>
      rw [hr] at h
      exact held_of_queue h rfl (hrest hq)
  | timedOut d rest _ hq _ _ _ _ _ _ hr =>
      rw [hr] at h
      exact held_of_queue h rfl (hrest hq)
  | waiting d rest _ hq _ _ _ _ _ hr =>
      rw [hr] at h
      exact held_of_queue h rfl (hback hq)

/-- Without its active render a coordinator holds its queue. -/
theorem held_of_none {c' : RenderCoordinator} (h : x ∈ c'.held)
    (hnone : c'.activeRender = none)
    (hqueue : c'.dispatchQueue = c.dispatchQueue) : x ∈ c.held := by
  rcases mem_held.mp h with ⟨ar, har, -⟩ | hq
  · rw [hnone] at har
    cases har
  · exact mem_held.mpr (.inr (hqueue ▸ hq))

theorem held_failChunk (h : x ∈ c.failChunk.1.held) : x ∈ c.held := by
  rcases failChunk_cases c with hnone | ⟨ar, -, hended⟩
  · rw [hnone] at h
    exact h
  · rw [hended] at h
    exact held_of_none h rfl rfl

theorem held_checkPipe (h : x ∈ (c.checkPipe env).1.held) : x ∈ c.held := by
  rcases checkPipe_cases c env with ⟨grace, hkept⟩ | hfails
  · rw [hkept] at h
    exact h
  · rw [hfails] at h
    exact held_failChunk h

theorem held_handleAgentMessage {τ : Type} {m : AgentToMonitor τ}
    (h : x ∈ (c.handleAgentMessage env m).1.held) : x ∈ c.held := by
  cases har : c.activeRender with
  | none =>
      simp only [handleAgentMessage, har] at h
      exact h
  | some ar =>
      have hkept : ∀ ar', ar'.held = ar.held → x ∈
          ({ c with activeRender := some ar' } : RenderCoordinator).held →
          x ∈ c.held := by
        intro ar' hsame hx
        rcases mem_held.mp hx with ⟨_, ⟨⟩, hx⟩ | hq
        · exact mem_held.mpr (.inl ⟨ar, har, hsame.symm.trans hx⟩)
        · exact mem_held.mpr (.inr hq)
      simp only [handleAgentMessage, har] at h
      cases m with
      | pong | status | progress | stdout => exact h
      | ack t => exact hkept _ rfl h
      | frameCompleted t frame =>
          simp only [] at h
          split at h
          · exact hkept _ rfl h
          · exact h
      | completed t =>
          simp only [onChunkCompleted] at h
          split at h
          · exact held_of_none h rfl rfl
          · exact held_of_none h rfl rfl
      | failed t error => exact held_failChunk h

theorem held_abandonCurrentRender {reason : String}
    (h : x ∈ (c.abandonCurrentRender reason).1.held) : x ∈ c.held := by
  unfold abandonCurrentRender at h
  split at h
  · exact h
  · exact held_of_none h rfl rfl

theorem held_purgeJob {jobId : String} :
    x ∈ (c.purgeJob jobId).held → x ∈ c.held :=
  fun h => held_of_queue h rfl List.filter_sublist.subset

end RenderCoordinator

/-- **A node's own calls only shrink what it holds.** -/
theorem RenderCall.held_apply {c : RenderCoordinator} {call : RenderCall} {x : Held}
    (h : x ∈ (call.apply c).1.held) : x ∈ c.held := by
  cases call with
  | init => exact RenderCoordinator.held_of_none h rfl rfl
  | update env =>
      exact RenderCoordinator.held_takeDispatch
        (c := (c.updatePendingDeliveries env).1) (RenderCoordinator.held_checkPipe h)
  | agentMessage m env => exact RenderCoordinator.held_handleAgentMessage h
  | abort reason =>
      simp only [RenderCall.apply, RenderCoordinator.abortCurrentRender] at h
      split at h
      · exact h
      · exact RenderCoordinator.held_failChunk h
  | abandon reason => exact RenderCoordinator.held_abandonCurrentRender h
  | purge jobId => exact RenderCoordinator.held_purgeJob h
  | markDeleted | setStopped | setStaging => exact h

/-- Abandoning a job only drops what is held of that job. -/
theorem MonitorApp.held_abandonJobRender {c : RenderCoordinator}
    {jobId reason : String} {x : Held} (hx : x ∈ c.held)
    (hdrop : x ∉ (MonitorApp.abandonJobRender c jobId reason).1.held) :
    x.jobId = jobId := by
  by_contra hne
  have hqueue : ∀ k : RenderCoordinator, (∃ d ∈ k.dispatchQueue, d.held = x) →
      x ∈ (k.purgeJob jobId).held := by
    rintro k ⟨d, hd, rfl⟩
    exact RenderCoordinator.mem_held.mpr
      (.inr ⟨d, List.mem_filter.mpr ⟨hd, decide_eq_true hne⟩, rfl⟩)
  refine hdrop ?_
  unfold MonitorApp.abandonJobRender
  rcases RenderCoordinator.mem_held.mp hx with ⟨ar, har, rfl⟩ | hq
  · have hother : ¬ (c.activeRender.isSome ∧ c.currentJobId = jobId) := by
      rintro ⟨-, hjob⟩
      rw [RenderCoordinator.currentJobId, har] at hjob
      exact hne hjob
    rw [if_neg hother]
    exact RenderCoordinator.mem_held.mpr (.inl ⟨ar, har, rfl⟩)
  · refine hqueue _ ?_
    split
    · unfold RenderCoordinator.abandonCurrentRender
      split
      · exact hq
      · exact hq
    · exact hq

theorem MonitorApp.held_of_abandonJobRender {c : RenderCoordinator}
    {jobId reason : String} {x : Held}
    (h : x ∈ (MonitorApp.abandonJobRender c jobId reason).1.held) : x ∈ c.held := by
  unfold MonitorApp.abandonJobRender at h
  have h := RenderCoordinator.held_purgeJob h
  split at h
  · exact RenderCoordinator.held_abandonCurrentRender h
  · exact h

end MinRender
