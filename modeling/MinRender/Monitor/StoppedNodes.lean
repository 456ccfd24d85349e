import MinRender.Framework.Runs
import MinRender.Monitor.DeadWorkers
import MinRender.Monitor.DispatchAccounts
import MinRender.Monitor.ReportBuffers
import MinRender.Monitor.TableInvariants

/-!
# Dispatches to a node that is stopped

The leader and one node: assignments on their way to it, its coordinator, its
reports and the leader's queues. What the leader has assigned to the node is
outstanding somewhere, as long as the stopped node takes no dispatch of it from
its queue. The other nodes appear through what they do to the database.
-/

namespace MinRender

inductive NodeState
  | active | stopped
deriving DecidableEq, Repr

/-- The coordinator's part of a change of the node's state. -/
def MonitorApp.setNodeState (c : RenderCoordinator) :
    NodeState → RenderCoordinator × List RenderEffect
  | .stopped => (c.setStopped true).abortCurrentRender "node stopped"
  | .active => (c.setStopped false, [])

def ChunkRecord.held (c : ChunkRecord) : Held :=
  ⟨c.jobId, ⟨c.frameStart, c.frameEnd⟩, c.editEpoch⟩

def PendingReport.held (r : PendingReport) : Held :=
  ⟨r.jobId, ⟨r.frameStart, r.frameEnd⟩, r.editEpoch⟩

namespace StoppedNodes
open DatabaseManager DispatchManager DeadWorkers

/-! ## The leader and the node -/

/-- How far the node's handler of an assignment has come. -/
inductive Stage
  | sent | notRendering | notStopped
deriving DecidableEq, Repr

/-- An assignment POST; `awaited` until the leader gives up on its answer. -/
structure Post where
  dispatch : PendingDispatch
  stage : Stage := .sent
  awaited : Bool := true
deriving DecidableEq, Repr

/-- What the leader reverts when the POST is refused. -/
def Post.owed (p : Post) : List Held := if p.awaited then [p.dispatch.held] else []

/-- `reports` wait on the node, `queued` ones in the leader's queues. -/
structure World where
  db : Db := Db.empty
  coordinator : RenderCoordinator := {}
  nodeState : NodeState := .active
  posts : List Post := []
  reverts : List Held := []
  reports : List PendingReport := []
  queued : List PendingReport := []

inductive Event
  /-- The dispatcher assigns a chunk to the node; the stored manifest names its
  job. -/
  | assign (chunkId : Int) (manifest : JobManifest) (nowMs editEpoch : Int)
  /-- Any call on the database that assigns nothing to the node. -/
  | call (c : DbCall)
  /-- The node's handler goes on with a POST; `reads` is whether its body can be
  read. -/
  | handle (p : Post) (reads : Bool)
  | timesOut (p : Post)
  /-- The POST does not reach the node. -/
  | lost (p : Post)
  | revert (x : Held)
  | setNodeState (state : NodeState) (nowMs : Int)
  | setStaging (enabled : Bool)
  /-- The three parts of `update`. -/
  | deliveries (env : Nat → Surroundings)
  | take (env : Surroundings)
  | pipe (env : Surroundings)
  | message (m : AgentToMonitor TaskMessage) (env : Surroundings)
  /-- A report reaches the leader; `answered` is whether its answer comes back. -/
  | send (r : PendingReport) (answered : Bool)
  | drain (r : PendingReport) (nowMs : Int)

/-- The call assigns a chunk to the node. -/
def Assigns (nodeId : String) : DbCall → Bool
  | .assignChunk _ node _ _ | .reassignChunk _ node _ => node = nodeId
  | _ => false

variable (T : JsonText) (nodeId : String) (isLeader : Bool)

/-- `reportCompletion`: the leader writes its own outcomes, another node buffers
them. -/
def World.report (nowMs : Int) (w : World) (effect : RenderEffect) : World :=
  { w with
    db := if isLeader then reportCompletion T nowMs nodeId w.db effect else w.db
    reports := w.reports ++ (MonitorApp.reportCompletion isLeader true effect).toList }

/-- A call on the coordinator and its reports. -/
def World.perform (w : World) (nowMs : Int) (r : RenderCoordinator × List RenderEffect) :
    World :=
  r.2.foldl (World.report T nodeId isLeader nowMs) { w with coordinator := r.1 }

def assign (w : World) (chunkId : Int) (manifest : JobManifest) (nowMs editEpoch : Int) :
    Option World :=
  (w.db.chunk? chunkId).bind fun c =>
    if manifest.jobId = c.jobId then
      let (assigned, db) := assignChunk w.db chunkId nodeId nowMs editEpoch
      let d : PendingDispatch := ⟨manifest, ⟨c.frameStart, c.frameEnd⟩, editEpoch⟩
      if !assigned then some { w with db }
      else if isLeader then
        some { w with db, coordinator := w.coordinator.queueDispatch manifest d.chunk editEpoch }
      else some { w with db, posts := { dispatch := d } :: w.posts }
    else none

/-- A POST that is answered with anything but 200, or not at all. -/
def refuse (w : World) (p : Post) : World :=
  { w with posts := w.posts.erase p, reverts := w.reverts ++ p.owed }

def advance (w : World) (p : Post) (stage : Stage) : World :=
  { w with posts := { p with stage } :: w.posts.erase p }

/-- `POST /api/dispatch/assign`, one look at the node at a time. -/
def handle (w : World) (p : Post) (reads : Bool) : World :=
  match p.stage with
  | .sent =>
      if w.coordinator.activeRender.isSome then refuse w p else advance w p .notRendering
  | .notRendering =>
      if w.nodeState = .stopped then refuse w p else advance w p .notStopped
  | .notStopped =>
      if reads then
        { w with
          posts := w.posts.erase p
          coordinator := w.coordinator.queueDispatch p.dispatch.manifest p.dispatch.chunk
            p.dispatch.editEpoch }
      else refuse w p

/-- The leader queues a report that its fence lets pass. -/
def send (w : World) (r : PendingReport) (answered : Bool) : World :=
  { w with
    reports := if answered then w.reports.erase r else w.reports
    queued := if isChunkCurrent w.db r.jobId r.frameStart r.frameEnd nodeId r.editEpoch then
        w.queued ++ [r]
      else w.queued }

/-- The completion a report tells of. -/
def effectOf (r : PendingReport) : RenderEffect :=
  .completion r.jobId ⟨r.frameStart, r.frameEnd⟩ r.state r.editEpoch

def step (w : World) : Event → Option World
  | .assign chunkId manifest nowMs editEpoch =>
      assign nodeId isLeader w chunkId manifest nowMs editEpoch
  | .call c => if Assigns nodeId c then none else some { w with db := c.after T w.db }
  | .handle p reads => if p ∈ w.posts then some (handle w p reads) else none
  | .timesOut p =>
      if p ∈ w.posts then
        some { w with
          posts := { p with awaited := false } :: w.posts.erase p
          reverts := w.reverts ++ p.owed }
      else none
  | .lost p => if p ∈ w.posts ∧ p.stage = .sent then some (refuse w p) else none
  | .revert x =>
      if x ∈ w.reverts then
        some { w with
          db := (revertChunkToPending w.db x.jobId x.chunk.frameStart x.chunk.frameEnd).2
          reverts := w.reverts.erase x }
      else none
  | .setNodeState state nowMs =>
      some (({ w with nodeState := state } : World).perform T nodeId isLeader nowMs
        (MonitorApp.setNodeState w.coordinator state))
  | .setStaging enabled =>
      some { w with coordinator := w.coordinator.setStagingEnabled enabled }
  | .deliveries env =>
      some (w.perform T nodeId isLeader (env 0).nowMs (w.coordinator.retryDeliveries env))
  | .take env =>
      some (w.perform T nodeId isLeader env.nowMs (w.coordinator.takeDispatch env))
  | .pipe env =>
      some (w.perform T nodeId isLeader env.nowMs (w.coordinator.checkPipe env))
  | .message m env =>
      some (w.perform T nodeId isLeader env.nowMs (w.coordinator.handleAgentMessage env m))
  | .send r answered => if r ∈ w.reports then some (send nodeId w r answered) else none
  | .drain r nowMs =>
      if r ∈ w.queued then
        some { w with
          db := reportCompletion T nowMs nodeId w.db (effectOf r)
          queued := w.queued.erase r }
      else none

def machine : Machine World Event := ⟨step T nodeId isLeader⟩

/-! ## No stranded chunk -/

/-- The dispatches the leader will still hear of: on their way or to be
reverted, with the node, reported or about to be. -/
def outstanding (w : World) : List Held :=
  w.posts.flatMap (·.owed) ++ w.reverts ++ w.coordinator.accounts ++
    w.reports.map (·.held) ++ w.queued.map (·.held)

/-- The chunk is assigned to the node. -/
def AssignedTo (c : ChunkRecord) : Prop := c.state = .assigned ∧ c.assignedTo = some nodeId

/-- Every chunk assigned to the node is outstanding. -/
def NoneStranded (w : World) : Prop :=
  ∀ c ∈ w.db.chunks, AssignedTo nodeId c → c.held ∈ outstanding w

/-- The dispatch that the next part of `update` takes while the node is stopped. -/
def dropped? (c : RenderCoordinator) (env : Surroundings) : Option PendingDispatch :=
  if c.activeRender.isSome ∨ c.throttled env.nowMs ∨ c.stopped = false then none
  else c.dispatchQueue.head?

/-- The coordinator without the dispatch it takes next. -/
def withoutNext (c : RenderCoordinator) : RenderCoordinator :=
  { c with dispatchQueue := c.dispatchQueue.tail }

/-- A stopped node takes no dispatch under which the leader still has a chunk
assigned to it, or another one like it is outstanding. -/
def TakesNoneInVain (w : World) (e : Event) (_ : World) : Prop :=
  ∀ env d, e = .take env → dropped? w.coordinator env = some d →
    ∀ c ∈ w.db.chunks, AssignedTo nodeId c → c.held = d.held →
      d.held ∈ outstanding { w with coordinator := withoutNext w.coordinator }

/-! ## Rows assigned to the node -/

variable {T nodeId isLeader} {db : Db} {w w' : World} {x : Held}

theorem held_of_key {c c' : ChunkRecord} (hkey : c'.key = c.key)
    (hepoch : c'.editEpoch = c.editEpoch) : c.held = c'.held := by
  obtain ⟨hjob, hrange⟩ := Prod.mk.inj hkey
  unfold ChunkRecord.held
  rw [hjob, hrange, hepoch]

/-- A row assigned to the node after a call that assigns it nothing was so
before, under the same dispatch. -/
theorem assignedTo_after {call : DbCall} (hcall : Assigns nodeId call = false)
    {c' : ChunkRecord} (hc' : c' ∈ (call.after T db).chunks) (h : AssignedTo nodeId c') :
    ∃ c ∈ db.chunks, AssignedTo nodeId c ∧ c.held = c'.held := by
  obtain ⟨c, hc, -, hstep, hby⟩ := assigned_after hc' h.1
  have hkey := hstep.key_eq
  cases hby with
  | before hs hto hep => exact ⟨c, hc, ⟨hs, hto ▸ h.2⟩, held_of_key hkey hep⟩
  | dispatch hid hp =>
      exact absurd (Option.some.inj h.2) (of_decide_eq_false hcall)
  | reassign hn hr =>
      exact absurd (Option.some.inj h.2) (of_decide_eq_false hcall)

theorem assignedTo_report {nowMs : Int} {effect : RenderEffect} {c' : ChunkRecord}
    (hc' : c' ∈ (reportCompletion T nowMs nodeId db effect).chunks)
    (h : AssignedTo nodeId c') : ∃ c ∈ db.chunks, AssignedTo nodeId c ∧ c.held = c'.held := by
  unfold reportCompletion at hc'
  split at hc'
  · rename_i jobId chunk epoch
    exact @assignedTo_after T nodeId db (.completeChunk jobId chunk.frameStart chunk.frameEnd
      nowMs nodeId epoch) rfl c' hc' h
  · rename_i jobId chunk epoch
    exact @assignedTo_after T nodeId db (.failChunk jobId chunk.frameStart chunk.frameEnd
      (maxRetriesOf T (getJob db jobId)) nodeId epoch) rfl c' hc' h
  · exact ⟨c', hc', h, rfl⟩

/-- The fence lets a report of the row's own dispatch pass. -/
theorem fence_held {c : ChunkRecord} (h : AssignedTo nodeId c) (hx : c.held = x) :
    fence x.jobId x.chunk.frameStart x.chunk.frameEnd nodeId x.editEpoch c = true := by
  subst hx
  exact decide_eq_true ⟨decide_eq_true ⟨rfl, rfl, rfl⟩, h.1, .inr h.2, .inr rfl⟩

theorem failChunk_frees {maxRetries : Int} {c' : ChunkRecord}
    (hc' : c' ∈ (failChunk db x.jobId x.chunk.frameStart x.chunk.frameEnd maxRetries nodeId
      x.editEpoch).2.chunks) (h : AssignedTo nodeId c') : c'.held ≠ x := by
  intro hx
  have hfence := fence_held h hx
  unfold failChunk at hc'
  split at hc'
  · rw [Db.updateChunks_chunks, Table.mem_update] at hc'
    obtain ⟨c, -, rfl⟩ := hc'
    split at h
    · have hstate := h.1
      simp only [failRow] at hstate
      split at hstate
      · cases hstate
      · cases hstate
    · rename_i hout
      rw [if_neg hout] at hfence
      exact hout (decide_eq_true ⟨(of_decide_eq_true hfence).1, h.1⟩)
  · rename_i hstale
    exact hstale (List.any_eq_true.mpr ⟨c', hc', hfence⟩)

/-- What a report is about is no longer assigned once the report is written. -/
theorem report_frees {nowMs : Int} {state : ReportState} (hstate : state ≠ .abandoned)
    {c' : ChunkRecord} (hc' : c' ∈ (reportCompletion T nowMs nodeId db
      (.completion x.jobId x.chunk state x.editEpoch)).chunks) (h : AssignedTo nodeId c') :
    c'.held ≠ x := by
  cases state with
  | abandoned => exact absurd rfl hstate
  | failed => exact failChunk_frees hc' h
  | completed =>
      intro hx
      have hfence := fence_held h hx
      simp only [reportCompletion, completeChunk, Db.updateChunks_chunks,
        Table.mem_update] at hc'
      obtain ⟨c, -, rfl⟩ := hc'
      split at h
      · exact (nomatch h.1)
      · rename_i hout
        rw [if_neg hout] at hfence
        exact hout hfence

theorem revert_frees {c' : ChunkRecord}
    (hc' : c' ∈ (revertChunkToPending db x.jobId x.chunk.frameStart
      x.chunk.frameEnd).2.chunks) (h : AssignedTo nodeId c') : c'.held ≠ x := by
  intro hx
  have hrange := (of_decide_eq_true (fence_held h hx)).1
  simp only [revertChunkToPending, Db.updateChunks_chunks, Table.mem_update] at hc'
  obtain ⟨c, -, rfl⟩ := hc'
  split at h
  · exact (nomatch h.1)
  · rename_i hout
    rw [if_neg hout] at hrange
    exact hout hrange

/-! ## What is outstanding -/

/-- Where an outstanding dispatch is. -/
inductive Outstanding (w : World) (x : Held) : Prop
  | post (p : Post) (hp : p ∈ w.posts) (howed : x ∈ p.owed)
  | revert (hrevert : x ∈ w.reverts)
  | account (hheld : x ∈ w.coordinator.accounts)
  | report (r : PendingReport) (hr : r ∈ w.reports) (hheld : r.held = x)
  | queued (r : PendingReport) (hr : r ∈ w.queued) (hheld : r.held = x)

theorem mem_outstanding : x ∈ outstanding w ↔ Outstanding w x := by
  have hmem : x ∈ outstanding w ↔
      (∃ p ∈ w.posts, x ∈ p.owed) ∨ x ∈ w.reverts ∨ x ∈ w.coordinator.accounts ∨
        (∃ r ∈ w.reports, r.held = x) ∨ ∃ r ∈ w.queued, r.held = x := by
    simp only [outstanding, List.mem_append, List.mem_flatMap, List.mem_map, or_assoc]
  rw [hmem]
  constructor
  · rintro (⟨p, hp, howed⟩ | hrevert | hheld | ⟨r, hr, hheld⟩ | ⟨r, hr, hheld⟩)
    · exact .post p hp howed
    · exact .revert hrevert
    · exact .account hheld
    · exact .report r hr hheld
    · exact .queued r hr hheld
  · intro h
    cases h with
    | post p hp howed => exact .inl ⟨p, hp, howed⟩
    | revert hrevert => exact .inr (.inl hrevert)
    | account hheld => exact .inr (.inr (.inl hheld))
    | report r hr hheld => exact .inr (.inr (.inr (.inl ⟨r, hr, hheld⟩)))
    | queued r hr hheld => exact .inr (.inr (.inr (.inr ⟨r, hr, hheld⟩)))

/-- A dispatch stays outstanding when only its POST can move. -/
theorem mem_outstanding_of (hx : x ∈ outstanding w)
    (hposts : ∀ p ∈ w.posts, x ∈ p.owed → x ∈ outstanding w')
    (hreverts : x ∈ w.reverts → x ∈ w'.reverts)
    (haccounts : x ∈ w.coordinator.accounts → x ∈ w'.coordinator.accounts)
    (hreports : w'.reports = w.reports) (hqueued : w'.queued = w.queued) :
    x ∈ outstanding w' := by
  cases mem_outstanding.mp hx with
  | post p hp howed => exact hposts p hp howed
  | revert hrevert => exact mem_outstanding.mpr (.revert (hreverts hrevert))
  | account hheld => exact mem_outstanding.mpr (.account (haccounts hheld))
  | report r hr hheld => exact mem_outstanding.mpr (.report r (hreports ▸ hr) hheld)
  | queued r hr hheld => exact mem_outstanding.mpr (.queued r (hqueued ▸ hr) hheld)

/-- Rows that come from rows, and outstanding dispatches that stay so unless
their chunk is free, strand nothing. -/
theorem noneStranded_of (h : NoneStranded nodeId w)
    (hrows : ∀ c' ∈ w'.db.chunks, AssignedTo nodeId c' →
      ∃ c ∈ w.db.chunks, AssignedTo nodeId c ∧ c.held = c'.held)
    (hkept : ∀ x ∈ outstanding w, x ∈ outstanding w' ∨
      ∀ c' ∈ w'.db.chunks, AssignedTo nodeId c' → c'.held ≠ x) : NoneStranded nodeId w' := by
  intro c' hc' hto
  obtain ⟨c, hc, hto', hheld⟩ := hrows c' hc' hto
  rcases hkept c.held (h c hc hto') with hout | hfree
  · rw [← hheld]
    exact hout
  · exact absurd hheld.symm (hfree c' hc' hto)

/-- The same, where the database is left alone. -/
theorem noneStranded_of_kept (h : NoneStranded nodeId w) (hdb : w'.db = w.db)
    (hkept : ∀ x ∈ outstanding w, x ∈ outstanding w') : NoneStranded nodeId w' := by
  refine noneStranded_of h ?_ fun x hx => .inl (hkept x hx)
  intro c' hc' hto
  exact ⟨c', hdb ▸ hc', hto, rfl⟩

/-! ## A call and its reports -/

/-- What the reports of some effects leave: everything but the database and the
reports as it was, and each effect reported, or its chunk free. -/
structure Reported (nodeId : String) (w : World) (effects : List RenderEffect)
    (w' : World) : Prop where
  coordinator : w'.coordinator = w.coordinator
  posts : w'.posts = w.posts
  reverts : w'.reverts = w.reverts
  queued : w'.queued = w.queued
  reports : ∀ r ∈ w.reports, r ∈ w'.reports
  genuine : ∀ r ∈ w'.reports, r ∈ w.reports ∨ r.state ≠ .abandoned
  rows : ∀ c' ∈ w'.db.chunks, AssignedTo nodeId c' →
    ∃ c ∈ w.db.chunks, AssignedTo nodeId c ∧ c.held = c'.held
  settled : ∀ y ∈ completions effects, y.2 ≠ .abandoned →
    (∃ r ∈ w'.reports, r.held = y.1) ∨
      ∀ c' ∈ w'.db.chunks, AssignedTo nodeId c' → c'.held ≠ y.1

theorem reported_one (nowMs : Int) (effect : RenderEffect) :
    Reported nodeId w [effect] (w.report T nodeId isLeader nowMs effect) where
  coordinator := rfl
  posts := rfl
  reverts := rfl
  queued := rfl
  reports := fun r hr => List.mem_append_left _ hr
  genuine := by
    intro r hr
    rcases List.mem_append.mp hr with hold | hnew
    · exact .inl hold
    · refine .inr ?_
      cases effect with
      | completion jobId chunk state editEpoch =>
          simp only [MonitorApp.reportCompletion] at hnew
          split at hnew
          · exact (nomatch hnew)
          rename_i hstate
          split at hnew
          · exact (nomatch hnew)
          · rw [List.mem_singleton.mp hnew]
            exact hstate
      | _ => exact (nomatch hnew)
  rows := by
    intro c' hc' hto
    unfold World.report at hc'
    dsimp only at hc'
    split at hc'
    · exact assignedTo_report hc' hto
    · exact ⟨c', hc', hto, rfl⟩
  settled := by
    intro y hy hstate
    cases effect with
    | completion jobId chunk state editEpoch =>
        cases List.mem_singleton.mp hy
        cases isLeader with
        | true =>
            refine .inr fun c' hc' hto => ?_
            exact @report_frees T nodeId w.db ⟨jobId, chunk, editEpoch⟩ nowMs state hstate
              c' hc' hto
        | false =>
            refine .inl ⟨⟨jobId, chunk.frameStart, chunk.frameEnd, state, 0, 0, "", editEpoch⟩,
              List.mem_append_right _ ?_, rfl⟩
            have hreports : state ≠ .abandoned := hstate
            simp only [MonitorApp.reportCompletion, if_neg hreports]
            exact List.mem_singleton_self _
    | _ => exact (nomatch hy)

theorem Reported.trans {es fs : List RenderEffect} {w₁ w₂ : World}
    (h : Reported nodeId w es w₁) (h' : Reported nodeId w₁ fs w₂) :
    Reported nodeId w (es ++ fs) w₂ where
  coordinator := h'.coordinator.trans h.coordinator
  posts := h'.posts.trans h.posts
  reverts := h'.reverts.trans h.reverts
  queued := h'.queued.trans h.queued
  reports := fun r hr => h'.reports r (h.reports r hr)
  genuine := by
    intro r hr
    rcases h'.genuine r hr with hmid | hstate
    · exact h.genuine r hmid
    · exact .inr hstate
  rows := by
    intro c' hc' hto
    obtain ⟨c₁, hc₁, hto₁, hheld₁⟩ := h'.rows c' hc' hto
    obtain ⟨c, hc, hto, hheld⟩ := h.rows c₁ hc₁ hto₁
    exact ⟨c, hc, hto, hheld.trans hheld₁⟩
  settled := by
    intro y hy hstate
    rw [completions_append, List.mem_append] at hy
    rcases hy with hy | hy
    · rcases h.settled y hy hstate with ⟨r, hr, hheld⟩ | hfree
      · exact .inl ⟨r, h'.reports r hr, hheld⟩
      · refine .inr fun c' hc' hto hx => ?_
        obtain ⟨c₁, hc₁, hto₁, hheld₁⟩ := h'.rows c' hc' hto
        exact hfree c₁ hc₁ hto₁ (hheld₁.trans hx)
    · exact h'.settled y hy hstate

theorem reported_foldl (nowMs : Int) (effects : List RenderEffect) (w : World) :
    Reported nodeId w effects
      (effects.foldl (World.report T nodeId isLeader nowMs) w) := by
  induction effects generalizing w with
  | nil =>
      exact ⟨rfl, rfl, rfl, rfl, fun _ hr => hr, fun _ hr => .inl hr,
        fun c' hc' hto => ⟨c', hc', hto, rfl⟩, fun _ hy => (nomatch hy)⟩
  | cons effect effects ih =>
      have hrest := ih (w.report T nodeId isLeader nowMs effect)
      exact (reported_one nowMs effect).trans hrest

/-- No effect reports a chunk as abandoned. -/
def NoneAbandoned (effects : List RenderEffect) : Prop :=
  ∀ y ∈ completions effects, y.2 ≠ .abandoned

/-- A call that keeps its accounts and abandons nothing strands nothing. -/
theorem noneStranded_perform (h : NoneStranded nodeId w) (nowMs : Int)
    {r : RenderCoordinator × List RenderEffect}
    (hbalances : RenderCoordinator.Balances r [] w.coordinator.accounts)
    (hstates : NoneAbandoned r.2) :
    NoneStranded nodeId (w.perform T nodeId isLeader nowMs r) := by
  have hdone := @reported_foldl T nodeId isLeader nowMs r.2 { w with coordinator := r.1 }
  refine noneStranded_of h hdone.rows fun x hx => ?_
  cases mem_outstanding.mp hx with
  | post p hp howed => exact .inl (mem_outstanding.mpr (.post p (hdone.posts ▸ hp) howed))
  | revert hrevert => exact .inl (mem_outstanding.mpr (.revert (hdone.reverts ▸ hrevert)))
  | report q hq hheld => exact .inl (mem_outstanding.mpr (.report q (hdone.reports q hq) hheld))
  | queued q hq hheld => exact .inl (mem_outstanding.mpr (.queued q (hdone.queued ▸ hq) hheld))
  | account hheld =>
      have hsum := hbalances x
      have hpos := List.count_pos_iff.mpr hheld
      rw [List.count_nil] at hsum
      by_cases hstays : x ∈ r.1.accounts
      · exact .inl (mem_outstanding.mpr (.account (hdone.coordinator ▸ hstays)))
      · have hzero := List.count_eq_zero.mpr hstays
        have hout : x ∈ (completions r.2).map (·.1) := List.count_pos_iff.mp (by omega)
        obtain ⟨y, hy, rfl⟩ := List.mem_map.mp hout
        rcases hdone.settled y hy (hstates y hy) with ⟨q, hq, hheld⟩ | hfree
        · exact .inl (mem_outstanding.mpr (.report q hq hheld))
        · exact .inr hfree

/-! ## The calls that abandon nothing -/

section Calls

variable {c : RenderCoordinator} {env : Surroundings}

theorem noneAbandoned_nil : NoneAbandoned [] := fun _ hy => (nomatch hy)

theorem noneAbandoned_failChunk : NoneAbandoned c.failChunk.2 := by
  rcases RenderCoordinator.failChunk_cases c with hnone | ⟨ar, -, hended⟩
  · rw [hnone]
    exact noneAbandoned_nil
  · rw [hended]
    intro y hy
    cases List.mem_singleton.mp hy
    exact (nomatch ·)

theorem noneAbandoned_setNodeState {state : NodeState} :
    NoneAbandoned (MonitorApp.setNodeState c state).2 := by
  cases state with
  | active => exact noneAbandoned_nil
  | stopped =>
      unfold MonitorApp.setNodeState RenderCoordinator.abortCurrentRender
      dsimp only
      split
      · exact noneAbandoned_nil
      · exact @noneAbandoned_failChunk (c.setStopped true)

theorem noneAbandoned_retryDeliveries {env : Nat → Surroundings} :
    NoneAbandoned (c.retryDeliveries env).2 := by
  intro y hy
  obtain ⟨effect, heffect, hy⟩ := List.mem_filterMap.mp hy
  obtain ⟨tried, htried, heffect⟩ := List.mem_flatMap.mp heffect
  obtain ⟨i, hi, rfl⟩ := List.mem_mapIdx.mp htried
  rcases RenderCoordinator.mem_retryDelivery heffect with rfl | rfl
  · cases hy
    exact (nomatch ·)
  · cases hy
    exact (nomatch ·)

theorem noneAbandoned_checkPipe : NoneAbandoned (c.checkPipe env).2 := by
  rcases RenderCoordinator.checkPipe_cases c env with ⟨grace, hkept⟩ | hfails
  · rw [hkept]
    exact noneAbandoned_nil
  · rw [hfails]
    exact noneAbandoned_failChunk

theorem noneAbandoned_handleAgentMessage {m : AgentToMonitor TaskMessage} :
    NoneAbandoned (c.handleAgentMessage env m).2 := by
  unfold RenderCoordinator.handleAgentMessage
  split
  · exact noneAbandoned_nil
  cases m with
  | ack | pong | status | progress | stdout => exact noneAbandoned_nil
  | failed t error => exact noneAbandoned_failChunk
  | frameCompleted t frame =>
      dsimp only
      split
      · exact fun y hy => (nomatch hy)
      · exact noneAbandoned_nil
  | completed t =>
      dsimp only [RenderCoordinator.onChunkCompleted]
      split
      · exact noneAbandoned_nil
      · intro y hy
        cases List.mem_singleton.mp hy
        exact (nomatch ·)

/-- A coordinator that is not stopped abandons no dispatch it takes. -/
theorem noneAbandoned_takeDispatch (h : dropped? c env = none) :
    NoneAbandoned (c.takeDispatch env).2 := by
  have hone : ∀ d : PendingDispatch, NoneAbandoned [RenderCoordinator.report d .failed] := by
    intro d y hy
    cases List.mem_singleton.mp hy
    exact (nomatch ·)
  cases RenderCoordinator.takeDispatch_taken c env with
  | abandoned d rest hfree hq hstopped hr =>
      unfold dropped? at h
      rw [hq, hfree.1, hfree.2, hstopped] at h
      exact (nomatch h)
  | unspawned d _ _ _ _ _ hr =>
      rw [hr]
      exact hone d
  | timedOut d _ _ _ _ _ _ _ _ _ hr =>
      rw [hr]
      exact hone d
  | started _ _ _ _ _ _ hr =>
      rw [hr]
      exact noneAbandoned_nil
  | nothing _ hr | spawned _ _ _ _ _ _ hr | waiting _ _ _ _ _ _ _ _ _ hr =>
      rw [hr]
      exact noneAbandoned_nil

/-- The dispatch a stopped coordinator takes is abandoned. -/
theorem takeDispatch_dropped {d : PendingDispatch} (h : dropped? c env = some d) :
    (∃ rest, c.dispatchQueue = d :: rest) ∧
      c.takeDispatch env = (withoutNext c,
        [.completion d.manifest.jobId d.chunk .abandoned d.editEpoch]) := by
  unfold dropped? at h
  split at h
  · exact (nomatch h)
  rename_i hfree
  have hidle : ¬ (c.activeRender.isSome = true ∨ c.throttled env.nowMs = true) := by tauto
  have hstopped : c.stopped = true := by
    by_contra hrunning
    exact hfree (.inr (.inr (Bool.eq_false_iff.mpr hrunning)))
  obtain ⟨rest, hq⟩ := List.head?_eq_some_iff.mp h
  refine ⟨⟨rest, hq⟩, ?_⟩
  unfold RenderCoordinator.takeDispatch withoutNext
  rw [if_neg hidle]
  simp only [hq, hstopped, if_true, List.tail_cons]

end Calls

/-! ## Steps -/

/-- A row the dispatcher left assigned to the node was so before, or is the one
it assigned now. -/
theorem assignedTo_assign {chunkId nowMs editEpoch : Int} {c c' : ChunkRecord}
    (hc : db.chunk? chunkId = some c)
    (hc' : c' ∈ (assignChunk db chunkId nodeId nowMs editEpoch).2.chunks)
    (h : AssignedTo nodeId c') :
    (∃ c₀ ∈ db.chunks, AssignedTo nodeId c₀ ∧ c₀.held = c'.held) ∨
      (assignChunk db chunkId nodeId nowMs editEpoch).1 = true ∧
        c'.held = ⟨c.jobId, ⟨c.frameStart, c.frameEnd⟩, editEpoch⟩ := by
  simp only [assignChunk, Db.updateChunks_chunks, Table.mem_update] at hc'
  obtain ⟨c₀, hc₀, rfl⟩ := hc'
  split at h
  · rename_i hhit
    obtain ⟨hmem, hid⟩ := Db.chunk?_eq_some.mp hc
    have hsame : c₀ = c := db.chunk_ext hc₀ hmem ((of_decide_eq_true hhit).1.trans hid.symm)
    refine .inr ⟨?_, ?_⟩
    · exact decide_eq_true (List.countP_pos_iff.mpr ⟨c₀, hc₀, hhit⟩)
    · rw [if_pos hhit, hsame]
      rfl
  · rename_i hmiss
    rw [if_neg hmiss]
    exact .inl ⟨c₀, hc₀, h, rfl⟩

theorem mem_accounts_queueDispatch {c : RenderCoordinator} {d : PendingDispatch} :
    x ∈ (c.queueDispatch d.manifest d.chunk d.editEpoch).accounts ↔
      x = d.held ∨ x ∈ c.accounts := by
  unfold RenderCoordinator.accounts
  rw [List.mem_append, List.mem_append, RenderCoordinator.mem_held_queueDispatch,
    or_comm (b := x = _), or_assoc]
  rfl

theorem mem_outstanding_queueDispatch {d : PendingDispatch} (hx : x ∈ outstanding w) :
    x ∈ outstanding { w with
      coordinator := w.coordinator.queueDispatch d.manifest d.chunk d.editEpoch } := by
  refine mem_outstanding_of hx ?_ id ?_ rfl rfl
  · intro p hp howed
    exact mem_outstanding.mpr (.post p hp howed)
  · intro hheld
    exact mem_accounts_queueDispatch.mpr (.inr hheld)

/-- Whatever else an assignment does, what is outstanding stays so, and a new
dispatch is outstanding. -/
theorem outstanding_assign {d : PendingDispatch} {assigned : Bool}
    (hw' : (if !assigned then some { w with db }
      else if isLeader then
        some { w with db, coordinator :=
          w.coordinator.queueDispatch d.manifest d.chunk d.editEpoch }
      else some { w with db, posts := { dispatch := d } :: w.posts }) = some w') :
    w'.db = db ∧ (∀ x ∈ outstanding w, x ∈ outstanding w') ∧
      (assigned = true → d.held ∈ outstanding w') := by
  split at hw'
  · rename_i hmiss
    cases hw'
    refine ⟨rfl, fun x hx => hx, fun hhit => ?_⟩
    rw [hhit] at hmiss
    exact (nomatch hmiss)
  split at hw'
  · cases hw'
    refine ⟨rfl, fun x hx => ?_, fun _ => ?_⟩
    · exact mem_outstanding_queueDispatch hx
    · exact mem_outstanding.mpr (.account (mem_accounts_queueDispatch.mpr (.inl rfl)))
  · cases hw'
    refine ⟨rfl, fun x hx => ?_, fun _ => ?_⟩
    · refine mem_outstanding_of hx ?_ id id rfl rfl
      intro p hp howed
      exact mem_outstanding.mpr (.post p (List.mem_cons_of_mem _ hp) howed)
    · exact mem_outstanding.mpr (.post _ List.mem_cons_self (List.mem_singleton_self _))

theorem noneStranded_assign (h : NoneStranded nodeId w) {chunkId nowMs editEpoch : Int}
    {manifest : JobManifest}
    (hstep : assign nodeId isLeader w chunkId manifest nowMs editEpoch = some w') :
    NoneStranded nodeId w' := by
  obtain ⟨c, hc, hstep⟩ := Option.bind_eq_some_iff.mp hstep
  split at hstep
  · rename_i hjob
    obtain ⟨hdb, hkept, hnew⟩ := @outstanding_assign isLeader _ w w'
      ⟨manifest, ⟨c.frameStart, c.frameEnd⟩, editEpoch⟩ _ hstep
    intro c' hc' hto
    rw [hdb] at hc'
    rcases assignedTo_assign hc hc' hto with ⟨c₀, hc₀, hto₀, hheld⟩ | ⟨hhit, hheld⟩
    · rw [← hheld]
      exact hkept _ (h c₀ hc₀ hto₀)
    · rw [hheld, ← hjob]
      exact hnew hhit
  · exact (nomatch hstep)

/-- A POST that is refused still owes its revert. -/
theorem mem_outstanding_refuse {p : Post} (hx : x ∈ outstanding w) :
    x ∈ outstanding (refuse w p) := by
  refine mem_outstanding_of hx ?_ (fun hrevert => List.mem_append_left _ hrevert) id rfl rfl
  intro q hq howed
  by_cases hsame : q = p
  · subst hsame
    exact mem_outstanding.mpr (.revert (List.mem_append_right _ howed))
  · exact mem_outstanding.mpr (.post q ((List.mem_erase_of_ne hsame).mpr hq) howed)

theorem mem_outstanding_advance {p : Post} {stage : Stage} (hx : x ∈ outstanding w) :
    x ∈ outstanding (advance w p stage) := by
  refine mem_outstanding_of hx ?_ id id rfl rfl
  intro q hq howed
  by_cases hsame : q = p
  · subst hsame
    exact mem_outstanding.mpr (.post _ List.mem_cons_self howed)
  · have hstays := (List.mem_erase_of_ne hsame).mpr hq
    exact mem_outstanding.mpr (.post q (List.mem_cons_of_mem _ hstays) howed)

theorem owed_eq {p : Post} (h : x ∈ p.owed) : x = p.dispatch.held := by
  unfold Post.owed at h
  split at h
  · exact List.mem_singleton.mp h
  · exact (nomatch h)

theorem mem_outstanding_handle {p : Post} {reads : Bool} (hx : x ∈ outstanding w) :
    x ∈ outstanding (handle w p reads) := by
  unfold handle
  split
  · split
    · exact mem_outstanding_refuse hx
    · exact mem_outstanding_advance hx
  · split
    · exact mem_outstanding_refuse hx
    · exact mem_outstanding_advance hx
  · split
    · refine mem_outstanding_of hx ?_ id ?_ rfl rfl
      · intro q hq howed
        by_cases hsame : q = p
        · subst hsame
          refine mem_outstanding.mpr (.account ?_)
          exact mem_accounts_queueDispatch.mpr (.inl (owed_eq howed))
        · exact mem_outstanding.mpr (.post q ((List.mem_erase_of_ne hsame).mpr hq) howed)
      · intro hheld
        exact mem_accounts_queueDispatch.mpr (.inr hheld)
    · exact mem_outstanding_refuse hx

theorem handle_db {p : Post} {reads : Bool} : (handle w p reads).db = w.db := by
  unfold handle
  split
  · split
    · rfl
    · rfl
  · split
    · rfl
    · rfl
  · split
    · rfl
    · rfl

/-- An abandoned dispatch leaves only the queue. -/
theorem perform_abandoned (nowMs : Int) {c : RenderCoordinator} {d : PendingDispatch} :
    w.perform T nodeId isLeader nowMs
      (c, [.completion d.manifest.jobId d.chunk .abandoned d.editEpoch]) =
        { w with coordinator := c } := by
  show World.report T nodeId isLeader nowMs { w with coordinator := c } _ = _
  unfold World.report
  have hdb : reportCompletion T nowMs nodeId w.db
      (.completion d.manifest.jobId d.chunk .abandoned d.editEpoch) = w.db := rfl
  simp only [hdb, ite_self, MonitorApp.reportCompletion, if_true, Option.toList_none,
    List.append_nil]

theorem noneStranded_dropped_iff (h : NoneStranded nodeId w) {env : Surroundings}
    {d : PendingDispatch} (hd : dropped? w.coordinator env = some d) :
    NoneStranded nodeId (w.perform T nodeId isLeader env.nowMs
        (w.coordinator.takeDispatch env)) ↔
      ∀ c ∈ w.db.chunks, AssignedTo nodeId c → c.held = d.held →
        d.held ∈ outstanding { w with coordinator := withoutNext w.coordinator } := by
  obtain ⟨⟨rest, hq⟩, htake⟩ := takeDispatch_dropped hd
  rw [htake, perform_abandoned]
  constructor
  · intro hnone c hc hto hheld
    rw [← hheld]
    exact hnone c hc hto
  · intro hcond c hc hto
    by_cases hheld : c.held = d.held
    · rw [hheld]
      exact hcond c hc hto hheld
    · refine mem_outstanding_of (h c hc hto) ?_ id ?_ rfl rfl
      · intro p hp howed
        exact mem_outstanding.mpr (.post p hp howed)
      · intro hacc
        unfold RenderCoordinator.accounts RenderCoordinator.held at hacc ⊢
        rw [hq, List.map_cons] at hacc
        rcases List.mem_append.mp hacc with hown | hdelivery
        · refine List.mem_append_left _ ?_
          rcases List.mem_append.mp hown with hactive | hqueue
          · exact List.mem_append_left _ hactive
          · refine List.mem_append_right _ ?_
            rcases List.mem_cons.mp hqueue with hfirst | hrest
            · exact absurd hfirst hheld
            · show c.held ∈ (w.coordinator.dispatchQueue.tail).map (·.held)
              rw [hq]
              exact hrest
        · exact List.mem_append_right _ hdelivery

/-- Nothing left the accounts, the reports are genuine: what every run keeps,
good or not. -/
structure Sound (w : World) : Prop where
  deleted : w.coordinator.deletedJobs = []
  reports : ∀ r ∈ w.reports, r.state ≠ .abandoned
  queued : ∀ r ∈ w.queued, r.state ≠ .abandoned

theorem sound_perform (h : Sound w) (nowMs : Int)
    {r : RenderCoordinator × List RenderEffect}
    (hdeleted : r.1.deletedJobs = w.coordinator.deletedJobs) :
    Sound (w.perform T nodeId isLeader nowMs r) := by
  have hdone := @reported_foldl T nodeId isLeader nowMs r.2 { w with coordinator := r.1 }
  refine ⟨?_, ?_, ?_⟩
  · exact (congrArg (·.deletedJobs) hdone.coordinator).trans (hdeleted.trans h.deleted)
  · intro q hq
    rcases hdone.genuine q hq with hold | hstate
    · exact h.reports q hold
    · exact hstate
  · intro q hq
    exact h.queued q (hdone.queued ▸ hq)

theorem balances_setNodeState {c : RenderCoordinator} {state : NodeState} :
    RenderCoordinator.Balances (MonitorApp.setNodeState c state) [] c.accounts := by
  cases state with
  | active => exact RenderCoordinator.balances_same
  | stopped => exact @RenderCoordinator.balances_abortCurrentRender (c.setStopped true) _

theorem deletedJobs_setNodeState {c : RenderCoordinator} {state : NodeState} :
    (MonitorApp.setNodeState c state).1.deletedJobs = c.deletedJobs := by
  cases state with
  | active => rfl
  | stopped =>
      unfold MonitorApp.setNodeState RenderCoordinator.abortCurrentRender
      dsimp only
      split
      · rfl
      · exact @RenderCoordinator.deletedJobs_failChunk (c.setStopped true)

theorem sound_assign (h : Sound w) {chunkId nowMs editEpoch : Int} {manifest : JobManifest}
    (hstep : assign nodeId isLeader w chunkId manifest nowMs editEpoch = some w') : Sound w' := by
  obtain ⟨c, -, hstep⟩ := Option.bind_eq_some_iff.mp hstep
  split at hstep
  · dsimp only at hstep
    split at hstep
    · cases hstep
      exact ⟨h.deleted, h.reports, h.queued⟩
    split at hstep
    · cases hstep
      exact ⟨h.deleted, h.reports, h.queued⟩
    · cases hstep
      exact ⟨h.deleted, h.reports, h.queued⟩
  · exact (nomatch hstep)

theorem sound_handle (h : Sound w) (p : Post) (reads : Bool) : Sound (handle w p reads) := by
  unfold handle
  split
  · split
    · exact ⟨h.deleted, h.reports, h.queued⟩
    · exact ⟨h.deleted, h.reports, h.queued⟩
  · split
    · exact ⟨h.deleted, h.reports, h.queued⟩
    · exact ⟨h.deleted, h.reports, h.queued⟩
  · split
    · exact ⟨h.deleted, h.reports, h.queued⟩
    · exact ⟨h.deleted, h.reports, h.queued⟩

theorem sound_send (h : Sound w) {r : PendingReport} (hr : r ∈ w.reports) (answered : Bool) :
    Sound (send nodeId w r answered) := by
  refine ⟨h.deleted, ?_, ?_⟩
  · intro q hq
    simp only [send] at hq
    split at hq
    · exact h.reports q (List.mem_of_mem_erase hq)
    · exact h.reports q hq
  · intro q hq
    simp only [send] at hq
    split at hq
    · rcases List.mem_append.mp hq with hold | hnew
      · exact h.queued q hold
      · rw [List.mem_singleton.mp hnew]
        exact h.reports r hr
    · exact h.queued q hq

theorem sound_step {e : Event} (h : Sound w) (hstep : step T nodeId isLeader w e = some w') :
    Sound w' := by
  cases e with
  | assign chunkId manifest nowMs editEpoch => exact sound_assign h hstep
  | call c =>
      simp only [step] at hstep
      split at hstep
      · exact (nomatch hstep)
      · cases hstep
        exact ⟨h.deleted, h.reports, h.queued⟩
  | handle p reads =>
      simp only [step] at hstep
      split at hstep
      · cases hstep
        exact sound_handle h p reads
      · exact (nomatch hstep)
  | timesOut p | lost p | revert x =>
      simp only [step] at hstep
      split at hstep
      · cases hstep
        exact ⟨h.deleted, h.reports, h.queued⟩
      · exact (nomatch hstep)
  | setNodeState state nowMs =>
      cases hstep
      exact @sound_perform T nodeId isLeader { w with nodeState := state }
        ⟨h.deleted, h.reports, h.queued⟩ nowMs _ deletedJobs_setNodeState
  | setStaging enabled =>
      cases hstep
      exact ⟨h.deleted, h.reports, h.queued⟩
  | deliveries env =>
      cases hstep
      exact sound_perform h _ rfl
  | take env =>
      cases hstep
      exact sound_perform h _ RenderCoordinator.deletedJobs_takeDispatch
  | pipe env =>
      cases hstep
      exact sound_perform h _ RenderCoordinator.deletedJobs_checkPipe
  | message m env =>
      cases hstep
      exact sound_perform h _ RenderCoordinator.deletedJobs_handleAgentMessage
  | send r answered =>
      simp only [step] at hstep
      split at hstep
      · rename_i hr
        cases hstep
        exact sound_send h hr answered
      · exact (nomatch hstep)
  | drain r nowMs =>
      simp only [step] at hstep
      split at hstep
      · cases hstep
        exact ⟨h.deleted, h.reports, fun q hq => h.queued q (List.mem_of_mem_erase hq)⟩
      · exact (nomatch hstep)

/-- A report the fence stops is about no chunk assigned to the node. -/
theorem noneStranded_send (h : NoneStranded nodeId w) {r : PendingReport} {answered : Bool} :
    NoneStranded nodeId (send nodeId w r answered) := by
  refine noneStranded_of h (fun c' hc' hto => ⟨c', hc', hto, rfl⟩) fun x hx => ?_
  cases mem_outstanding.mp hx with
  | post p hp howed => exact .inl (mem_outstanding.mpr (.post p hp howed))
  | revert hrevert => exact .inl (mem_outstanding.mpr (.revert hrevert))
  | account hheld => exact .inl (mem_outstanding.mpr (.account hheld))
  | report q hq hheld =>
      by_cases hsame : q = r
      · subst hsame
        by_cases hcurrent :
            isChunkCurrent w.db q.jobId q.frameStart q.frameEnd nodeId q.editEpoch
        · refine .inl (mem_outstanding.mpr (.queued q ?_ hheld))
          unfold send
          rw [if_pos hcurrent]
          exact List.mem_append_right _ (List.mem_singleton_self q)
        · refine .inr fun c' hc' hto hheld' => hcurrent ?_
          exact List.any_eq_true.mpr ⟨c', hc', fence_held hto (hheld'.trans hheld.symm)⟩
      · refine .inl (mem_outstanding.mpr (.report q ?_ hheld))
        unfold send
        dsimp only
        split
        · exact (List.mem_erase_of_ne hsame).mpr hq
        · exact hq
  | queued q hq hheld =>
      refine .inl (mem_outstanding.mpr (.queued q ?_ hheld))
      unfold send
      dsimp only
      split
      · exact List.mem_append_left _ hq
      · exact hq

theorem noneStranded_drain (h : NoneStranded nodeId w) {r : PendingReport} (nowMs : Int)
    (hstate : r.state ≠ .abandoned) :
    NoneStranded nodeId { w with
      db := reportCompletion T nowMs nodeId w.db (effectOf r)
      queued := w.queued.erase r } := by
  refine noneStranded_of h (fun c' hc' hto => assignedTo_report hc' hto) fun x hx => ?_
  cases mem_outstanding.mp hx with
  | post p hp howed => exact .inl (mem_outstanding.mpr (.post p hp howed))
  | revert hrevert => exact .inl (mem_outstanding.mpr (.revert hrevert))
  | account hheld => exact .inl (mem_outstanding.mpr (.account hheld))
  | report q hq hheld => exact .inl (mem_outstanding.mpr (.report q hq hheld))
  | queued q hq hheld =>
      by_cases hsame : q = r
      · subst hsame
        subst hheld
        refine .inr fun c' hc' hto => ?_
        exact @report_frees T nodeId w.db q.held nowMs q.state hstate c' hc' hto
      · have hstays := (List.mem_erase_of_ne hsame).mpr hq
        exact .inl (mem_outstanding.mpr (.queued q hstays hheld))

theorem noneStranded_revert (h : NoneStranded nodeId w) (x : Held) :
    NoneStranded nodeId { w with
      db := (revertChunkToPending w.db x.jobId x.chunk.frameStart x.chunk.frameEnd).2
      reverts := w.reverts.erase x } := by
  refine noneStranded_of h ?_ fun y hy => ?_
  · intro c' hc' hto
    simp only [revertChunkToPending, Db.updateChunks_chunks, Table.mem_update] at hc'
    obtain ⟨c, hc, rfl⟩ := hc'
    split at hto
    · exact (nomatch hto.1)
    · rename_i hout
      rw [if_neg hout]
      exact ⟨c, hc, hto, rfl⟩
  · by_cases hsame : y = x
    · subst hsame
      exact .inr fun c' hc' hto => revert_frees hc' hto
    · refine .inl (mem_outstanding_of hy ?_ (List.mem_erase_of_ne hsame).mpr id rfl rfl)
      intro p hp howed
      exact mem_outstanding.mpr (.post p hp howed)

theorem mem_outstanding_timesOut {p : Post} (hx : x ∈ outstanding w) :
    x ∈ outstanding { w with
      posts := { p with awaited := false } :: w.posts.erase p
      reverts := w.reverts ++ p.owed } := by
  refine mem_outstanding_of hx ?_ (fun hrevert => List.mem_append_left _ hrevert) id rfl rfl
  intro q hq howed
  by_cases hsame : q = p
  · subst hsame
    exact mem_outstanding.mpr (.revert (List.mem_append_right _ howed))
  · have hstays := (List.mem_erase_of_ne hsame).mpr hq
    exact mem_outstanding.mpr (.post q (List.mem_cons_of_mem _ hstays) howed)

/-- An event that is no taken dispatch strands nothing. -/
theorem noneStranded_step {e : Event} (hsound : Sound w) (h : NoneStranded nodeId w)
    (hstep : step T nodeId isLeader w e = some w') (hother : ∀ env, e ≠ .take env) :
    NoneStranded nodeId w' := by
  cases e with
  | take env => exact absurd rfl (hother env)
  | assign chunkId manifest nowMs editEpoch => exact noneStranded_assign h hstep
  | call c =>
      simp only [step] at hstep
      split at hstep
      · exact (nomatch hstep)
      · rename_i hcall
        cases hstep
        refine noneStranded_of h ?_ fun x hx => .inl hx
        intro c' hc' hto
        exact assignedTo_after (Bool.eq_false_iff.mpr hcall) hc' hto
  | handle p reads =>
      simp only [step] at hstep
      split at hstep
      · cases hstep
        exact noneStranded_of_kept h handle_db fun x hx => mem_outstanding_handle hx
      · exact (nomatch hstep)
  | timesOut p =>
      simp only [step] at hstep
      split at hstep
      · cases hstep
        exact noneStranded_of_kept h rfl fun x hx => mem_outstanding_timesOut hx
      · exact (nomatch hstep)
  | lost p =>
      simp only [step] at hstep
      split at hstep
      · cases hstep
        exact noneStranded_of_kept h rfl fun x hx => mem_outstanding_refuse hx
      · exact (nomatch hstep)
  | revert x =>
      simp only [step] at hstep
      split at hstep
      · cases hstep
        exact noneStranded_revert h x
      · exact (nomatch hstep)
  | setNodeState state nowMs =>
      cases hstep
      exact @noneStranded_perform T nodeId isLeader { w with nodeState := state } h nowMs _
        balances_setNodeState noneAbandoned_setNodeState
  | setStaging enabled =>
      cases hstep
      exact noneStranded_of_kept h rfl fun x hx => hx
  | deliveries env =>
      cases hstep
      refine noneStranded_perform h _ ?_ noneAbandoned_retryDeliveries
      have hbalances := @RenderCoordinator.balances_retryDeliveries w.coordinator env
      have hnone : w.coordinator.pendingDeliveries.filter
          (·.jobId ∈ w.coordinator.deletedJobs) = [] := by
        rw [hsound.deleted]
        exact List.filter_eq_nil_iff.mpr fun p _ hp => (nomatch of_decide_eq_true hp)
      rw [hnone] at hbalances
      exact hbalances
  | pipe env =>
      cases hstep
      exact noneStranded_perform h _ RenderCoordinator.balances_checkPipe noneAbandoned_checkPipe
  | message m env =>
      cases hstep
      exact noneStranded_perform h _ RenderCoordinator.balances_handleAgentMessage
        noneAbandoned_handleAgentMessage
  | send r answered =>
      simp only [step] at hstep
      split at hstep
      · cases hstep
        exact noneStranded_send h
      · exact (nomatch hstep)
  | drain r nowMs =>
      simp only [step] at hstep
      split at hstep
      · rename_i hr
        cases hstep
        exact noneStranded_drain h nowMs (hsound.queued r hr)
      · exact (nomatch hstep)

/-- **One step.** Nothing but a dispatch taken in vain strands a chunk. -/
theorem step_iff {e : Event} (hsound : Sound w) (h : NoneStranded nodeId w)
    (hstep : step T nodeId isLeader w e = some w') :
    NoneStranded nodeId w' ↔ TakesNoneInVain nodeId w e w' := by
  by_cases htake : ∃ env, e = .take env
  · obtain ⟨env, rfl⟩ := htake
    cases hstep
    cases hd : dropped? w.coordinator env with
    | some d =>
        refine (noneStranded_dropped_iff h hd).trans ?_
        constructor
        · intro hcond env' d' he hd'
          cases he
          cases hd.symm.trans hd'
          exact hcond
        · intro hcond
          exact hcond env d rfl hd
    | none =>
        refine iff_of_true ?_ ?_
        · exact noneStranded_perform h _ RenderCoordinator.balances_takeDispatch
            (noneAbandoned_takeDispatch hd)
        · intro env' d' he hd'
          cases he
          rw [hd] at hd'
          exact (nomatch hd')
  · refine iff_of_true ?_ ?_
    · exact noneStranded_step hsound h hstep fun env he => htake ⟨env, he⟩
    · exact fun env _ he => absurd ⟨env, he⟩ htake

/-- **No dispatch is stranded exactly when a stopped node takes none in vain.**
Over every order of assignments, looks of the handler, refusals, timeouts,
reverts, changes of the node's state, parts of `update`, messages of the agent,
reports and other calls on the database. -/
theorem none_stranded_iff (T : JsonText) (nodeId : String) (isLeader : Bool)
    (es : List Event) :
    (machine T nodeId isLeader).Along (fun _ _ w' => NoneStranded nodeId w') {} es ↔
      (machine T nodeId isLeader).Along (TakesNoneInVain nodeId) {} es := by
  have hstart : Sound {} ∧ NoneStranded nodeId {} :=
    ⟨⟨rfl, fun _ hr => (nomatch hr), fun _ hr => (nomatch hr)⟩, fun _ hc => (nomatch hc)⟩
  constructor
  · refine Machine.Along.mono (I := fun w => Sound w ∧ NoneStranded nodeId w) ?_ hstart
    intro w e w' hinv hstep hnone
    exact ⟨(step_iff hinv.1 hinv.2 hstep).mp hnone, sound_step hinv.1 hstep, hnone⟩
  · refine Machine.Along.mono (I := fun w => Sound w ∧ NoneStranded nodeId w) ?_ hstart
    intro w e w' hinv hstep hcond
    have hnone := (step_iff hinv.1 hinv.2 hstep).mpr hcond
    exact ⟨hnone, sound_step hinv.1 hstep, hnone⟩

/-! ## A stop between acceptance and start -/

/-- Frames 1 to 10 of a job, as the leader sends them. -/
def shotDispatch : PendingDispatch := ⟨{ jobId := "shot" }, ⟨1, 10⟩, 0⟩

/-- The node accepts the assignment and is stopped before its next `update`. -/
def stoppedInBetween : List Event :=
  [.call (.insertJob { jobId := "shot" }), .call (.insertChunks "shot" [⟨1, 10⟩]),
    .assign 1 { jobId := "shot" } 1000 0, .handle { dispatch := shotDispatch } true,
    .handle { dispatch := shotDispatch, stage := .notRendering } true,
    .handle { dispatch := shotDispatch, stage := .notStopped } true,
    .setNodeState .stopped 1200]

/-- **A chunk is stranded**: it stays assigned to a node that has given it up and
will not report it. -/
theorem stop_strands_accepted_dispatch :
    ¬ ∀ es, (machine shotText "n1" false).Along
      (fun _ _ w' => NoneStranded "n1" w') {} es := by
  intro h
  refine Machine.Along.refute stoppedInBetween (.take {})
    (fun _ (u : World) => (outstanding u).isEmpty &&
      u.db.chunks.any fun c => c.state = .assigned ∧ c.assignedTo = some "n1") ?_ ?_ (h _)
  · intro t u hbad hgood
    rw [Bool.and_eq_true, List.isEmpty_iff] at hbad
    obtain ⟨hempty, hchunk⟩ := hbad
    obtain ⟨c, hc, hto⟩ := List.any_eq_true.mp hchunk
    obtain ⟨hs, ha⟩ := of_decide_eq_true hto
    have hout := hgood c hc ⟨hs, ha⟩
    rw [hempty] at hout
    exact (nomatch hout)
  · decide

end StoppedNodes

end MinRender
