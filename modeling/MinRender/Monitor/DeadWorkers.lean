import MinRender.Monitor.DispatchManager
import MinRender.Monitor.PeerManager
import MinRender.Monitor.RenderCoordinator
import MinRender.Monitor.RowSteps

/-!
# Which assignments the dead-worker reclaim sees

The leader's database, its peer map and its own renderer, each moved by its own
threads: database calls of any kind, UDP messages and polls, calls on the
coordinator, a restart of the leader, a restored snapshot. The reclaim walks
the peer map, so what it can reclaim is decided by who is in the map.
-/

namespace MinRender.DeadWorkers
open DatabaseManager DispatchManager

/-! ## One reclaim -/

variable {T : JsonText} {db : Db}

/-- The rows a walk over `peers` reclaims. -/
def Orphan (peers : List PeerInfo) (c : ChunkRecord) : Bool :=
  peers.any fun p => needsReclaim p ∧ c.assignedTo = some p.nodeId ∧ c.state = .assigned

theorem orphan_iff {peers : List PeerInfo} {c : ChunkRecord} : Orphan peers c = true ↔
    c.state = .assigned ∧
      ∃ p ∈ peers, needsReclaim p = true ∧ c.assignedTo = some p.nodeId := by
  simp only [Orphan, List.any_eq_true, decide_eq_true_eq]
  constructor
  · rintro ⟨p, hp, hr, ha, hs⟩
    exact ⟨hs, p, hp, hr, ha⟩
  · rintro ⟨hs, p, hp, hr, ha⟩
    exact ⟨p, hp, hr, ha, hs⟩

/-- A row that is pending is no orphan, so a second walk adds its own. -/
theorem update_orphans (p : PeerInfo) (ps : List PeerInfo) (rows : List ChunkRecord) :
    Table.update (Orphan ps) toPending (Table.update (Orphan [p]) toPending rows) =
      Table.update (Orphan (p :: ps)) toPending rows := by
  have hpending : ∀ c, Orphan ps (toPending c) = false := by
    intro c
    simp [Orphan, toPending]
  have hcons : ∀ c, Orphan (p :: ps) c = (Orphan [p] c || Orphan ps c) := by
    intro c
    simp [Orphan]
  simp only [Table.update, List.map_map]
  refine List.map_congr_left fun c _ => ?_
  by_cases hp : Orphan [p] c = true
  · simp [hcons, hp, hpending]
  · simp [hcons, hp]

/-- **What one reclaim does**: exactly the orphans go back to pending. -/
theorem detectDeadWorkers_run (peers : List PeerInfo) :
    ((detectDeadWorkers peers).run (DbCall.exec T) db).2.chunks =
      Table.update (Orphan peers) toPending db.chunks := by
  unfold detectDeadWorkers
  induction peers generalizing db with
  | nil => simp [Table.update, Orphan]
  | cons p ps ih =>
      have hsplit : ∀ f : PeerInfo → DbProg Unit,
          (p :: ps).forM f = f p >>= fun _ => ps.forM f := fun f => rfl
      rw [hsplit, Prog.run_bind, ih, ← update_orphans]
      congr 1
      by_cases hp : needsReclaim p = true
      · rw [if_pos hp]
        have horphan : Orphan [p] = fun c : ChunkRecord =>
            decide (c.assignedTo = some p.nodeId ∧ c.state = .assigned) := by
          funext c
          simp [Orphan, hp]
        rw [horphan]
        rfl
      · rw [if_neg hp]
        simp [Table.update, Orphan, hp]

/-! ## The leader -/

structure World where
  peers : PeerManager
  db : Db
  coordinator : RenderCoordinator

inductive Event
  /-- a call of the dispatch cycle or of an HTTP thread -/
  | call (c : DbCall)
  /-- a UDP message or a turn of the leader's peer thread -/
  | peers (u : PeerManager.Update)
  | queueDispatch (d : PendingDispatch)
  | render (call : RenderCall) (nowMs : Int)
  /-- the leader process comes back with a snapshot or its own database file -/
  | restart (localTags : List String) (restored : Db)
  /-- a new leader restores a snapshot -/
  | restore (snapshot : Db)
  | detectDeadWorkers

/-- The local part of `reportCompletion` on a leader. -/
def reportCompletion (T : JsonText) (nowMs : Int) (nodeId : String) (db : Db) :
    RenderEffect → Db
  | .completion jobId chunk .completed epoch =>
      (completeChunk db jobId chunk.frameStart chunk.frameEnd nowMs nodeId epoch).2
  | .completion jobId chunk .failed epoch =>
      (failChunk db jobId chunk.frameStart chunk.frameEnd
        (maxRetriesOf T (getJob db jobId)) nodeId epoch).2
  | _ => db

/-- A call on the coordinator, its reports written as it makes them. -/
def World.callCoordinator (T : JsonText) (w : World) (nowMs : Int)
    (r : RenderCoordinator × List RenderEffect) : World :=
  { w with
    coordinator := r.1
    db := r.2.foldl (reportCompletion T nowMs w.peers.nodeId) w.db }

def step (T : JsonText) (w : World) : Event → World
  | .call c => { w with db := c.after T w.db }
  | .peers u => { w with peers := w.peers.apply u }
  | .queueDispatch d => { w with
      coordinator := w.coordinator.queueDispatch d.manifest d.chunk d.editEpoch }
  | .render call nowMs => w.callCoordinator T nowMs (call.apply w.coordinator)
  | .restart localTags restored =>
      { peers := ({} : PeerManager).start w.peers.nodeId localTags
        db := restored
        coordinator := {} }
  | .restore snapshot => { w with db := snapshot }
  | .detectDeadWorkers =>
      { w with db :=
        ((detectDeadWorkers w.peers.getPeerSnapshot).run (DbCall.exec T) w.db).2 }

def machine (T : JsonText) : Machine World Event := ⟨fun w e => some (step T w e)⟩

/-- A leader that has just started. -/
def start (nodeId : String) (localTags : List String) : World where
  peers := ({} : PeerManager).start nodeId localTags
  db := Db.empty
  coordinator := {}

/-! ## No orphaned chunk -/

/-- The coordinator holds the chunk: queued, rendering or awaiting delivery. -/
def Holds (k : RenderCoordinator) (c : ChunkRecord) : Prop :=
  (∃ d ∈ k.dispatchQueue, (d.manifest.jobId, d.chunk) = c.key) ∨
  (∃ ar, k.activeRender = some ar ∧ (ar.manifest.jobId, ar.chunk) = c.key) ∨
  ∃ p ∈ k.pendingDeliveries, (p.jobId, p.chunk) = c.key

/-- Alive, with an agent that does not need attention. -/
def Fit (p : PeerInfo) : Prop := p.isAlive = true ∧ p.agentHealth ≠ "needs_attention"

/-- After a reclaim every assigned chunk is with a fit peer, or with the leader
itself, which holds it. -/
def LeavesNoOrphan (w : World) (e : Event) (w' : World) : Prop :=
  e = .detectDeadWorkers → ∀ c ∈ w'.db.chunks, c.state = .assigned →
    ∃ node, c.assignedTo = some node ∧
      ((∃ p ∈ w.peers.getPeerSnapshot, p.nodeId = node ∧ Fit p) ∨
        node = w.peers.nodeId ∧ Holds w.coordinator c)

/-- Before a reclaim every assigned chunk is with some peer of the map, fit or
not, or with the leader itself, which holds it. -/
def KnowsAssignees (w : World) (e : Event) (_ : World) : Prop :=
  e = .detectDeadWorkers → ∀ c ∈ w.db.chunks, c.state = .assigned →
    ∃ node, c.assignedTo = some node ∧
      ((∃ p ∈ w.peers.getPeerSnapshot, p.nodeId = node) ∨
        node = w.peers.nodeId ∧ Holds w.coordinator c)

/-! ## Equivalence -/

variable {w w' : World} {e : Event}

theorem needsReclaim_iff {p : PeerInfo} (h : p.isLocal = false) :
    needsReclaim p = true ↔ ¬ Fit p := by
  cases ha : p.isAlive <;> simp [needsReclaim, Fit, h, ha]

theorem allRemote_keeps : (machine T).Keeps fun w => w.peers.AllRemote := by
  intro w e w' h hstep
  cases hstep
  cases e with
  | peers u => exact h.apply
  | restart localTags restored => exact fun entry hentry => by cases hentry
  | _ => exact h

/-- The rows after a reclaim that are still assigned: those that were, and are
no orphans. -/
theorem assigned_after_reclaim {c : ChunkRecord} (hs : c.state = .assigned) :
    c ∈ (step T w .detectDeadWorkers).db.chunks ↔
      c ∈ w.db.chunks ∧ Orphan w.peers.getPeerSnapshot c = false := by
  simp only [step, detectDeadWorkers_run, Table.mem_update]
  constructor
  · rintro ⟨c₀, hc₀, heq⟩
    split at heq
    · subst heq
      cases hs
    · rename_i hno
      subst heq
      exact ⟨hc₀, by simpa using hno⟩
  · rintro ⟨hc, hno⟩
    exact ⟨c, hc, by simp [hno]⟩

/-- **One reclaim is complete exactly when it knows every assignee.** -/
theorem leavesNoOrphan_iff (hremote : w.peers.AllRemote) :
    LeavesNoOrphan w .detectDeadWorkers (step T w .detectDeadWorkers) ↔
      KnowsAssignees w .detectDeadWorkers (step T w .detectDeadWorkers) := by
  have hpeer : ∀ p ∈ w.peers.getPeerSnapshot, (needsReclaim p = true ↔ ¬ Fit p) := by
    intro p hp
    obtain ⟨entry, hentry, rfl⟩ := List.mem_map.mp hp
    exact needsReclaim_iff (hremote entry hentry)
  constructor
  · intro hgood _ c hc hs
    by_cases horphan : Orphan w.peers.getPeerSnapshot c = true
    · obtain ⟨-, p, hp, -, ha⟩ := orphan_iff.mp horphan
      exact ⟨p.nodeId, ha, .inl ⟨p, hp, rfl⟩⟩
    · have hc' : c ∈ (step T w .detectDeadWorkers).db.chunks :=
        (assigned_after_reclaim hs).mpr ⟨hc, by simpa using horphan⟩
      obtain ⟨node, ha, ⟨p, hp, hid, -⟩ | hlocal⟩ := hgood rfl c hc' hs
      · exact ⟨node, ha, .inl ⟨p, hp, hid⟩⟩
      · exact ⟨node, ha, .inr hlocal⟩
  · intro hknown _ c hc' hs
    obtain ⟨hc, hno⟩ := (assigned_after_reclaim hs).mp hc'
    obtain ⟨node, ha, ⟨p, hp, hid⟩ | hlocal⟩ := hknown rfl c hc hs
    · refine ⟨node, ha, .inl ⟨p, hp, hid, ?_⟩⟩
      -- an unfit peer's row would have been an orphan
      by_contra hunfit
      have horphan := orphan_iff.mpr ⟨hs, p, hp, (hpeer p hp).mpr hunfit, hid ▸ ha⟩
      rw [hno] at horphan
      cases horphan
    · exact ⟨node, ha, .inr hlocal⟩

/-- **The reclaim is complete exactly in the runs where it knows every
assignee.** From a leader that has just started and for every order of
database calls, discoveries, heartbeats, goodbyes, polls, forgotten peers, its
own renders, restarts and restored snapshots: every reclaim leaves each
assigned chunk with a fit peer or with the leader's own renderer, if and only
if every reclaim found each assigned chunk with a peer of the map or with the
leader's own renderer. -/
theorem reclaim_complete_iff_knows_assignees (T : JsonText) (nodeId : String)
    (localTags : List String) (es : List Event) :
    (machine T).Along KnowsAssignees (start nodeId localTags) es ↔
      (machine T).Along LeavesNoOrphan (start nodeId localTags) es := by
  refine Machine.Along.congr (I := fun w => w.peers.AllRemote) allRemote_keeps ?_
    fun entry hentry => by cases hentry
  intro w e w' hremote hstep
  cases hstep
  cases e with
  | detectDeadWorkers => exact (leavesNoOrphan_iff hremote).symm
  | _ =>
      constructor
      · rintro - ⟨⟩
      · rintro - ⟨⟩

/-- A worker takes a chunk, says goodbye and removes its endpoint file; the
peer thread forgets it before the next reclaim. -/
def forgottenWorker : List Event :=
  [.peers (.discover [("w1", some { nodeId := "w1", ip := "10.0.0.5" })]),
    .call (.insertJob { jobId := "shot" }), .call (.insertChunks "shot" [⟨1, 10⟩]),
    .call (.assignChunk 1 "w1" 1000 0), .peers (.goodbye "w1"),
    .peers (.forget fun _ => false)]

/-- **A chunk stays with a worker that is gone**, and that the leader forgot. -/
theorem forgotten_worker_keeps_chunk :
    ¬ ∀ es, (machine shotText).Along LeavesNoOrphan (start "lead" []) es := by
  intro h
  refine Machine.Along.refute forgottenWorker .detectDeadWorkers
    (fun t u => (t.peers.getPeerSnapshot.isEmpty && t.peers.nodeId = "lead") &&
      u.db.chunks.any fun c => c.state = .assigned ∧ c.assignedTo = some "w1") ?_ ?_ (h _)
  · intro t u hbad hgood
    rw [Bool.and_eq_true, Bool.and_eq_true, List.isEmpty_iff, decide_eq_true_eq] at hbad
    obtain ⟨⟨hnone, hself⟩, hchunk⟩ := hbad
    obtain ⟨c, hc, hcc⟩ := List.any_eq_true.mp hchunk
    obtain ⟨hs, ha⟩ := of_decide_eq_true hcc
    obtain ⟨node, hnode, ⟨p, hp, -⟩ | ⟨hlocal, -⟩⟩ := hgood rfl c hc hs
    · rw [hnone] at hp
      cases hp
    · rw [ha, hlocal, hself] at hnode
      simp at hnode
  · decide

end MinRender.DeadWorkers
