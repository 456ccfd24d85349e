import Mathlib.Logic.Function.Basic
import MinRender.Monitor.CachedJobs
import MinRender.Monitor.JobControls
import MinRender.Monitor.LateReports
import MinRender.Monitor.StoppedNodes

/-!
# Who is blamed for an interrupted render

The leader's database and failure tracker, and the coordinators of all nodes,
in runs where nothing fails by itself: renders end completed or because someone
cancels, edits, archives, deletes or stops something. A node is blamed where a
failure is written all the same.
-/

namespace MinRender

/-- The local part of `cancelJob`. -/
def MonitorApp.cancelRender (c : RenderCoordinator) (jobId : String) :
    RenderCoordinator × List RenderEffect :=
  let (c, effects) :=
    if c.activeRender.isSome ∧ c.currentJobId = jobId then
      c.abortCurrentRender "job cancelled"
    else (c, [])
  (c.purgeJob jobId, effects)

namespace AdministrativeActions
open DatabaseManager DispatchManager MonitorApp

/-! ## The farm -/

structure Node where
  coordinator : RenderCoordinator := {}
  reports : List PendingReport := []

/-- `lists` are the job lists built so far, `queued` the reports in the leader's
queues, with their nodes. -/
structure World where
  db : Db := Db.empty
  tracker : NodeFailureTracker := {}
  nodes : String → Node := fun _ => {}
  lists : List (List JobInfo) := []
  queued : List (String × PendingReport) := []

inductive Event
  /-- A database call of any thread, `failChunk` apart. -/
  | call (c : DbCall)
  /-- The leader's part of a control: an edit, a stopped chunk, an archived job. -/
  | control (c : MonitorApp.Control)
  | clearNode (nodeId : String)
  /-- A dispatch reaches a node. -/
  | dispatch (nodeId : String) (d : PendingDispatch)
  /-- A call on a coordinator in which nothing fails. -/
  | render (nodeId : String) (call : CoordinatorCall) (nowMs : Int)
  /-- `cancelJob` on a node, which is also how `deleteJob` begins. -/
  | cancelJob (nodeId jobId : String) (nowMs : Int)
  | setNodeState (nodeId : String) (state : NodeState) (nowMs : Int)
  /-- An abort push, or the leader's own edit or stopped chunk. -/
  | abandonJob (nodeId jobId reason : String) (nowMs : Int)
  /-- The leader builds the job list. -/
  | listJobs
  /-- A node's refresh stores a list that was built. -/
  | refresh (nodeId : String) (list : Nat) (nowMs : Int)
  /-- A report reaches the leader; `answered` is whether its answer comes back. -/
  | send (nodeId : String) (r : PendingReport) (answered : Bool)
  /-- `processReports` takes a report from its queue. -/
  | drain (nodeId : String) (r : PendingReport) (nowMs : Int)

variable (T : JsonText) (leader : String)

def World.setNode (w : World) (nodeId : String) (k : Node) : World :=
  { w with nodes := Function.update w.nodes nodeId k }

/-- A call on a node's coordinator and its reports: the leader writes its own,
another node buffers them. -/
def World.perform (w : World) (nodeId : String) (nowMs : Int)
    (r : RenderCoordinator × List RenderEffect) : World :=
  let k := w.nodes nodeId
  if nodeId = leader then
    { w.setNode nodeId { k with coordinator := r.1 } with
      db := r.2.foldl (DeadWorkers.reportCompletion T nowMs nodeId) w.db }
  else w.setNode nodeId
    { coordinator := r.1
      reports := k.reports ++ r.2.filterMap (MonitorApp.reportCompletion false true) }

/-- No effect reports a failure. -/
def NoneFailed (effects : List RenderEffect) : Prop :=
  ∀ y ∈ completions effects, y.2 ≠ .failed

instance (effects : List RenderEffect) : Decidable (NoneFailed effects) :=
  inferInstanceAs (Decidable (∀ y ∈ completions effects, y.2 ≠ .failed))

/-- The call counts failures. -/
def Blames : DbCall → Bool
  | .failChunk .. => true
  | _ => false

/-- The handler of a report: what its fence lets pass is queued. -/
def send (w : World) (nodeId : String) (r : PendingReport) (answered : Bool) : World :=
  let k := w.nodes nodeId
  { w.setNode nodeId { k with
      reports := if answered then k.reports.erase r else k.reports } with
    queued := if isChunkCurrent w.db r.jobId r.frameStart r.frameEnd nodeId r.editEpoch then
        w.queued ++ [(nodeId, r)]
      else w.queued }

/-- One report of the queues is processed. -/
def drain (w : World) (nodeId : String) (r : PendingReport) (nowMs : Int) : World :=
  let w := { w with queued := w.queued.erase (nodeId, r) }
  match r.state with
  | .completed =>
      { w with db := ((processCompletion nowMs ⟨nodeId, r.jobId, r.frameStart, r.frameEnd,
          r.editEpoch⟩).run (DbCall.exec T) w.db).2 }
  | .failed =>
      let p := (processFailure T nowMs w.tracker ⟨nodeId, r.jobId, r.frameStart, r.frameEnd,
        r.error, r.editEpoch⟩).run (DbCall.exec T) w.db
      { w with tracker := p.1, db := p.2 }
  | .abandoned => w

def step (w : World) : Event → Option World
  | .call c => if Blames c then none else some { w with db := c.after T w.db }
  | .control c => some { w with db := ((c.code T).run (DbCall.exec T) w.db).2 }
  | .clearNode nodeId => some { w with tracker := w.tracker.clearNode nodeId }
  | .dispatch nodeId d =>
      let k := w.nodes nodeId
      some (w.setNode nodeId { k with
        coordinator := k.coordinator.queueDispatch d.manifest d.chunk d.editEpoch })
  | .render nodeId call nowMs =>
      let r := call.apply (w.nodes nodeId).coordinator
      if NoneFailed r.2 then some (w.perform T leader nodeId nowMs r) else none
  | .cancelJob nodeId jobId nowMs =>
      let w := if nodeId = leader then
          { w with db := ((cancelJob jobId).run (DbCall.exec T) w.db).2 }
        else w
      some (w.perform T leader nodeId nowMs
        (cancelRender (w.nodes nodeId).coordinator jobId))
  | .setNodeState nodeId state nowMs =>
      some (w.perform T leader nodeId nowMs
        (MonitorApp.setNodeState (w.nodes nodeId).coordinator state))
  | .abandonJob nodeId jobId reason nowMs =>
      some (w.perform T leader nodeId nowMs
        (abandonJobRender (w.nodes nodeId).coordinator jobId reason))
  | .listJobs => some { w with lists := w.lists ++ [cachedJobs T (getAllJobs w.db)] }
  | .refresh nodeId list nowMs =>
      w.lists[list]?.map fun jobs =>
        w.perform T leader nodeId nowMs
          (abortRenderIfJobGone jobs (w.nodes nodeId).coordinator)
  | .send nodeId r answered =>
      -- every node has an id
      if nodeId ≠ "" ∧ r ∈ (w.nodes nodeId).reports then some (send w nodeId r answered)
      else none
  | .drain nodeId r nowMs =>
      if (nodeId, r) ∈ w.queued then some (drain T w nodeId r nowMs) else none

def machine : Machine World Event := ⟨step T leader⟩

/-! ## Nobody is blamed -/

/-- A node's failures in the current window. -/
def failures (t : NodeFailureTracker) (nodeId : String) : Int :=
  ((t.getRecord nodeId).getD {}).failureCount

/-- No list of failed nodes grows, no retry count and no node's failure count
rises, and no node is suspended or cooling down. -/
structure NobodyBlamed (w : World) (_ : Event) (w' : World) : Prop where
  rows : ∀ c' ∈ w'.db.chunks,
    (∃ c ∈ w.db.chunks, c.id = c'.id ∧ c'.failedOn ⊆ c.failedOn ∧
      c'.retryCount ≤ c.retryCount) ∨
    c'.failedOn = [] ∧ c'.retryCount = 0
  tracker : ∀ nodeId, failures w'.tracker nodeId ≤ failures w.tracker nodeId
  available : ∀ nodeId nowMs, w'.tracker.isSuspended nodeId = false ∧
    w'.tracker.isInCooldown nodeId nowMs = false

/-- The leader's own render that an event aborts. -/
def aborted? (w : World) : Event → Option Held
  | .cancelJob nodeId jobId _ =>
      if nodeId = leader ∧ (w.nodes leader).coordinator.currentJobId = jobId then
        (w.nodes leader).coordinator.activeRender.map (·.held)
      else none
  | .setNodeState nodeId .stopped _ =>
      if nodeId = leader then (w.nodes leader).coordinator.activeRender.map (·.held) else none
  | .refresh nodeId list _ =>
      if nodeId = leader ∧ (w.lists[list]?.bind fun jobs =>
          renderGone jobs (w.nodes leader).coordinator).isSome then
        (w.nodes leader).coordinator.activeRender.map (·.held)
      else none
  | _ => none

/-- The leader has the dispatch's chunk assigned to the node. -/
def Current (db : Db) (nodeId : String) (x : Held) : Prop :=
  isChunkCurrent db x.jobId x.chunk.frameStart x.chunk.frameEnd nodeId x.editEpoch = true

/-- An abort of the leader's own render finds its chunk released, and no failure
has passed the fence when the queues are drained. -/
def AbortsReleased (w : World) (e : Event) (_ : World) : Prop :=
  (∀ x, aborted? leader w e = some x → ¬ Current w.db leader x) ∧
    ∀ nodeId r nowMs, e = .drain nodeId r nowMs → r.state ≠ .failed

/-- Every failure finds its chunk released: the leader's own when its render is
aborted, another node's when its report arrives. -/
def FailuresStale (leader : String) (w : World) (e : Event) (_ : World) : Prop :=
  (∀ x, aborted? leader w e = some x → ¬ Current w.db leader x) ∧
    ∀ nodeId r answered, e = .send nodeId r answered → r.state = .failed →
      ¬ Current w.db nodeId r.held

/-- No failure is in the leader's queues. -/
def NoneWaits (w : World) : Prop := ∀ q ∈ w.queued, q.2.state ≠ .failed

/-! ## Calls that blame nobody -/

variable {T leader} {db : Db} {w w' : World} {e : Event}

/-- No chunk has failed anywhere or been retried. -/
def Clean (db : Db) : Prop := ∀ c ∈ db.chunks, c.failedOn = [] ∧ c.retryCount = 0

theorem clean_after {c : DbCall} (hc : Blames c = false) (h : Clean db) :
    Clean (c.after T db) := by
  refine (chunks_evolve T c db).forall_mem h ?_ ?_
  · intro r r' hstep hr
    cases hstep with
    | blacklist | fail => exact (nomatch hc)
    | resetAll hj => exact ⟨rfl, rfl⟩
    | retry hj hs => exact ⟨hr.1, rfl⟩
    | _ => exact hr
  · rintro r ⟨jobId, ranges, -, id, range, -, rfl⟩
    exact ⟨rfl, rfl⟩

theorem resetForEdit_blames {mode jobId : String} {manifest : JobManifest} :
    (resetForEdit mode jobId manifest).Every fun c => Blames c = false := by
  refine .ite (.ask rfl fun _ => trivial) ?_
  split
  · exact .ask rfl fun _ => trivial
  · exact trivial

/-- **The leader's part of a control blames nobody.** -/
theorem control_blames (control : MonitorApp.Control) :
    (control.code T).Every fun c => Blames c = false := by
  cases control with
  | edit dbOpen jobId manifestJson mode priority =>
      refine Prog.Every.bind (.ite trivial ?_) fun _ => trivial
      cases editManifest T jobId manifestJson with
      | error result => exact trivial
      | ok manifest =>
          refine .ask rfl fun job => .ite trivial ?_
          refine .ask rfl fun _ => .ask rfl fun _ => .ite ?_ trivial
          refine .ask rfl fun rendering => .ask rfl fun _ => resetForEdit_blames.bind ?_
          intro reset
          cases reset with
          | none => exact trivial
          | some u => exact .ask rfl fun _ => trivial
  | requeue jobId => exact .ask rfl fun _ => .ask rfl fun _ => trivial
  | _ => exact .ask rfl fun _ => trivial

theorem clean_run {α : Type} {p : DbProg α} (hp : p.Every fun c => Blames c = false)
    (h : Clean db) : Clean (p.run (DbCall.exec T) db).2 := by
  have hcalls : ∀ (c : DbCall) (db : Db), Blames c = false → Clean db →
      True ∧ Clean (DbCall.exec T c db).2 :=
    fun _ _ hc hdb => ⟨trivial, clean_after hc hdb⟩
  exact (hp.run_invariant hcalls h).2

theorem clean_reports {nodeId : String} {nowMs : Int} {effects : List RenderEffect}
    (hnone : NoneFailed effects) (h : Clean db) :
    Clean (effects.foldl (DeadWorkers.reportCompletion T nowMs nodeId) db) := by
  induction effects generalizing db with
  | nil => exact h
  | cons effect effects ih =>
      have hrest : NoneFailed effects := by
        intro y hy
        apply hnone
        rw [← List.singleton_append, completions_append]
        exact List.mem_append_right _ hy
      refine ih hrest ?_
      cases effect with
      | completion jobId chunk state editEpoch =>
          cases state with
          | completed =>
              exact @clean_after T db (.completeChunk jobId chunk.frameStart chunk.frameEnd
                nowMs nodeId editEpoch) rfl h
          | failed => exact absurd rfl (hnone (_, .failed) List.mem_cons_self)
          | abandoned => exact h
      | _ => exact h

/-! ## Aborts of the leader's own render -/

/-- The database after the leader blames itself for a render, if it does. -/
def blamed (T : JsonText) (leader : String) (db : Db) : Option Held → Db
  | none => db
  | some x => (failChunk db x.jobId x.chunk.frameStart x.chunk.frameEnd
      (maxRetriesOf T (getJob db x.jobId)) leader x.editEpoch).2

theorem blamed_abort {c : RenderCoordinator} {reason : String} {nowMs : Int} :
    (c.abortCurrentRender reason).2.foldl (DeadWorkers.reportCompletion T nowMs leader) db =
      blamed T leader db (c.activeRender.map (·.held)) := by
  unfold RenderCoordinator.abortCurrentRender RenderCoordinator.failChunk
  cases har : c.activeRender with
  | none => rfl
  | some ar => rfl

theorem blamed_cancel {c : RenderCoordinator} {jobId : String} {nowMs : Int} :
    (cancelRender c jobId).2.foldl (DeadWorkers.reportCompletion T nowMs leader) db =
      blamed T leader db
        (if c.currentJobId = jobId then c.activeRender.map (·.held) else none) := by
  unfold cancelRender
  by_cases hjob : c.currentJobId = jobId
  · rw [if_pos hjob, ← @blamed_abort T leader db c "job cancelled" nowMs]
    cases har : c.activeRender with
    | none =>
        simp only [Option.isSome_none, Bool.false_eq_true, false_and, if_false]
        simp only [RenderCoordinator.abortCurrentRender, har]
    | some ar =>
        rw [if_pos ⟨rfl, hjob⟩]
  · rw [if_neg hjob, if_neg fun h => hjob h.2]
    rfl

theorem blamed_gone {c : RenderCoordinator} {jobs : List JobInfo} {nowMs : Int} :
    (abortRenderIfJobGone jobs c).2.foldl (DeadWorkers.reportCompletion T nowMs leader) db =
      blamed T leader db
        (if (renderGone jobs c).isSome then c.activeRender.map (·.held) else none) := by
  unfold abortRenderIfJobGone
  cases renderGone jobs c with
  | none => rfl
  | some reason => exact blamed_abort

theorem blamed_setNodeState {c : RenderCoordinator} {state : NodeState} {nowMs : Int} :
    (MonitorApp.setNodeState c state).2.foldl
        (DeadWorkers.reportCompletion T nowMs leader) db =
      blamed T leader db
        (if state = .stopped then c.activeRender.map (·.held) else none) := by
  cases state with
  | active => rfl
  | stopped => exact @blamed_abort T leader db (c.setStopped true) _ nowMs

/-- Under the fence the blame falls on the chunk; without it on nobody. -/
theorem blamed_stale {x : Option Held} (h : ∀ y, x = some y → ¬ Current db leader y) :
    blamed T leader db x = db := by
  cases x with
  | none => rfl
  | some y =>
      unfold blamed failChunk
      exact congrArg Prod.snd (if_neg (h y rfl))

theorem blamed_current {x : Held} (h : Current db leader x) :
    ∃ c ∈ db.chunks, ∃ c' ∈ (blamed T leader db (some x)).chunks,
      c'.id = c.id ∧ c'.retryCount = c.retryCount + 1 := by
  obtain ⟨c, hc, hfence⟩ := List.any_eq_true.mp h
  obtain ⟨c', hc', hid, hretry⟩ := LateReports.failChunk_retries
    (maxRetriesOf T (getJob db x.jobId)) hc hfence
  exact ⟨c, hc, c', hc', hid, hretry⟩

/-! ## What a step does -/

theorem perform_db {nodeId : String} {nowMs : Int}
    {r : RenderCoordinator × List RenderEffect} :
    (w.perform T leader nodeId nowMs r).db =
      if nodeId = leader then r.2.foldl (DeadWorkers.reportCompletion T nowMs nodeId) w.db
      else w.db := by
  unfold World.perform
  dsimp only
  split
  · rfl
  · rfl

theorem perform_leader {nodeId : String} {nowMs : Int}
    {r : RenderCoordinator × List RenderEffect} :
    (w.perform T leader nodeId nowMs r).tracker = w.tracker ∧
      (w.perform T leader nodeId nowMs r).queued = w.queued := by
  unfold World.perform
  dsimp only
  split
  · exact ⟨rfl, rfl⟩
  · exact ⟨rfl, rfl⟩

/-- The events that may abort the leader's own render. -/
inductive MayAbort : Event → Prop
  | cancelJob (nodeId jobId : String) (nowMs : Int) : MayAbort (.cancelJob nodeId jobId nowMs)
  | setNodeState (nodeId : String) (state : NodeState) (nowMs : Int) :
      MayAbort (.setNodeState nodeId state nowMs)
  | refresh (nodeId : String) (list : Nat) (nowMs : Int) :
      MayAbort (.refresh nodeId list nowMs)

theorem mayAbort_of_aborted {x : Held} (h : aborted? leader w e = some x) : MayAbort e := by
  cases e with
  | cancelJob nodeId jobId nowMs => exact .cancelJob nodeId jobId nowMs
  | setNodeState nodeId state nowMs => exact .setNodeState nodeId state nowMs
  | refresh nodeId list nowMs => exact .refresh nodeId list nowMs
  | _ => exact (nomatch h)

/-- Such an event blames the leader for the render it aborts, on the chunks it
finds. -/
theorem abort_db (hstep : step T leader w e = some w') (he : MayAbort e) :
    (∃ db, db.chunks = w.db.chunks ∧ w'.db = blamed T leader db (aborted? leader w e)) ∧
      w'.tracker = w.tracker ∧ w'.queued = w.queued := by
  cases he with
  | cancelJob nodeId jobId nowMs =>
      cases hstep
      by_cases hself : nodeId = leader
      · subst hself
        refine ⟨⟨((cancelJob jobId).run (DbCall.exec T) w.db).2, rfl, ?_⟩, ?_⟩
        · rw [perform_db, if_pos rfl, if_pos rfl, blamed_cancel]
          simp only [aborted?, true_and]
        · rw [if_pos rfl]
          exact perform_leader
      · refine ⟨⟨w.db, rfl, ?_⟩, ?_⟩
        · rw [perform_db, if_neg hself, if_neg hself]
          simp only [aborted?, hself, false_and, if_false]
          rfl
        · rw [if_neg hself]
          exact perform_leader
  | setNodeState nodeId state nowMs =>
      cases hstep
      refine ⟨⟨w.db, rfl, ?_⟩, perform_leader⟩
      rw [perform_db]
      by_cases hself : nodeId = leader
      · subst hself
        rw [if_pos rfl, blamed_setNodeState]
        cases state with
        | active => rfl
        | stopped => simp only [aborted?, if_true]
      · rw [if_neg hself]
        cases state with
        | active => rfl
        | stopped =>
            simp only [aborted?, hself, if_false]
            rfl
  | refresh nodeId list nowMs =>
      obtain ⟨jobs, hjobs, rfl⟩ := Option.map_eq_some_iff.mp hstep
      refine ⟨⟨w.db, rfl, ?_⟩, perform_leader⟩
      rw [perform_db]
      by_cases hself : nodeId = leader
      · subst hself
        rw [if_pos rfl, blamed_gone]
        simp only [aborted?, true_and, hjobs, Option.bind_some]
      · rw [if_neg hself]
        simp only [aborted?, hself, false_and, if_false]
        rfl

/-! ## Runs -/

/-- No failure was ever written; and reports come from nodes with an id. -/
structure Inv (w : World) : Prop where
  rows : Clean w.db
  tracker : w.tracker.records = []
  ids : ∀ q ∈ w.queued, q.1 ≠ ""

theorem inv_start : Inv {} :=
  ⟨fun _ hc => (nomatch hc), rfl, fun _ hq => (nomatch hq)⟩

theorem inv_perform (h : Inv w) {nodeId : String} {nowMs : Int}
    {r : RenderCoordinator × List RenderEffect} (hnone : NoneFailed r.2) :
    Inv (w.perform T leader nodeId nowMs r) := by
  obtain ⟨htracker, hqueued⟩ := @perform_leader T leader w nodeId nowMs r
  refine ⟨?_, htracker ▸ h.tracker, hqueued ▸ h.ids⟩
  rw [perform_db]
  split
  · exact clean_reports hnone h.rows
  · exact h.rows

theorem noneFailed_abandonJobRender {c : RenderCoordinator} {jobId reason : String} :
    NoneFailed (abandonJobRender c jobId reason).2 := by
  unfold abandonJobRender RenderCoordinator.abandonCurrentRender
  dsimp only
  split
  · split
    · exact fun _ hy => (nomatch hy)
    · intro y hy
      cases List.mem_singleton.mp hy
      exact (nomatch ·)
  · exact fun _ hy => (nomatch hy)

theorem inv_abort (h : Inv w) (hstep : step T leader w e = some w') (he : MayAbort e)
    (hcond : AbortsReleased leader w e w') : Inv w' := by
  obtain ⟨⟨db, hchunks, hdb⟩, htracker, hqueued⟩ := abort_db hstep he
  refine ⟨?_, htracker ▸ h.tracker, hqueued ▸ h.ids⟩
  have hstale : ∀ y, aborted? leader w e = some y → ¬ Current db leader y := by
    intro y hy
    unfold Current isChunkCurrent
    rw [hchunks]
    exact hcond.1 y hy
  rw [hdb, blamed_stale hstale]
  intro c hc
  exact h.rows c (hchunks ▸ hc)

/-- The leader's queues take a report that the fence lets pass, and no other. -/
theorem mem_queued_send {nodeId : String} {r : PendingReport} {answered : Bool}
    {q : String × PendingReport} (hq : q ∈ (send w nodeId r answered).queued) :
    q ∈ w.queued ∨ q = (nodeId, r) ∧ Current w.db nodeId r.held := by
  simp only [send] at hq
  split at hq
  · rename_i hcurrent
    rcases List.mem_append.mp hq with hold | hnew
    · exact .inl hold
    · exact .inr ⟨List.mem_singleton.mp hnew, hcurrent⟩
  · exact .inl hq

theorem queued_drain {nodeId : String} {r : PendingReport} {nowMs : Int} :
    (drain T w nodeId r nowMs).queued = w.queued.erase (nodeId, r) := by
  unfold drain
  dsimp only
  split
  · rfl
  · rfl
  · rfl

theorem inv_drain (h : Inv w) {nodeId : String} {r : PendingReport} (nowMs : Int)
    (hstate : r.state ≠ .failed) : Inv (drain T w nodeId r nowMs) := by
  have hids : ∀ q ∈ w.queued.erase (nodeId, r), q.1 ≠ "" :=
    fun q hq => h.ids q (List.mem_of_mem_erase hq)
  unfold drain
  dsimp only
  split
  · exact ⟨@clean_after T w.db (.completeChunk r.jobId r.frameStart r.frameEnd nowMs nodeId
      r.editEpoch) rfl h.rows, h.tracker, hids⟩
  · rename_i hfailed
    exact absurd hfailed hstate
  · exact ⟨h.rows, h.tracker, hids⟩

/-- **A careful step blames nobody.** -/
theorem inv_step (h : Inv w) (hstep : step T leader w e = some w')
    (hcond : AbortsReleased leader w e w') : Inv w' := by
  cases e with
  | call c =>
      simp only [step] at hstep
      split at hstep
      · exact (nomatch hstep)
      · rename_i hc
        cases hstep
        exact ⟨clean_after (Bool.eq_false_iff.mpr hc) h.rows, h.tracker, h.ids⟩
  | control c =>
      cases hstep
      exact ⟨clean_run (control_blames c) h.rows, h.tracker, h.ids⟩
  | clearNode nodeId =>
      cases hstep
      refine ⟨h.rows, ?_, h.ids⟩
      show w.tracker.records.filter _ = []
      rw [h.tracker]
      rfl
  | dispatch nodeId d =>
      cases hstep
      exact ⟨h.rows, h.tracker, h.ids⟩
  | render nodeId call nowMs =>
      simp only [step] at hstep
      split at hstep
      · rename_i hnone
        cases hstep
        exact inv_perform h hnone
      · exact (nomatch hstep)
  | cancelJob nodeId jobId nowMs =>
      exact inv_abort h hstep (.cancelJob nodeId jobId nowMs) hcond
  | setNodeState nodeId state nowMs =>
      exact inv_abort h hstep (.setNodeState nodeId state nowMs) hcond
  | abandonJob nodeId jobId reason nowMs =>
      cases hstep
      exact inv_perform h noneFailed_abandonJobRender
  | listJobs =>
      cases hstep
      exact ⟨h.rows, h.tracker, h.ids⟩
  | refresh nodeId list nowMs =>
      exact inv_abort h hstep (.refresh nodeId list nowMs) hcond
  | send nodeId r answered =>
      simp only [step] at hstep
      split at hstep
      · rename_i hr
        cases hstep
        refine ⟨h.rows, h.tracker, fun q hq => ?_⟩
        rcases mem_queued_send hq with hold | ⟨hnew, -⟩
        · exact h.ids q hold
        · rw [hnew]
          exact hr.1
      · exact (nomatch hstep)
  | drain nodeId r nowMs =>
      simp only [step] at hstep
      split at hstep
      · cases hstep
        exact inv_drain h nowMs (hcond.2 nodeId r nowMs rfl)
      · exact (nomatch hstep)

theorem getRecord_nil {t : NodeFailureTracker} (h : t.records = []) (nodeId : String) :
    t.getRecord nodeId = none := by
  unfold NodeFailureTracker.getRecord
  rw [h]
  rfl

theorem nobodyBlamed_of_inv (h : Inv w) (h' : Inv w') : NobodyBlamed w e w' where
  rows := fun c' hc' => .inr (h'.rows c' hc')
  tracker := by
    intro nodeId
    unfold failures
    rw [getRecord_nil h.tracker, getRecord_nil h'.tracker]
  available := by
    intro nodeId nowMs
    unfold NodeFailureTracker.isSuspended NodeFailureTracker.isInCooldown
    rw [getRecord_nil h'.tracker]
    exact ⟨rfl, rfl⟩

/-- A node's first failure counts. -/
theorem failures_recordFailure {t : NodeFailureTracker} (h : t.records = []) (nodeId : String)
    (nowMs : Int) : failures (t.recordFailure nodeId nowMs) nodeId = 1 := by
  unfold failures NodeFailureTracker.recordFailure
  rw [getRecord_nil h, NodeFailureTracker.getRecord]
  simp only [List.lookup_cons_self, Option.getD_some, Option.getD_none]
  rfl

theorem drain_failed {nodeId : String} {r : PendingReport} {nowMs : Int}
    (hid : nodeId ≠ "") (hstate : r.state = .failed) :
    (drain T w nodeId r nowMs).tracker = w.tracker.recordFailure nodeId nowMs := by
  unfold drain
  simp only [hstate]
  exact if_neg hid

/-- **A step that blames nobody was careful.** -/
theorem released_of_nobody (h : Inv w) (hstep : step T leader w e = some w')
    (hgood : NobodyBlamed w e w') : AbortsReleased leader w e w' := by
  constructor
  · intro x hx hcurrent
    obtain ⟨⟨db, hchunks, hdb⟩, -, -⟩ := abort_db hstep (mayAbort_of_aborted hx)
    have hthere : Current db leader x := by
      unfold Current isChunkCurrent
      rw [hchunks]
      exact hcurrent
    obtain ⟨c, hc, c', hc', hid, hretry⟩ := @blamed_current T leader db x hthere
    rw [← hx, ← hdb] at hc'
    rw [(h.rows c (hchunks ▸ hc)).2] at hretry
    rcases hgood.rows c' hc' with ⟨c₀, hc₀, -, -, hle⟩ | ⟨-, hzero⟩
    · rw [(h.rows c₀ hc₀).2] at hle
      omega
    · omega
  · rintro nodeId r nowMs rfl hstate
    simp only [step] at hstep
    split at hstep
    · rename_i hq
      cases hstep
      have hle := hgood.tracker nodeId
      rw [drain_failed (h.ids _ hq) hstate, failures_recordFailure h.tracker, failures,
        getRecord_nil h.tracker] at hle
      exact absurd hle (by decide)
    · exact (nomatch hstep)

/-- Nobody is blamed exactly when every abort of the leader finds its chunk released
and no failure is drained. -/
theorem nobodyBlamed_iff_released (T : JsonText) (leader : String) (es : List Event) :
    (machine T leader).Along NobodyBlamed {} es ↔
      (machine T leader).Along (AbortsReleased leader) {} es := by
  constructor
  · refine Machine.Along.mono ?_ inv_start
    intro w e w' hinv hstep hgood
    have hcond := released_of_nobody hinv hstep hgood
    exact ⟨hcond, inv_step hinv hstep hcond⟩
  · refine Machine.Along.mono ?_ inv_start
    intro w e w' hinv hstep hcond
    have hinv' := inv_step hinv hstep hcond
    exact ⟨nobodyBlamed_of_inv hinv hinv', hinv'⟩

/-! ## Where a failure comes from -/

/-- What is in the leader's queues was there, or is a report that just passed
the fence. -/
theorem queued_step (hstep : step T leader w e = some w') {q : String × PendingReport}
    (hq : q ∈ w'.queued) : q ∈ w.queued ∨
      (∃ answered, e = .send q.1 q.2 answered) ∧ Current w.db q.1 q.2.held := by
  have habort : MayAbort e → q ∈ w.queued := by
    intro he
    obtain ⟨-, -, hqueued⟩ := abort_db hstep he
    exact hqueued ▸ hq
  cases e with
  | call c =>
      simp only [step] at hstep
      split at hstep
      · exact (nomatch hstep)
      · cases hstep
        exact .inl hq
  | control | clearNode | dispatch | listJobs =>
      cases hstep
      exact .inl hq
  | render nodeId call nowMs =>
      simp only [step] at hstep
      split at hstep
      · cases hstep
        exact .inl (perform_leader.2 ▸ hq)
      · exact (nomatch hstep)
  | cancelJob nodeId jobId nowMs => exact .inl (habort (.cancelJob nodeId jobId nowMs))
  | setNodeState nodeId state nowMs => exact .inl (habort (.setNodeState nodeId state nowMs))
  | refresh nodeId list nowMs => exact .inl (habort (.refresh nodeId list nowMs))
  | abandonJob nodeId jobId reason nowMs =>
      cases hstep
      exact .inl (perform_leader.2 ▸ hq)
  | send nodeId r answered =>
      simp only [step] at hstep
      split at hstep
      · cases hstep
        rcases mem_queued_send hq with hold | ⟨hnew, hcurrent⟩
        · exact .inl hold
        · cases hnew
          exact .inr ⟨⟨answered, rfl⟩, hcurrent⟩
      · exact (nomatch hstep)
  | drain nodeId r nowMs =>
      simp only [step] at hstep
      split at hstep
      · cases hstep
        rw [queued_drain] at hq
        exact .inl (List.mem_of_mem_erase hq)
      · exact (nomatch hstep)

theorem noneWaits_step (h : NoneWaits w) (hstep : step T leader w e = some w')
    (hstale : FailuresStale leader w e w') : NoneWaits w' := by
  intro q hq hstate
  rcases queued_step hstep hq with hold | ⟨⟨answered, he⟩, hcurrent⟩
  · exact h q hold hstate
  · exact hstale.2 q.1 q.2 answered he hstate hcurrent

theorem noneWaits_start : NoneWaits {} := fun _ hq => by cases hq

/-- Then no failure is in the queues when they are drained. -/
theorem released_of_stale {es : List Event}
    (h : (machine T leader).Along (FailuresStale leader) {} es) :
    (machine T leader).Along (AbortsReleased leader) {} es := by
  refine Machine.Along.mono ?_ noneWaits_start h
  intro w e w' hnone hstep hstale
  refine ⟨⟨hstale.1, ?_⟩, noneWaits_step hnone hstep hstale⟩
  rintro nodeId r nowMs rfl
  simp only [machine, step] at hstep
  split at hstep
  · rename_i hq
    exact hnone _ hq
  · cases hstep

/-- What is in the queues stays there until it is drained. -/
theorem queued_stays (hstep : step T leader w e = some w') {q : String × PendingReport}
    (hq : q ∈ w.queued) : q ∈ w'.queued ∨ ∃ nowMs, e = .drain q.1 q.2 nowMs := by
  have habort : MayAbort e → q ∈ w'.queued := by
    intro he
    obtain ⟨-, -, hqueued⟩ := abort_db hstep he
    exact hqueued ▸ hq
  cases e with
  | call c =>
      simp only [step] at hstep
      split at hstep
      · cases hstep
      · cases hstep
        exact .inl hq
  | control | clearNode | dispatch | listJobs =>
      cases hstep
      exact .inl hq
  | render nodeId call nowMs =>
      simp only [step] at hstep
      split at hstep
      · cases hstep
        exact .inl (perform_leader.2.symm ▸ hq)
      · cases hstep
  | cancelJob nodeId jobId nowMs => exact .inl (habort (.cancelJob nodeId jobId nowMs))
  | setNodeState nodeId state nowMs => exact .inl (habort (.setNodeState nodeId state nowMs))
  | refresh nodeId list nowMs => exact .inl (habort (.refresh nodeId list nowMs))
  | abandonJob nodeId jobId reason nowMs =>
      cases hstep
      exact .inl (perform_leader.2.symm ▸ hq)
  | send nodeId r answered =>
      simp only [step] at hstep
      split at hstep
      · cases hstep
        refine .inl ?_
        simp only [send]
        split
        · exact List.mem_append_left _ hq
        · exact hq
      · cases hstep
  | drain nodeId r nowMs =>
      simp only [step] at hstep
      split at hstep
      · cases hstep
        rw [queued_drain]
        by_cases hsame : q = (nodeId, r)
        · exact .inr ⟨nowMs, by rw [hsame]⟩
        · exact .inl ((List.mem_erase_of_ne hsame).mpr hq)
      · cases hstep

/-- A report that passes the fence is in the queues. -/
theorem mem_queued_current {nodeId : String} {r : PendingReport} {answered : Bool}
    (hstep : step T leader w (.send nodeId r answered) = some w')
    (hcurrent : Current w.db nodeId r.held) : (nodeId, r) ∈ w'.queued := by
  simp only [step] at hstep
  split at hstep
  · cases hstep
    have hpasses : isChunkCurrent w.db r.jobId r.frameStart r.frameEnd nodeId r.editEpoch =
        true := hcurrent
    simp only [send, hpasses, if_true]
    exact List.mem_append_right _ (List.mem_singleton_self _)
  · cases hstep

/-- Where no failure is drained and none is left, none was queued. -/
theorem stale_of_released {es : List Event} (hrun : (machine T leader).run w es = some w')
    (h : (machine T leader).Along (AbortsReleased leader) w es) (hnone : NoneWaits w') :
    (machine T leader).Along (FailuresStale leader) w es ∧ NoneWaits w := by
  induction es generalizing w with
  | nil =>
      cases hrun
      exact ⟨trivial, hnone⟩
  | cons e es ih =>
      rw [Machine.run_cons] at hrun
      obtain ⟨t, hstep, hrest⟩ := Option.bind_eq_some_iff.mp hrun
      obtain ⟨hreleased, halong⟩ := h t hstep
      obtain ⟨hstale, hlater⟩ := ih hrest halong
      constructor
      · intro u hu
        cases hstep.symm.trans hu
        refine ⟨⟨hreleased.1, ?_⟩, hstale⟩
        rintro nodeId r answered rfl hstate hcurrent
        have hmove : step T leader w (.send nodeId r answered) = some t := hstep
        exact hlater _ (mem_queued_current hmove hcurrent) hstate
      · intro q hq hstate
        rcases queued_stays hstep hq with hstays | ⟨nowMs, rfl⟩
        · exact hlater q hstays hstate
        · exact hreleased.2 q.1 q.2 nowMs rfl hstate

/-- **Nobody is blamed where every failure finds its chunk released.** Over every
order of database calls, controls, dispatches, calls on the nodes in which nothing
fails, cancelled jobs, changes of the nodes' states, abort pushes, refreshed lists,
reports and drains; and where nobody is blamed although a failure found its chunk
assigned, the failure still waits in the leader's queues. -/
theorem nobody_blamed_iff (T : JsonText) (leader : String) (es : List Event) :
    ((machine T leader).Along (FailuresStale leader) {} es →
      (machine T leader).Along NobodyBlamed {} es) ∧
    (∀ w, (machine T leader).run {} es = some w →
      ((machine T leader).Along (FailuresStale leader) {} es ↔
        (machine T leader).Along NobodyBlamed {} es ∧ NoneWaits w)) ∧
    ((machine T leader).Along NobodyBlamed {} es ↔
      (machine T leader).Along (AbortsReleased leader) {} es) := by
  have hreleased := nobodyBlamed_iff_released T leader es
  refine ⟨fun h => hreleased.mpr (released_of_stale h), fun w hrun => ?_, hreleased⟩
  constructor
  · intro h
    refine ⟨hreleased.mpr (released_of_stale h), ?_⟩
    refine Machine.Along.invariant ?_ noneWaits_start h hrun
    exact fun w e w' hnone hstep hstale => noneWaits_step hnone hstep hstale
  · rintro ⟨hgood, hnone⟩
    exact (stale_of_released hrun (hreleased.mp hgood) hnone).1

/-! ## A cancelled job -/

/-- The failure a worker reports of its aborted render. -/
def shotAborted : PendingReport :=
  { jobId := "shot", frameStart := 1, frameEnd := 10, state := .failed, editEpoch := 0 }

/-- A worker renders; the job is cancelled on the leader; the worker sees it in
the next job list, aborts and reports. -/
def cancelledElsewhere : List Event :=
  [.call (.insertJob { jobId := "shot", manifestJson := shotManifest }),
    .call (.insertChunks "shot" [⟨1, 10⟩]), .call (.assignChunk 1 "w1" 1000 0),
    .dispatch "w1" ⟨{ jobId := "shot" }, ⟨1, 10⟩, 0⟩,
    .render "w1" (.update (fun _ => {}) {} {}) 1000, .cancelJob "lead" "shot" 2000,
    .listJobs, .refresh "w1" 0 3000, .send "w1" shotAborted true]

/-- **A cancelled job blames the worker**, which cools down for a render it was
told to abort. -/
theorem cancelled_job_blames_worker :
    ¬ ∀ es, (machine shotText "lead").Along NobodyBlamed {} es := by
  intro h
  refine Machine.Along.refute cancelledElsewhere (.drain "w1" shotAborted 4000)
    (fun _ (u : World) => u.tracker.isInCooldown "w1" 4000) ?_ ?_ (h _)
  · intro t u hbad hgood
    rw [(hgood.available "w1" 4000).2] at hbad
    exact (nomatch hbad)
  · decide

end AdministrativeActions

end MinRender
