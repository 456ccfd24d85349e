import Mathlib.Logic.Function.Basic
import MinRender.Framework.Runs
import MinRender.Monitor.CachedJobs

/-!
# Whose list aborts a render

All nodes of a farm, each with its leader flag, its database file, its cached
job list and its render. Elections flip the flags, a background thread opens
the database of a new leader, and every node refreshes its list: from its own
database while it leads with an open one, else by asking the node it takes for
the leader, which answers whatever it has cached. Every cached list is marked
with the database it was built from.
-/

namespace MinRender.JobLists
open DatabaseManager MonitorApp

/-! ## Nodes and what they do -/

/-- What a running refresh has read: the node's own rows, or a leader's
answer. `source` is the database the list was built from, if it was. -/
inductive Reading
  | own (summaries : List JobSummary) (source : Db)
  | body (leader : String) (json : Json) (source : Option Db)

/-- Where the list of a reading comes from. -/
def Reading.leader (nodeId : String) : Reading → String
  | .own .. => nodeId
  | .body leader .. => leader

def Reading.source : Reading → Option Db
  | .own _ source => some source
  | .body _ _ source => source

structure Node where
  isLeader : Bool := false
  wasLeader : Bool := false
  /-- The thread that restores or opens the database runs. -/
  opening : Bool := false
  leaderDbReady : Bool := false
  isOpen : Bool := false
  /-- The local database file. -/
  db : Db := Db.empty
  cachedJobs : List JobInfo := []
  cachedJobsJson : Json := .arr []
  /-- The database `cachedJobsJson` was built from. -/
  source : Option Db := none
  coordinator : RenderCoordinator := {}
  reading : Option Reading := none

/-- The node reads its own database in a refresh. -/
def Node.leads (k : Node) : Bool := k.isLeader && k.leaderDbReady && k.isOpen

/-- A render that a refresh aborted; `leader` is the node whose list said so. -/
structure Abort where
  nodeId : String
  leader : String
  jobId : String
  reason : String
deriving DecidableEq

structure Farm where
  nodes : String → Node := fun _ => {}
  /-- The snapshot on the share. -/
  snapshot : Option Db := none
  /-- The abort of the last step. -/
  aborted : Option Abort := none

inductive Event
  /-- An election's outcome, as one node sees it. -/
  | elected (nodeId : String) (isLeader : Bool)
  /-- `update` looks for a leader transition. -/
  | transition (nodeId : String)
  /-- The thread ends, with the snapshot restored or the local file opened. -/
  | opened (nodeId : String) (restored : Bool)
  | openFails (nodeId : String)
  | snapshot (nodeId : String)
  /-- A database call of any thread. -/
  | call (nodeId : String) (c : DbCall)
  | queueDispatch (nodeId : String) (manifest : JobManifest) (chunk : ChunkRange)
      (editEpoch : Int)
  | render (nodeId : String) (call : RenderCall)
  /-- A refresh reads the node's own database. -/
  | readOwn (nodeId : String)
  /-- A refresh asks `leader`, which answers. -/
  | request (nodeId leader : String)
  | answerLost (nodeId : String)
  /-- The refresh stores what it has read. -/
  | refresh (nodeId : String)
  | restarts (nodeId : String)

def Farm.setNode (s : Farm) (nodeId : String) (k : Node) : Farm :=
  { s with nodes := Function.update s.nodes nodeId k }

/-- `onBecomeLeader` and `onLoseLeadership`; both wait for a running thread. -/
def Node.transition (k : Node) : Option Node :=
  if k.isLeader = k.wasLeader then some k
  else if k.opening then none
  else if k.isLeader then
    some { k with wasLeader := true, leaderDbReady := false, opening := true }
  else some { k with wasLeader := false, leaderDbReady := false, isOpen := false }

/-- The thread's last act; a snapshot is copied over the local file. -/
def Node.opened (k : Node) (snapshot : Option Db) : Node :=
  { k with opening := false, isOpen := true, leaderDbReady := true,
           db := snapshot.getD k.db }

/-- What a reading leaves in the caches, where it can be read. -/
def Node.store (T : JsonText) (k : Node) : Reading → Except JsonError Node
  | .own summaries source => .ok { k with
      reading := none
      cachedJobs := MonitorApp.cachedJobs T summaries
      cachedJobsJson := MonitorApp.cachedJobsJson T summaries
      source := some source }
  | .body _ json source => do
      let jobs ← jobsOfBody json
      return { k with
        reading := none, cachedJobs := jobs, cachedJobsJson := json, source := source }

/-- The end of a refresh: the lists are stored and the render is looked at. An
answer that cannot be read changes nothing. -/
def refreshOn (T : JsonText) (s : Farm) (nodeId : String) (r : Reading) : Farm :=
  match (s.nodes nodeId).store T r with
  | .error _ => s.setNode nodeId { s.nodes nodeId with reading := none }
  | .ok k =>
      { s.setNode nodeId { k with
          coordinator := (abortRenderIfJobGone k.cachedJobs k.coordinator).1 } with
        aborted := (renderGone k.cachedJobs k.coordinator).map fun reason =>
          ⟨nodeId, r.leader nodeId, k.coordinator.currentJobId, reason⟩ }

def act (T : JsonText) (s : Farm) : Event → Option Farm
  | .elected n isLeader => some (s.setNode n { s.nodes n with isLeader })
  | .transition n => (s.nodes n).transition.map (s.setNode n)
  | .opened n restored =>
      if (s.nodes n).opening then
        some (s.setNode n ((s.nodes n).opened (if restored then s.snapshot else none)))
      else none
  | .openFails n =>
      if (s.nodes n).opening then some (s.setNode n { s.nodes n with opening := false })
      else none
  | .snapshot n =>
      if (s.nodes n).leads then some { s with snapshot := some (s.nodes n).db } else none
  | .call n c =>
      if (s.nodes n).isOpen ∧ storesOwn T c then
        some (s.setNode n { s.nodes n with db := c.after T (s.nodes n).db })
      else none
  | .queueDispatch n manifest chunk editEpoch =>
      some (s.setNode n { s.nodes n with
        coordinator := (s.nodes n).coordinator.queueDispatch manifest chunk editEpoch })
  | .render n call =>
      some (s.setNode n { s.nodes n with
        coordinator := (call.apply (s.nodes n).coordinator).1 })
  | .readOwn n =>
      if (s.nodes n).reading.isNone ∧ (s.nodes n).leads then
        some (s.setNode n { s.nodes n with
          reading := some (.own (getAllJobs (s.nodes n).db) (s.nodes n).db) })
      else none
  | .request n l =>
      -- the asked node checks its leader flag, not its database
      if (s.nodes n).reading.isNone ∧ ¬ (s.nodes n).leads ∧ (s.nodes l).isLeader then
        some (s.setNode n { s.nodes n with
          reading := some (.body l (s.nodes l).cachedJobsJson (s.nodes l).source) })
      else none
  | .answerLost n => some (s.setNode n { s.nodes n with reading := none })
  | .refresh n => (s.nodes n).reading.map (refreshOn T s n)
  | .restarts n => some (s.setNode n { db := (s.nodes n).db })

def step (T : JsonText) (s : Farm) (e : Event) : Option Farm :=
  act T { s with aborted := none } e

def machine (T : JsonText) : Machine Farm Event := ⟨step T⟩

/-- New nodes with empty files. -/
def start : Farm := {}

/-! ## Right aborts -/

/-- The leader's database is open and has no row for the job. -/
def Gone (s : Farm) (leader jobId : String) : Prop :=
  (s.nodes leader).isOpen = true ∧ (s.nodes leader).db.job? jobId = none

/-- The leader's database is open and has the job cancelled. -/
def Cancelled (s : Farm) (leader jobId : String) : Prop :=
  (s.nodes leader).isOpen = true ∧
    ∃ j, (s.nodes leader).db.job? jobId = some j ∧ j.currentState = .cancelled

/-- An abort's reason is true of the leader's open database. -/
def AbortsRightly (_ : Farm) (_ : Event) (s' : Farm) : Prop :=
  ∀ a, s'.aborted = some a →
    (a.reason = "job removed" → Gone s' a.leader a.jobId) ∧
    (a.reason = "job cancelled" → Cancelled s' a.leader a.jobId)

/-- The database a list was built from vouches for the list on one job: where
the list was never built from one, or hides the job's row, or had none, the
leader's has none now; where it has the job cancelled, so does the leader's. -/
def Vouches (T : JsonText) (s : Farm) (leader : String) (source : Option Db)
    (jobId : String) : Prop :=
  match source with
  | none => Gone s leader jobId
  | some db =>
      match db.job? jobId with
      | none => Gone s leader jobId
      | some j =>
          if j.currentState = .archived ∨ (T.manifest? j.manifestJson).isNone then
            Gone s leader jobId
          else j.currentState = .cancelled → Cancelled s leader jobId

/-- Whenever a node with a render ends a refresh, the list is vouched for. -/
def ListsHold (T : JsonText) (s : Farm) (e : Event) (_ : Farm) : Prop :=
  match e with
  | .refresh n =>
      ∀ r, (s.nodes n).reading = some r → (s.nodes n).coordinator.currentJobId ≠ "" →
        Vouches T s (r.leader n) r.source (s.nodes n).coordinator.currentJobId
  | _ => True

/-! ## Every list is of its source -/

variable {T : JsonText} {s s' : Farm} {e : Event}

/-- The list workers get of a database; the initial one is empty. -/
def bodyOf (T : JsonText) : Option Db → Json
  | none => .arr []
  | some db => cachedJobsJson T (getAllJobs db)

def Reading.Sourced (T : JsonText) : Reading → Prop
  | .own summaries source => summaries = getAllJobs source ∧ OwnManifests T source
  | .body _ json source => json = bodyOf T source

structure Node.Sourced (T : JsonText) (k : Node) : Prop where
  manifests : OwnManifests T k.db
  json : k.cachedJobsJson = bodyOf T k.source
  reading : ∀ r, k.reading = some r → r.Sourced T

structure Sourced (T : JsonText) (s : Farm) : Prop where
  nodes : ∀ n, (s.nodes n).Sourced T
  snapshot : ∀ db, s.snapshot = some db → OwnManifests T db

theorem ownManifests_empty : OwnManifests T Db.empty := by
  intro j hj
  cases hj

theorem sourced_start : Sourced T start where
  nodes := fun _ => ⟨ownManifests_empty, rfl, fun _ hr => by cases hr⟩
  snapshot := fun _ hdb => by cases hdb

/-- One node's change keeps every list with its source. -/
theorem Sourced.setNode {k : Node} (h : Sourced T s) (n : String) (hk : k.Sourced T) :
    Sourced T (s.setNode n k) where
  nodes := by
    intro m
    show (Function.update s.nodes n k m).Sourced T
    rw [Function.update_apply]
    split
    · exact hk
    · exact h.nodes m
  snapshot := h.snapshot

/-- What a stored reading leaves, with the state its list shows for a job. -/
theorem store_spec {k k' : Node} {r : Reading} (hr : r.Sourced T)
    (h : k.store T r = .ok k') :
    k'.db = k.db ∧ k'.isOpen = k.isOpen ∧ k'.coordinator = k.coordinator ∧
      k'.reading = none ∧ k'.cachedJobsJson = bodyOf T r.source ∧ k'.source = r.source ∧
      (k.coordinator.currentJobId ≠ "" →
        renderGone k'.cachedJobs k.coordinator =
          verdict (r.source.bind (shown T · k.coordinator.currentJobId))) := by
  cases r with
  | own summaries source =>
      obtain ⟨rfl, hown⟩ := hr
      cases h
      exact ⟨rfl, rfl, rfl, rfl, rfl, rfl, fun hjob => (lists_cachedJobs hown).renderGone hjob⟩
  | body l json source =>
      cases hr
      obtain ⟨jobs, hjobs, hk⟩ := Json.bind_eq_ok.mp h
      cases hk
      refine ⟨rfl, rfl, rfl, rfl, rfl, rfl, fun hjob => ?_⟩
      cases source with
      | none =>
          -- nothing was ever stored in this cache
          cases hjobs
          exact @renderGone_of_find [] k.coordinator none hjob rfl
      | some db =>
          obtain ⟨read, hread, hlists⟩ := lists_jobsOfBody (T := T) db
          have hsame : jobs = read := Except.ok.inj (hjobs.symm.trans hread)
          rw [hsame]
          exact hlists.renderGone hjob

/-- A list built from a database can always be read. -/
theorem store_ok {k : Node} {r : Reading} (hr : r.Sourced T) : ∃ k', k.store T r = .ok k' := by
  cases r with
  | own summaries source => exact ⟨_, rfl⟩
  | body l json source =>
      cases hr
      cases source with
      | none => exact ⟨_, rfl⟩
      | some db =>
          obtain ⟨jobs, hjobs, -⟩ := lists_jobsOfBody (T := T) db
          exact ⟨_, Json.bind_eq_ok.mpr ⟨jobs, hjobs, rfl⟩⟩

/-- What a change of another part of a node keeps. -/
theorem Node.Sourced.same {k k' : Node} (h : k.Sourced T) (hdb : k'.db = k.db)
    (hjson : k'.cachedJobsJson = k.cachedJobsJson) (hsource : k'.source = k.source)
    (hreading : ∀ r, k'.reading = some r → k.reading = some r) : k'.Sourced T where
  manifests := hdb ▸ h.manifests
  json := by rw [hjson, hsource, h.json]
  reading := fun r hr => h.reading r (hreading r hr)

theorem Sourced.refreshOn {n : String} {r : Reading} (h : Sourced T s)
    (hr : (s.nodes n).reading = some r) : Sourced T (refreshOn T s n r) := by
  have hn := h.nodes n
  unfold JobLists.refreshOn
  cases hstore : (s.nodes n).store T r with
  | error e => exact h.setNode n (hn.same rfl rfl rfl fun _ hr => by cases hr)
  | ok k =>
      obtain ⟨hdb, -, -, hreading, hjson, hsource, -⟩ := store_spec (hn.reading r hr) hstore
      have hk : Node.Sourced T { k with
          coordinator := (abortRenderIfJobGone k.cachedJobs k.coordinator).1 } := by
        refine ⟨?_, ?_, fun r' hr' => ?_⟩
        · show OwnManifests T k.db
          rw [hdb]
          exact hn.manifests
        · show k.cachedJobsJson = bodyOf T k.source
          rw [hjson, hsource]
        · have hr' : k.reading = some r' := hr'
          rw [hreading] at hr'
          cases hr'
      exact ⟨(h.setNode n hk).nodes, h.snapshot⟩

theorem Node.Sourced.transition {k k' : Node} (h : k.Sourced T) (hk : k.transition = some k') :
    k'.Sourced T := by
  unfold Node.transition at hk
  split at hk
  · cases hk
    exact h
  · split at hk
    · cases hk
    · split at hk
      · cases hk
        exact h.same rfl rfl rfl fun _ hr => hr
      · cases hk
        exact h.same rfl rfl rfl fun _ hr => hr

theorem act_sourced (h : Sourced T s) (hact : act T s e = some s') : Sourced T s' := by
  cases e with
  | elected n | queueDispatch n | render n =>
      cases hact
      exact h.setNode n ((h.nodes n).same rfl rfl rfl fun _ hr => hr)
  | answerLost n =>
      cases hact
      exact h.setNode n ((h.nodes n).same rfl rfl rfl fun _ hr => by cases hr)
  | restarts n =>
      cases hact
      exact h.setNode n ⟨(h.nodes n).manifests, rfl, fun _ hr => by cases hr⟩
  | transition n =>
      obtain ⟨k, hk, rfl⟩ := Option.map_eq_some_iff.mp hact
      exact h.setNode n ((h.nodes n).transition hk)
  | opened n restored =>
      simp only [act] at hact
      split at hact
      · cases hact
        refine h.setNode n ⟨?_, (h.nodes n).json, (h.nodes n).reading⟩
        show OwnManifests T ((if restored then s.snapshot else none).getD (s.nodes n).db)
        cases hsnap : (if restored then s.snapshot else none) with
        | none => exact (h.nodes n).manifests
        | some db =>
            split at hsnap
            · exact h.snapshot db hsnap
            · cases hsnap
      · cases hact
  | openFails n =>
      simp only [act] at hact
      split at hact
      · cases hact
        exact h.setNode n ((h.nodes n).same rfl rfl rfl fun _ hr => hr)
      · cases hact
  | snapshot n =>
      simp only [act] at hact
      split at hact
      · cases hact
        refine ⟨h.nodes, fun db hdb => ?_⟩
        cases hdb
        exact (h.nodes n).manifests
      · cases hact
  | call n c =>
      simp only [act] at hact
      split at hact
      · rename_i hc
        cases hact
        exact h.setNode n ⟨(h.nodes n).manifests.after hc.2, (h.nodes n).json,
          (h.nodes n).reading⟩
      · cases hact
  | readOwn n =>
      simp only [act] at hact
      split at hact
      · cases hact
        refine h.setNode n ⟨(h.nodes n).manifests, (h.nodes n).json, fun r hr => ?_⟩
        cases hr
        exact ⟨rfl, (h.nodes n).manifests⟩
      · cases hact
  | request n l =>
      simp only [act] at hact
      split at hact
      · cases hact
        refine h.setNode n ⟨(h.nodes n).manifests, (h.nodes n).json, fun r hr => ?_⟩
        cases hr
        exact (h.nodes l).json
      · cases hact
  | refresh n =>
      obtain ⟨r, hr, rfl⟩ := Option.map_eq_some_iff.mp hact
      exact h.refreshOn hr

theorem keeps_sourced (T : JsonText) : (machine T).Keeps (Sourced T) := by
  intro s e s' h hstep
  have hclear : Sourced T { s with aborted := none } := ⟨h.nodes, h.snapshot⟩
  exact act_sourced hclear hstep

/-! ## What a refresh aborts -/

/-- Nothing but a refresh aborts for a list. -/
theorem aborted_of_step (h : step T s e = some s') (he : ∀ n, e ≠ .refresh n) :
    s'.aborted = none := by
  cases e with
  | refresh n => exact absurd rfl (he n)
  | elected | queueDispatch | render | answerLost | restarts =>
      cases h
      rfl
  | transition n =>
      obtain ⟨k, -, rfl⟩ := Option.map_eq_some_iff.mp h
      rfl
  | opened | openFails | snapshot | call | readOwn | request =>
      simp only [step, act] at h
      split at h
      · cases h
        rfl
      · cases h

/-- A refresh leaves the databases, and aborts what its list says. -/
theorem refresh_spec {n : String} (hs : Sourced T s) (h : step T s (.refresh n) = some s') :
    ∃ r, (s.nodes n).reading = some r ∧
      (∀ l, (s'.nodes l).db = (s.nodes l).db ∧ (s'.nodes l).isOpen = (s.nodes l).isOpen) ∧
      s'.aborted = if (s.nodes n).coordinator.currentJobId = "" then none
        else (verdict (r.source.bind
            (shown T · (s.nodes n).coordinator.currentJobId))).map fun reason =>
          ⟨n, r.leader n, (s.nodes n).coordinator.currentJobId, reason⟩ := by
  obtain ⟨r, hr, rfl⟩ := Option.map_eq_some_iff.mp h
  have hr : (s.nodes n).reading = some r := hr
  have hsourced : r.Sourced T := (hs.nodes n).reading r hr
  obtain ⟨k, hk⟩ := store_ok (k := s.nodes n) hsourced
  obtain ⟨hdb, hopen, hcoord, -, -, -, hgone⟩ := store_spec hsourced hk
  have hk' : (({ s with aborted := none } : Farm).nodes n).store T r = .ok k := hk
  refine ⟨r, hr, fun l => ?_, ?_⟩
  · unfold refreshOn
    rw [hk']
    show (Function.update s.nodes n _ l).db = _ ∧ (Function.update s.nodes n _ l).isOpen = _
    rw [Function.update_apply]
    split
    · rename_i hl
      subst hl
      exact ⟨hdb, hopen⟩
    · exact ⟨rfl, rfl⟩
  · unfold refreshOn
    rw [hk']
    show (renderGone k.cachedJobs k.coordinator).map _ = _
    rw [hcoord]
    split
    · rename_i hnone
      unfold renderGone
      rw [if_pos (.inr hnone)]
      rfl
    · rename_i hsome
      rw [hgone hsome]

/-- What a state in a list has to be matched by on the leader. -/
def Matched (s : Farm) (leader jobId : String) : Option JobState → Prop
  | none => Gone s leader jobId
  | some state => state = .cancelled → Cancelled s leader jobId

theorem vouches_iff {leader jobId : String} {source : Option Db} :
    Vouches T s leader source jobId ↔
      Matched s leader jobId (source.bind (shown T · jobId)) := by
  unfold Vouches shown
  cases source with
  | none => exact Iff.rfl
  | some db =>
      simp only [Option.bind_some]
      cases db.job? jobId with
      | none => exact Iff.rfl
      | some j =>
          simp only [Option.bind_some]
          split
          · exact Iff.rfl
          · exact Iff.rfl

/-- The reason given for a list's state is right exactly when the leader
matches it. -/
theorem verdict_right_iff {n leader jobId : String} (state : Option JobState) :
    (∀ a, (verdict state).map (fun reason => (⟨n, leader, jobId, reason⟩ : Abort)) = some a →
      (a.reason = "job removed" → Gone s a.leader a.jobId) ∧
      (a.reason = "job cancelled" → Cancelled s a.leader a.jobId)) ↔
    Matched s leader jobId state := by
  cases state with
  | none =>
      constructor
      · intro h
        exact (h _ rfl).1 rfl
      · intro h a ha
        cases ha
        exact ⟨fun _ => h, fun hr =>
          absurd hr (show ¬ "job removed" = "job cancelled" by decide)⟩
  | some state =>
      by_cases hcancelled : state = .cancelled
      · subst hcancelled
        constructor
        · intro h _
          exact (h _ rfl).2 rfl
        · intro h a ha
          cases ha
          exact ⟨fun hr => absurd hr (show ¬ "job cancelled" = "job removed" by decide),
            fun _ => h rfl⟩
      · have hverdict : verdict (some state) = none := if_pos hcancelled
        rw [hverdict]
        exact ⟨fun _ hc => absurd hc hcancelled, fun _ a ha => by cases ha⟩

/-- **Step by step the two agree.** -/
theorem abortsRightly_iff (hs : Sourced T s) (h : step T s e = some s') :
    ListsHold T s e s' ↔ AbortsRightly s e s' := by
  by_cases he : ∃ n, e = .refresh n
  · obtain ⟨n, rfl⟩ := he
    obtain ⟨r, hr, hdb, haborted⟩ := refresh_spec hs h
    have hgone : ∀ l id, Gone s' l id ↔ Gone s l id := fun l id => by
      unfold Gone
      rw [(hdb l).1, (hdb l).2]
    have hcancelled : ∀ l id, Cancelled s' l id ↔ Cancelled s l id := fun l id => by
      unfold Cancelled
      rw [(hdb l).1, (hdb l).2]
    simp only [ListsHold, AbortsRightly, haborted, hr, Option.some.injEq, forall_eq',
      hgone, hcancelled, vouches_iff]
    split
    · rename_i hid
      exact ⟨fun _ a ha => (by cases ha), fun _ hne => absurd hid hne⟩
    · rename_i hid
      rw [verdict_right_iff]
      exact ⟨fun hc => hc hid, fun hc _ => hc⟩
  · have hnone : s'.aborted = none := aborted_of_step h fun n hn => he ⟨n, hn⟩
    constructor
    · intro _ a ha
      rw [hnone] at ha
      cases ha
    · intro _
      cases e with
      | refresh n => exact absurd ⟨n, rfl⟩ he
      | _ => trivial

/-! ## Runs -/

/-- **A list aborts a render rightly exactly when it is vouched for.** For
every interleaving of elections, database openings, database calls and
refreshes: every abort's reason is true of the leader's open database, if and
only if, whenever a node with a render ends a refresh, the list it acts on was
built from a database that shows the job, uncancelled or cancelled as in the
leader's own, or the leader's open database has no such job. -/
theorem aborts_rightly_iff (T : JsonText) (es : List Event) :
    (machine T).Along AbortsRightly start es ↔ (machine T).Along (ListsHold T) start es :=
  (Machine.Along.congr (keeps_sourced T) (fun _ _ _ hs h => abortsRightly_iff hs h)
    sourced_start).symm

/-- A leader stores a job, a worker renders it; the leader steps down and a
node that has just started is elected. Before the thread has restored its
database, it answers the worker's refresh with the empty list. -/
def electedAnew : List Event :=
  [.elected "a" true, .transition "a", .opened "a" false,
    .call "a" (.insertJob { jobId := "shot", manifestJson := shotManifest }),
    .readOwn "a", .refresh "a", .snapshot "a",
    .queueDispatch "w" { jobId := "shot" } ⟨1, 10⟩ 0, .render "w" (.update {}),
    .elected "a" false, .transition "a", .elected "b" true, .transition "b",
    .request "w" "b"]

/-- **A job that is there is aborted as removed**: the leader's database is not
open. -/
theorem unready_leader_aborts :
    ¬ ∀ es, (machine shotText).Along AbortsRightly start es := by
  intro h
  refine Machine.Along.refute electedAnew (.refresh "w")
    (fun _ u => decide (u.aborted = some ⟨"w", "b", "shot", "job removed"⟩) &&
      !(u.nodes "b").isOpen) ?_ (by decide) (h _)
  intro t u hbad hgood
  obtain ⟨haborted, hclosed⟩ := Bool.and_eq_true_iff.mp hbad
  obtain ⟨hopen, -⟩ := (hgood _ (of_decide_eq_true haborted)).1 rfl
  have hopen : (u.nodes "b").isOpen = true := hopen
  rw [hopen] at hclosed
  cases hclosed

end MinRender.JobLists
