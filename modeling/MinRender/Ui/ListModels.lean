import Mathlib.Data.List.Sort
import Mathlib.Data.Prod.Lex
import Mathlib.Data.String.Basic
import MinRender.Core.PeerInfo
import MinRender.Framework.ListUpdate
import MinRender.Monitor.CachedJobs

/-!
# The list models of the user interface

Jobs, chunks and nodes are shown through three list models that are updated the
same way: with the same ids in the same order a row is only copied when some of
its fields differ. The nodes compare everything they show. The jobs leave out
when a job was submitted, and the chunks their frames, so that a job or a chunk
made anew under its old id goes on showing what the old one had.
-/

namespace MinRender

/-- What a model answers for a row and a role. -/
inductive QVariant
  | invalid
  | string (s : String)
  | int (n : Int)
  | longLong (n : Int)
  | double (x : Float)
  | bool (b : Bool)
  | stringList (xs : List String)
  | list (xs : List Int)

/-- `static_cast<double>(done) / static_cast<double>(total)` -/
def progressOf (done total : Int) : QVariant :=
  if total ≤ 0 then .double 0.0 else .double (Float.ofInt done / Float.ofInt total)

/-! ## Jobs -/

namespace JobsModel

/-- `other` stands for the roles the model does not know. -/
inductive Role
  | jobId
  | name
  | slug
  | state
  | progress
  | totalChunks
  | doneChunks
  | failedChunks
  | renderingChunks
  | stoppedChunks
  | createdAt
  | priority
  | firstAssignedAt
  | lastCompletedAt
  | other (role : Int)

def jobsSameFields (a b : JobInfo) : Bool :=
  decide (a.currentState = b.currentState) &&
    decide (a.currentPriority = b.currentPriority) &&
    decide (a.totalChunks = b.totalChunks) &&
    decide (a.completedChunks = b.completedChunks) &&
    decide (a.failedChunks = b.failedChunks) &&
    decide (a.renderingChunks = b.renderingChunks) &&
    decide (a.stoppedChunks = b.stoppedChunks) &&
    decide (a.firstAssignedMs = b.firstAssignedMs) &&
    decide (a.lastCompletedMs = b.lastCompletedMs)

def roleData (job : JobInfo) : Role → QVariant
  | .jobId => .string job.manifest.jobId
  | .slug => .string job.manifest.jobId
  | .name => .string job.manifest.jobId
  | .state => .string job.currentState
  | .progress => progressOf job.completedChunks job.totalChunks
  | .totalChunks => .int job.totalChunks
  | .doneChunks => .int job.completedChunks
  | .failedChunks => .int job.failedChunks
  | .renderingChunks => .int job.renderingChunks
  | .stoppedChunks => .int job.stoppedChunks
  | .createdAt => .longLong job.manifest.submittedAtMs
  | .priority => .int job.currentPriority
  | .firstAssignedAt => .longLong job.firstAssignedMs
  | .lastCompletedAt => .longLong job.lastCompletedMs
  | .other _ => .invalid

def data (jobs : List JobInfo) (row : Nat) (role : Role) : QVariant :=
  ListUpdate.shown roleData .invalid jobs row role

def setJobs (jobs incoming : List JobInfo) : List JobInfo × List ListUpdate.Signal :=
  ListUpdate.update (fun job => job.manifest.jobId) jobsSameFields jobs incoming

/-- After the update every row shows what it would after a reset. -/
def ShowsReset (jobs incoming : List JobInfo) : Prop :=
  ∀ row role, data (setJobs jobs incoming).1 row role = data incoming row role

/-- A row that compares as the same was submitted at the same time. -/
def SameSubmissions (jobs incoming : List JobInfo) : Prop :=
  jobs.map (fun job => job.manifest.jobId) = incoming.map (fun job => job.manifest.jobId) →
    ∀ p ∈ jobs.zip incoming, jobsSameFields p.1 p.2 = true →
      p.1.manifest.submittedAtMs = p.2.manifest.submittedAtMs

theorem roleData_eq_iff {a b : JobInfo} (hid : a.manifest.jobId = b.manifest.jobId)
    (hsame : jobsSameFields a b = true) :
    (∀ role, roleData a role = roleData b role) ↔
      a.manifest.submittedAtMs = b.manifest.submittedAtMs := by
  unfold jobsSameFields at hsame
  simp only [Bool.and_eq_true, decide_eq_true_eq] at hsame
  obtain ⟨⟨⟨⟨⟨⟨⟨⟨hstate, hpriority⟩, htotal⟩, hdone⟩, hfailed⟩, hrendering⟩, hstopped⟩, hfirst⟩,
    hlast⟩ := hsame
  constructor
  · intro h
    exact QVariant.longLong.inj (h .createdAt)
  · intro hsubmitted role
    cases role <;>
      simp only [roleData, hid, hstate, hpriority, htotal, hdone, hfailed, hrendering, hstopped,
        hfirst, hlast, hsubmitted]

theorem showsReset_iff (jobs incoming : List JobInfo) :
    ShowsReset jobs incoming ↔ SameSubmissions jobs incoming := by
  refine ListUpdate.shown_update_iff.trans ?_
  unfold SameSubmissions
  refine forall_congr' fun hkeys => forall₂_congr fun p hp => forall_congr' fun hsame => ?_
  exact roleData_eq_iff (ListUpdate.key_of_mem_zip hkeys hp) hsame

end JobsModel

/-! ## Chunks -/

namespace ChunksModel

inductive Role
  | chunkId
  | frameStart
  | frameEnd
  | state
  | assignedNode
  | assignedNodeName
  | progress
  | assignedAt
  | completedAt
  | retryCount
  | completedFrames
  | other (role : Int)

/-- What is shown of a `ChunkRow`. The leader's answer may have any text as its state. -/
structure Row where
  id : Int := 0
  frameStart : Int := 0
  frameEnd : Int := 0
  state : String := "pending"
  assignedTo : String := ""
  assignedAtMs : Int := 0
  completedAtMs : Int := 0
  retryCount : Int := 0
  completedFrames : List Int := []

def chunkSameFields (a b : Row) : Bool :=
  decide (a.state = b.state) &&
    decide (a.assignedTo = b.assignedTo) &&
    decide (a.assignedAtMs = b.assignedAtMs) &&
    decide (a.completedAtMs = b.completedAtMs) &&
    decide (a.retryCount = b.retryCount) &&
    decide (a.completedFrames = b.completedFrames)

/-- `nodeNames` maps node ids to host names. -/
def roleData (nodeNames : List (String × String)) (c : Row) : Role → QVariant
  | .chunkId => .longLong c.id
  | .frameStart => .int c.frameStart
  | .frameEnd => .int c.frameEnd
  | .state => .string c.state
  | .assignedNode => .string c.assignedTo
  | .assignedNodeName => .string ((nodeNames.lookup c.assignedTo).getD c.assignedTo)
  | .progress => progressOf c.completedFrames.length (c.frameEnd - c.frameStart + 1)
  | .assignedAt => .longLong c.assignedAtMs
  | .completedAt => .longLong c.completedAtMs
  | .retryCount => .int c.retryCount
  | .completedFrames => .list c.completedFrames
  | .other _ => .invalid

def data (nodeNames : List (String × String)) (chunks : List Row) (row : Nat) (role : Role) :
    QVariant :=
  ListUpdate.shown (roleData nodeNames) .invalid chunks row role

def setChunks (chunks incoming : List Row) : List Row × List ListUpdate.Signal :=
  ListUpdate.update (fun c => c.id) chunkSameFields chunks incoming

def ShowsReset (nodeNames : List (String × String)) (chunks incoming : List Row) : Prop :=
  ∀ row role, data nodeNames (setChunks chunks incoming).1 row role =
    data nodeNames incoming row role

/-- A row that compares as the same has the same frames. -/
def SameFrames (chunks incoming : List Row) : Prop :=
  chunks.map (fun c => c.id) = incoming.map (fun c => c.id) →
    ∀ p ∈ chunks.zip incoming, chunkSameFields p.1 p.2 = true →
      p.1.frameStart = p.2.frameStart ∧ p.1.frameEnd = p.2.frameEnd

theorem roleData_eq_iff {nodeNames : List (String × String)} {a b : Row} (hid : a.id = b.id)
    (hsame : chunkSameFields a b = true) :
    (∀ role, roleData nodeNames a role = roleData nodeNames b role) ↔
      a.frameStart = b.frameStart ∧ a.frameEnd = b.frameEnd := by
  unfold chunkSameFields at hsame
  simp only [Bool.and_eq_true, decide_eq_true_eq] at hsame
  obtain ⟨⟨⟨⟨⟨hstate, hassigned⟩, hassignedAt⟩, hcompletedAt⟩, hretry⟩, hframes⟩ := hsame
  constructor
  · intro h
    exact ⟨QVariant.int.inj (h .frameStart), QVariant.int.inj (h .frameEnd)⟩
  · rintro ⟨hstart, hend⟩ role
    cases role <;>
      simp only [roleData, hid, hstate, hassigned, hassignedAt, hcompletedAt, hretry, hframes,
        hstart, hend]

theorem showsReset_iff (nodeNames : List (String × String)) (chunks incoming : List Row) :
    ShowsReset nodeNames chunks incoming ↔ SameFrames chunks incoming := by
  refine ListUpdate.shown_update_iff.trans ?_
  unfold SameFrames
  refine forall_congr' fun hkeys => forall₂_congr fun p hp => forall_congr' fun hsame => ?_
  exact roleData_eq_iff (ListUpdate.key_of_mem_zip hkeys hp) hsame

end ChunksModel

/-! ## Nodes -/

namespace NodesModel

inductive Role
  | nodeId
  | hostname
  | isLeader
  | isActive
  | isAlive
  | agentHealth
  | alertReason
  | tags
  | priority
  | lastSeen
  | isThisNode
  | endpoint
  | renderState
  | activeJob
  | isSuspended
  | suspendFailures
  | other (role : Int)

/-- A `PeerInfo` with the fields that are only shown. -/
structure Row extends PeerInfo where
  hostname : String := ""
  isSuspended : Bool := false
  suspendFailureCount : Int := 0

def peerSameFields (a b : Row) : Bool :=
  decide (a.hostname = b.hostname) &&
    decide (a.nodeState = b.nodeState) &&
    decide (a.renderState = b.renderState) &&
    decide (a.activeJob = b.activeJob) &&
    decide (a.activeChunk = b.activeChunk) &&
    decide (a.priority = b.priority) &&
    decide (a.tags = b.tags) &&
    decide (a.endpoint = b.endpoint) &&
    decide (a.agentHealth = b.agentHealth) &&
    decide (a.alertReason = b.alertReason) &&
    decide (a.readyForWork = b.readyForWork) &&
    decide (a.isAlive = b.isAlive) &&
    decide (a.isLeader = b.isLeader) &&
    decide (a.isLocal = b.isLocal) &&
    decide (a.isSuspended = b.isSuspended) &&
    decide (a.suspendFailureCount = b.suspendFailureCount) &&
    decide (a.lastSeenMs = b.lastSeenMs)

def roleData (p : Row) : Role → QVariant
  | .nodeId => .string p.nodeId
  | .hostname => .string p.hostname
  | .isLeader => .bool p.isLeader
  | .isActive => .bool (p.isAlive && decide (p.nodeState = "active"))
  | .isAlive => .bool p.isAlive
  | .agentHealth => .string p.agentHealth
  | .alertReason => .string p.alertReason
  | .tags => .stringList p.tags
  | .priority => .int p.priority
  | .lastSeen => .longLong p.lastSeenMs
  | .isThisNode => .bool p.isLocal
  | .endpoint => .string p.endpoint
  | .renderState => .string p.renderState
  | .activeJob => .string p.activeJob
  | .isSuspended => .bool p.isSuspended
  | .suspendFailures => .int p.suspendFailureCount
  | .other _ => .invalid

def stateOrder (p : Row) : Nat :=
  if !p.isAlive then 3
  else if p.renderState = "rendering" then 0
  else if p.nodeState = "active" then 1
  else 2

/-- The comparison of `sortPeers`. -/
def comesBefore (a b : Row) : Bool :=
  if stateOrder a ≠ stateOrder b then decide (stateOrder a < stateOrder b)
  else if a.hostname ≠ b.hostname then decide (a.hostname < b.hostname)
  else decide (a.nodeId < b.nodeId)

/-- `std::sort`: some order of the list in which no row comes after one it
should come before. Equal rows may be swapped. -/
structure Sorter where
  sort : List Row → List Row
  perm : ∀ peers, (sort peers).Perm peers
  sorted : ∀ peers, (sort peers).Pairwise fun a b => comesBefore b a = false

def data (peers : List Row) (row : Nat) (role : Role) : QVariant :=
  ListUpdate.shown roleData .invalid peers row role

def setPeers (std : Sorter) (peers incoming : List Row) : List Row × List ListUpdate.Signal :=
  ListUpdate.update (fun p => p.nodeId) peerSameFields peers (std.sort incoming)

def ShowsReset (std : Sorter) (peers incoming : List Row) : Prop :=
  ∀ row role, data (setPeers std peers incoming).1 row role = data (std.sort incoming) row role

/-- Everything a node shows is compared. -/
theorem roleData_eq {a b : Row} (hid : a.nodeId = b.nodeId) (hsame : peerSameFields a b = true)
    (role : Role) : roleData a role = roleData b role := by
  unfold peerSameFields at hsame
  simp only [Bool.and_eq_true, decide_eq_true_eq] at hsame
  obtain ⟨⟨⟨⟨⟨⟨⟨⟨⟨⟨⟨⟨⟨⟨⟨⟨hhostname, hstate⟩, hrender⟩, hjob⟩, -⟩, hpriority⟩, htags⟩, hendpoint⟩,
    hhealth⟩, halert⟩, -⟩, halive⟩, hleader⟩, hlocal⟩, hsuspended⟩, hfailures⟩, hseen⟩ := hsame
  cases role <;>
    simp only [roleData, hid, hhostname, hstate, hrender, hjob, hpriority, htags, hendpoint,
      hhealth, halert, halive, hleader, hlocal, hsuspended, hfailures, hseen]

theorem showsReset (std : Sorter) (peers incoming : List Row) : ShowsReset std peers incoming := by
  refine ListUpdate.shown_update_iff.mpr ?_
  intro hkeys p hp hsame role
  exact roleData_eq (ListUpdate.key_of_mem_zip hkeys hp) hsame role

/-- What rows are sorted by. -/
def sortKey (p : Row) : Nat ×ₗ String ×ₗ String :=
  toLex (stateOrder p, toLex (p.hostname, p.nodeId))

theorem comesBefore_iff {a b : Row} : comesBefore a b = true ↔ sortKey a < sortKey b := by
  unfold comesBefore sortKey
  rw [Prod.Lex.toLex_lt_toLex, Prod.Lex.toLex_lt_toLex]
  split
  · rename_i horder
    simp [horder]
  · rename_i horder
    rw [not_not] at horder
    split
    · rename_i hhost
      simp [horder, hhost]
    · rename_i hhost
      rw [not_not] at hhost
      simp [horder, hhost]

/-- Sorting by insertion is one such sort. -/
def Sorter.insertion : Sorter where
  sort := List.insertionSort fun a b => sortKey a ≤ sortKey b
  perm := List.perm_insertionSort _
  sorted := by
    intro peers
    refine (List.pairwise_insertionSort (fun a b => sortKey a ≤ sortKey b) peers).imp ?_
    intro a b hle
    rw [Bool.eq_false_iff]
    exact mt comesBefore_iff.mp hle.not_gt

end NodesModel

/-! ## All three -/

/-- **When an update shows what a reset would**: with the same ids in the same
order, no job that compares as the same was submitted at another time, and no
such chunk has other frames. -/
theorem listModels_showReset_iff (std : NodesModel.Sorter) (nodeNames : List (String × String))
    (jobs incomingJobs : List JobInfo) (chunks incomingChunks : List ChunksModel.Row)
    (peers incomingPeers : List NodesModel.Row) :
    (JobsModel.ShowsReset jobs incomingJobs ∧
        ChunksModel.ShowsReset nodeNames chunks incomingChunks ∧
        NodesModel.ShowsReset std peers incomingPeers) ↔
      JobsModel.SameSubmissions jobs incomingJobs ∧
        ChunksModel.SameFrames chunks incomingChunks := by
  rw [JobsModel.showsReset_iff, ChunksModel.showsReset_iff]
  have hnodes := NodesModel.showsReset std peers incomingPeers
  exact ⟨fun h => ⟨h.1, h.2.1⟩, fun h => ⟨h.1, h.2, hnodes⟩⟩

/-- Views are told of every row that changes what it shows. -/
theorem listModels_signal (std : NodesModel.Sorter) (nodeNames : List (String × String))
    (jobs incomingJobs : List JobInfo) (chunks incomingChunks : List ChunksModel.Row)
    (peers incomingPeers : List NodesModel.Row) (row : Nat) :
    (∀ role, JobsModel.data (JobsModel.setJobs jobs incomingJobs).1 row role ≠
        JobsModel.data jobs row role →
      .reset ∈ (JobsModel.setJobs jobs incomingJobs).2 ∨
        .dataChanged row ∈ (JobsModel.setJobs jobs incomingJobs).2) ∧
    (∀ role, ChunksModel.data nodeNames (ChunksModel.setChunks chunks incomingChunks).1 row role ≠
        ChunksModel.data nodeNames chunks row role →
      .reset ∈ (ChunksModel.setChunks chunks incomingChunks).2 ∨
        .dataChanged row ∈ (ChunksModel.setChunks chunks incomingChunks).2) ∧
    ∀ role, NodesModel.data (NodesModel.setPeers std peers incomingPeers).1 row role ≠
        NodesModel.data peers row role →
      .reset ∈ (NodesModel.setPeers std peers incomingPeers).2 ∨
        .dataChanged row ∈ (NodesModel.setPeers std peers incomingPeers).2 := by
  refine ⟨?_, ?_, ?_⟩
  · intro role hchanged
    exact ListUpdate.signal_of_shown_ne hchanged
  · intro role hchanged
    exact ListUpdate.signal_of_shown_ne hchanged
  · intro role hchanged
    exact ListUpdate.signal_of_shown_ne hchanged

/-- A job without any chunk assigned yet. -/
def freshJob (submittedAtMs : Int) : JobInfo :=
  { manifest := { jobId := "shot", submittedAtMs := submittedAtMs }, totalChunks := 4 }

/-- **A row is stale**: a job submitted anew shows when the old one was. -/
theorem listModels_stale :
    ¬ (∀ (std : NodesModel.Sorter) (nodeNames : List (String × String))
        (jobs incomingJobs : List JobInfo) (chunks incomingChunks : List ChunksModel.Row)
        (peers incomingPeers : List NodesModel.Row),
      JobsModel.ShowsReset jobs incomingJobs ∧
        ChunksModel.ShowsReset nodeNames chunks incomingChunks ∧
        NodesModel.ShowsReset std peers incomingPeers) := by
  intro h
  have hjobs := (h .insertion [] [freshJob 1000] [freshJob 2000] [] [] [] []).1
  have hrow : QVariant.longLong 1000 = QVariant.longLong 2000 := hjobs 0 .createdAt
  exact absurd (QVariant.longLong.inj hrow) (by decide)

end MinRender
