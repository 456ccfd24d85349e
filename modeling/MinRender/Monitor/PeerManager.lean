import Mathlib.Data.List.Sort
import MinRender.Core.PeerInfo
import MinRender.Framework.Table

/-!
# The peer map

What a node knows about the others, as the background thread and the UDP
messages change it, one function for each stretch under the lock; then the
election over it. The map is the list of its entries in key order.
-/

namespace MinRender
open Json Table

/-- The contents of `nodes/<id>/endpoint.json`. -/
structure PeerEndpoint where
  nodeId : String := ""
  ip : String := ""
  port : Nat := 8420
deriving DecidableEq, Repr

def PeerEndpoint.fromJson (j : Json) : Except JsonError PeerEndpoint := do
  let nodeId ← j.field getString "node_id" ""
  let ip ← j.field getString "ip" ""
  let port ← j.field getUInt16 "port" 8420
  let _ ← j.field getInt64 "timestamp_ms" 0
  return { nodeId, ip, port := port.toNat }

/-- A UDP heartbeat as read off the wire. -/
structure Heartbeat where
  nodeId : String
  ip : String := ""
  port : Nat := 8420
  nodeState : String := "active"
  renderState : String := "idle"
  jobId : String := ""
  chunk : String := ""
  priority : Int := 100
  agentHealth : String := "ok"
  alertReason : String := ""
  readyForWork : Bool := true
deriving DecidableEq, Repr

structure PeerManager where
  nodeId : String := ""
  localTags : List String := []
  peers : List (String × PeerInfo) := []
  leaderId : String := ""
  isLeader : Bool := false
deriving DecidableEq, Repr

namespace PeerManager

variable (pm : PeerManager)

/-- The node's tags are read once, when the farm starts. -/
def start (nodeId : String) (localTags : List String) : PeerManager :=
  { pm with nodeId, localTags }

def getPeerSnapshot : List PeerInfo := pm.peers.map (·.2)

/-- Change the entry under a key, if there is one. -/
def modifyPeer (id : String) (f : PeerInfo → PeerInfo) : PeerManager :=
  { pm with
    peers := update (fun entry => decide (entry.1 = id))
      (fun entry => (entry.1, f entry.2)) pm.peers }

def setPeerNodeState (id state : String) : PeerManager :=
  pm.modifyPeer id fun info => { info with nodeState := state }

/-- An unknown node is not added, and the address is not read. -/
def processUdpHeartbeat (hb : Heartbeat) (nowMs : Int) : PeerManager :=
  pm.modifyPeer hb.nodeId fun info =>
    { info with
      nodeState := hb.nodeState
      renderState := hb.renderState
      activeJob := hb.jobId
      activeChunk := hb.chunk
      priority := hb.priority
      agentHealth := hb.agentHealth
      alertReason := hb.alertReason
      readyForWork := hb.readyForWork
      isAlive := true
      failedPolls := 0
      hasUdpContact := true
      lastUdpContactMs := nowMs }

def processUdpGoodbye (id : String) : PeerManager :=
  pm.modifyPeer id fun info => { info with isAlive := false, hasUdpContact := false }

/-! ## The background thread -/

/-- One endpoint file: a new peer, or a known peer's address. -/
def discoverPeer (dir : String) (file : Option PeerEndpoint) : PeerManager :=
  match file with
  | none => pm
  | some ep =>
      if dir = pm.nodeId ∨ ep.nodeId ≠ dir then pm
      else
        let endpoint := ep.ip ++ ":" ++ toString ep.port
        if pm.peers.any (·.1 = dir) then
          pm.modifyPeer dir fun info => { info with endpoint }
        else
          let info : PeerInfo := { nodeId := ep.nodeId, endpoint }
          { pm with
            peers := pm.peers.orderedInsert (fun a b => a.1 ≤ b.1) (dir, info) }

/-- The directories under `nodes` and what their endpoint files hold, `none`
where there is none or it does not read. -/
def discoverPeers (files : List (String × Option PeerEndpoint)) : PeerManager :=
  files.foldl (fun pm file => pm.discoverPeer file.1 file.2) pm

/-- Fifteen seconds of silence end the UDP contact. -/
def clearUdpContact (nowMs : Int) : PeerManager :=
  { pm with
    peers := update
      (fun entry => entry.2.hasUdpContact && 15000 < nowMs - entry.2.lastUdpContactMs)
      (fun entry => (entry.1, { entry.2 with hasUdpContact := false })) pm.peers }

/-- The entry after a poll: the status the peer answered, or one more failed
poll. -/
def polledInfo (info : PeerInfo) (status : Option PeerInfo) (nowMs : Int) : PeerInfo :=
  match status with
  | none => { info with failedPolls := info.failedPolls + 1 }
  | some updated =>
      { updated with
        isLocal := false
        isAlive := true
        isLeader := info.isLeader
        failedPolls := 0
        lastSeenMs := nowMs
        hasUdpContact := info.hasUdpContact
        lastUdpContactMs := info.lastUdpContactMs
        agentHealth := if updated.agentHealth = "ok" ∧ info.hasUdpContact
          then info.agentHealth else updated.agentHealth
        alertReason := if updated.agentHealth = "ok" ∧ info.hasUdpContact
          then info.alertReason else updated.alertReason
        readyForWork := if info.hasUdpContact then info.readyForWork
          else updated.readyForWork }

/-- Three failed polls are the verdict, unless UDP contact is recent. -/
def deadVerdict (info : PeerInfo) (nowMs : Int) : PeerInfo :=
  let recentUdp := 0 < info.lastUdpContactMs ∧ nowMs - info.lastUdpContactMs < 10000
  if 3 ≤ info.failedPolls ∧ info.isAlive ∧ ¬ recentUdp then
    { info with isAlive := false }
  else info

/-- One peer polled; `none` where it did not answer with a status. -/
def pollPeer (id : String) (status : Option PeerInfo) (nowMs : Int) : PeerManager :=
  pm.modifyPeer id fun info => deadVerdict (polledInfo info status nowMs) nowMs

/-- Dead peers whose endpoint file is gone are forgotten. -/
def removeStalePeers (hasEndpoint : String → Bool) : PeerManager :=
  { pm with peers := pm.peers.filter fun entry =>
      entry.2.isAlive || hasEndpoint entry.1 }

/-! ## Election -/

structure Candidate where
  id : String
  hasLeaderTag : Bool
  hasNoLeaderTag : Bool
deriving DecidableEq, Repr

def Candidate.of (id : String) (tags : List String) : Candidate where
  id := id
  hasLeaderTag := "leader" ∈ tags
  hasNoLeaderTag := "noleader" ∈ tags

/-- The order of the ranking: `leader` first, `noleader` last, then by id. -/
def Candidate.before (a b : Candidate) : Bool :=
  if a.hasLeaderTag ≠ b.hasLeaderTag then a.hasLeaderTag
  else if a.hasNoLeaderTag ≠ b.hasNoLeaderTag then b.hasNoLeaderTag
  else a.id < b.id

/-- The node itself with the tags it started with, and the peers it holds
alive with the tags they reported. -/
def candidates : List Candidate :=
  .of pm.nodeId pm.localTags ::
    (pm.peers.filter (·.2.isAlive)).map fun entry => .of entry.1 entry.2.tags

/-- The first of the ranking. -/
def elected : String :=
  match pm.candidates.insertionSort fun a b => ¬ b.before a with
  | [] => ""
  | c :: _ => c.id

def recomputeLeader : PeerManager :=
  { pm with
    leaderId := pm.elected
    isLeader := pm.elected = pm.nodeId
    peers := pm.peers.map fun entry =>
      (entry.1, { entry.2 with isLeader := entry.1 = pm.elected }) }

/-! ## Updates -/

/-- One change of the peer map, by the background thread or by a UDP message. -/
inductive Update
  | discover (files : List (String × Option PeerEndpoint))
  | heartbeat (hb : Heartbeat) (nowMs : Int)
  | goodbye (id : String)
  | nodeState (id state : String)
  | silence (nowMs : Int)
  | polled (id : String) (status : Option PeerInfo) (nowMs : Int)
  | forget (hasEndpoint : String → Bool)
  | recomputeLeader

def apply : Update → PeerManager
  | .discover files => pm.discoverPeers files
  | .heartbeat hb nowMs => pm.processUdpHeartbeat hb nowMs
  | .goodbye id => pm.processUdpGoodbye id
  | .nodeState id state => pm.setPeerNodeState id state
  | .silence nowMs => pm.clearUdpContact nowMs
  | .polled id status nowMs => pm.pollPeer id status nowMs
  | .forget hasEndpoint => pm.removeStalePeers hasEndpoint
  | .recomputeLeader => pm.recomputeLeader

/-! ## Entries -/

variable {pm}

theorem mem_modifyPeer {id : String} {f : PeerInfo → PeerInfo}
    {entry : String × PeerInfo} (h : entry ∈ (pm.modifyPeer id f).peers) :
    ∃ old ∈ pm.peers, entry = old ∨ entry = (old.1, f old.2) := by
  obtain ⟨old, hold, rfl⟩ := mem_update.mp h
  refine ⟨old, hold, ?_⟩
  split
  · exact .inr rfl
  · exact .inl rfl

/-- No entry of the map is the node itself looking at itself. -/
def AllRemote (pm : PeerManager) : Prop := ∀ entry ∈ pm.peers, entry.2.isLocal = false

theorem AllRemote.modifyPeer {id : String} {f : PeerInfo → PeerInfo}
    (h : pm.AllRemote) (hf : ∀ info, info.isLocal = false → (f info).isLocal = false) :
    (pm.modifyPeer id f).AllRemote := by
  intro entry hentry
  obtain ⟨old, hold, rfl | rfl⟩ := mem_modifyPeer hentry
  · exact h _ hold
  · exact hf _ (h _ hold)

theorem AllRemote.discoverPeer {dir : String} {file : Option PeerEndpoint}
    (h : pm.AllRemote) : (pm.discoverPeer dir file).AllRemote := by
  unfold PeerManager.discoverPeer
  split
  · exact h
  split
  · exact h
  simp only []
  split
  · exact h.modifyPeer fun info hinfo => hinfo
  · intro entry hentry
    rcases (List.mem_orderedInsert _).mp hentry with rfl | hold
    · rfl
    · exact h entry hold

theorem AllRemote.discoverPeers {files : List (String × Option PeerEndpoint)}
    (h : pm.AllRemote) : (pm.discoverPeers files).AllRemote := by
  unfold PeerManager.discoverPeers
  induction files generalizing pm with
  | nil => exact h
  | cons file files ih => exact ih h.discoverPeer

theorem AllRemote.clearUdpContact {nowMs : Int} (h : pm.AllRemote) :
    (pm.clearUdpContact nowMs).AllRemote := by
  intro entry hentry
  obtain ⟨old, hold, rfl⟩ := mem_update.mp hentry
  have := h old hold
  split
  · exact this
  · exact this

theorem AllRemote.pollPeer {id : String} {status : Option PeerInfo} {nowMs : Int}
    (h : pm.AllRemote) : (pm.pollPeer id status nowMs).AllRemote := by
  refine h.modifyPeer fun info hinfo => ?_
  have hpolled : (polledInfo info status nowMs).isLocal = false := by
    cases status with
    | none => exact hinfo
    | some updated => rfl
  unfold deadVerdict
  simp only []
  split
  · exact hpolled
  · exact hpolled

theorem AllRemote.removeStalePeers {hasEndpoint : String → Bool} (h : pm.AllRemote) :
    (pm.removeStalePeers hasEndpoint).AllRemote := fun entry hentry =>
  h entry (List.mem_filter.mp hentry).1

theorem AllRemote.apply {u : Update} (h : pm.AllRemote) : (pm.apply u).AllRemote := by
  cases u with
  | discover files => exact h.discoverPeers
  | heartbeat hb nowMs => exact h.modifyPeer fun info hinfo => hinfo
  | goodbye id => exact h.modifyPeer fun info hinfo => hinfo
  | nodeState id state => exact h.modifyPeer fun info hinfo => hinfo
  | silence nowMs => exact h.clearUdpContact
  | polled id status nowMs => exact h.pollPeer
  | forget hasEndpoint => exact h.removeStalePeers
  | recomputeLeader =>
      intro entry hentry
      obtain ⟨old, hold, rfl⟩ := List.mem_map.mp hentry
      exact h old hold

/-! ## The node itself -/

/-- No update changes who the node is and with which tags it started. -/
theorem discoverPeers_self {files : List (String × Option PeerEndpoint)} :
    (pm.discoverPeers files).nodeId = pm.nodeId ∧
      (pm.discoverPeers files).localTags = pm.localTags := by
  unfold PeerManager.discoverPeers
  induction files generalizing pm with
  | nil => exact ⟨rfl, rfl⟩
  | cons file files ih =>
      have hfile : (pm.discoverPeer file.1 file.2).nodeId = pm.nodeId ∧
          (pm.discoverPeer file.1 file.2).localTags = pm.localTags := by
        unfold PeerManager.discoverPeer
        split
        · exact ⟨rfl, rfl⟩
        split
        · exact ⟨rfl, rfl⟩
        simp only []
        split
        · exact ⟨rfl, rfl⟩
        · exact ⟨rfl, rfl⟩
      rw [List.foldl_cons, ih.1, ih.2]
      exact hfile

theorem apply_self {u : Update} :
    (pm.apply u).nodeId = pm.nodeId ∧ (pm.apply u).localTags = pm.localTags := by
  cases u with
  | discover files => exact discoverPeers_self
  | _ => exact ⟨rfl, rfl⟩

end PeerManager

end MinRender
