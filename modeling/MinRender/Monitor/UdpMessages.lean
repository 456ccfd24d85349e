import MinRender.Core.Json
import MinRender.Monitor.PeerManager

/-!
# UDP messages

What the monitor takes from its multicast socket and does with it: which
datagrams `UdpNotify::poll` accepts, and the typed reads
`handleUdpMessages` makes of an accepted one.
-/

namespace MinRender
open Json

/-- The messages among the datagrams waiting on the socket. An empty datagram
ends the loop; one that does not parse, has no readable sender, or comes from
the node itself is skipped. -/
def UdpNotify.poll (T : JsonText) (nodeId : String) (datagrams : List String) :
    List Json :=
  (datagrams.takeWhile (· ≠ "")).filterMap fun datagram => do
    let msg ← T.parse datagram
    let sender ← (msg.value getString "from" "").toOption
    if sender = nodeId then none else some msg

namespace MonitorApp

/-- The fields of a heartbeat. -/
def readHeartbeat (nodeId : String) (msg : Json) : Except JsonError Heartbeat := do
  let ip ← msg.value getString "ip" ""
  let port ← msg.value getUInt16 "port" 8420
  let nodeState ← msg.value getString "st" "active"
  let renderState ← msg.value getString "rs" "idle"
  let jobId ← msg.value getString "job" ""
  let chunk ← msg.value getString "chunk" ""
  let priority ← msg.value getInt "pri" 100
  let agentHealth ← msg.value getString "ah" "ok"
  let alertReason ← msg.value getString "ar" ""
  let readyForWork ← msg.value getBool "rfw" true
  return { nodeId, ip, port := port.toNat, nodeState, renderState, jobId, chunk,
           priority, agentHealth, alertReason, readyForWork }

/-- One accepted message. -/
def handleUdpMessage (nowMs : Int) (peers : PeerManager) (msg : Json) :
    Except JsonError PeerManager := do
  let type ← msg.value getString "t" ""
  if type = "hb" then
    let nodeId ← msg.value getString "n" ""
    if nodeId = "" ∨ nodeId = peers.nodeId then return peers
    else
      let hb ← readHeartbeat nodeId msg
      return peers.processUdpHeartbeat hb nowMs
  else if type = "bye" then
    let nodeId ← msg.value getString "n" ""
    if nodeId ≠ "" ∧ nodeId ≠ peers.nodeId then
      return peers.processUdpGoodbye nodeId
    else return peers
  else return peers

def handleUdpMessages (T : JsonText) (nowMs : Int) (peers : PeerManager)
    (datagrams : List String) : Except JsonError PeerManager :=
  (UdpNotify.poll T peers.nodeId datagrams).foldlM (handleUdpMessage nowMs) peers

/-! ## Which messages are handled without raising -/

/-- The fields a heartbeat from another node is read for. -/
structure HeartbeatTyped (msg : Json) : Prop where
  ip : StringAt "ip" msg
  port : IntAt "port" msg
  nodeState : StringAt "st" msg
  renderState : StringAt "rs" msg
  jobId : StringAt "job" msg
  chunk : StringAt "chunk" msg
  priority : IntAt "pri" msg
  agentHealth : StringAt "ah" msg
  alertReason : StringAt "ar" msg
  readyForWork : BoolAt "rfw" msg

/-- The keys read of a message, as far as it is read, hold the types they are
read at. -/
structure MessageTyped (nodeId : String) (msg : Json) : Prop where
  type : StringAt "t" msg
  node : msg.readOr getString "t" "" ∈ ["hb", "bye"] → StringAt "n" msg
  heartbeat : msg.readOr getString "t" "" = "hb" →
    msg.readOr getString "n" "" ∉ ["", nodeId] → HeartbeatTyped msg

theorem returns_readHeartbeat (nodeId : String) {msg : Json}
    (hobj : msg.isObject = true) :
    Returns (readHeartbeat nodeId msg) ↔ HeartbeatTyped msg := by
  have hs := @returns_getString
  have hi := @returns_getInt
  have hp := @returns_getUInt16
  have hb := @returns_getBool
  unfold readHeartbeat
  rw [returns_value_bind (fun _ => hs) hobj, returns_value_bind (fun _ => hp) hobj,
    returns_value_bind (fun _ => hs) hobj, returns_value_bind (fun _ => hs) hobj,
    returns_value_bind (fun _ => hs) hobj, returns_value_bind (fun _ => hs) hobj,
    returns_value_bind (fun _ => hi) hobj, returns_value_bind (fun _ => hs) hobj,
    returns_value_bind (fun _ => hs) hobj, returns_value_bind (fun _ => hb) hobj]
  constructor
  · rintro ⟨hip, hport, hst, hrs, hjob, hchunk, hpri, hah, har, hrfw, -⟩
    exact ⟨hip, hport, hst, hrs, hjob, hchunk, hpri, hah, har, hrfw⟩
  · rintro ⟨hip, hport, hst, hrs, hjob, hchunk, hpri, hah, har, hrfw⟩
    exact ⟨hip, hport, hst, hrs, hjob, hchunk, hpri, hah, har, hrfw, returns_ok _⟩

/-- An object is handled without raising exactly when it is typed. -/
theorem returns_handleUdpMessage (nowMs : Int) (peers : PeerManager) {msg : Json}
    (hobj : msg.isObject = true) :
    Returns (handleUdpMessage nowMs peers msg) ↔ MessageTyped peers.nodeId msg := by
  have hs : ∀ v, Returns (getString v) ↔ isString v = true := fun _ => returns_getString
  unfold handleUdpMessage
  rw [returns_value_bind hs hobj]
  by_cases hhb : msg.readOr getString "t" "" = "hb"
  · rw [if_pos hhb, returns_value_bind hs hobj]
    by_cases hself : msg.readOr getString "n" "" ∈ ["", peers.nodeId]
    · have : msg.readOr getString "n" "" = "" ∨
          msg.readOr getString "n" "" = peers.nodeId := by simpa using hself
      rw [if_pos this]
      exact ⟨fun h => ⟨h.1, fun _ => h.2.1, fun _ hne => absurd hself hne⟩,
        fun h => ⟨h.type, h.node (by simp [hhb]), returns_ok _⟩⟩
    · have : ¬ (msg.readOr getString "n" "" = "" ∨
          msg.readOr getString "n" "" = peers.nodeId) := by simpa using hself
      rw [if_neg this, returns_bind]
      constructor
      · rintro ⟨ht, hn, hb, hread, -⟩
        have htyped := (returns_readHeartbeat _ hobj).mp (returns_iff.mpr ⟨hb, hread⟩)
        exact ⟨ht, fun _ => hn, fun _ _ => htyped⟩
      · intro h
        obtain ⟨hb, hread⟩ := returns_iff.mp
          ((returns_readHeartbeat (msg.readOr getString "n" "") hobj).mpr
            (h.heartbeat hhb hself))
        exact ⟨h.type, h.node (by simp [hhb]), hb, hread, returns_ok _⟩
  · rw [if_neg hhb]
    by_cases hbye : msg.readOr getString "t" "" = "bye"
    · rw [if_pos hbye, returns_value_bind hs hobj]
      have hend : Returns (if msg.readOr getString "n" "" ≠ "" ∧
          msg.readOr getString "n" "" ≠ peers.nodeId
          then (pure (peers.processUdpGoodbye (msg.readOr getString "n" "")) :
            Except JsonError PeerManager) else pure peers) := by
        split
        · exact returns_ok _
        · exact returns_ok _
      exact ⟨fun h => ⟨h.1, fun _ => h.2.1, fun ht => absurd ht hhb⟩,
        fun h => ⟨h.type, h.node (by simp [hbye]), hend⟩⟩
    · rw [if_neg hbye]
      exact ⟨fun h => ⟨h.1, fun ht => by simp [hhb, hbye] at ht,
        fun ht => absurd ht hhb⟩, fun h => ⟨h.type, returns_ok _⟩⟩

/-- Handling a message keeps the node's own id. -/
theorem handleUdpMessage_nodeId {nowMs : Int} {peers peers' : PeerManager} {msg : Json}
    (h : handleUdpMessage nowMs peers msg = .ok peers') :
    peers'.nodeId = peers.nodeId := by
  unfold handleUdpMessage at h
  obtain ⟨type, -, h⟩ := bind_eq_ok.mp h
  split at h
  · obtain ⟨nodeId, -, h⟩ := bind_eq_ok.mp h
    split at h
    · cases h
      rfl
    · obtain ⟨hb, -, h⟩ := bind_eq_ok.mp h
      cases h
      rfl
  · split at h
    · obtain ⟨nodeId, -, h⟩ := bind_eq_ok.mp h
      split at h
      · cases h
        rfl
      · cases h
        rfl
    · cases h
      rfl

/-- An accepted message is an object. -/
theorem isObject_of_mem_poll {T : JsonText} {nodeId : String} {datagrams : List String}
    {msg : Json} (h : msg ∈ UdpNotify.poll T nodeId datagrams) :
    msg.isObject = true := by
  obtain ⟨datagram, -, hmsg⟩ := List.mem_filterMap.mp h
  obtain ⟨m, -, hmsg⟩ := Option.bind_eq_some_iff.mp hmsg
  obtain ⟨sender, hsender, hmsg⟩ := Option.bind_eq_some_iff.mp hmsg
  split at hmsg
  · cases hmsg
  · cases hmsg
    cases msg with
    | obj fields => rfl
    | _ => cases hsender

/-- **The messages are handled without raising exactly when every accepted one
is typed.** -/
theorem returns_handleUdpMessages {T : JsonText} {nowMs : Int} {peers : PeerManager}
    {datagrams : List String} :
    Returns (handleUdpMessages T nowMs peers datagrams) ↔
      ∀ msg ∈ UdpNotify.poll T peers.nodeId datagrams,
        MessageTyped peers.nodeId msg := by
  have hobj : ∀ msg ∈ UdpNotify.poll T peers.nodeId datagrams, msg.isObject = true :=
    fun msg => isObject_of_mem_poll
  unfold handleUdpMessages
  generalize hself : peers.nodeId = nodeId at hobj ⊢
  generalize UdpNotify.poll T nodeId datagrams = messages at hobj ⊢
  induction messages generalizing peers with
  | nil => simp [returns_iff, pure, Except.pure]
  | cons msg messages ih =>
      have hmsg := returns_handleUdpMessage nowMs peers (hobj msg List.mem_cons_self)
      rw [hself] at hmsg
      rw [List.foldlM_cons, returns_bind, List.forall_mem_cons, ← hmsg]
      have hrest : ∀ m ∈ messages, m.isObject = true :=
        fun m hm => hobj m (List.mem_cons_of_mem msg hm)
      constructor
      · rintro ⟨peers', hread, hret⟩
        have hid := handleUdpMessage_nodeId hread
        exact ⟨returns_iff.mpr ⟨peers', hread⟩, (ih (hid.trans hself) hrest).mp hret⟩
      · rintro ⟨hret, htyped⟩
        obtain ⟨peers', hread⟩ := returns_iff.mp hret
        have hid := handleUdpMessage_nodeId hread
        exact ⟨peers', hread, (ih (hid.trans hself) hrest).mpr htyped⟩

end MonitorApp

end MinRender
