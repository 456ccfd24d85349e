import MinRender.Core.Config
import MinRender.Core.ManifestCodec
import MinRender.Core.Sha256
import MinRender.Monitor.PeerAuthority
import MinRender.Monitor.StoppedNodes
import MinRender.Monitor.UdpMessages

/-!
# What a node reports

A node says what it does in three places: the heartbeat it multicasts, the
status it answers over HTTP and the endpoint file it leaves in the farm. The
writers of the three, and what a node that receives them comes to hold: the
heartbeat carries no tags, the status does not always replace what a heartbeat
said, and any number of other writers change the map in between.
-/

namespace MinRender
open Json PeerManager Table

/-! ## The writers -/

/-- `f1`, or `f1-10`. -/
def RenderCoordinator.currentChunkLabel (c : RenderCoordinator) : String :=
  match c.activeRender with
  | none => ""
  | some ar =>
      if ar.chunk.frameStart = ar.chunk.frameEnd then "f" ++ toString ar.chunk.frameStart
      else "f" ++ toString ar.chunk.frameStart ++ "-" ++ toString ar.chunk.frameEnd

def RenderCoordinator.isRendering (c : RenderCoordinator) : Bool := c.activeRender.isSome

/-- What a report is made of: the node's identity and machine, its
configuration with the address the system gives it, and the state of its
coordinator and its agent. -/
structure LocalNode where
  nodeId : String
  hostname : String := ""
  os : String := ""
  appVersion : String := ""
  gpuName : String := ""
  cpuCores : Int := 0
  ramMb : Int := 0
  farmSecret : List SecureHash.Byte := []
  config : Config := {}
  localIpAddress : String := "127.0.0.1"
  nodeState : NodeState := .active
  renderCoordinator : RenderCoordinator := {}
  needsAttention : Bool := false
  agentConnected : Bool := true
  readyForWork : Bool := true

namespace LocalNode

variable (n : LocalNode)

/-- The configured port, a `uint16_t`. -/
def port : Nat := n.config.httpPort.toNat

def localIp : String :=
  if n.config.ipOverride = "" then n.localIpAddress else n.config.ipOverride

def stateText : String :=
  match n.nodeState with
  | .active => "active"
  | .stopped => "stopped"

def agentHealth : String := if n.needsAttention then "needs_attention" else "ok"

/-- Set where the agent is not well. -/
def alertReason : String :=
  "Agent " ++ n.agentHealth ++ if n.agentConnected then "" else " (disconnected)"

def buildLocalPeerInfo : PeerInfo where
  nodeId := n.nodeId
  os := n.os
  nodeState := n.stateText
  renderState := if n.renderCoordinator.isRendering then "rendering" else "idle"
  activeJob := n.renderCoordinator.currentJobId
  activeChunk := n.renderCoordinator.currentChunkLabel
  tags := n.config.tags
  agentHealth := n.agentHealth
  alertReason := if n.needsAttention then n.alertReason else ""
  readyForWork := n.readyForWork
  endpoint := n.localIp ++ ":" ++ toString n.port
  isLocal := true

def capabilities : List String :=
  ["job_edit", "edit_result", "edit_epoch", "edit_commands", "chunk_stop"]

/-- `GET /api/status`: the local entry with what the application only shows. -/
def status : Json :=
  let p := n.buildLocalPeerInfo
  .obj [("node_id", .str p.nodeId), ("hostname", .str n.hostname), ("os", .str p.os),
    ("app_version", .str n.appVersion), ("gpu_name", .str n.gpuName),
    ("cpu_cores", .int n.cpuCores), ("ram_mb", .int n.ramMb),
    ("node_state", .str p.nodeState), ("render_state", .str p.renderState),
    ("active_job", .str p.activeJob), ("active_chunk", .str p.activeChunk),
    ("priority", .int p.priority), ("tags", .arr (p.tags.map .str)),
    ("capabilities", .arr (capabilities.map .str)), ("endpoint", .str p.endpoint),
    ("secret_fingerprint", .str (Sha256.secretFingerprint n.farmSecret)),
    ("agent_health", .str p.agentHealth), ("alert_reason", .str p.alertReason),
    ("ready_for_work", .bool p.readyForWork), ("is_local", .bool p.isLocal),
    ("is_alive", .bool p.isAlive), ("is_leader", .bool p.isLeader),
    ("last_seen_ms", .int p.lastSeenMs), ("has_udp_contact", .bool p.hasUdpContact),
    ("failed_polls", .int p.failedPolls)]

/-- The message `sendUdpHeartbeat` sends: the job only while one renders, the
reason only where the agent is not well. -/
def heartbeat : Json :=
  .obj ([("t", .str "hb"), ("from", .str n.nodeId), ("n", .str n.nodeId),
      ("ip", .str n.localIp), ("port", .int n.port), ("st", .str n.stateText),
      ("rs", .str (if n.renderCoordinator.isRendering then "rendering" else "idle")),
      ("ah", .str n.agentHealth), ("rfw", .bool n.readyForWork)] ++
    (if n.renderCoordinator.isRendering then
      [("job", .str n.renderCoordinator.currentJobId),
        ("chunk", .str n.renderCoordinator.currentChunkLabel)]
    else []) ++
    if n.needsAttention then [("ar", .str n.alertReason)] else [])

/-- `writeEndpoint`: the address is taken apart at its last colon again. `none`
where the port does not read. -/
def endpointFile (nowMs : Int) : Option Json := do
  let chars := n.buildLocalPeerInfo.endpoint.toList
  let rest := (chars.reverse.takeWhile (· ≠ ':')).reverse
  let (ip, port) ←
    if ':' ∈ chars then do
      let port ← stoi? rest
      pure (String.ofList (chars.take (chars.length - rest.length - 1)), toUnsigned 16 port)
    else pure (n.buildLocalPeerInfo.endpoint, 8420)
  return .obj [("node_id", .str n.nodeId), ("ip", .str ip), ("port", .int port),
    ("timestamp_ms", .int nowMs)]

end LocalNode

/-- `UdpNotify::send`: a message beyond the limit is dropped. -/
def UdpNotify.send (T : JsonText) (msg : Json) : Option String :=
  if 1400 < (T.dump msg).utf8ByteSize then none else some (T.dump msg)

namespace NodeReports
open PeerAuthority

/-! ## What the readers make of them -/

section Readers

variable {n : LocalNode} {nowMs : Int}

/-- The heartbeat as the receiver reads it. -/
def heardAs (n : LocalNode) : Heartbeat where
  nodeId := n.nodeId
  ip := n.localIp
  port := (toUnsigned 16 n.port).toNat
  nodeState := n.stateText
  renderState := if n.renderCoordinator.isRendering then "rendering" else "idle"
  jobId := n.renderCoordinator.currentJobId
  chunk := n.renderCoordinator.currentChunkLabel
  agentHealth := n.agentHealth
  alertReason := if n.needsAttention then n.alertReason else ""
  readyForWork := n.readyForWork

/-- A field that is left out where a text is empty reads as that text. -/
theorem field_unless {j : Json} {key text : String}
    (h : j.find? key = some (.str text) ∨ j.find? key = none ∧ text = "") :
    j.sorted.field getString key "" = .ok text := by
  rcases h with h | ⟨h, rfl⟩
  · exact field_str key text h
  · exact field_absent key h

theorem heartbeat_job : n.heartbeat.find? "job" = some (.str n.renderCoordinator.currentJobId) ∨
    n.heartbeat.find? "job" = none ∧ n.renderCoordinator.currentJobId = "" := by
  unfold LocalNode.heartbeat RenderCoordinator.isRendering RenderCoordinator.currentJobId
  cases n.renderCoordinator.activeRender with
  | some ar => exact .inl rfl
  | none =>
      cases n.needsAttention with
      | true => exact .inr ⟨rfl, rfl⟩
      | false => exact .inr ⟨rfl, rfl⟩

theorem heartbeat_chunk :
    n.heartbeat.find? "chunk" = some (.str n.renderCoordinator.currentChunkLabel) ∨
    n.heartbeat.find? "chunk" = none ∧ n.renderCoordinator.currentChunkLabel = "" := by
  unfold LocalNode.heartbeat RenderCoordinator.isRendering RenderCoordinator.currentChunkLabel
  cases n.renderCoordinator.activeRender with
  | some ar => exact .inl rfl
  | none =>
      cases n.needsAttention with
      | true => exact .inr ⟨rfl, rfl⟩
      | false => exact .inr ⟨rfl, rfl⟩

theorem heartbeat_reason :
    n.heartbeat.find? "ar" = some (.str (heardAs n).alertReason) ∨
    n.heartbeat.find? "ar" = none ∧ (heardAs n).alertReason = "" := by
  unfold LocalNode.heartbeat heardAs
  cases n.renderCoordinator.isRendering with
  | true =>
      cases n.needsAttention with
      | true => exact .inl rfl
      | false => exact .inr ⟨rfl, rfl⟩
  | false =>
      cases n.needsAttention with
      | true => exact .inl rfl
      | false => exact .inr ⟨rfl, rfl⟩

theorem heartbeat_priority : n.heartbeat.find? "pri" = none := by
  unfold LocalNode.heartbeat
  cases n.renderCoordinator.isRendering with
  | true =>
      cases n.needsAttention with
      | true => rfl
      | false => rfl
  | false =>
      cases n.needsAttention with
      | true => rfl
      | false => rfl

theorem heartbeat_read :
    MonitorApp.readHeartbeat n.nodeId n.heartbeat.sorted = .ok (heardAs n) := by
  have hobj : n.heartbeat.sorted.isObject = true := rfl
  have hport : n.heartbeat.sorted.field getUInt16 "port" 8420 = .ok (toUnsigned 16 n.port) :=
    field_sorted (v := .int n.port) rfl
  unfold MonitorApp.readHeartbeat
  simp only [value_eq_field hobj]
  rw [field_str "ip" n.localIp rfl, hport, field_str "st" n.stateText rfl,
    field_str "rs" (heardAs n).renderState rfl, field_unless heartbeat_job,
    field_unless heartbeat_chunk, field_absent "pri" heartbeat_priority,
    field_str "ah" n.agentHealth rfl, field_unless heartbeat_reason,
    field_bool (b := n.readyForWork) rfl]
  rfl

/-- The status as a poll reads it: what the node keeps about itself stays
behind. -/
def readStatus (n : LocalNode) : PeerInfo := { n.buildLocalPeerInfo with isLocal := false }

theorem status_read : PeerInfo.fromJson n.status.sorted = .ok (readStatus n) := by
  have hcores : n.status.sorted.field getInt "cpu_cores" 0 = .ok (toSigned 32 n.cpuCores) :=
    field_sorted (v := .int n.cpuCores) rfl
  have hram : n.status.sorted.field getUInt64 "ram_mb" 0 = .ok (toUnsigned 64 n.ramMb) :=
    field_sorted (v := .int n.ramMb) rfl
  have htags : n.status.sorted.field (getArray getString) "tags" [] = .ok n.config.tags :=
    (field_sorted rfl).trans (getArray_same fun _ _ => rfl)
  have hcapabilities : n.status.sorted.field (getArray getString) "capabilities" [] =
      .ok LocalNode.capabilities :=
    (field_sorted rfl).trans (getArray_same fun _ _ => rfl)
  unfold PeerInfo.fromJson
  dsimp only
  rw [field_str "node_id" n.nodeId rfl, field_str "hostname" n.hostname rfl,
    field_str "os" n.os rfl, field_str "app_version" n.appVersion rfl,
    field_str "gpu_name" n.gpuName rfl, hcores, hram, field_str "node_state" n.stateText rfl,
    field_str "render_state" (readStatus n).renderState rfl,
    field_str "active_job" (readStatus n).activeJob rfl,
    field_str "active_chunk" (readStatus n).activeChunk rfl,
    field_int "priority" 100 rfl rfl, htags, hcapabilities,
    field_str "endpoint" (readStatus n).endpoint rfl,
    field_str "secret_fingerprint" (Sha256.secretFingerprint n.farmSecret) rfl,
    field_str "agent_health" n.agentHealth rfl,
    field_str "alert_reason" (readStatus n).alertReason rfl,
    field_bool (b := n.readyForWork) rfl]
  rfl

/-! ### The endpoint file -/

theorem stoi?_toString {port : Nat} (h : port < 2 ^ 31) :
    stoi? (toString port).toList = some (port : Int) := by
  have hdigits : ∀ c ∈ (toString port).toList, c.isDigit = true := by
    intro c hc
    rw [Nat.toString_eq_ofList_toDigits, String.toList_ofList] at hc
    exact Nat.isDigit_of_mem_toDigits (by decide) (by decide) hc
  have hne : (toString port).toList ≠ [] := by
    rw [Nat.toString_eq_ofList_toDigits, String.toList_ofList]
    exact Nat.toDigits_ne_nil
  have hvalue : digitsValue (toString port).toList = port := by
    rw [Nat.toString_eq_ofList_toDigits, String.toList_ofList]
    exact (Nat.ofDigitChars_eq_foldl.symm.trans
      (Nat.ofDigitChars_toDigits (by decide) (by decide)))
  generalize (toString port).toList = text at hdigits hne hvalue
  have hall : text.takeWhile (·.isDigit) = text := List.takeWhile_eq_self_iff.mpr hdigits
  -- the first digit is no blank and no sign
  have hblank : text.dropWhile isSpace = text := by
    cases text with
    | nil => rfl
    | cons c rest =>
        refine List.dropWhile_cons_of_neg fun hspace => ?_
        have hd := hdigits c List.mem_cons_self
        simp only [isSpace, List.mem_cons, List.not_mem_nil, or_false, decide_eq_true_eq] at hspace
        rcases hspace with rfl | rfl | rfl | rfl | rfl | rfl <;> cases hd
  have hrange : ¬ (text = [] ∨ (1 * (port : Int)) < -2 ^ 31 ∨ 2 ^ 31 ≤ 1 * (port : Int)) := by
    rintro (h | h | h)
    · exact hne h
    · omega
    · omega
  unfold stoi?
  rw [hblank]
  dsimp only
  split
  · rename_i rest
    exact absurd (hdigits _ List.mem_cons_self) (by decide)
  · rename_i rest
    exact absurd (hdigits _ List.mem_cons_self) (by decide)
  · rw [hall, hvalue, if_neg hrange, one_mul]

/-- What follows the last colon. -/
theorem after_last_colon {host rest : List Char} (h : ':' ∉ rest) :
    ((host ++ ':' :: rest).reverse.takeWhile (· ≠ ':')).reverse = rest := by
  have hrest : ∀ c ∈ rest.reverse, decide (c ≠ ':') = true := fun c hc =>
    decide_eq_true fun heq => h (heq ▸ List.mem_reverse.mp hc)
  rw [List.reverse_append, List.reverse_cons, List.append_assoc, List.takeWhile_append_of_pos hrest]
  simp

/-- The endpoint file holds the address the status gives. -/
theorem endpointFile_read (hport : n.port < 65536) :
    ∃ file, n.endpointFile nowMs = some file ∧
      PeerEndpoint.fromJson file.sorted = .ok ⟨n.nodeId, n.localIp, n.port⟩ := by
  have hchars : n.buildLocalPeerInfo.endpoint.toList =
      n.localIp.toList ++ ':' :: (toString n.port).toList := by
    show (n.localIp ++ ":" ++ toString n.port).toList = _
    rw [String.toList_append, String.toList_append, List.append_assoc]
    rfl
  have hcolon : ':' ∉ (toString n.port).toList := by
    intro hc
    rw [Nat.toString_eq_ofList_toDigits, String.toList_ofList] at hc
    exact absurd (Nat.isDigit_of_mem_toDigits (by decide) (by decide) hc) (by decide)
  have hhost : (n.localIp.toList ++ ':' :: (toString n.port).toList).take
      ((n.localIp.toList ++ ':' :: (toString n.port).toList).length -
        (toString n.port).toList.length - 1) = n.localIp.toList := by
    rw [List.length_append, List.length_cons]
    exact List.take_left' (by omega)
  have hwraps : toUnsigned 16 (n.port : Int) = n.port := by
    unfold toUnsigned
    omega
  refine ⟨.obj [("node_id", .str n.nodeId), ("ip", .str n.localIp), ("port", .int n.port),
    ("timestamp_ms", .int nowMs)], ?_, ?_⟩
  · unfold LocalNode.endpointFile
    simp only [hchars, after_last_colon hcolon, hhost]
    rw [if_pos (by simp), stoi?_toString (by omega)]
    simp [hwraps]
  · have hread : (Json.obj [("node_id", .str n.nodeId), ("ip", .str n.localIp),
        ("port", .int n.port), ("timestamp_ms", .int nowMs)]).sorted.field getUInt16 "port" 8420 =
          .ok (n.port : Int) :=
      (field_sorted (v := .int n.port) rfl).trans (congrArg Except.ok hwraps)
    have htime : (Json.obj [("node_id", .str n.nodeId), ("ip", .str n.localIp),
        ("port", .int n.port), ("timestamp_ms", .int nowMs)]).sorted.field getInt64
          "timestamp_ms" 0 = .ok (toSigned 64 nowMs) :=
      field_sorted (v := .int nowMs) rfl
    unfold PeerEndpoint.fromJson
    rw [field_str "node_id" n.nodeId rfl, field_str "ip" n.localIp rfl, hread, htime]
    rfl

end Readers

/-! ## The receiving node -/

/-- One change of the receiver's peer map, from the texts it receives. -/
inductive Event
  | datagrams (texts : List String) (nowMs : Int)
  /-- a poll of a peer; `none` where it is not answered -/
  | answered (id : String) (body : Option String) (nowMs : Int)
  | discover (files : List EndpointFile)
  | nodeState (id state : String)
  | silence (nowMs : Int)
  | forget (hasEndpoint : String → Bool)
  | recomputeLeader

/-- `none` where reading a message raises. -/
def step (T : JsonText) (pm : PeerManager) : Event → Option PeerManager
  | .datagrams texts nowMs => (MonitorApp.handleUdpMessages T nowMs pm texts).toOption
  | .answered id body nowMs => some (pm.pollPeer id (status? (body.bind T.parse)) nowMs)
  | .discover files =>
      some (pm.discoverPeers (files.map fun file => (file.1, endpoint? file)))
  | .nodeState id state => some (pm.setPeerNodeState id state)
  | .silence nowMs => some (pm.clearUdpContact nowMs)
  | .forget hasEndpoint => some (pm.removeStalePeers hasEndpoint)
  | .recomputeLeader => some pm.recomputeLeader

def machine (T : JsonText) : Machine PeerManager Event := ⟨step T⟩

/-- The library reads back what the node writes. -/
structure Library (T : JsonText) (n : LocalNode) : Prop where
  heartbeat : T.parse (T.dump n.heartbeat) = some n.heartbeat.sorted
  status : T.parse (T.dump n.status) = some n.status.sorted

/-- What is said in the node's name is what it says: a heartbeat under its id is
its heartbeat, an answered poll its status, its endpoint file its own (as far as
it reads), a state set for it its state. The file stays. -/
def Speaks (T : JsonText) (n : LocalNode) : Event → Prop
  | .datagrams texts _ => ∀ text ∈ texts, ∀ msg, T.parse text = some msg →
      msg.value getString "t" "" = .ok "hb" → msg.value getString "n" "" = .ok n.nodeId →
      UdpNotify.send T n.heartbeat = some text
  | .answered id body _ => id = n.nodeId → ∀ text ∈ body, text = T.dump n.status
  | .discover files => ∀ file ∈ files, file.1 = n.nodeId → ∀ ep, endpoint? file = some ep →
      ∃ nowMs written, n.endpointFile nowMs = some written ∧ file.2 = some written.sorted
  | .nodeState id state => id = n.nodeId → state = n.stateText
  | .silence _ => True
  | .forget hasEndpoint => hasEndpoint n.nodeId = true
  | .recomputeLeader => True

/-- The node's heartbeat is among the messages handled. -/
def Hears (T : JsonText) (n : LocalNode) : Event → Prop
  | .datagrams texts _ => ∃ text ∈ texts.takeWhile (· ≠ ""),
      UdpNotify.send T n.heartbeat = some text
  | _ => False

/-- The node answers a poll. -/
def Polls (T : JsonText) (n : LocalNode) : Event → Prop
  | .answered id body _ => id = n.nodeId ∧ body = some (T.dump n.status)
  | _ => False

/-! ### What an entry shows -/

/-- What heartbeats and statuses both carry and either replaces. -/
structure Live (n : LocalNode) (info : PeerInfo) : Prop where
  nodeState : info.nodeState = n.buildLocalPeerInfo.nodeState
  renderState : info.renderState = n.buildLocalPeerInfo.renderState
  activeJob : info.activeJob = n.buildLocalPeerInfo.activeJob
  activeChunk : info.activeChunk = n.buildLocalPeerInfo.activeChunk
  priority : info.priority = n.buildLocalPeerInfo.priority

/-- What a heartbeat says and a status leaves while heartbeats come. -/
structure Health (n : LocalNode) (info : PeerInfo) : Prop where
  agentHealth : info.agentHealth = n.buildLocalPeerInfo.agentHealth
  alertReason : info.alertReason = n.buildLocalPeerInfo.alertReason
  readyForWork : info.readyForWork = n.buildLocalPeerInfo.readyForWork

/-- What only a status carries, and the address. -/
structure Machinery (n : LocalNode) (info : PeerInfo) : Prop where
  nodeId : info.nodeId = n.nodeId
  os : info.os = n.os
  tags : info.tags = n.config.tags
  endpoint : info.endpoint = n.buildLocalPeerInfo.endpoint

structure Shows (n : LocalNode) (info : PeerInfo) : Prop where
  live : Live n info
  health : Health n info
  machinery : Machinery n info

/-- While heartbeats come, the health is theirs. -/
def Steady (n : LocalNode) (info : PeerInfo) : Prop := info.hasUdpContact = true → Health n info

/-! ### What becomes of an entry -/

/-- The ways an entry of the node changes where what is said in its name is
what it says. -/
inductive Change (n : LocalNode) (info : PeerInfo) : PeerInfo → Prop
  | heard (nowMs : Int) : Change n info
      { info with
        nodeState := (heardAs n).nodeState
        renderState := (heardAs n).renderState
        activeJob := (heardAs n).jobId
        activeChunk := (heardAs n).chunk
        priority := (heardAs n).priority
        agentHealth := (heardAs n).agentHealth
        alertReason := (heardAs n).alertReason
        readyForWork := (heardAs n).readyForWork
        isAlive := true
        failedPolls := 0
        hasUdpContact := true
        lastUdpContactMs := nowMs }
  | polled (nowMs : Int) :
      Change n info (deadVerdict (polledInfo info (some (readStatus n)) nowMs) nowMs)
  | missed (nowMs : Int) : Change n info (deadVerdict (polledInfo info none nowMs) nowMs)
  | located : Change n info { info with endpoint := n.buildLocalPeerInfo.endpoint }
  | told : Change n info { info with nodeState := n.stateText }
  | gone : Change n info { info with isAlive := false, hasUdpContact := false }
  | silent : Change n info { info with hasUdpContact := false }
  | ranked (leader : Bool) : Change n info { info with isLeader := leader }

/-- The property survives every such change. -/
def Stable (n : LocalNode) (P : PeerInfo → Prop) : Prop :=
  ∀ info info', Change n info info' → P info → P info'

theorem deadVerdict_eq (info : PeerInfo) (nowMs : Int) :
    deadVerdict info nowMs = { info with isAlive := (deadVerdict info nowMs).isAlive } := by
  unfold deadVerdict
  dsimp only
  split
  · rfl
  · rfl

section Changes

variable {n : LocalNode} {info info' : PeerInfo} {nowMs : Int}

theorem live_polled : Live n (deadVerdict (polledInfo info (some (readStatus n)) nowMs) nowMs) := by
  rw [deadVerdict_eq]
  exact ⟨rfl, rfl, rfl, rfl, rfl⟩

theorem machinery_polled :
    Machinery n (deadVerdict (polledInfo info (some (readStatus n)) nowMs) nowMs) := by
  rw [deadVerdict_eq]
  exact ⟨rfl, rfl, rfl, rfl⟩

/-- A status says the same of the node's health as its heartbeats did. -/
theorem health_polled (h : Steady n info) :
    Health n (deadVerdict (polledInfo info (some (readStatus n)) nowMs) nowMs) := by
  rw [deadVerdict_eq]
  refine ⟨?_, ?_, ?_⟩
  · show (if _ then info.agentHealth else (readStatus n).agentHealth) = _
    split
    · rename_i hkept
      exact (h hkept.2).agentHealth
    · rfl
  · show (if _ then info.alertReason else (readStatus n).alertReason) = _
    split
    · rename_i hkept
      exact (h hkept.2).alertReason
    · rfl
  · show (if _ then info.readyForWork else (readStatus n).readyForWork) = _
    split
    · rename_i hkept
      exact (h hkept).readyForWork
    · rfl

theorem live_stable : Stable n (Live n) := by
  intro info info' hchange h
  cases hchange with
  | heard nowMs => exact ⟨rfl, rfl, rfl, rfl, rfl⟩
  | polled nowMs => exact live_polled
  | missed nowMs =>
      rw [deadVerdict_eq]
      exact ⟨h.nodeState, h.renderState, h.activeJob, h.activeChunk, h.priority⟩
  | told => exact ⟨rfl, h.renderState, h.activeJob, h.activeChunk, h.priority⟩
  | _ => exact ⟨h.nodeState, h.renderState, h.activeJob, h.activeChunk, h.priority⟩

theorem machinery_stable : Stable n (Machinery n) := by
  intro info info' hchange h
  cases hchange with
  | polled nowMs => exact machinery_polled
  | missed nowMs =>
      rw [deadVerdict_eq]
      exact ⟨h.nodeId, h.os, h.tags, h.endpoint⟩
  | located => exact ⟨h.nodeId, h.os, h.tags, rfl⟩
  | _ => exact ⟨h.nodeId, h.os, h.tags, h.endpoint⟩

theorem health_stable : Stable n (Health n) := by
  intro info info' hchange h
  cases hchange with
  | heard nowMs => exact ⟨rfl, rfl, rfl⟩
  | polled nowMs => exact health_polled fun _ => h
  | missed nowMs =>
      rw [deadVerdict_eq]
      exact ⟨h.agentHealth, h.alertReason, h.readyForWork⟩
  | _ => exact ⟨h.agentHealth, h.alertReason, h.readyForWork⟩

theorem steady_stable : Stable n (Steady n) := by
  intro info info' hchange h
  cases hchange with
  | heard nowMs => exact fun _ => ⟨rfl, rfl, rfl⟩
  | polled nowMs => exact fun _ => health_polled h
  | missed nowMs =>
      rw [deadVerdict_eq]
      intro hcontact
      have hold := h hcontact
      exact ⟨hold.agentHealth, hold.alertReason, hold.readyForWork⟩
  | gone => exact fun hcontact => (nomatch hcontact)
  | silent => exact fun hcontact => (nomatch hcontact)
  | _ =>
      intro hcontact
      have hold := h hcontact
      exact ⟨hold.agentHealth, hold.alertReason, hold.readyForWork⟩

end Changes

/-! ### What one event does to the entries of the node -/

/-- The node is known, and every entry of it has the property. -/
def Known (n : LocalNode) (P : PeerInfo → Prop) (pm : PeerManager) : Prop :=
  n.nodeId ∈ pm.peers.map (·.1) ∧ ∀ info, (n.nodeId, info) ∈ pm.peers → P info

section Steps

variable {T : JsonText} {n : LocalNode} {P Q : PeerInfo → Prop} {pm pm' : PeerManager}

theorem Known.imp (h : Known n P pm) (hPQ : ∀ info, P info → Q info) : Known n Q pm :=
  ⟨h.1, fun info hinfo => hPQ info (h.2 info hinfo)⟩

/-- A change of the entries under a key. -/
theorem Known.modifyPeer {id : String} {f : PeerInfo → PeerInfo} (h : Known n P pm)
    (hf : id = n.nodeId → ∀ info, P info → Q (f info))
    (hPQ : id ≠ n.nodeId → ∀ info, P info → Q info) :
    Known n Q (pm.modifyPeer id f) := by
  refine ⟨?_, ?_⟩
  · have hkeys : (pm.modifyPeer id f).peers.map (·.1) = pm.peers.map (·.1) := by
      refine map_update _ ?_ _
      intro entry
      rfl
    rw [hkeys]
    exact h.1
  · intro info hinfo
    obtain ⟨old, hold, hcases⟩ := mem_update.mp hinfo
    by_cases hid : old.1 = id
    · rw [if_pos (decide_eq_true hid)] at hcases
      obtain ⟨hkey, rfl⟩ := Prod.mk.inj hcases
      have hold' : (n.nodeId, old.2) ∈ pm.peers := by
        rw [← hkey]
        exact hold
      exact hf (hid.symm.trans hkey) old.2 (h.2 old.2 hold')
    · rw [if_neg (by simpa using hid)] at hcases
      rw [hcases] at hold hid
      exact hPQ (Ne.symm hid) info (h.2 info hold)

theorem Known.changes {id : String} {f : PeerInfo → PeerInfo} (hP : Stable n P)
    (h : Known n P pm) (hf : id = n.nodeId → ∀ info, Change n info (f info)) :
    Known n P (pm.modifyPeer id f) :=
  h.modifyPeer (fun hid info hinfo => hP info _ (hf hid info) hinfo) fun _ _ hinfo => hinfo

/-! #### Messages -/

theorem readHeartbeat_nodeId {id : String} {msg : Json} {hb : Heartbeat}
    (h : MonitorApp.readHeartbeat id msg = .ok hb) : hb.nodeId = id := by
  unfold MonitorApp.readHeartbeat at h
  iterate 10
    obtain ⟨_, -, h⟩ := bind_eq_ok.mp h
  rw [← Except.ok.inj h]

/-- A message in the node's name is its heartbeat. -/
def OwnWords (n : LocalNode) (msg : Json) : Prop :=
  msg.value getString "t" "" = .ok "hb" → msg.value getString "n" "" = .ok n.nodeId →
    msg = n.heartbeat.sorted

theorem Known.message {msg : Json} {nowMs : Int} (hP : Stable n P) (hmsg : OwnWords n msg)
    (h : MonitorApp.handleUdpMessage nowMs pm msg = .ok pm') (hk : Known n P pm) :
    Known n P pm' := by
  unfold MonitorApp.handleUdpMessage at h
  obtain ⟨type, htype, h⟩ := bind_eq_ok.mp h
  split at h
  · rename_i hhb
    obtain ⟨id, hread, h⟩ := bind_eq_ok.mp h
    split at h
    · rw [← Except.ok.inj h]
      exact hk
    · obtain ⟨hb, hheartbeat, h⟩ := bind_eq_ok.mp h
      rw [← Except.ok.inj h]
      refine hk.changes hP fun hid info => ?_
      -- the message is the node's own
      rw [readHeartbeat_nodeId hheartbeat] at hid
      rw [hid] at hread hheartbeat
      rw [hmsg (hhb ▸ htype) hread, heartbeat_read] at hheartbeat
      rw [← Except.ok.inj hheartbeat]
      exact .heard nowMs
  · split at h
    · obtain ⟨id, -, h⟩ := bind_eq_ok.mp h
      split at h
      · rw [← Except.ok.inj h]
        exact hk.changes hP fun _ info => .gone
      · rw [← Except.ok.inj h]
        exact hk
    · rw [← Except.ok.inj h]
      exact hk

/-- What the receiver does with the node's heartbeat. -/
theorem handle_heartbeat {nowMs : Int} (hid : n.nodeId ≠ "") (hself : pm.nodeId ≠ n.nodeId) :
    MonitorApp.handleUdpMessage nowMs pm n.heartbeat.sorted =
      .ok (pm.processUdpHeartbeat (heardAs n) nowMs) := by
  have hobj : n.heartbeat.sorted.isObject = true := rfl
  have htype : n.heartbeat.sorted.value getString "t" "" = .ok "hb" :=
    (value_eq_field hobj).trans (field_str "t" "hb" rfl)
  have hname : n.heartbeat.sorted.value getString "n" "" = .ok n.nodeId :=
    (value_eq_field hobj).trans (field_str "n" n.nodeId rfl)
  have hother : ¬ (n.nodeId = "" ∨ n.nodeId = pm.nodeId) := by
    rintro (h | h)
    · exact hid h
    · exact hself h.symm
  unfold MonitorApp.handleUdpMessage
  refine bind_eq_ok.mpr ⟨"hb", htype, ?_⟩
  rw [if_pos rfl]
  refine bind_eq_ok.mpr ⟨n.nodeId, hname, ?_⟩
  rw [if_neg hother]
  exact bind_eq_ok.mpr ⟨heardAs n, heartbeat_read, rfl⟩

theorem Known.heard {nowMs : Int} (hk : Known n P pm) :
    Known n (Health n) (pm.processUdpHeartbeat (heardAs n) nowMs) := by
  have hname : (heardAs n).nodeId = n.nodeId := rfl
  exact hk.modifyPeer (fun _ info _ => ⟨rfl, rfl, rfl⟩) fun hne => absurd hname hne

theorem Known.messages {nowMs : Int} (hP : Stable n P) {messages : List Json} :
    ∀ {pm : PeerManager}, (∀ msg ∈ messages, OwnWords n msg) →
      messages.foldlM (MonitorApp.handleUdpMessage nowMs) pm = .ok pm' →
      Known n P pm → Known n P pm' := by
  induction messages with
  | nil =>
      intro pm _ h hk
      rw [← Except.ok.inj h]
      exact hk
  | cons msg messages ih =>
      intro pm hwords h hk
      rw [List.foldlM_cons] at h
      obtain ⟨pm₁, hfirst, hrest⟩ := bind_eq_ok.mp h
      exact ih (fun m hm => hwords m (List.mem_cons_of_mem _ hm)) hrest
        (hk.message hP (hwords msg List.mem_cons_self) hfirst)

theorem Known.hears {nowMs : Int} (hid : n.nodeId ≠ "") {messages : List Json} :
    ∀ {pm : PeerManager} {P : PeerInfo → Prop}, pm.nodeId ≠ n.nodeId →
      (∀ msg ∈ messages, OwnWords n msg) → n.heartbeat.sorted ∈ messages →
      messages.foldlM (MonitorApp.handleUdpMessage nowMs) pm = .ok pm' →
      Known n P pm → Known n (Health n) pm' := by
  induction messages with
  | nil =>
      intro pm P _ _ hmem
      cases hmem
  | cons msg messages ih =>
      intro pm P hself hwords hmem h hk
      rw [List.foldlM_cons] at h
      obtain ⟨pm₁, hfirst, hrest⟩ := bind_eq_ok.mp h
      have hrestWords : ∀ m ∈ messages, OwnWords n m :=
        fun m hm => hwords m (List.mem_cons_of_mem _ hm)
      rcases List.mem_cons.mp hmem with rfl | hmem
      · rw [handle_heartbeat hid hself] at hfirst
        rw [← Except.ok.inj hfirst] at hrest
        exact Known.messages health_stable hrestWords hrest hk.heard
      · have htrue : Known n (fun _ => True) pm₁ :=
          (hk.imp fun _ _ => trivial).message (fun _ _ _ _ => trivial)
            (hwords msg List.mem_cons_self) hfirst
        rw [← MonitorApp.handleUdpMessage_nodeId hfirst] at hself
        exact ih hself hrestWords hmem hrest htrue

theorem mem_poll {nodeId : String} {texts : List String} {msg : Json}
    (h : msg ∈ UdpNotify.poll T nodeId texts) :
    ∃ text ∈ texts, T.parse text = some msg := by
  obtain ⟨text, htext, hmsg⟩ := List.mem_filterMap.mp h
  obtain ⟨m, hparse, hmsg⟩ := Option.bind_eq_some_iff.mp hmsg
  obtain ⟨sender, -, hmsg⟩ := Option.bind_eq_some_iff.mp hmsg
  split at hmsg
  · cases hmsg
  · exact ⟨text, (List.takeWhile_sublist _).subset htext, hparse.trans hmsg⟩

theorem heartbeat_mem_poll {nodeId text : String} {texts : List String} (hself : nodeId ≠ n.nodeId)
    (htext : text ∈ texts.takeWhile (· ≠ "")) (hparse : T.parse text = some n.heartbeat.sorted) :
    n.heartbeat.sorted ∈ UdpNotify.poll T nodeId texts := by
  have hobj : n.heartbeat.sorted.isObject = true := rfl
  have hfrom : n.heartbeat.sorted.value getString "from" "" = .ok n.nodeId :=
    (value_eq_field hobj).trans (field_str "from" n.nodeId rfl)
  refine List.mem_filterMap.mpr ⟨text, htext, ?_⟩
  simp only [hparse, hfrom, Option.bind_eq_bind, Option.bind_some, Except.toOption]
  rw [if_neg (Ne.symm hself)]

theorem send_eq {msg : Json} {text : String} (h : UdpNotify.send T msg = some text) :
    T.dump msg = text := by
  unfold UdpNotify.send at h
  split at h
  · cases h
  · exact Option.some.inj h

/-- The messages of an event that speaks for the node are in its words. -/
theorem ownWords_poll (hlib : Library T n) {texts : List String} {nowMs : Int} {nodeId : String}
    (h : Speaks T n (.datagrams texts nowMs)) :
    ∀ msg ∈ UdpNotify.poll T nodeId texts, OwnWords n msg := by
  intro msg hmsg htype hname
  obtain ⟨text, htext, hparse⟩ := mem_poll hmsg
  have hsent := send_eq (h text htext msg hparse htype hname)
  rw [← hsent, hlib.heartbeat] at hparse
  exact (Option.some.inj hparse).symm

theorem handleUdpMessages_nodeId {texts : List String} {nowMs : Int}
    (h : MonitorApp.handleUdpMessages T nowMs pm texts = .ok pm') : pm'.nodeId = pm.nodeId := by
  unfold MonitorApp.handleUdpMessages at h
  generalize UdpNotify.poll T pm.nodeId texts = messages at h
  induction messages generalizing pm with
  | nil => rw [← Except.ok.inj h]
  | cons msg messages ih =>
      rw [List.foldlM_cons] at h
      obtain ⟨pm₁, hfirst, hrest⟩ := bind_eq_ok.mp h
      exact (ih hrest).trans (MonitorApp.handleUdpMessage_nodeId hfirst)

/-! #### The background thread -/

theorem Known.discoverPeer {dir : String} {file : Option PeerEndpoint} (hP : Stable n P)
    (hfile : dir = n.nodeId → ∀ ep, file = some ep → address ep = n.buildLocalPeerInfo.endpoint)
    (hk : Known n P pm) : Known n P (pm.discoverPeer dir file) := by
  unfold PeerManager.discoverPeer
  cases file with
  | none => exact hk
  | some ep =>
      dsimp only
      split
      · exact hk
      split
      · refine hk.changes hP fun hid info => ?_
        have haddress : ep.ip ++ ":" ++ toString ep.port = n.buildLocalPeerInfo.endpoint :=
          hfile hid ep rfl
        rw [haddress]
        exact .located
      · rename_i hnew
        -- the node is known, so the entry is another's
        have hother : dir ≠ n.nodeId := by
          rintro rfl
          obtain ⟨entry, hentry, hkey⟩ := List.mem_map.mp hk.1
          exact hnew (List.any_eq_true.mpr ⟨entry, hentry, decide_eq_true hkey⟩)
        refine ⟨?_, fun info hinfo => ?_⟩
        · obtain ⟨entry, hentry, hkey⟩ := List.mem_map.mp hk.1
          exact List.mem_map.mpr ⟨entry, (List.mem_orderedInsert _).mpr (.inr hentry), hkey⟩
        · rcases (List.mem_orderedInsert _).mp hinfo with heq | hold
          · exact absurd (congrArg Prod.fst heq).symm hother
          · exact hk.2 info hold

theorem Known.discoverPeers {files : List EndpointFile} (hport : n.port < 65536)
    (hP : Stable n P) (hfiles : Speaks T n (.discover files)) (hk : Known n P pm) :
    Known n P (pm.discoverPeers (files.map fun file => (file.1, endpoint? file))) := by
  unfold PeerManager.discoverPeers
  induction files generalizing pm with
  | nil => exact hk
  | cons file files ih =>
      rw [List.map_cons, List.foldl_cons]
      refine ih (fun f hf => hfiles f (List.mem_cons_of_mem _ hf)) (hk.discoverPeer hP ?_)
      intro hdir ep hep
      obtain ⟨nowMs, written, hwritten, hfile⟩ := hfiles file List.mem_cons_self hdir ep hep
      obtain ⟨written', hwritten', hread⟩ : ∃ file, n.endpointFile nowMs = some file ∧ _ :=
        endpointFile_read hport
      rw [hwritten] at hwritten'
      cases hwritten'
      unfold endpoint? at hep
      rw [hfile, Option.bind_some, hread] at hep
      rw [← Option.some.inj hep]
      rfl

theorem Known.clearUdpContact {nowMs : Int} (hP : Stable n P) (hk : Known n P pm) :
    Known n P (pm.clearUdpContact nowMs) := by
  refine ⟨?_, fun info hinfo => ?_⟩
  · have hkeys : (pm.clearUdpContact nowMs).peers.map (·.1) = pm.peers.map (·.1) := by
      refine map_update _ ?_ _
      intro entry
      rfl
    rw [hkeys]
    exact hk.1
  · obtain ⟨old, hold, hcases⟩ := mem_update.mp hinfo
    split at hcases
    · obtain ⟨hkey, rfl⟩ := Prod.mk.inj hcases
      refine hP old.2 _ .silent (hk.2 old.2 ?_)
      rw [← hkey]
      exact hold
    · rw [hcases] at hold
      exact hk.2 info hold

theorem Known.removeStalePeers {hasEndpoint : String → Bool} (hfile : hasEndpoint n.nodeId = true)
    (hk : Known n P pm) : Known n P (pm.removeStalePeers hasEndpoint) := by
  refine ⟨?_, fun info hinfo => hk.2 info (List.mem_filter.mp hinfo).1⟩
  obtain ⟨entry, hentry, hkey⟩ := List.mem_map.mp hk.1
  refine List.mem_map.mpr ⟨entry, List.mem_filter.mpr ⟨hentry, ?_⟩, hkey⟩
  rw [Bool.or_eq_true, hkey]
  exact .inr hfile

theorem Known.recomputeLeader (hP : Stable n P) (hk : Known n P pm) :
    Known n P pm.recomputeLeader := by
  refine ⟨?_, fun info hinfo => ?_⟩
  · have hkeys : pm.recomputeLeader.peers.map (·.1) = pm.peers.map (·.1) := List.map_map
    rw [hkeys]
    exact hk.1
  · obtain ⟨old, hold, heq⟩ := List.mem_map.mp hinfo
    obtain ⟨hkey, rfl⟩ := Prod.mk.inj heq
    refine hP old.2 _ (.ranked _) (hk.2 old.2 ?_)
    rw [← hkey]
    exact hold

theorem status?_body {body : Option String} (hlib : Library T n)
    (h : ∀ text ∈ body, text = T.dump n.status) :
    status? (body.bind T.parse) = none ∨ status? (body.bind T.parse) = some (readStatus n) := by
  cases body with
  | none => exact .inl rfl
  | some text =>
      right
      unfold status?
      rw [h text rfl, Option.bind_some, hlib.status, Option.bind_some, status_read]
      rfl

theorem ok_of_toOption {r : Except JsonError PeerManager} (h : r.toOption = some pm') :
    r = .ok pm' := by
  cases r with
  | ok a => exact congrArg Except.ok (Option.some.inj h)
  | error e => cases h

/-! #### An event -/

/-- Whatever happens, an entry of the node changes in the ways its own reports
change it. -/
theorem Known.step {e : Event} (hlib : Library T n) (hport : n.port < 65536) (hP : Stable n P)
    (hspeaks : Speaks T n e) (h : NodeReports.step T pm e = some pm') (hk : Known n P pm) :
    Known n P pm' := by
  cases e with
  | datagrams texts nowMs =>
      have hok : MonitorApp.handleUdpMessages T nowMs pm texts = .ok pm' :=
        ok_of_toOption h
      exact Known.messages hP (ownWords_poll hlib hspeaks) hok hk
  | answered id body nowMs =>
      rw [← Option.some.inj h]
      refine hk.changes hP fun hid info => ?_
      rcases status?_body hlib (hspeaks hid) with hnone | hsome
      · rw [hnone]
        exact .missed nowMs
      · rw [hsome]
        exact .polled nowMs
  | discover files =>
      rw [← Option.some.inj h]
      exact hk.discoverPeers hport hP hspeaks
  | nodeState id state =>
      rw [← Option.some.inj h]
      refine hk.changes hP fun hid info => ?_
      rw [hspeaks hid]
      exact .told
  | silence nowMs =>
      rw [← Option.some.inj h]
      exact hk.clearUdpContact hP
  | forget hasEndpoint =>
      rw [← Option.some.inj h]
      exact hk.removeStalePeers hspeaks
  | recomputeLeader =>
      rw [← Option.some.inj h]
      exact hk.recomputeLeader hP

theorem step_nodeId {e : Event} (h : NodeReports.step T pm e = some pm') :
    pm'.nodeId = pm.nodeId := by
  cases e with
  | datagrams texts nowMs => exact handleUdpMessages_nodeId (ok_of_toOption h)
  | discover files =>
      rw [← Option.some.inj h]
      exact discoverPeers_self.1
  | _ =>
      rw [← Option.some.inj h]
      rfl

/-- Hearing the node settles its health. -/
theorem Known.hears_event {e : Event} (hlib : Library T n) (hid : n.nodeId ≠ "")
    (hself : pm.nodeId ≠ n.nodeId) (hspeaks : Speaks T n e) (hhears : Hears T n e)
    (h : NodeReports.step T pm e = some pm') (hk : Known n P pm) : Known n (Health n) pm' := by
  cases e with
  | datagrams texts nowMs =>
      obtain ⟨text, htext, hsent⟩ := hhears
      have hparse : T.parse text = some n.heartbeat.sorted := by
        rw [← send_eq hsent]
        exact hlib.heartbeat
      exact Known.hears hid hself (ownWords_poll hlib hspeaks)
        (heartbeat_mem_poll hself htext hparse) (ok_of_toOption h) hk
  | _ => exact hhears.elim

/-- An answered poll writes the whole entry. -/
theorem Known.polls_event {e : Event} (hlib : Library T n) (hpolls : Polls T n e)
    (h : NodeReports.step T pm e = some pm') (hk : Known n P pm)
    (hQ : ∀ info nowMs, P info →
      Q (deadVerdict (polledInfo info (some (readStatus n)) nowMs) nowMs)) :
    Known n Q pm' := by
  cases e with
  | answered id body nowMs =>
      obtain ⟨rfl, rfl⟩ := hpolls
      rw [← Option.some.inj h]
      refine hk.modifyPeer (fun _ info hinfo => ?_) fun hne => absurd rfl hne
      have hstatus : status? ((some (T.dump n.status)).bind T.parse) = some (readStatus n) := by
        unfold status?
        rw [Option.bind_some, hlib.status, Option.bind_some, status_read]
        rfl
      rw [hstatus]
      exact hQ info nowMs hinfo
  | _ => exact hpolls.elim

end Steps

/-! ## Runs -/

section Runs

variable {T : JsonText} {n : LocalNode} {P Q : PeerInfo → Prop} {pm pm' : PeerManager}
  {es : List Event}

theorem Known.run (hlib : Library T n) (hport : n.port < 65536) (hP : Stable n P)
    (hspeaks : ∀ e ∈ es, Speaks T n e) (h : (machine T).run pm es = some pm')
    (hk : Known n P pm) : Known n P pm' ∧ pm'.nodeId = pm.nodeId := by
  induction es generalizing pm with
  | nil =>
      rw [← Option.some.inj h]
      exact ⟨hk, rfl⟩
  | cons e es ih =>
      rw [Machine.run_cons] at h
      obtain ⟨pm₁, hstep, hrest⟩ := Option.bind_eq_some_iff.mp h
      obtain ⟨hend, hself⟩ := ih (fun e' he' => hspeaks e' (List.mem_cons_of_mem _ he')) hrest
        (hk.step hlib hport hP (hspeaks e List.mem_cons_self) hstep)
      exact ⟨hend, hself.trans (step_nodeId hstep)⟩

/-- What one event of a run brings about and nothing undoes holds at its end. -/
theorem Known.established {e : Event} (hlib : Library T n) (hport : n.port < 65536)
    (hself : pm.nodeId ≠ n.nodeId) (hP : Stable n P) (hQ : Stable n Q)
    (hspeaks : ∀ e ∈ es, Speaks T n e) (hmem : e ∈ es)
    (hbrings : ∀ pm₁ pm₂, pm₁.nodeId ≠ n.nodeId → NodeReports.step T pm₁ e = some pm₂ →
      Known n P pm₁ → Known n Q pm₂)
    (h : (machine T).run pm es = some pm') (hk : Known n P pm) : Known n Q pm' := by
  obtain ⟨before, after, rfl⟩ := List.append_of_mem hmem
  rw [Machine.run_append] at h
  obtain ⟨pm₁, hbefore, h⟩ := Option.bind_eq_some_iff.mp h
  rw [Machine.run_cons] at h
  obtain ⟨pm₂, hstep, hafter⟩ := Option.bind_eq_some_iff.mp h
  obtain ⟨hk₁, hself₁⟩ := hk.run hlib hport hP
    (fun d hd => hspeaks d (List.mem_append_left _ hd)) hbefore
  rw [← hself₁] at hself
  exact ((hbrings pm₁ pm₂ hself hstep hk₁).run hlib hport hQ
    (fun d hd => hspeaks d (List.mem_append_right _ (List.mem_cons_of_mem _ hd))) hafter).1

/-- **A peer comes to show what the node reports.** However heartbeats, polls,
endpoint files and the farm's other changes follow each other, once the node has
answered a poll and either been heard or not been in contact before, its entry is
what it says of itself, and stays that as long as it says it. -/
theorem shows_what_is_reported (T : JsonText) (n : LocalNode) (hlib : Library T n)
    (hport : n.port < 65536) (hid : n.nodeId ≠ "") (pm pm' : PeerManager)
    (hself : pm.nodeId ≠ n.nodeId) (hknown : n.nodeId ∈ pm.peers.map (·.1)) (es : List Event)
    (hspeaks : ∀ e ∈ es, Speaks T n e) (hpolls : ∃ e ∈ es, Polls T n e)
    (hfresh : (∃ e ∈ es, Hears T n e) ∨
      ∀ info, (n.nodeId, info) ∈ pm.peers → info.hasUdpContact = false)
    (hrun : (machine T).run pm es = some pm') :
    n.nodeId ∈ pm'.peers.map (·.1) ∧ ∀ info, (n.nodeId, info) ∈ pm'.peers → Shows n info := by
  have hk : Known n (fun _ => True) pm := ⟨hknown, fun _ _ => trivial⟩
  have htrue : Stable n fun _ => True := fun _ _ _ _ => trivial
  obtain ⟨poll, hpoll, hpolled⟩ := hpolls
  have hlive : Known n (Live n) pm' :=
    hk.established hlib hport hself htrue live_stable hspeaks hpoll
      (fun _ _ _ hstep hk => hk.polls_event hlib hpolled hstep fun _ _ _ => live_polled) hrun
  have hmachinery : Known n (Machinery n) pm' :=
    hk.established hlib hport hself htrue machinery_stable hspeaks hpoll
      (fun _ _ _ hstep hk => hk.polls_event hlib hpolled hstep fun _ _ _ => machinery_polled) hrun
  have hhealth : Known n (Health n) pm' := by
    rcases hfresh with ⟨e, he, hheard⟩ | hquiet
    · exact hk.established hlib hport hself htrue health_stable hspeaks he
        (fun _ _ hself hstep hk => hk.hears_event hlib hid hself (hspeaks e he) hheard hstep) hrun
    · -- no heartbeat said anything else before
      have hsteady : Known n (Steady n) pm :=
        ⟨hknown, fun info hinfo hcontact => absurd hcontact (by simp [hquiet info hinfo])⟩
      exact hsteady.established hlib hport hself steady_stable health_stable hspeaks hpoll
        (fun _ _ _ hstep hk => hk.polls_event hlib hpolled hstep fun _ _ h => health_polled h) hrun
  exact ⟨hlive.1, fun info hinfo =>
    ⟨hlive.2 info hinfo, hhealth.2 info hinfo, hmachinery.2 info hinfo⟩⟩

/-- A node at frames 1 to 10 of a job, the texts it sends, and a library reduced
to them. -/
def beta : LocalNode where
  nodeId := "beta"
  config := { tags := ["gpu"] }
  localIpAddress := "10.0.0.5"
  renderCoordinator := {
    activeRender := some { manifest := { jobId := "shot" }, chunk := ⟨1, 10⟩ } }

def betaHeartbeat : String :=
  "\x7b\"ah\":\"ok\",\"chunk\":\"f1-10\",\"from\":\"beta\",\"ip\":\"10.0.0.5\"," ++
  "\"job\":\"shot\",\"n\":\"beta\",\"port\":8420,\"rfw\":true,\"rs\":\"rendering\"," ++
  "\"st\":\"active\",\"t\":\"hb\"\x7d"

def betaStatus : String :=
  "\x7b\"active_chunk\":\"f1-10\",\"active_job\":\"shot\",\"agent_health\":\"ok\"," ++
  "\"alert_reason\":\"\",\"app_version\":\"\",\"capabilities\":[\"job_edit\"," ++
  "\"edit_result\",\"edit_epoch\",\"edit_commands\",\"chunk_stop\"],\"cpu_cores\":0," ++
  "\"endpoint\":\"10.0.0.5:8420\",\"failed_polls\":0,\"gpu_name\":\"\"," ++
  "\"has_udp_contact\":false,\"hostname\":\"\",\"is_alive\":true,\"is_leader\":false," ++
  "\"is_local\":true,\"last_seen_ms\":0,\"node_id\":\"beta\",\"node_state\":\"active\"," ++
  "\"os\":\"\",\"priority\":100,\"ram_mb\":0,\"ready_for_work\":true," ++
  "\"render_state\":\"rendering\",\"secret_fingerprint\":\"\",\"tags\":[\"gpu\"]\x7d"

def betaLibrary : JsonText where
  dump j := if j.contains "t" then betaHeartbeat else betaStatus
  parse text :=
    if text = betaHeartbeat then some beta.heartbeat.sorted
    else if text = betaStatus then some beta.status.sorted
    else none

theorem betaLibrary_reads : Library betaLibrary beta := by
  have hne : betaStatus ≠ betaHeartbeat := by decide +kernel
  have hheartbeat : betaLibrary.dump beta.heartbeat = betaHeartbeat := rfl
  have hstatus : betaLibrary.dump beta.status = betaStatus := rfl
  refine ⟨?_, ?_⟩
  · rw [hheartbeat]
    unfold betaLibrary
    dsimp only
    rw [if_pos rfl]
  · rw [hstatus]
    unfold betaLibrary
    dsimp only
    rw [if_neg hne, if_pos rfl]

/-- The node knows where it is, and nothing else of it. -/
def alpha : PeerManager where
  nodeId := "alpha"
  peers := [("beta", { nodeId := "beta", endpoint := "10.0.0.5:8420" })]

theorem beta_shown :
    "beta" ∈ ((alpha.processUdpHeartbeat (heardAs beta) 1000).pollPeer "beta"
        (some (readStatus beta)) 2000).peers.map (·.1) ∧
      ∀ info, ("beta", info) ∈ ((alpha.processUdpHeartbeat (heardAs beta) 1000).pollPeer "beta"
        (some (readStatus beta)) 2000).peers → Shows beta info := by
  have hsent : UdpNotify.send betaLibrary beta.heartbeat = some betaHeartbeat :=
    if_neg (by decide +kernel)
  have hheard : betaHeartbeat ∈ [betaHeartbeat].takeWhile (· ≠ "") := by decide +kernel
  refine shows_what_is_reported betaLibrary beta betaLibrary_reads (by decide) (by decide) alpha _
    (by decide) (by decide)
    [.datagrams [betaHeartbeat] 1000, .answered "beta" (some betaStatus) 2000] ?_
    ⟨_, List.mem_cons_of_mem _ List.mem_cons_self, rfl, rfl⟩
    (.inl ⟨_, List.mem_cons_self, betaHeartbeat, hheard, hsent⟩) ?_
  · refine List.forall_mem_cons.mpr ⟨?_, List.forall_mem_singleton.mpr ?_⟩
    · intro text htext _ _ _ _
      rw [List.mem_singleton.mp htext]
      exact hsent
    · rintro - text ⟨⟩
      rfl
  · have hread : betaLibrary.parse betaHeartbeat = some beta.heartbeat.sorted :=
      betaLibrary_reads.heartbeat
    have hpoll : UdpNotify.poll betaLibrary alpha.nodeId [betaHeartbeat] =
        [beta.heartbeat.sorted] := by
      have hfrom : beta.heartbeat.sorted.value getString "from" "" = .ok "beta" :=
        (value_eq_field rfl).trans (field_str "from" "beta" rfl)
      have htake : [betaHeartbeat].takeWhile (· ≠ "") = [betaHeartbeat] := by decide +kernel
      unfold UdpNotify.poll
      rw [htake, List.filterMap_cons_some (b := beta.heartbeat.sorted)]
      · rfl
      · simp only [hread, hfrom, Option.bind_eq_bind, Option.bind_some, Except.toOption]
        rfl
    have hstatus : status? ((some betaStatus).bind betaLibrary.parse) =
        some (readStatus beta) := by
      have hparse : betaLibrary.parse betaStatus = some beta.status.sorted :=
        betaLibrary_reads.status
      unfold status?
      rw [Option.bind_some, hparse, Option.bind_some, status_read]
      rfl
    have hheard : step betaLibrary alpha (.datagrams [betaHeartbeat] 1000) =
        some (alpha.processUdpHeartbeat (heardAs beta) 1000) := by
      unfold NodeReports.step MonitorApp.handleUdpMessages
      dsimp only
      rw [hpoll, List.foldlM_cons, handle_heartbeat (by decide) (by decide)]
      rfl
    have hanswered : ∀ pm : PeerManager,
        step betaLibrary pm (.answered "beta" (some betaStatus) 2000) =
          some (pm.pollPeer "beta" (some (readStatus beta)) 2000) := by
      intro pm
      rw [← hstatus]
      rfl
    have hstep : (machine betaLibrary).step = step betaLibrary := rfl
    rw [Machine.run_cons, hstep, hheard, Option.bind_some, Machine.run_cons, hstep, hanswered]
    rfl

end Runs

end NodeReports

end MinRender
