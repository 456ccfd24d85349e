import Mathlib.Algebra.Group.Int.Defs
import Mathlib.Data.List.Basic
import MinRender.Core.Json

/-!
# Peers

What a node knows about a peer, and the endpoint strings peers are reached at.
-/

namespace MinRender
open Json

/-- A node's entry for a peer: what the peer reports about itself, then what
the node keeps about it. -/
structure PeerInfo where
  nodeId : String := ""
  os : String := ""
  nodeState : String := "active"
  renderState : String := "idle"
  activeJob : String := ""
  activeChunk : String := ""
  priority : Int := 100
  tags : List String := []
  agentHealth : String := "ok"
  alertReason : String := ""
  readyForWork : Bool := true
  endpoint : String := ""
  isLocal : Bool := false
  isAlive : Bool := true
  isLeader : Bool := false
  failedPolls : Int := 0
  lastSeenMs : Int := 0
  hasUdpContact : Bool := false
  lastUdpContactMs : Int := 0
deriving DecidableEq, Repr

/-- The fields that go over HTTP. What the application only shows is read for
its type. -/
def PeerInfo.fromJson (j : Json) : Except JsonError PeerInfo := do
  let d : PeerInfo := {}
  let nodeId ← j.field getString "node_id" d.nodeId
  let _ ← j.field getString "hostname" ""
  let os ← j.field getString "os" d.os
  let _ ← j.field getString "app_version" ""
  let _ ← j.field getString "gpu_name" ""
  let _ ← j.field getInt "cpu_cores" 0
  let _ ← j.field getUInt64 "ram_mb" 0
  let nodeState ← j.field getString "node_state" d.nodeState
  let renderState ← j.field getString "render_state" d.renderState
  let activeJob ← j.field getString "active_job" d.activeJob
  let activeChunk ← j.field getString "active_chunk" d.activeChunk
  let priority ← j.field getInt "priority" d.priority
  let tags ← j.field (getArray getString) "tags" d.tags
  let _ ← j.field (getArray getString) "capabilities" []
  let endpoint ← j.field getString "endpoint" d.endpoint
  let _ ← j.field getString "secret_fingerprint" ""
  let agentHealth ← j.field getString "agent_health" d.agentHealth
  let alertReason ← j.field getString "alert_reason" d.alertReason
  let readyForWork ← j.field getBool "ready_for_work" d.readyForWork
  return { nodeId, os, nodeState, renderState, activeJob, activeChunk, priority, tags,
           agentHealth, alertReason, readyForWork, endpoint }

/-- The value of a digit string. -/
def digitsValue (ds : List Char) : Nat :=
  ds.foldl (fun n c => 10 * n + (c.toNat - '0'.toNat)) 0

/-- `std::isspace`. -/
def isSpace (c : Char) : Bool :=
  c ∈ [' ', '\t', '\n', '\x0b', '\x0c', '\r']

/-- `std::stoi`: leading blanks, a sign, then as many digits as there are;
`none` where it raises (no digit, or no `int`). -/
def stoi? (text : List Char) : Option Int :=
  let text := text.dropWhile isSpace
  let (sign, text) : Int × List Char := match text with
    | '-' :: rest => (-1, rest)
    | '+' :: rest => (1, rest)
    | _ => (1, text)
  let digits := text.takeWhile (·.isDigit)
  let n := sign * digitsValue digits
  if digits = [] ∨ n < -2 ^ 31 ∨ 2 ^ 31 ≤ n then none else some n

/-- `host:port` split at the last colon; `("", 0)` where it is malformed. -/
def parseEndpoint (endpoint : String) : String × Int :=
  let chars := endpoint.toList
  if ':' ∉ chars then ("", 0)
  else
    let port := (chars.reverse.takeWhile (· ≠ ':')).reverse
    let host := chars.take (chars.length - port.length - 1)
    if host = [] ∨ port = [] then ("", 0)
    else
      match stoi? port with
      | none => ("", 0)
      | some n => if n ≤ 0 ∨ 65535 < n then ("", 0) else (String.ofList host, n)

example : parseEndpoint "10.0.0.5:8420" = ("10.0.0.5", 8420) := by decide

end MinRender
