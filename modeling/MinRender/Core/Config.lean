import MinRender.Core.Json
import MinRender.Core.PathMapping

/-!
# Configuration

The node's configuration, and the two ways it changes while the farm runs: the
partial update `POST /api/config` and the Settings dialog.
-/

namespace MinRender
open Json

structure Config where
  syncRoot : String := ""
  httpPort : Int := 8420
  ipOverride : String := ""
  tags : List String := []
  udpEnabled : Bool := true
  udpPort : Int := 4243
  showNotifications : Bool := true
  stagingEnabled : Bool := false
  pathMappings : List PathMapping := []
deriving DecidableEq, Repr

def PathMapping.fromJson (j : Json) : Except JsonError PathMapping := do
  return {
    win := ← j.field getString "win" ""
    mac := ← j.field getString "mac" ""
    lin := ← j.field getString "lin" ""
    enabled := ← j.field getBool "enabled" true
    label := ← j.field getString "label" "" }

/-- The fields whose change makes the farm restart. The tags are not among
them. -/
def needsRestart (old new : Config) : Bool :=
  old.syncRoot ≠ new.syncRoot || old.httpPort ≠ new.httpPort ||
    old.udpEnabled ≠ new.udpEnabled || old.udpPort ≠ new.udpPort

namespace Config

/-- One `if (body.contains(key))` of the handler. -/
def setFrom {α : Type} (get : Json → Except JsonError α) (key : String)
    (set : Config → α → Config) (body : Json) (cfg : Config) : Except JsonError Config :=
  match body.find? key with
  | none => .ok cfg
  | some v => set cfg <$> get v

/-- The assignments of the handler, in order. -/
def updates : List (Json → Config → Except JsonError Config) :=
  [setFrom getString "sync_root" fun cfg v => { cfg with syncRoot := v },
    setFrom getUInt16 "http_port" fun cfg v => { cfg with httpPort := v },
    setFrom getString "ip_override" fun cfg v => { cfg with ipOverride := v },
    setFrom getBool "udp_enabled" fun cfg v => { cfg with udpEnabled := v },
    setFrom getUInt16 "udp_port" fun cfg v => { cfg with udpPort := v },
    setFrom (getArray getString) "tags" fun cfg v => { cfg with tags := v },
    setFrom getBool "staging_enabled" fun cfg v => { cfg with stagingEnabled := v },
    setFrom getBool "show_notifications" fun cfg v => { cfg with showNotifications := v },
    setFrom (getArray PathMapping.fromJson) "path_mappings" fun cfg v =>
      { cfg with pathMappings := v }]

/-- The assignments up to the first that raises, which keeps those before it. -/
def applyUpdates (body : Json) :
    List (Json → Config → Except JsonError Config) → Config → Config × Bool
  | [], cfg => (cfg, true)
  | set :: rest, cfg =>
      match set body cfg with
      | .ok cfg' => applyUpdates body rest cfg'
      | .error _ => (cfg, false)

/-- What `POST /api/config` answers. -/
inductive Reply
  | ok (restarted : Bool)
  | badRequest
deriving DecidableEq, Repr

/-- A body that does not parse changes nothing. -/
def postConfig (T : JsonText) (cfg : Config) (body : String) : Config × Reply :=
  match T.parse body with
  | none => (cfg, .badRequest)
  | some j =>
      match applyUpdates j updates cfg with
      | (cfg', true) => (cfg', .ok (needsRestart cfg cfg'))
      | (cfg', false) => (cfg', .badRequest)

/-- The Settings dialog's tag field. -/
def setTags (cfg : Config) (tags : List String) : Config := { cfg with tags }

end Config

end MinRender
