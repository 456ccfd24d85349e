import Mathlib.Algebra.Ring.Int.Defs
import MinRender.Core.Json
import MinRender.Core.PeerInfo
import MinRender.Framework.PaddedLists
import MinRender.Framework.Programs

/-!
# Setting up the farm directory

`FarmInit::init` and the part of `startFarm` around it, as programs over the
steps they take on the share: the existence check, each read, write and copy.
What the share and the random source answer is the environment of a step. A
file of the farm is known by the version of the app it was copied from.
-/

namespace MinRender

/-! ## JSON members -/

namespace Json

/-- A member set in an object, whose keys are in order. -/
def assignField (key : String) (v : Json) : List (String × Json) → List (String × Json)
  | [] => [(key, v)]
  | (k, u) :: fields =>
      if key = k then (key, v) :: fields
      else if key < k then (key, v) :: (k, u) :: fields
      else (k, u) :: assignField key v fields

/-- `j[key] = v`; only objects and null take a member, the rest raises. -/
def assign? (j : Json) (key : String) (v : Json) : Option Json :=
  match j with
  | .null => some (.obj [(key, v)])
  | .obj fields => some (.obj (assignField key v fields))
  | _ => none

theorem lookup_cons_ne {key k : String} (h : key ≠ k) (u : Json)
    (fields : List (String × Json)) :
    ((k, u) :: fields).lookup key = fields.lookup key := by
  rw [List.lookup_cons, beq_false_of_ne h]

theorem lookup_assignField_ne {key key' : String} (h : key' ≠ key) (v : Json) :
    ∀ fields : List (String × Json),
      (assignField key v fields).lookup key' = fields.lookup key'
  | [] => lookup_cons_ne h v []
  | (k, u) :: fields => by
      unfold assignField
      split
      · rename_i hk
        subst hk
        rw [lookup_cons_ne h, lookup_cons_ne h]
      · split
        · exact lookup_cons_ne h v _
        · rw [List.lookup_cons, List.lookup_cons, lookup_assignField_ne h v fields]

theorem find?_assign_ne {j j' : Json} {key key' : String} {v : Json}
    (h : j.assign? key v = some j') (hne : key' ≠ key) : j'.find? key' = j.find? key' := by
  cases j with
  | null =>
      cases h
      exact lookup_cons_ne hne v []
  | obj fields =>
      cases h
      exact lookup_assignField_ne hne v fields
  | _ => cases h

end Json

/-! ## Versions -/

/-- `std::getline(ss, part, '.')` until it fails: a text that ends at a dot has
no part after it. -/
def versionParts (v : String) : List (List Char) :=
  let parts := v.toList.splitOn '.'
  if parts.getLast? = some [] then parts.dropLast else parts

/-- The parts as numbers; what is no number counts as 0. -/
def versionNumbers (v : String) : List Int :=
  (versionParts v).map fun part => (stoi? part).getD 0

/-- Negative, zero or positive as `a` is older than, as old as or newer than
`b`. -/
def compareVersions (a b : String) : Int :=
  Padded.compare (versionNumbers a) (versionNumbers b)

example : compareVersions "0.5.10" "0.5.9" = 1 := by decide

example : compareVersions "" "0.0" = 0 := by decide

/-- What a version stands for. -/
def versionValue (v : String) : Lex (ℕ → ℤ) := Padded.value (versionNumbers v)

theorem compareVersions_lt_zero {a b : String} :
    compareVersions a b < 0 ↔ versionValue a < versionValue b := Padded.compare_lt_zero

theorem compareVersions_pos {a b : String} :
    0 < compareVersions a b ↔ versionValue b < versionValue a := Padded.compare_pos

/-! ## The share -/

/-- A file below the farm directory. -/
structure FarmPath where
  dir : String
  name : String
deriving DecidableEq, Repr

/-- `farm.json`, `some none` with a text that does not parse, and the version
of every bundled file. -/
structure Farm where
  farmJson : Option (Option Json) := none
  files : FarmPath → Option String := fun _ => none

/-- What a step is answered: the random source's text, whether `farm.json` can
be read and written, and which files can be copied and removed. -/
structure FarmEnv where
  secret : String := "5ec4e7"
  reads : Bool := true
  writes : Bool := true
  copies : FarmPath → Bool := fun _ => true
  removes : FarmPath → Bool := fun _ => true

inductive FarmCall
  | hasFarmJson
  | generateApiSecret
  | copyToFarm (dest : FarmPath) (version : String)
  | pruneStaleJson (dir : String) (expected : List String)
  | readFarmJson
  | writeFarmJson (fj : Json)
  /-- `startFarm` reads the secret -/
  | loadSecret

@[reducible] def FarmCall.Reply : FarmCall → Type
  | .hasFarmJson | .copyToFarm .. | .writeFarmJson _ => Bool
  | .generateApiSecret => String
  | .pruneStaleJson .. => Unit
  | .readFarmJson => Option Json
  | .loadSecret => Option String

@[reducible] def farmShare : Interface := ⟨FarmCall, FarmCall.Reply⟩

abbrev FarmProg := Prog farmShare

/-- `extension() == ".json"`. -/
def isJsonName (name : String) : Bool :=
  decide (name.toList.length > 5) && (".json".toList.isSuffixOf name.toList)

/-- The string under `api_secret`. -/
def apiSecret? (fj : Json) : Option String :=
  match fj.find? "api_secret" with
  | some (.str s) => some s
  | _ => none

/-- The document in `farm.json`. -/
def Farm.doc (farm : Farm) : Option Json := farm.farmJson.join

def Farm.apiSecret (farm : Farm) : Option String := farm.doc.bind apiSecret?

/-- One step on the share. -/
def FarmCall.exec (env : FarmEnv) : Handler farmShare Farm
  | .hasFarmJson, farm => (farm.farmJson.isSome, farm)
  | .generateApiSecret, farm => (env.secret, farm)
  | .copyToFarm dest version, farm =>
      if env.copies dest then
        (true, { farm with files := Function.update farm.files dest (some version) })
      else (false, farm)
  | .pruneStaleJson dir expected, farm =>
      ((), { farm with
        files := fun p =>
          if p.dir = dir ∧ isJsonName p.name ∧ p.name ∉ expected ∧ env.removes p then none
          else farm.files p })
  | .readFarmJson, farm => (if env.reads then farm.doc else none, farm)
  | .writeFarmJson fj, farm =>
      if env.writes then (true, { farm with farmJson := some (some fj) }) else (false, farm)
  | .loadSecret, farm => (if env.reads then farm.apiSecret else none, farm)

/-! ## The content of an app -/

/-- The regular files of a directory, `none` where it cannot be listed. -/
abbrev Listing := Option (List String)

structure BundledTemplates where
  files : Listing := some []
  /-- `plugins/` below it, where there is one -/
  plugins : Option Listing := none

/-- What the app was installed with; `none` where a directory is not found. -/
structure Bundle where
  templates : Option BundledTemplates := some {}
  plugins : Option (Option (List (String × Listing))) := some (some [])

/-- The node that starts. -/
structure FarmNode where
  nodeId : String := ""
  appVersion : String
  bundle : Bundle := {}
  nowMs : Int := 0

namespace FarmInit

def step (c : FarmCall) : FarmProg c.Reply := Prog.ask (F := farmShare) c

/-- Every file of a list is tried, whatever became of the others. -/
def copyAll (version dir : String) : List String → FarmProg Bool
  | [] => return true
  | name :: names => do
      let ok : Bool ← step (.copyToFarm ⟨dir, name⟩ version)
      let rest ← copyAll version dir names
      return ok && rest

def copyListing (version dir : String) (keep : String → Bool) : Listing → FarmProg Bool
  | some names => copyAll version dir (names.filter keep)
  | none => return false

/-- The names `pruneStaleJson` expects. -/
def expectedJson (listing : Listing) : List String := (listing.getD []).filter isJsonName

def copyExampleTemplates (node : FarmNode) : FarmProg Bool :=
  match node.bundle.templates with
  | none => return false
  | some bundled => do
      let ok ← copyListing node.appVersion "templates/examples" isJsonName bundled.files
      let _ ← step (.pruneStaleJson "templates/examples" (expectedJson bundled.files))
      match bundled.plugins with
      | none => return ok
      | some files => do
          let pluginOk ← copyListing node.appVersion "templates/plugins" isJsonName files
          let _ ← step (.pruneStaleJson "templates/plugins" (expectedJson files))
          return ok && pluginOk

def copyPluginDirs (version : String) : List (String × Listing) → FarmProg Bool
  | [] => return true
  | (app, files) :: dirs => do
      let ok ← copyListing version ("plugins/" ++ app) (fun _ => true) files
      let rest ← copyPluginDirs version dirs
      return ok && rest

def copyPlugins (node : FarmNode) : FarmProg Bool :=
  match node.bundle.plugins with
  | none => return false
  | some none => return false
  | some (some dirs) => copyPluginDirs node.appVersion dirs

def refreshFarmContent (node : FarmNode) : FarmProg Bool := do
  let ok ← copyExampleTemplates node
  let pluginsOk ← copyPlugins node
  return ok && pluginsOk

/-! ## `init` -/

structure Result where
  success : Bool := false
  error : String := ""
deriving DecidableEq, Repr

def PROTOCOL_VERSION : Int := 2

def secretError : Result :=
  { error := "Failed to generate farm api_secret (system RNG unavailable)" }

/-- The `farm.json` of a new farm. -/
def newFarmJson (node : FarmNode) (copied : Bool) (apiSecret : String) : Json :=
  .obj [("_version", .int 1), ("api_secret", .str apiSecret),
    ("created_at_ms", .int node.nowMs), ("created_by", .str node.nodeId),
    ("last_example_update", .str (if copied then node.appVersion else "")),
    ("protocol_version", .int PROTOCOL_VERSION)]

def createFarm (node : FarmNode) : FarmProg Result := do
  let apiSecret : String ← step .generateApiSecret
  if apiSecret = "" then return secretError
  else
    let copied ← refreshFarmContent node
    let written : Bool ← step (.writeFarmJson (newFarmJson node copied apiSecret))
    return if written then { success := true } else { error := "Failed to write farm.json" }

/-- The version the content was last brought to. -/
def lastUpdate (fj : Json) : Except JsonError String :=
  fj.field Json.getString "last_example_update" ""

def writeBack (fj : Json) (needsWrite : Bool) : FarmProg Result :=
  if needsWrite then do
    let _ ← step (.writeFarmJson fj)
    return { success := true }
  else return { success := true }

/-- The content, once there is a secret. What raises ends the try block. -/
def updateContent (node : FarmNode) (fj : Json) (needsWrite : Bool) : FarmProg Result :=
  match lastUpdate fj with
  | .error _ => return { success := true }
  | .ok last =>
      if 0 < compareVersions node.appVersion last then do
        let refreshed ← refreshFarmContent node
        if refreshed then
          match fj.assign? "last_example_update" (.str node.appVersion) with
          | some fj => writeBack fj true
          | none => return { success := true }
        else writeBack fj needsWrite
      else writeBack fj needsWrite

/-- The secret `init` is content with. -/
def usableSecret? (fj : Json) : Option String := (apiSecret? fj).filter (· ≠ "")

def updateFarm (node : FarmNode) : FarmProg Result := do
  let doc : Option Json ← step .readFarmJson
  match doc with
  | none => return { success := true }
  | some fj =>
      if (usableSecret? fj).isSome then updateContent node fj false
      else
        let upgraded : String ← step .generateApiSecret
        if upgraded = "" then return secretError
        else
          match fj.assign? "api_secret" (.str upgraded) with
          | some fj => updateContent node fj true
          | none => return { success := true }

def init (node : FarmNode) : FarmProg Result := do
  let hasFarmJson : Bool ← step .hasFarmJson
  if hasFarmJson then updateFarm node else createFarm node

/-- `startFarm` from `FarmInit::init` to the loaded secret, for a node that
holds `farmSecret` from an earlier start. -/
def startFarm (node : FarmNode) (farmSecret : String) : FarmProg String := do
  let _ ← init node
  let loaded : Option String ← step .loadSecret
  return loaded.getD farmSecret

/-! ## What the content calls are -/

/-- The calls that refresh the content from an app of the given version. -/
def ContentOf (version : String) : FarmCall → Prop
  | .copyToFarm _ v => v = version
  | .pruneStaleJson .. => True
  | _ => False

theorem copyAll_every (version dir : String) :
    ∀ names : List String, (copyAll version dir names).Every (ContentOf version)
  | [] => trivial
  | name :: names => by
      refine Prog.Every.ask rfl fun ok => ?_
      exact (copyAll_every version dir names).bind fun rest => trivial

theorem copyListing_every (version dir : String) (keep : String → Bool) (files : Listing) :
    (copyListing version dir keep files).Every (ContentOf version) := by
  cases files with
  | none => exact trivial
  | some names => exact copyAll_every version dir _

theorem copyExampleTemplates_every (node : FarmNode) :
    (copyExampleTemplates node).Every (ContentOf node.appVersion) := by
  unfold copyExampleTemplates
  cases node.bundle.templates with
  | none => exact trivial
  | some bundled =>
      refine (copyListing_every _ _ _ _).bind fun ok => Prog.Every.ask trivial fun _ => ?_
      cases bundled.plugins with
      | none => exact trivial
      | some files =>
          refine (copyListing_every _ _ _ _).bind fun pluginOk => ?_
          exact Prog.Every.ask trivial fun _ => trivial

theorem copyPluginDirs_every (version : String) :
    ∀ dirs : List (String × Listing), (copyPluginDirs version dirs).Every (ContentOf version)
  | [] => trivial
  | (app, files) :: dirs => by
      refine (copyListing_every version _ _ files).bind fun ok => ?_
      exact (copyPluginDirs_every version dirs).bind fun rest => trivial

theorem refreshFarmContent_every (node : FarmNode) :
    (refreshFarmContent node).Every (ContentOf node.appVersion) := by
  refine (copyExampleTemplates_every node).bind fun ok => Prog.Every.bind ?_ fun _ => trivial
  unfold copyPlugins
  split
  · exact trivial
  · exact trivial
  · exact copyPluginDirs_every _ _

end FarmInit

end MinRender
