import Mathlib.Data.List.Sort
import MinRender.Core.Templates
import MinRender.Monitor.DispatchManager
import MinRender.Monitor.JobControls

/-!
# Watched folders

The JSON files other programs drop for the monitor: the DCC plug-ins'
submissions, and the edit commands of nodes that cannot reach the leader. Each
handler is a program over database calls that says how the handling of a file
ends.
-/

namespace MinRender
open Json

/-- A file of a watched folder, and what the file system answers when it is
moved away and when it is removed. -/
structure WatchedFile where
  name : String
  text : String
  renames : Bool := true
  removes : Bool := true
deriving DecidableEq, Repr

/-- How the handling of a file ends: an exception nobody catches, undefined
arithmetic, or a return that leaves the file gone from the folder or not. -/
inductive Fate (α : Type)
  | raised (e : JsonError)
  | undefined
  | done (gone : Bool) (result : α)
deriving DecidableEq, Repr

/-- The handler returned. -/
def Fate.Returned {α : Type} (fate : Fate α) : Prop :=
  ∃ gone result, fate = .done gone result

/-- The handler returned and the file is gone from the folder. -/
def Fate.Gone {α : Type} (fate : Fate α) : Prop := ∃ result, fate = .done true result

/-! ## Submissions -/

/-- The fields of a submission file. -/
structure Submission where
  templateId : String
  jobName : String
  frameStart : Int
  frameEnd : Int
  chunkSize : Int
  priority : Int
  overrides : Json

/-- What a submission is handled with: the node, its configuration, and what
it finds on the farm. `slugTaken` is whether the jobs folder has an entry of
that name, `pluginTemplates` are the texts of the plug-in templates. -/
structure SubmissionSite where
  nodeId : String
  os : String := "windows"
  pathMappings : List PathMapping := []
  cachedTemplates : List JobTemplate := []
  pluginTemplates : List String := []
  slugTaken : String → Bool := fun _ => false
  isLeader : Bool := false
  dbOpen : Bool := true
  leaderEndpoint : String := ""
  nowMs : Int := 0

/-- The tag path mappings use for an operating system. -/
def osTag (os : String) : String :=
  if os = "windows" then "win" else if os = "macos" then "mac" else "lin"

/-- What became of a submission: dropped with a log line, stored by the leader
under an id (empty where it could not be), sent to the leader, or neither for
want of one. -/
inductive SubmissionResult
  | dropped (why : String)
  | stored (jobId : String)
  | posted (host : String) (port : Int) (manifest : JobManifest) (priority : Int)
  | noLeader
deriving DecidableEq, Repr

namespace SubmissionWatcher

def readSubmission (sub : Json) : Except JsonError Submission := do
  let templateId ← sub.value getString "template_id" ""
  let jobName ← sub.value getString "job_name" ""
  let frameStart ← sub.value getInt "frame_start" 1
  let frameEnd ← sub.value getInt "frame_end" 250
  let chunkSize ← sub.value getInt "chunk_size" 10
  let priority ← sub.value getInt "priority" 50
  let overrides ← sub.value (fun v => .ok v) "overrides" (.obj [])
  return { templateId, jobName, frameStart, frameEnd, chunkSize, priority, overrides }

/-- A valid cached template, else the first valid plug-in template of that
id. -/
def findTemplate (T : JsonText) (site : SubmissionSite) (templateId : String) :
    Option JobTemplate :=
  let plugin (text : String) : Option JobTemplate := do
    let candidate ← T.template? text
    if candidate.templateId = templateId then
      let checked := TemplateManager.validateTemplate candidate
      if checked.valid then some checked else none
    else none
  match site.cachedTemplates.find? fun t => t.templateId = templateId && t.valid with
  | some t => some t
  | none => site.pluginTemplates.findSome? plugin

/-- The override of a flag's id, else its default. -/
def flagValue (overrides : Json) (f : TemplateFlag) : String :=
  let default := f.value.getD ""
  if f.id = "" then default
  else
    match overrides.find? f.id with
    | some (.str s) => s
    | _ => default

/-- On macOS the paths are stored in their Windows form. -/
def canonicalize (site : SubmissionSite) (manifest : JobManifest) : JobManifest :=
  if osTag site.os = "mac" then
    let canonical (path : String) : String :=
      if path = "" then path else toCanonicalPath "mac" path site.pathMappings
    { manifest with
      flags := manifest.flags.map fun flag => { flag with value := flag.value.map canonical }
      outputDir := manifest.outputDir.map canonical
      submittedOs := "windows" }
  else manifest

/-- The manifest a submission asks for, or why it is dropped. -/
def prepare (T : JsonText) (site : SubmissionSite) (sub : Submission) :
    Except String JobManifest :=
  if sub.templateId = "" ∨ sub.jobName = "" then
    .error "DCC submit: missing template_id or job_name"
  else
    match findTemplate T site sub.templateId with
    | none => .error ("DCC submit: template not found: " ++ sub.templateId)
    | some tmpl =>
        let slug := TemplateManager.generateSlug sub.jobName site.slugTaken
        if slug = "" then
          .error ("DCC submit: failed to generate slug for: " ++ sub.jobName)
        else
          .ok (canonicalize site
            (TemplateManager.bakeManifestStatic (osTag site.os) tmpl
              (tmpl.flags.map (flagValue sub.overrides)) (getCmdForOS tmpl.cmd site.os)
              slug sub.frameStart sub.frameEnd sub.chunkSize tmpl.jobDefaults.maxRetries
              tmpl.jobDefaults.timeoutSeconds site.nodeId site.os site.nowMs))

/-- Hand a manifest to the leader; `none` where its range overflows. What the
leader answers over HTTP is only logged. -/
def submit (T : JsonText) (site : SubmissionSite) (manifest : JobManifest)
    (priority : Int) : DbProg (Option SubmissionResult) :=
  if site.isLeader then
    if site.dbOpen then do
      let stored ← DispatchManager.submitJob T manifest priority
      return stored.map .stored
    else return some (.stored "")
  else
    match parseEndpoint site.leaderEndpoint with
    | ("", _) => return some .noLeader
    | (host, port) => return some (.posted host port manifest priority)

/-- One submission file; where it returns, it has moved the file or tried
to. -/
def processSubmission (T : JsonText) (site : SubmissionSite) (file : WatchedFile) :
    DbProg (Fate SubmissionResult) :=
  match T.parse file.text with
  | none =>
      return .done file.renames
        (.dropped ("DCC submit: failed to parse " ++ file.name ++ ": " ++ T.what file.text))
  | some json =>
      match readSubmission json with
      | .error e => return .raised e
      | .ok sub =>
          match prepare T site sub with
          | .error why => return .done file.renames (.dropped why)
          | .ok manifest => do
              let submitted ← submit T site manifest sub.priority
              match submitted with
              | none => return .undefined
              | some result => return .done file.renames result

end SubmissionWatcher

/-! ## Farm commands -/

/-- What became of a command: acknowledged with a log line, empty where there
is none, or left for a later poll; with the outcome of its edit, where one was
tried. -/
structure CommandResult where
  why : String := ""
  edit : Option MonitorApp.EditOutcome := none
deriving DecidableEq, Repr

namespace MonitorApp

def kCommandTtlMs : Int := 15 * 60 * 1000

/-- The lambda `ack`: the file is moved away, or else removed. -/
def ack (file : WatchedFile) (why : String) (edit : Option EditOutcome) :
    Fate CommandResult :=
  .done (file.renames || file.removes) { why, edit }

/-- The edit a command asks for. -/
structure CommandEdit where
  jobId : String
  manifestJson : String
  mode : String
  priority : Int
deriving DecidableEq, Repr

/-- The text of a command's manifest, empty where it has none. -/
def commandManifest (T : JsonText) (cmd : Json) : String :=
  match cmd.find? "manifest" with
  | some manifest => T.dump manifest
  | none => ""

/-- The reads of a command before its edit is tried, or why it is
acknowledged without. -/
def readCommand (T : JsonText) (nowMs : Int) (cmd : Json) :
    Except JsonError (Except String CommandEdit) := do
  let type ← cmd.value getString "type" ""
  if type ≠ "job_edit" then
    return .error "unknown command type — moved to processed/ unapplied"
  else
    let issuedAt ← cmd.value getInt64 "issued_at_ms" 0
    if issuedAt ≤ 0 ∨ kCommandTtlMs < nowMs - issuedAt then
      return .error "expired (>15 min old) — moved to processed/ unapplied"
    else
      let jobId ← cmd.value getString "job_id" ""
      let mode ← cmd.value getString "mode" "continue"
      let priority ← cmd.value getInt "priority" 50
      return .ok { jobId, manifestJson := commandManifest T cmd, mode, priority }

/-- How a command's file ends for what its edit came to. The issuer is read
for the log line of an edit that was applied. -/
def commandFate (file : WatchedFile) (cmd : Json) : Option EditOutcome → Fate CommandResult
  | none => .undefined
  | some outcome =>
      match outcome.result.code with
      | .applied =>
          match cmd.value getString "issued_by" "?" with
          | .error e => .raised e
          | .ok _ => ack file "" (some outcome)
      -- left for the next poll
      | .dbUnavailable => .done false { edit := some outcome }
      | .invalidManifest | .jobNotFound =>
          ack file ("rejected: " ++ outcome.result.message ++
            " — moved to processed/ unapplied") (some outcome)

/-- `handleCommand` from the parsed command on. -/
def handleParsed (T : JsonText) (dbOpen : Bool) (nowMs : Int) (file : WatchedFile)
    (cmd : Json) : DbProg (Fate CommandResult) :=
  match readCommand T nowMs cmd with
  | .error e => return .raised e
  | .ok (.error why) => return ack file why none
  | .ok (.ok edit) => do
      let outcome ← applyEditLocally T dbOpen edit.jobId edit.manifestJson edit.mode
        edit.priority
      return commandFate file cmd outcome

/-- One turn of the loop of `pollFarmCommands`. -/
def handleCommand (T : JsonText) (dbOpen : Bool) (nowMs : Int) (file : WatchedFile) :
    DbProg (Fate CommandResult) :=
  match T.parse file.text with
  | none => return ack file "unparseable — moved to processed/ unapplied" none
  | some cmd => handleParsed T dbOpen nowMs file cmd

/-- The files in order, up to the first that does not return. -/
def handleCommands (T : JsonText) (dbOpen : Bool) (nowMs : Int) :
    List WatchedFile → DbProg (List (WatchedFile × Fate CommandResult))
  | [] => return []
  | file :: files => do
      let fate ← handleCommand T dbOpen nowMs file
      match fate with
      | .done gone result =>
          let rest ← handleCommands T dbOpen nowMs files
          return (file, .done gone result) :: rest
      -- a raise ends the poll here
      | fate => return [(file, fate)]

/-- The `.json` files of the folder in name order. Nothing is read before the
leader's database is open. -/
def pollFarmCommands (T : JsonText) (dbOpen : Bool) (nowMs : Int)
    (files : List WatchedFile) : DbProg (List (WatchedFile × Fate CommandResult)) :=
  if dbOpen then
    handleCommands T dbOpen nowMs (files.insertionSort fun a b => a.name ≤ b.name)
  else return []

end MonitorApp

end MinRender
