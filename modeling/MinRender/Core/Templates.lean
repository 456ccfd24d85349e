import MinRender.Core.JobTypes
import MinRender.Core.PathMapping

/-!
# Job templates

The template record with its JSON reader, and what the template manager makes
of one: its validity, the slug of a job name, and the manifest baked from a
list of flag values.
-/

namespace MinRender
open Json

structure TemplateCmd where
  osWindows : String := ""
  osLinux : String := ""
  osMacos : String := ""
  label : String := ""
  editable : Bool := true
deriving DecidableEq, Repr

structure TemplateFlag where
  flag : String := ""
  value : Option String := none
  info : String := ""
  help : String := ""
  editable : Bool := false
  required : Bool := false
  type : String := ""
  filter : String := ""
  id : String := ""
  defaultPattern : Option String := none
deriving DecidableEq, Repr

structure JobDefaults where
  frameStart : Int := 1
  frameEnd : Int := 250
  chunkSize : Int := 1
  priority : Int := 50
  maxRetries : Int := 3
  timeoutSeconds : Option Int := none
deriving DecidableEq, Repr

structure JobTemplate where
  version : Int := 1
  templateId : String := ""
  name : String := ""
  cmd : TemplateCmd := {}
  flags : List TemplateFlag := []
  framePadding : String := ""
  jobDefaults : JobDefaults := {}
  progress : ProgressConfig := {}
  outputDetection : OutputDetection := {}
  process : ProcessConfig := {}
  environment : List (String × String) := []
  tagsRequired : List String := []
  valid : Bool := false
  validationError : String := ""
deriving DecidableEq, Repr

def getCmdForOS (cmd : TemplateCmd) (os : String) : String :=
  if os = "windows" then cmd.osWindows
  else if os = "macos" then cmd.osMacos
  else cmd.osLinux

/-! ## Readers -/

def TemplateCmd.fromJson (j : Json) : Except JsonError TemplateCmd := do
  let d : TemplateCmd := {}
  return {
    osWindows := ← j.field getString "windows" d.osWindows
    osLinux := ← j.field getString "linux" d.osLinux
    osMacos := ← j.field getString "macos" d.osMacos
    label := ← j.field getString "label" d.label
    editable := ← j.field getBool "editable" d.editable }

def TemplateFlag.fromJson (j : Json) : Except JsonError TemplateFlag := do
  let d : TemplateFlag := {}
  return {
    flag := ← j.field getString "flag" d.flag
    value := ← j.optField getString "value"
    info := ← j.field getString "info" d.info
    help := ← j.field getString "help" d.help
    editable := ← j.field getBool "editable" d.editable
    required := ← j.field getBool "required" d.required
    type := ← j.field getString "type" d.type
    filter := ← j.field getString "filter" d.filter
    id := ← j.field getString "id" d.id
    defaultPattern := ← j.optField getString "default_pattern" }

def JobDefaults.fromJson (j : Json) : Except JsonError JobDefaults := do
  let d : JobDefaults := {}
  return {
    frameStart := ← j.field getInt "frame_start" d.frameStart
    frameEnd := ← j.field getInt "frame_end" d.frameEnd
    chunkSize := ← j.field getInt "chunk_size" d.chunkSize
    priority := ← j.field getInt "priority" d.priority
    maxRetries := ← j.field getInt "max_retries" d.maxRetries
    timeoutSeconds := ← j.optField getInt "timeout_seconds" }

def JobTemplate.fromJson (j : Json) : Except JsonError JobTemplate := do
  let d : JobTemplate := {}
  return {
    version := ← j.field getInt "_version" d.version
    templateId := ← j.field getString "template_id" d.templateId
    name := ← j.field getString "name" d.name
    cmd := ← j.field TemplateCmd.fromJson "cmd" d.cmd
    flags := ← j.field (getArray TemplateFlag.fromJson) "flags" d.flags
    framePadding := ← j.field getString "frame_padding" d.framePadding
    jobDefaults := ← j.field JobDefaults.fromJson "job_defaults" d.jobDefaults
    progress := ← j.field ProgressConfig.fromJson "progress" d.progress
    outputDetection :=
      ← j.field OutputDetection.fromJson "output_detection" d.outputDetection
    process := ← j.field ProcessConfig.fromJson "process" d.process
    environment := ← j.field getStringMap "environment" d.environment
    tagsRequired := ← j.field (getArray getString) "tags_required" d.tagsRequired }

/-- `nlohmann::json::parse(text).get<JobTemplate>()`, `none` where either
raises. -/
def JsonText.template? (T : JsonText) (text : String) : Option JobTemplate :=
  match T.parse text with
  | some j => (JobTemplate.fromJson j).toOption
  | none => none

namespace TemplateManager

/-- The first thing wrong with a template. -/
def validateTemplate (tmpl : JobTemplate) : JobTemplate :=
  if tmpl.templateId = "" then
    { tmpl with valid := false, validationError := "Missing template_id" }
  else if tmpl.name = "" then
    { tmpl with valid := false, validationError := "Missing name" }
  else if tmpl.cmd.osWindows = "" ∧ tmpl.cmd.osLinux = "" ∧ tmpl.cmd.osMacos = "" then
    { tmpl with valid := false, validationError := "No executable path for any OS" }
  else { tmpl with valid := true, validationError := "" }

/-! ## Slugs -/

/-- One character of a slug. -/
def slugChar (c : Char) : Char :=
  if c.isAlphanum || c = '_' then c.toLower else '-'

/-- A run of dashes becomes one. -/
def collapseDashes : List Char → List Char
  | '-' :: '-' :: rest => collapseDashes ('-' :: rest)
  | c :: rest => c :: collapseDashes rest
  | [] => []

/-- At most 64 characters of the job name in lower case, other characters as
dashes, none leading; only the cut may leave one trailing. -/
def slugOf (jobName : String) : String :=
  let slug := collapseDashes (jobName.toList.map slugChar)
  String.ofList (((slug.dropWhile (· = '-')).rdropWhile (· = '-')).take 64)

/-- The slug, or the first of the suffixes -2 to -99 that is not taken; empty
where there is none. `taken` is whether the entry exists under the jobs
directory. -/
def generateSlug (jobName : String) (taken : String → Bool) : String :=
  let slug := slugOf jobName
  if slug = "" then ""
  else if !taken slug then slug
  else
    let suffixes := (List.range 98).map fun i => slug ++ "-" ++ toString (i + 2)
    (suffixes.find? (!taken ·)).getD ""

example : slugOf "  Shot 010 - final!" = "shot-010-final" := by decide

/-! ## Baking -/

/-- The manifest's flags: an optional positional left empty is dropped, with
the standalone flag before it. Flags and values are walked together; a flag
beyond the values has none. -/
def bakeFlags : List TemplateFlag → List String → List ManifestFlag
  | [], _ => []
  | tf :: flags, values =>
      let baked : ManifestFlag :=
        { flag := tf.flag
          isOutput := tf.type = "output"
          value := match tf.editable, values with
            | true, v :: _ => some v
            | _, _ => tf.value }
      let optional (f : TemplateFlag) : Bool := f.flag = "" && f.editable && !f.required
      let empty (vs : List String) : Bool := vs.headD "" = ""
      match flags with
      | next :: rest =>
          if tf.flag ≠ "" && tf.value.isNone && !tf.editable &&
              optional next && empty values.tail then
            bakeFlags rest values.tail.tail
          else if optional tf && empty values then bakeFlags (next :: rest) values.tail
          else baked :: bakeFlags (next :: rest) values.tail
      | [] => if optional tf && empty values then [] else [baked]

/-- The directory of the first output flag that has a value; an output flag
left empty is passed over. -/
def bakeOutputDir (osTag : String) (flags : List TemplateFlag) (values : List String) :
    Option String :=
  match (flags.zip values).find? fun fv => fv.1.type = "output" && fv.2 ≠ "" with
  | none => none
  | some fv =>
      let parentDir := parentPath osTag fv.2
      if parentDir = "" then none else some parentDir

/-- `std::map` assignment into a list in key order. -/
def setKey (key value : String) : List (String × String) → List (String × String)
  | [] => [(key, value)]
  | kv :: rest =>
      if kv.1 = key then (key, value) :: rest
      else if key < kv.1 then (key, value) :: kv :: rest
      else kv :: setKey key value rest

def bakeCmd (cmd : TemplateCmd) (cmdForMyOS os : String) : List (String × String) :=
  let templatePaths := [("linux", cmd.osLinux), ("macos", cmd.osMacos),
    ("windows", cmd.osWindows)].filter (·.2 ≠ "")
  setKey os cmdForMyOS templatePaths

def bakeManifestStatic (osTag : String) (tmpl : JobTemplate) (flagValues : List String)
    (cmdForMyOS jobSlug : String) (frameStart frameEnd chunkSize maxRetries : Int)
    (timeout : Option Int) (nodeId os : String) (nowMs : Int) : JobManifest where
  jobId := jobSlug
  templateId := tmpl.templateId
  submittedBy := nodeId
  submittedOs := os
  submittedAtMs := nowMs
  cmd := bakeCmd tmpl.cmd cmdForMyOS os
  flags := bakeFlags tmpl.flags flagValues
  frameStart := frameStart
  frameEnd := frameEnd
  chunkSize := chunkSize
  maxRetries := maxRetries
  timeoutSeconds := timeout
  outputDir := bakeOutputDir osTag tmpl.flags flagValues
  progress := tmpl.progress
  outputDetection := tmpl.outputDetection
  process := tmpl.process
  environment := tmpl.environment
  tagsRequired := tmpl.tagsRequired

end TemplateManager

end MinRender
