import MinRender.Core.Json

/-!
# Jobs, manifests and frame ranges

The job manifest and its sub-records with their JSON readers and writers, the
inclusive frame ranges, and the split of a range into chunks.
-/

namespace MinRender
open Json

/-! ## Records shared by templates and manifests -/

structure ProgressPattern where
  regex : String := ""
  type : String := ""
  numeratorGroup : Int := 1
  denominatorGroup : Int := 2
  group : Int := 1
  info : String := ""
deriving DecidableEq, Repr

structure CompletionPattern where
  regex : String := ""
  info : String := ""
deriving DecidableEq, Repr

structure ErrorPattern where
  regex : String := ""
  info : String := ""
deriving DecidableEq, Repr

structure ProgressConfig where
  patterns : List ProgressPattern := []
  completionPattern : Option CompletionPattern := none
  errorPatterns : List ErrorPattern := []
deriving DecidableEq, Repr

structure OutputDetection where
  stdoutRegex : Option String := none
  pathGroup : Int := 1
  validation : String := "exit_code_only"
  info : String := ""
deriving DecidableEq, Repr

structure ProcessConfig where
  workingDir : Option String := none
deriving DecidableEq, Repr

structure ManifestFlag where
  flag : String := ""
  value : Option String := none
  isOutput : Bool := false
deriving DecidableEq, Repr

/-- A job as submitted; `jobId` is its slug. -/
structure JobManifest where
  version : Int := 1
  jobId : String := ""
  templateId : String := ""
  submittedBy : String := ""
  submittedOs : String := ""
  submittedAtMs : Int := 0
  cmd : List (String × String) := []
  flags : List ManifestFlag := []
  frameStart : Int := 1
  frameEnd : Int := 250
  chunkSize : Int := 1
  maxRetries : Int := 3
  timeoutSeconds : Option Int := none
  outputDir : Option String := none
  progress : ProgressConfig := {}
  outputDetection : OutputDetection := {}
  process : ProcessConfig := {}
  environment : List (String × String) := []
  tagsRequired : List String := []
deriving DecidableEq, Repr

/-! ## Writers -/

private def strings (xs : List String) : Json := .arr (xs.map .str)

private def stringMap (m : List (String × String)) : Json :=
  .obj (m.map fun kv => (kv.1, .str kv.2))

private def orNull {α : Type} (write : α → Json) : Option α → Json
  | some a => write a
  | none => .null

def ProgressPattern.toJson (p : ProgressPattern) : Json :=
  .obj ([("regex", .str p.regex), ("type", .str p.type), ("info", .str p.info)] ++
    if p.type = "fraction" then
      [("numerator_group", .int p.numeratorGroup),
       ("denominator_group", .int p.denominatorGroup)]
    else [("group", .int p.group)])

def CompletionPattern.toJson (p : CompletionPattern) : Json :=
  .obj [("regex", .str p.regex), ("info", .str p.info)]

def ErrorPattern.toJson (p : ErrorPattern) : Json :=
  .obj [("regex", .str p.regex), ("info", .str p.info)]

def ProgressConfig.toJson (c : ProgressConfig) : Json :=
  .obj [("patterns", .arr (c.patterns.map (·.toJson))),
    ("error_patterns", .arr (c.errorPatterns.map (·.toJson))),
    ("completion_pattern", orNull (·.toJson) c.completionPattern)]

def OutputDetection.toJson (o : OutputDetection) : Json :=
  .obj [("stdout_regex", orNull .str o.stdoutRegex),
    ("path_group", .int o.pathGroup), ("validation", .str o.validation),
    ("info", .str o.info)]

def ProcessConfig.toJson (p : ProcessConfig) : Json :=
  .obj [("working_dir", orNull .str p.workingDir)]

def ManifestFlag.toJson (f : ManifestFlag) : Json :=
  .obj ([("flag", .str f.flag), ("value", orNull .str f.value)] ++
    if f.isOutput then [("is_output", .bool true)] else [])

def JobManifest.toJson (m : JobManifest) : Json :=
  .obj [("_version", .int m.version), ("job_id", .str m.jobId),
    ("template_id", .str m.templateId), ("submitted_by", .str m.submittedBy),
    ("submitted_os", .str m.submittedOs),
    ("submitted_at_ms", .int m.submittedAtMs), ("cmd", stringMap m.cmd),
    ("flags", .arr (m.flags.map (·.toJson))),
    ("frame_start", .int m.frameStart), ("frame_end", .int m.frameEnd),
    ("chunk_size", .int m.chunkSize), ("max_retries", .int m.maxRetries),
    ("timeout_seconds", orNull .int m.timeoutSeconds),
    ("output_dir", orNull .str m.outputDir), ("progress", m.progress.toJson),
    ("output_detection", m.outputDetection.toJson),
    ("process", m.process.toJson), ("environment", stringMap m.environment),
    ("tags_required", strings m.tagsRequired)]

/-! ## Readers

A key that is absent leaves the record's default; a value that is no object
has no keys at all, so it reads as the default record. -/

def ProgressPattern.fromJson (j : Json) : Except JsonError ProgressPattern := do
  let d : ProgressPattern := {}
  return {
    regex := ← j.field getString "regex" d.regex
    type := ← j.field getString "type" d.type
    numeratorGroup := ← j.field getInt "numerator_group" d.numeratorGroup
    denominatorGroup := ← j.field getInt "denominator_group" d.denominatorGroup
    group := ← j.field getInt "group" d.group
    info := ← j.field getString "info" d.info }

def CompletionPattern.fromJson (j : Json) : Except JsonError CompletionPattern := do
  return {
    regex := ← j.field getString "regex" ""
    info := ← j.field getString "info" "" }

def ErrorPattern.fromJson (j : Json) : Except JsonError ErrorPattern := do
  return {
    regex := ← j.field getString "regex" ""
    info := ← j.field getString "info" "" }

def ProgressConfig.fromJson (j : Json) : Except JsonError ProgressConfig := do
  return {
    patterns := ← j.field (getArray ProgressPattern.fromJson) "patterns" []
    completionPattern :=
      ← j.optField CompletionPattern.fromJson "completion_pattern"
    errorPatterns := ← j.field (getArray ErrorPattern.fromJson) "error_patterns" [] }

def OutputDetection.fromJson (j : Json) : Except JsonError OutputDetection := do
  let d : OutputDetection := {}
  return {
    stdoutRegex := ← j.optField getString "stdout_regex"
    pathGroup := ← j.field getInt "path_group" d.pathGroup
    validation := ← j.field getString "validation" d.validation
    info := ← j.field getString "info" d.info }

def ProcessConfig.fromJson (j : Json) : Except JsonError ProcessConfig := do
  return { workingDir := ← j.optField getString "working_dir" }

def ManifestFlag.fromJson (j : Json) : Except JsonError ManifestFlag := do
  return {
    flag := ← j.field getString "flag" ""
    value := ← j.optField getString "value"
    isOutput := ← j.field getBool "is_output" false }

def JobManifest.fromJson (j : Json) : Except JsonError JobManifest := do
  let d : JobManifest := {}
  return {
    version := ← j.field getInt "_version" d.version
    jobId := ← j.field getString "job_id" d.jobId
    templateId := ← j.field getString "template_id" d.templateId
    submittedBy := ← j.field getString "submitted_by" d.submittedBy
    submittedOs := ← j.field getString "submitted_os" d.submittedOs
    submittedAtMs := ← j.field getInt64 "submitted_at_ms" d.submittedAtMs
    cmd := ← j.field getStringMap "cmd" d.cmd
    flags := ← j.field (getArray ManifestFlag.fromJson) "flags" d.flags
    frameStart := ← j.field getInt "frame_start" d.frameStart
    frameEnd := ← j.field getInt "frame_end" d.frameEnd
    chunkSize := ← j.field getInt "chunk_size" d.chunkSize
    maxRetries := ← j.field getInt "max_retries" d.maxRetries
    timeoutSeconds := ← j.optField getInt "timeout_seconds"
    outputDir := ← j.optField getString "output_dir"
    progress := ← j.field ProgressConfig.fromJson "progress" d.progress
    outputDetection :=
      ← j.field OutputDetection.fromJson "output_detection" d.outputDetection
    process := ← j.field ProcessConfig.fromJson "process" d.process
    environment := ← j.field getStringMap "environment" d.environment
    tagsRequired := ← j.field (getArray getString) "tags_required" d.tagsRequired }

/-- `nlohmann::json::parse(text).get<JobManifest>()`, `none` where either
raises. -/
def JsonText.manifest? (T : JsonText) (text : String) : Option JobManifest :=
  match T.parse text with
  | some j => (JobManifest.fromJson j).toOption
  | none => none

/-- The text of a small manifest, for the runs that later modules compute. -/
def shotManifest : String := "\x7b\"job_id\":\"shot\"\x7d"

/-- The same job with another last frame. -/
def longerManifest : String := "\x7b\"frame_end\":300,\"job_id\":\"shot\"\x7d"

/-- A library reduced to these two texts and their values. -/
def shotText : JsonText where
  parse text :=
    if text = shotManifest then some (.obj [("job_id", .str "shot")])
    else if text = longerManifest then
      some (.obj [("frame_end", .int 300), ("job_id", .str "shot")])
    else none
  dump _ := shotManifest

example : (shotText.manifest? longerManifest).map (·.frameEnd) = some 300 := by decide

/-! ## Frame ranges -/

/-- An inclusive range of frames. -/
structure ChunkRange where
  frameStart : Int := 0
  frameEnd : Int := 0
deriving DecidableEq, Repr

/-- `std::setw(6) << std::setfill('0')`: at least six characters, the fill
left of the sign. -/
def padded6 (n : Int) : String :=
  let digits := toString n
  String.ofList (List.replicate (6 - digits.length) '0') ++ digits

/-- The `000001-000010` form of a range. -/
def ChunkRange.rangeStr (c : ChunkRange) : String :=
  padded6 c.frameStart ++ "-" ++ padded6 c.frameEnd

/-- The value of an `int` expression, `none` where it leaves 32 bits. -/
def int32? (n : Int) : Option Int :=
  if -2 ^ 31 ≤ n ∧ n < 2 ^ 31 then some n else none

/-- The loop of `computeChunks` from frame `f` on, `fuel` bounding the rounds
left. -/
def chunksFrom (frameEnd chunkSize : Int) : Nat → Int → Option (List ChunkRange)
  | 0, _ => some []
  | fuel + 1, f =>
      if f ≤ frameEnd then do
        let next ← int32? (f + chunkSize)
        let rest ← chunksFrom frameEnd chunkSize fuel next
        return ⟨f, min (next - 1) frameEnd⟩ :: rest
      else some []

/-- Split a frame range into chunks of `chunkSize` frames; `none` where the
`int` arithmetic overflows, which the language leaves undefined. Every round
advances by at least one frame, so the number of frames bounds the loop. -/
def computeChunks (frameStart frameEnd chunkSize : Int) :
    Option (List ChunkRange) :=
  if chunkSize ≤ 0 ∨ frameStart > frameEnd then some []
  else chunksFrom frameEnd chunkSize (frameEnd - frameStart + 1).toNat frameStart

example : computeChunks 1 10 4 = some [⟨1, 4⟩, ⟨5, 8⟩, ⟨9, 10⟩] := by decide

/-- The chunks of a range start at pairwise different frames. -/
theorem chunksFrom_nodup {frameEnd chunkSize : Int} (hsize : 0 < chunkSize) :
    ∀ {fuel : Nat} {f : Int} {rs : List ChunkRange},
      chunksFrom frameEnd chunkSize fuel f = some rs →
      (∀ r ∈ rs, f ≤ r.frameStart) ∧ rs.Nodup
  | 0, f, rs, h => by
      cases h
      exact ⟨by simp, List.nodup_nil⟩
  | fuel + 1, f, rs, h => by
      unfold chunksFrom at h
      split at h
      case isFalse =>
        cases h
        exact ⟨by simp, List.nodup_nil⟩
      case isTrue =>
        obtain ⟨next, hnext, h⟩ := Option.bind_eq_some_iff.mp h
        obtain ⟨rest, hrest, h⟩ := Option.bind_eq_some_iff.mp h
        cases h
        have hlt : f < next := by
          unfold int32? at hnext
          split at hnext <;> cases hnext
          omega
        obtain ⟨hge, hnodup⟩ := chunksFrom_nodup hsize hrest
        refine ⟨?_, List.nodup_cons.mpr ⟨?_, hnodup⟩⟩
        · intro r hr
          rcases List.mem_cons.mp hr with rfl | hr
          · exact Int.le_refl f
          · exact Int.le_trans (Int.le_of_lt hlt) (hge r hr)
        · intro hmem
          exact absurd (hge _ hmem) (Int.not_le.mpr hlt)

theorem computeChunks_nodup {frameStart frameEnd chunkSize : Int}
    {rs : List ChunkRange} (h : computeChunks frameStart frameEnd chunkSize = some rs) :
    rs.Nodup := by
  unfold computeChunks at h
  split at h
  · cases h
    exact List.nodup_nil
  · exact (chunksFrom_nodup (by omega) h).2

/-- A chunk lies between the frame it is cut from and the last frame. -/
theorem chunksFrom_within {frameEnd chunkSize : Int} (hsize : 0 < chunkSize) :
    ∀ {fuel : Nat} {f : Int} {rs : List ChunkRange},
      chunksFrom frameEnd chunkSize fuel f = some rs →
      ∀ r ∈ rs, f ≤ r.frameStart ∧ r.frameStart ≤ r.frameEnd ∧ r.frameEnd ≤ frameEnd
  | 0, f, rs, h => by
      cases h
      simp
  | fuel + 1, f, rs, h => by
      unfold chunksFrom at h
      split at h
      case isFalse =>
        cases h
        simp
      case isTrue hle =>
        obtain ⟨next, hnext, h⟩ := Option.bind_eq_some_iff.mp h
        obtain ⟨rest, hrest, h⟩ := Option.bind_eq_some_iff.mp h
        cases h
        have hnext : next = f + chunkSize := by
          unfold int32? at hnext
          split at hnext <;> cases hnext
          rfl
        intro r hr
        rcases List.mem_cons.mp hr with rfl | hr
        · show f ≤ f ∧ f ≤ min (next - 1) frameEnd ∧ min (next - 1) frameEnd ≤ frameEnd
          omega
        · obtain ⟨hstart, hrange, hend⟩ := chunksFrom_within hsize hrest r hr
          exact ⟨by omega, hrange, hend⟩

theorem computeChunks_within {frameStart frameEnd chunkSize : Int} {rs : List ChunkRange}
    (h : computeChunks frameStart frameEnd chunkSize = some rs) :
    ∀ r ∈ rs, frameStart ≤ r.frameStart ∧ r.frameStart ≤ r.frameEnd ∧
      r.frameEnd ≤ frameEnd := by
  unfold computeChunks at h
  split at h
  · cases h
    simp
  · exact chunksFrom_within (by omega) h

end MinRender
