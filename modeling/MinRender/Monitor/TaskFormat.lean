import MinRender.Agent.Messages
import MinRender.Core.PathMapping
import MinRender.Framework.Substitution
import MinRender.Monitor.JobControls
import MinRender.Monitor.RenderCoordinator
import MinRender.Monitor.Submissions

/-!
# The task message, from the coordinator to the agent

The coordinator writes the task from a manifest, whose numbers are signed; the
agent reads them into unsigned fields. The agent either reads exactly the task
the manifest means, or drops the message without an answer.
-/

namespace MinRender.TaskFormat
open Messages Substitution

/-! ## Writing the task -/

/-- `while ((pos = result.find(token, pos)) != npos)`, from the start of the
string; after `replace`, `pos` is moved behind the number. -/
def replaceAll (token : String) (htoken : token.toList ≠ []) (n : Int) (result : String) :
    String :=
  String.ofList (replaceInPlace token.toList (toString n).toList htoken 0 result.toList)

/-- One loop after the other; `{frame}` is the older name of `{chunk_start}`. -/
def substituteTokens (input : String) (chunk : ChunkRange) : String :=
  let result := replaceAll "\x7bframe\x7d" (by decide) chunk.frameStart input
  let result := replaceAll "\x7bchunk_start\x7d" (by decide) chunk.frameStart result
  replaceAll "\x7bchunk_end\x7d" (by decide) chunk.frameEnd result

example : substituteTokens "f_\x7bframe\x7d_\x7bchunk_end\x7d.png" ⟨7, 12⟩ = "f_7_12.png" := by
  decide +kernel

/-- The tag of a node's operating system in path names. -/
def pathTag (nodeOS : String) : String := if nodeOS = "windows" then "win" else "lin"

/-- `std::filesystem::path::filename` -/
def filename (os path : String) : String :=
  String.ofList ((splitRootName os path.toList).2.rtakeWhile (!isSeparator os ·))

/-- A value of a flag, in the staging directory if it is an output path. -/
def flagValue (nodeOS stagingDir : String) (f : ManifestFlag) (value : String)
    (chunk : ChunkRange) : String :=
  let val := substituteTokens value chunk
  if stagingDir ≠ "" ∧ f.isOutput then
    joinPath (pathTag nodeOS) stagingDir (filename (pathTag nodeOS) val)
  else val

def buildArgs (nodeOS stagingDir : String) (flags : List ManifestFlag) (chunk : ChunkRange) :
    List String :=
  flags.flatMap fun f =>
    (if f.flag = "" then [] else [substituteTokens f.flag chunk]) ++
      match f.value with
      | some value => [flagValue nodeOS stagingDir f value chunk]
      | none => []

def executable (nodeOS : String) (manifest : JobManifest) : String :=
  (manifest.cmd.lookup nodeOS).getD ""

def workingDir (manifest : JobManifest) (chunk : ChunkRange) : String :=
  match manifest.process.workingDir with
  | some dir => substituteTokens dir chunk
  | none => ""

/-- A spec of error patterns only is not sent; the agent looks for no errors. -/
def sendsProgress (c : ProgressConfig) : Bool := c.patterns ≠ [] ∨ c.completionPattern.isSome

def buildTaskJson (nodeOS stagingDir : String) (manifest : JobManifest) (chunk : ChunkRange) :
    Json :=
  .obj [
    ("type", .str "task"),
    ("job_id", .str manifest.jobId),
    ("frame_start", .int chunk.frameStart),
    ("frame_end", .int chunk.frameEnd),
    ("command", .obj [
      ("executable", .str (executable nodeOS manifest)),
      ("args", .arr ((buildArgs nodeOS stagingDir manifest.flags chunk).map .str))]),
    ("working_dir",
      if workingDir manifest chunk = "" then .null else .str (workingDir manifest chunk)),
    ("environment", .obj (manifest.environment.map fun kv => (kv.1, .str kv.2))),
    ("progress", if sendsProgress manifest.progress then manifest.progress.toJson else .null),
    ("output_detection",
      match manifest.outputDetection.stdoutRegex with
      | some regex => .obj [("regex", .str regex),
          ("capture_group", .int manifest.outputDetection.pathGroup)]
      | none => .null),
    ("timeout_seconds",
      match manifest.timeoutSeconds with
      | some t => .int t
      | none => .null)]

/-! ## The task a manifest means -/

/-- The agent's pattern is the manifest's; the groups its type does not use
are not sent. -/
def SamePattern (p : ProgressPattern) (d : ProgressPatternDef) : Prop :=
  d.regex = p.regex ∧ d.patternType = p.type ∧ d.info = p.info ∧
    if p.type = "fraction" then
      (d.numeratorGroup.toNat : Int) = p.numeratorGroup ∧
        (d.denominatorGroup.toNat : Int) = p.denominatorGroup ∧ d.group = 1
    else d.numeratorGroup = 1 ∧ d.denominatorGroup = 2 ∧ (d.group.toNat : Int) = p.group

def SameCompletion (p : CompletionPattern) (d : CompletionPatternDef) : Prop :=
  d.regex = p.regex ∧ d.info = p.info

def SameError (p : ErrorPattern) (d : ErrorPatternDef) : Prop :=
  d.regex = p.regex ∧ d.info = p.info

structure SameSpec (c : ProgressConfig) (spec : ProgressSpec) : Prop where
  patterns : List.Forall₂ SamePattern c.patterns spec.patterns
  completion : Option.Rel SameCompletion c.completionPattern spec.completionPattern
  errors : List.Forall₂ SameError c.errorPatterns spec.errorPatterns

/-- A spec is sent where there is something to look for, and then is the same. -/
def SameProgress (c : ProgressConfig) : Option ProgressSpec → Prop
  | some spec => sendsProgress c = true ∧ SameSpec c spec
  | none => sendsProgress c = false

def SameOutput (o : OutputDetection) : Option OutputConfig → Prop
  | some config => config.regex.isSome ∧ config.regex = o.stdoutRegex ∧
      (config.captureGroup.toNat : Int) = o.pathGroup
  | none => o.stdoutRegex = none

/-- The agent's task is the one the manifest means for the chunk. -/
structure SameTask (nodeOS stagingDir : String) (m : JobManifest) (chunk : ChunkRange)
    (t : Messages.TaskMessage) : Prop where
  jobId : t.jobId = m.jobId
  frameStart : (t.frameStart.toNat : Int) = chunk.frameStart
  frameEnd : (t.frameEnd.toNat : Int) = chunk.frameEnd
  executable : t.command.executable = executable nodeOS m
  args : t.command.args = buildArgs nodeOS stagingDir m.flags chunk
  workingDir : t.workingDir =
    if workingDir m chunk = "" then none else some (workingDir m chunk)
  environment : t.environment = m.environment
  progress : SameProgress m.progress t.progress
  output : SameOutput m.outputDetection t.outputDetection
  timeout : t.timeoutSeconds.map (fun u => (u.toNat : Int)) = m.timeoutSeconds

/-! ## Reading it back -/

theorem read_completion {p : CompletionPattern} {d : CompletionPatternDef} :
    CompletionPatternDef.read p.toJson = some d ↔ SameCompletion p d := by
  obtain ⟨regex, info⟩ := d
  simp [CompletionPatternDef.read, CompletionPattern.toJson, requiredField, fieldOr, string?,
    SameCompletion, eq_comm, List.lookup_cons]

theorem read_error {p : ErrorPattern} {d : ErrorPatternDef} :
    ErrorPatternDef.read p.toJson = some d ↔ SameError p d := by
  obtain ⟨regex, info⟩ := d
  simp [ErrorPatternDef.read, ErrorPattern.toJson, requiredField, fieldOr, string?,
    SameError, eq_comm, List.lookup_cons]

/-- Only the groups of the pattern's type are on the wire. -/
theorem read_pattern {p : ProgressPattern} {d : ProgressPatternDef} :
    ProgressPatternDef.read p.toJson = some d ↔ SamePattern p d := by
  obtain ⟨regex, type, num, den, group, info⟩ := d
  unfold ProgressPattern.toJson SamePattern
  by_cases ht : p.type = "fraction"
  · simp [ht, ProgressPatternDef.read, requiredField, fieldOr, string?, List.lookup_cons,
      Option.bind_eq_some_iff, u32?_int]
    grind
  · simp [ht, ProgressPatternDef.read, requiredField, fieldOr, string?, List.lookup_cons,
      Option.bind_eq_some_iff, u32?_int]
    grind

theorem ProgressConfig.toJson_eq (c : ProgressConfig) :
    c.toJson = .obj [("patterns", .arr (c.patterns.map (·.toJson))),
      ("error_patterns", .arr (c.errorPatterns.map (·.toJson))),
      ("completion_pattern", match c.completionPattern with
        | some p => p.toJson
        | none => .null)] := by
  obtain ⟨patterns, completion, errors⟩ := c
  cases completion with
  | none => rfl
  | some p => rfl

theorem read_spec {c : ProgressConfig} {spec : ProgressSpec} :
    ProgressSpec.read c.toJson = some spec ↔ SameSpec c spec := by
  obtain ⟨patterns, completion, errors⟩ := spec
  rw [ProgressConfig.toJson_eq]
  -- each field is read back by itself; the three are put together last
  have hpatterns : vec? ProgressPatternDef.read (.arr (c.patterns.map (·.toJson))) =
      some patterns ↔ List.Forall₂ SamePattern c.patterns patterns := by
    rw [vec?_map]
    simp only [read_pattern]
  have herrors : vec? ErrorPatternDef.read (.arr (c.errorPatterns.map (·.toJson))) =
      some errors ↔ List.Forall₂ SameError c.errorPatterns errors := by
    rw [vec?_map]
    simp only [read_error]
  have hcompletion : option? CompletionPatternDef.read (match c.completionPattern with
      | some p => p.toJson
      | none => .null) = some completion ↔
        Option.Rel SameCompletion c.completionPattern completion := by
    cases c.completionPattern with
    | none =>
        show some none = some completion ↔ _
        constructor
        · intro h
          rw [← Option.some.inj h]
          exact .none
        · intro h
          cases h
          rfl
    | some p =>
        show (CompletionPatternDef.read p.toJson).map some = some completion ↔ _
        rw [Option.map_eq_some_iff]
        constructor
        · rintro ⟨d, hd, rfl⟩
          exact .some (read_completion.mp hd)
        · intro h
          cases h with
          | some hd => exact ⟨_, read_completion.mpr hd, rfl⟩
  simp only [ProgressSpec.read, fieldOr, optionalField, List.lookup_cons, String.reduceBEq]
  constructor
  · intro h
    obtain ⟨ps, hps, h⟩ := Option.bind_eq_some_iff.mp h
    obtain ⟨d, hd, h⟩ := Option.bind_eq_some_iff.mp h
    obtain ⟨es, hes, h⟩ := Option.bind_eq_some_iff.mp h
    cases h
    exact ⟨hpatterns.mp hps, hcompletion.mp hd, herrors.mp hes⟩
  · rintro ⟨hps, hd, hes⟩
    rw [hpatterns.mpr hps, hcompletion.mpr hd, herrors.mpr hes]
    rfl

theorem read_command {exe : String} {args : List String} {cmd : CommandSpec} :
    CommandSpec.read (.obj [("executable", .str exe), ("args", .arr (args.map .str))]) =
      some cmd ↔ cmd.executable = exe ∧ cmd.args = args := by
  obtain ⟨exe', args'⟩ := cmd
  simp only [CommandSpec.read, requiredField, List.lookup_cons, String.reduceBEq, Option.bind_some]
  constructor
  · intro h
    obtain ⟨e, he, h⟩ := Option.bind_eq_some_iff.mp h
    obtain ⟨as, has, h⟩ := Option.bind_eq_some_iff.mp h
    cases h
    cases he
    exact ⟨rfl, vec?_strings.mp has⟩
  · rintro ⟨rfl, hargs⟩
    rw [vec?_strings.mpr hargs]
    rfl

theorem read_progress {c : ProgressConfig} {spec : Option ProgressSpec} :
    option? ProgressSpec.read (if sendsProgress c then c.toJson else .null) = some spec ↔
      SameProgress c spec := by
  by_cases hs : sendsProgress c = true
  · rw [if_pos hs]
    show (ProgressSpec.read c.toJson).map some = some spec ↔ _
    rw [Option.map_eq_some_iff]
    constructor
    · rintro ⟨spec, hspec, rfl⟩
      exact ⟨hs, read_spec.mp hspec⟩
    · intro h
      cases spec with
      | none => exact absurd (h.symm.trans hs) (by simp)
      | some spec => exact ⟨spec, read_spec.mpr h.2, rfl⟩
  · rw [if_neg hs]
    show some none = some spec ↔ _
    constructor
    · intro h
      rw [← Option.some.inj h]
      exact Bool.eq_false_of_not_eq_true hs
    · intro h
      cases spec with
      | none => rfl
      | some spec => exact absurd h.1 hs

theorem read_output {o : OutputDetection} {config : Option OutputConfig} :
    option? OutputConfig.read (match o.stdoutRegex with
      | some regex => .obj [("regex", .str regex), ("capture_group", .int o.pathGroup)]
      | none => .null) = some config ↔ SameOutput o config := by
  cases hr : o.stdoutRegex with
  | none =>
      show some none = some config ↔ _
      constructor
      · intro h
        rw [← Option.some.inj h]
        exact hr
      · intro h
        cases config with
        | none => rfl
        | some config =>
            have hnone : config.regex = none := h.2.1.trans hr
            exact absurd h.1 (by simp [hnone])
  | some regex =>
      show (OutputConfig.read _).map some = some config ↔ _
      rw [Option.map_eq_some_iff]
      simp only [OutputConfig.read, optionalField, fieldOr, List.lookup_cons, String.reduceBEq]
      constructor
      · rintro ⟨config, h, rfl⟩
        obtain ⟨r, hregex, h⟩ := Option.bind_eq_some_iff.mp h
        obtain ⟨group, hgroup, h⟩ := Option.bind_eq_some_iff.mp h
        cases h
        cases hregex
        exact ⟨rfl, hr.symm, u32?_int.mp hgroup⟩
      · intro h
        cases config with
        | none => exact absurd (h.symm.trans hr) (by simp)
        | some config =>
            obtain ⟨r, group⟩ := config
            have hregex : r = some regex := h.2.1.trans hr
            refine ⟨_, ?_, rfl⟩
            rw [hregex, u32?_int.mpr h.2.2]
            rfl

theorem read_timeout {timeout : Option Int} {t : Option UInt64} :
    option? u64? (match timeout with | some n => .int n | none => .null) = some t ↔
      t.map (fun u => (u.toNat : Int)) = timeout := by
  cases timeout with
  | none =>
      show some none = some t ↔ _
      cases t <;> simp
  | some n =>
      show (u64? (.int n)).map some = some t ↔ _
      rw [Option.map_eq_some_iff]
      cases t with
      | none => simp
      | some u => simp [u64?_int]

theorem read_workingDir {dir : String} {d : Option String} :
    option? string? (if dir = "" then .null else .str dir) = some d ↔
      d = if dir = "" then none else some dir := by
  by_cases hd : dir = ""
  · rw [if_pos hd, if_pos hd]
    exact ⟨fun h => (Option.some.inj h).symm, fun h => congrArg some h.symm⟩
  · rw [if_neg hd, if_neg hd]
    exact ⟨fun h => (Option.some.inj h).symm, fun h => congrArg some h.symm⟩

/-- **The agent reads the task the manifest means, or nothing.** -/
theorem read_task {nodeOS stagingDir : String} {m : JobManifest} {chunk : ChunkRange}
    {t : Messages.TaskMessage} :
    Messages.read (buildTaskJson nodeOS stagingDir m chunk) = some (.task t) ↔
      SameTask nodeOS stagingDir m chunk t := by
  unfold buildTaskJson
  rw [read_eq_task (by simp [requiredField, string?])]
  simp only [TaskMessage.read, requiredField, optionalField, fieldOr, List.lookup_cons,
    String.reduceBEq, Option.bind_some]
  constructor
  · intro h
    obtain ⟨jobId, hjobId, h⟩ := Option.bind_eq_some_iff.mp h
    obtain ⟨frameStart, hstart, h⟩ := Option.bind_eq_some_iff.mp h
    obtain ⟨frameEnd, hend, h⟩ := Option.bind_eq_some_iff.mp h
    obtain ⟨command, hcommand, h⟩ := Option.bind_eq_some_iff.mp h
    obtain ⟨dir, hdir, h⟩ := Option.bind_eq_some_iff.mp h
    obtain ⟨environment, henvironment, h⟩ := Option.bind_eq_some_iff.mp h
    obtain ⟨progress, hprogress, h⟩ := Option.bind_eq_some_iff.mp h
    obtain ⟨output, houtput, h⟩ := Option.bind_eq_some_iff.mp h
    obtain ⟨timeout, htimeout, h⟩ := Option.bind_eq_some_iff.mp h
    cases h
    obtain ⟨hexe, hargs⟩ := read_command.mp hcommand
    exact {
      jobId := (Option.some.inj hjobId).symm
      frameStart := u32?_int.mp hstart
      frameEnd := u32?_int.mp hend
      executable := hexe
      args := hargs
      workingDir := read_workingDir.mp hdir
      environment := hashMap?_strings.mp henvironment
      progress := read_progress.mp hprogress
      output := read_output.mp houtput
      timeout := read_timeout.mp htimeout }
  · intro h
    rw [show string? (.str m.jobId) = some t.jobId from congrArg some h.jobId.symm,
      u32?_int.mpr h.frameStart, u32?_int.mpr h.frameEnd,
      read_command.mpr ⟨h.executable, h.args⟩, read_workingDir.mpr h.workingDir,
      hashMap?_strings.mpr h.environment, read_progress.mpr h.progress,
      read_output.mpr h.output, read_timeout.mpr h.timeout]
    rfl

/-! ## When there is such a task -/

/-- Every number the message carries is one the agent's fields can hold. -/
structure Unsigned (m : JobManifest) (chunk : ChunkRange) : Prop where
  frames : 0 ≤ chunk.frameStart ∧ 0 ≤ chunk.frameEnd
  timeout : ∀ n, m.timeoutSeconds = some n → 0 ≤ n
  groups : ∀ p ∈ m.progress.patterns,
    if p.type = "fraction" then 0 ≤ p.numeratorGroup ∧ 0 ≤ p.denominatorGroup
    else 0 ≤ p.group
  capture : m.outputDetection.stdoutRegex.isSome → 0 ≤ m.outputDetection.pathGroup

/-- A number of the C++ type `int`. -/
def IsInt (n : Int) : Prop := -2 ^ 31 ≤ n ∧ n < 2 ^ 31

instance (n : Int) : Decidable (IsInt n) := inferInstanceAs (Decidable (_ ∧ _))

/-- What reading a manifest makes of its numbers. -/
structure IntFields (m : JobManifest) (chunk : ChunkRange) : Prop where
  frames : IsInt chunk.frameStart ∧ IsInt chunk.frameEnd
  timeout : ∀ n, m.timeoutSeconds = some n → IsInt n
  groups : ∀ p ∈ m.progress.patterns,
    IsInt p.numeratorGroup ∧ IsInt p.denominatorGroup ∧ IsInt p.group
  capture : IsInt m.outputDetection.pathGroup

theorem IsInt.exists_u32 {n : Int} (h : IsInt n) :
    (∃ u : UInt32, (u.toNat : Int) = n) ↔ 0 ≤ n := by
  have hlt := h.2
  rw [Messages.exists_u32]
  exact ⟨fun hn => hn.1, fun hn => ⟨hn, by omega⟩⟩

theorem IsInt.exists_u64 {n : Int} (h : IsInt n) :
    (∃ u : UInt64, (u.toNat : Int) = n) ↔ 0 ≤ n := by
  have hlt := h.2
  rw [Messages.exists_u64]
  exact ⟨fun hn => hn.1, fun hn => ⟨hn, by omega⟩⟩

variable {nodeOS stagingDir : String} {m : JobManifest} {chunk : ChunkRange}

theorem exists_pattern {p : ProgressPattern}
    (h : IsInt p.numeratorGroup ∧ IsInt p.denominatorGroup ∧ IsInt p.group) :
    (∃ d, SamePattern p d) ↔ if p.type = "fraction" then
      0 ≤ p.numeratorGroup ∧ 0 ≤ p.denominatorGroup else 0 ≤ p.group := by
  unfold SamePattern
  by_cases ht : p.type = "fraction"
  · simp only [if_pos ht]
    rw [← h.1.exists_u32, ← h.2.1.exists_u32]
    constructor
    · rintro ⟨d, -, -, -, hnum, hden, -⟩
      exact ⟨⟨_, hnum⟩, ⟨_, hden⟩⟩
    · rintro ⟨⟨num, hnum⟩, ⟨den, hden⟩⟩
      exact ⟨⟨p.regex, p.type, num, den, 1, p.info⟩, rfl, rfl, rfl, hnum, hden, rfl⟩
  · simp only [if_neg ht]
    rw [← h.2.2.exists_u32]
    constructor
    · rintro ⟨d, -, -, -, -, -, hgroup⟩
      exact ⟨_, hgroup⟩
    · rintro ⟨group, hgroup⟩
      exact ⟨⟨p.regex, p.type, 1, 2, group, p.info⟩, rfl, rfl, rfl, rfl, rfl, hgroup⟩

/-- A list has a counterpart when each entry has. -/
theorem exists_forall₂ {α β : Type} {R : α → β → Prop} {xs : List α}
    (h : ∀ x ∈ xs, ∃ y, R x y) : ∃ ys, List.Forall₂ R xs ys := by
  induction xs with
  | nil => exact ⟨[], .nil⟩
  | cons x xs ih =>
      obtain ⟨y, hy⟩ := h x List.mem_cons_self
      obtain ⟨ys, hys⟩ := ih fun x hx => h x (List.mem_cons_of_mem _ hx)
      exact ⟨y :: ys, .cons hy hys⟩

theorem exists_left {α β : Type} {R : α → β → Prop} {xs : List α} {ys : List β}
    (h : List.Forall₂ R xs ys) : ∀ x ∈ xs, ∃ y, R x y := by
  induction h with
  | nil => simp
  | cons hxy _ ih =>
      intro x hx
      rcases List.mem_cons.mp hx with rfl | hx
      · exact ⟨_, hxy⟩
      · exact ih x hx

theorem exists_progress {c : ProgressConfig} :
    (∃ spec, SameProgress c spec) ↔ ∀ p ∈ c.patterns, ∃ d, SamePattern p d := by
  constructor
  · rintro ⟨spec, h⟩ p hp
    cases spec with
    | none =>
        have hsends : sendsProgress c = true :=
          decide_eq_true (.inl (List.ne_nil_of_mem hp))
        exact absurd (h.symm.trans hsends) (by simp)
    | some spec => exact exists_left h.2.patterns p hp
  · intro h
    by_cases hs : sendsProgress c = true
    · obtain ⟨patterns, hpatterns⟩ := exists_forall₂ h
      obtain ⟨errors, herrors⟩ : ∃ es, List.Forall₂ SameError c.errorPatterns es :=
        exists_forall₂ fun p _ => ⟨⟨p.regex, p.info⟩, rfl, rfl⟩
      obtain ⟨completion, hcompletion⟩ :
          ∃ d, Option.Rel SameCompletion c.completionPattern d := by
        cases c.completionPattern with
        | none => exact ⟨none, .none⟩
        | some p => exact ⟨some ⟨p.regex, p.info⟩, .some ⟨rfl, rfl⟩⟩
      exact ⟨some ⟨patterns, completion, errors⟩, hs, ⟨hpatterns, hcompletion, herrors⟩⟩
    · exact ⟨none, Bool.eq_false_of_not_eq_true hs⟩

theorem exists_output {o : OutputDetection} (h : IsInt o.pathGroup) :
    (∃ config, SameOutput o config) ↔ (o.stdoutRegex.isSome → 0 ≤ o.pathGroup) := by
  rw [← h.exists_u32]
  constructor
  · rintro ⟨config, hconfig⟩ hsome
    cases config with
    | none =>
        have hnone : o.stdoutRegex = none := hconfig
        rw [hnone] at hsome
        cases hsome
    | some config => exact ⟨_, hconfig.2.2⟩
  · intro hgroup
    cases hr : o.stdoutRegex with
    | none => exact ⟨none, hr⟩
    | some regex =>
        obtain ⟨group, hgroup⟩ := hgroup (by rw [hr]; rfl)
        exact ⟨some ⟨some regex, group⟩, rfl, hr.symm, hgroup⟩

theorem exists_timeout {timeout : Option Int} (h : ∀ n, timeout = some n → IsInt n) :
    (∃ t : Option UInt64, t.map (fun u => (u.toNat : Int)) = timeout) ↔
      ∀ n, timeout = some n → 0 ≤ n := by
  cases timeout with
  | none => exact ⟨fun _ => by simp, fun _ => ⟨none, rfl⟩⟩
  | some n =>
      have hn : IsInt n := h n rfl
      constructor
      · rintro ⟨t, ht⟩ k hk
        cases hk
        obtain ⟨u, -, hu⟩ := Option.map_eq_some_iff.mp ht
        exact hn.exists_u64.mp ⟨u, hu⟩
      · intro hpos
        obtain ⟨u, hu⟩ := hn.exists_u64.mpr (hpos n rfl)
        exact ⟨some u, congrArg some hu⟩

/-- The manifest means a task the agent can hold exactly when its numbers are
not negative. -/
theorem exists_same_iff (h : IntFields m chunk) :
    (∃ t, SameTask nodeOS stagingDir m chunk t) ↔ Unsigned m chunk := by
  have hpatterns : (∀ p ∈ m.progress.patterns, ∃ d, SamePattern p d) ↔
      ∀ p ∈ m.progress.patterns, if p.type = "fraction" then
        0 ≤ p.numeratorGroup ∧ 0 ≤ p.denominatorGroup else 0 ≤ p.group :=
    forall₂_congr fun p hp => exists_pattern (h.groups p hp)
  constructor
  · rintro ⟨t, ht⟩
    exact {
      frames := ⟨h.frames.1.exists_u32.mp ⟨_, ht.frameStart⟩,
        h.frames.2.exists_u32.mp ⟨_, ht.frameEnd⟩⟩
      timeout := (exists_timeout h.timeout).mp ⟨_, ht.timeout⟩
      groups := hpatterns.mp (exists_progress.mp ⟨_, ht.progress⟩)
      capture := (exists_output h.capture).mp ⟨_, ht.output⟩ }
  · intro hu
    obtain ⟨frameStart, hstart⟩ := h.frames.1.exists_u32.mpr hu.frames.1
    obtain ⟨frameEnd, hend⟩ := h.frames.2.exists_u32.mpr hu.frames.2
    obtain ⟨timeout, htimeout⟩ := (exists_timeout h.timeout).mpr hu.timeout
    obtain ⟨progress, hprogress⟩ := exists_progress.mpr (hpatterns.mpr hu.groups)
    obtain ⟨output, houtput⟩ := (exists_output h.capture).mpr hu.capture
    exact ⟨{
        jobId := m.jobId
        frameStart := frameStart
        frameEnd := frameEnd
        command := ⟨executable nodeOS m, buildArgs nodeOS stagingDir m.flags chunk⟩
        workingDir := if workingDir m chunk = "" then none else some (workingDir m chunk)
        environment := m.environment
        progress := progress
        outputDetection := output
        timeoutSeconds := timeout },
      ⟨rfl, hstart, hend, rfl, rfl, rfl, rfl, hprogress, houtput, htimeout⟩⟩

/-! ## Accepted manifests -/

/-- `POST /api/jobs` or `applyEditLocally` takes the manifest. -/
def Accepted (T : JsonText) (m : JobManifest) : Prop :=
  (∃ text req, (HttpServer.postJobs T true text).2 = some req ∧ req.manifest = m) ∨
    ∃ jobId text, MonitorApp.editManifest T jobId text = .ok m

theorem Accepted.fromJson {T : JsonText} (h : Accepted T m) :
    ∃ j, JobManifest.fromJson j = .ok m := by
  rcases h with ⟨text, req, hpost, rfl⟩ | ⟨jobId, text, hedit⟩
  · unfold HttpServer.postJobs at hpost
    rw [if_neg (by simp)] at hpost
    split at hpost
    · cases hpost
    · rename_i body _
      split at hpost
      · cases hpost
      · rename_i manifest hmanifest
        obtain ⟨j, -, hj⟩ := Json.bind_eq_ok.mp hmanifest
        split at hpost
        · cases hpost
        · split at hpost
          · cases hpost
          · cases hpost
            exact ⟨j, hj⟩
  · unfold MonitorApp.editManifest at hedit
    split at hedit
    · cases hedit
    · rename_i manifest hmanifest
      split at hedit
      · cases hedit
      · cases hedit
        unfold JsonText.manifest? at hmanifest
        split at hmanifest
        · rename_i j _
          cases hj : JobManifest.fromJson j with
          | error e =>
              rw [hj] at hmanifest
              cases hmanifest
          | ok m' =>
              rw [hj] at hmanifest
              cases hmanifest
              exact ⟨j, hj⟩
        · cases hmanifest

theorem isInt_getInt {j : Json} {n : Int} (h : j.getInt = .ok n) : IsInt n := by
  unfold Json.getInt at h
  split at h
  · rename_i k _
    cases h
    unfold IsInt toSigned
    have hlow := Int.le_bmod (x := k) (m := 2 ^ 32) (by omega)
    have hhigh := Int.bmod_lt (x := k) (m := 2 ^ 32) (by omega)
    omega
  · cases h

theorem isInt_field {j : Json} {key : String} {d n : Int} (hd : IsInt d)
    (h : j.field Json.getInt key d = .ok n) : IsInt n := by
  unfold Json.field at h
  split at h
  · exact isInt_getInt h
  · cases h
    exact hd

theorem isInt_optField {j : Json} {key : String} {n : Int}
    (h : j.optField Json.getInt key = .ok (some n)) : IsInt n := by
  unfold Json.optField at h
  split at h
  · cases h
  · cases h
  · rename_i v _ _
    cases hv : v.getInt with
    | error e =>
        rw [hv] at h
        cases h
    | ok k =>
        rw [hv] at h
        cases h
        exact isInt_getInt hv

theorem isInt_pattern {j : Json} {p : ProgressPattern} (h : ProgressPattern.fromJson j = .ok p) :
    IsInt p.numeratorGroup ∧ IsInt p.denominatorGroup ∧ IsInt p.group := by
  simp only [ProgressPattern.fromJson, Json.bind_eq_ok] at h
  obtain ⟨regex, -, type, -, num, hnum, den, hden, group, hgroup, info, -, h⟩ := h
  cases h
  exact ⟨isInt_field (by decide) hnum, isInt_field (by decide) hden,
    isInt_field (by decide) hgroup⟩

/-- What every entry of an array satisfies once read. -/
theorem mapM_ok {α : Type} {get : Json → Except JsonError α} {P : α → Prop}
    (hget : ∀ j a, get j = .ok a → P a) {xs : List Json} {ys : List α}
    (h : xs.mapM get = .ok ys) : ∀ y ∈ ys, P y := by
  induction xs generalizing ys with
  | nil =>
      cases h
      simp
  | cons x xs ih =>
      rw [List.mapM_cons] at h
      obtain ⟨y, hy, h⟩ := Json.bind_eq_ok.mp h
      obtain ⟨rest, hrest, h⟩ := Json.bind_eq_ok.mp h
      cases h
      intro z hz
      rcases List.mem_cons.mp hz with rfl | hz
      · exact hget x z hy
      · exact ih hrest z hz

theorem isInt_progress {j : Json} {c : ProgressConfig} (h : ProgressConfig.fromJson j = .ok c) :
    ∀ p ∈ c.patterns,
      IsInt p.numeratorGroup ∧ IsInt p.denominatorGroup ∧ IsInt p.group := by
  simp only [ProgressConfig.fromJson, Json.bind_eq_ok] at h
  obtain ⟨patterns, hpatterns, completion, -, errors, -, h⟩ := h
  cases h
  unfold Json.field at hpatterns
  split at hpatterns
  · rename_i v _
    cases v with
    | arr xs => exact mapM_ok (fun _ _ => isInt_pattern) hpatterns
    | _ => cases hpatterns
  · cases hpatterns
    simp

theorem isInt_output {j : Json} {o : OutputDetection} (h : OutputDetection.fromJson j = .ok o) :
    IsInt o.pathGroup := by
  simp only [OutputDetection.fromJson, Json.bind_eq_ok] at h
  obtain ⟨regex, -, group, hgroup, validation, -, info, -, h⟩ := h
  cases h
  exact isInt_field (by decide) hgroup

/-- The numbers of a manifest that was read are of type `int`. -/
theorem isInt_manifest {j : Json} (h : JobManifest.fromJson j = .ok m) :
    IsInt m.frameStart ∧ IsInt m.frameEnd ∧ (∀ n, m.timeoutSeconds = some n → IsInt n) ∧
      (∀ p ∈ m.progress.patterns,
        IsInt p.numeratorGroup ∧ IsInt p.denominatorGroup ∧ IsInt p.group) ∧
      IsInt m.outputDetection.pathGroup := by
  simp only [JobManifest.fromJson, Json.bind_eq_ok] at h
  obtain ⟨_, -, _, -, _, -, _, -, _, -, _, -, _, -, _, -, start, hstart, last, hlast, _, -, _, -,
    timeout, htimeout, _, -, progress, hprogress, output, houtput, _, -, _, -, _, -, h⟩ := h
  cases h
  refine ⟨isInt_field (by decide) hstart, isInt_field (by decide) hlast, ?_, ?_, ?_⟩
  · rintro n rfl
    exact isInt_optField htimeout
  · unfold Json.field at hprogress
    split at hprogress
    · exact isInt_progress hprogress
    · cases hprogress
      intro p hp
      cases hp
  · unfold Json.field at houtput
    split at houtput
    · exact isInt_output houtput
    · cases houtput
      show IsInt 1
      decide

/-- The chunks of a manifest. -/
def IsChunkOf (m : JobManifest) (chunk : ChunkRange) : Prop :=
  ∃ ranges, computeChunks m.frameStart m.frameEnd m.chunkSize = some ranges ∧ chunk ∈ ranges

theorem Accepted.intFields {T : JsonText} (h : Accepted T m) (hchunk : IsChunkOf m chunk) :
    IntFields m chunk := by
  obtain ⟨j, hj⟩ := h.fromJson
  obtain ⟨hstart, hend, htimeout, hgroups, hcapture⟩ := isInt_manifest hj
  obtain ⟨ranges, hranges, hmem⟩ := hchunk
  obtain ⟨hfrom, hle, hto⟩ := computeChunks_within hranges chunk hmem
  unfold IsInt at hstart hend
  exact ⟨⟨⟨by omega, by omega⟩, ⟨by omega, by omega⟩⟩, htimeout, hgroups, hcapture⟩

/-- **The two sides agree exactly on tasks without negative numbers.** For
every accepted manifest and every chunk of it, on every node, staged or not:
the agent reads the message as a task with the same job, frames, command,
working directory, environment, timeout, progress and output detection, if and
only if no frame, no timeout, no group of a pattern sent and no sent capture
group is negative. -/
theorem task_read_iff (T : JsonText) (nodeOS stagingDir : String) (m : JobManifest)
    (chunk : ChunkRange) (haccepted : Accepted T m) (hchunk : IsChunkOf m chunk) :
    (∃ t, Messages.read (buildTaskJson nodeOS stagingDir m chunk) = some (.task t) ∧
      SameTask nodeOS stagingDir m chunk t) ↔ Unsigned m chunk := by
  rw [← @exists_same_iff nodeOS stagingDir m chunk (haccepted.intFields hchunk)]
  constructor
  · rintro ⟨t, -, ht⟩
    exact ⟨t, ht⟩
  · rintro ⟨t, ht⟩
    exact ⟨t, read_task.mpr ht, ht⟩

/-- A library reduced to one posted text, of a job with one frame. -/
def postText (frame : Int) : JsonText where
  parse _ := some (.obj [("manifest", .obj [("job_id", .str "shot"),
    ("frame_start", .int frame), ("frame_end", .int frame)])])
  dump _ := ""

def oneFrame (frame : Int) : JobManifest :=
  { jobId := "shot", frameStart := frame, frameEnd := frame }

theorem first_frame_read :
    ∃ t, Messages.read (buildTaskJson "linux" "" (oneFrame 1) ⟨1, 1⟩) = some (.task t) ∧
      SameTask "linux" "" (oneFrame 1) ⟨1, 1⟩ t :=
  (task_read_iff (postText 1) "linux" "" (oneFrame 1) ⟨1, 1⟩
    (.inl ⟨"", ⟨oneFrame 1, 50⟩, by decide, rfl⟩) ⟨[⟨1, 1⟩], by decide, by decide⟩).mpr
      ⟨by decide, nofun, nofun, nofun⟩

/-- **A task is dropped**: its job starts before frame 0, and is accepted. -/
theorem negative_frame_dropped :
    ¬ ∀ (T : JsonText) (nodeOS stagingDir : String) (m : JobManifest) (chunk : ChunkRange),
      Accepted T m → IsChunkOf m chunk →
        ∃ t, Messages.read (buildTaskJson nodeOS stagingDir m chunk) = some (.task t) ∧
          SameTask nodeOS stagingDir m chunk t := by
  intro h
  obtain ⟨t, -, ht⟩ := h (postText (-5)) "linux" "" (oneFrame (-5)) ⟨-5, -5⟩
    (.inl ⟨"", ⟨oneFrame (-5), 50⟩, by decide, rfl⟩) ⟨[⟨-5, -5⟩], by decide, by decide⟩
  have hstart : (t.frameStart.toNat : Int) = -5 := ht.frameStart
  omega

end MinRender.TaskFormat
