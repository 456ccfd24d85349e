import Mathlib.Data.List.Forall2
import MinRender.Agent.Agent
import MinRender.Core.Json

/-!
# The task message as the agent reads it

The message types of the agent with their derived readers: an unsigned field
takes an integer of its range and nothing else, an optional field may be
missing or null, a field with a default may be missing. A reader gives `none`
where deserialisation fails; the agent then drops the message.
-/

namespace MinRender.Messages

/-! ## The types -/

structure CommandSpec where
  executable : String
  args : List String
deriving DecidableEq, Repr

structure ProgressPatternDef where
  regex : String
  patternType : String
  numeratorGroup : UInt32 := 1
  denominatorGroup : UInt32 := 2
  group : UInt32 := 1
  info : String := ""
deriving DecidableEq, Repr

structure CompletionPatternDef where
  regex : String
  info : String := ""
deriving DecidableEq, Repr

structure ErrorPatternDef where
  regex : String
  info : String := ""
deriving DecidableEq, Repr

structure ProgressSpec where
  patterns : List ProgressPatternDef := []
  completionPattern : Option CompletionPatternDef := none
  errorPatterns : List ErrorPatternDef := []
deriving DecidableEq, Repr

structure OutputConfig where
  regex : Option String
  captureGroup : UInt32 := 1
deriving DecidableEq, Repr

structure TaskMessage where
  jobId : String
  frameStart : UInt32
  frameEnd : UInt32
  command : CommandSpec
  workingDir : Option String := none
  environment : List (String × String) := []
  progress : Option ProgressSpec
  outputDetection : Option OutputConfig
  timeoutSeconds : Option UInt64
deriving DecidableEq, Repr

/-- The chunk of a task, all that `Agent` keeps of it. -/
def TaskMessage.chunk (t : TaskMessage) : MinRender.TaskMessage where
  jobId := t.jobId
  frameStart := t.frameStart.toNat
  frameEnd := t.frameEnd.toNat

/-! ## Readers of values -/

def u32? : Json → Option UInt32
  | .int n => if 0 ≤ n ∧ n < 2 ^ 32 then some (.ofNat n.toNat) else none
  | _ => none

def u64? : Json → Option UInt64
  | .int n => if 0 ≤ n ∧ n < 2 ^ 64 then some (.ofNat n.toNat) else none
  | _ => none

def string? : Json → Option String
  | .str s => some s
  | _ => none

def vec? {α : Type} (read : Json → Option α) : Json → Option (List α)
  | .arr xs => xs.mapM read
  | _ => none

/-- A map of strings, as the list of its entries. -/
def hashMap? : Json → Option (List (String × String))
  | .obj fields => fields.mapM fun kv => (string? kv.2).map fun v => (kv.1, v)
  | _ => none

def option? {α : Type} (read : Json → Option α) : Json → Option (Option α)
  | .null => some none
  | j => (read j).map some

/-! ## Readers of fields -/

section Fields

variable {α : Type} (read : Json → Option α) (key : String) (fields : List (String × Json))

def requiredField : Option α := (fields.lookup key).bind read

def optionalField : Option (Option α) :=
  match fields.lookup key with
  | some v => option? read v
  | none => some none

def fieldOr (fallback : α) : Option α :=
  match fields.lookup key with
  | some v => read v
  | none => some fallback

end Fields

/-! ## Readers of messages -/

def CommandSpec.read : Json → Option CommandSpec
  | .obj f => do
      return {
        executable := ← requiredField string? "executable" f
        args := ← requiredField (vec? string?) "args" f }
  | _ => none

def ProgressPatternDef.read : Json → Option ProgressPatternDef
  | .obj f => do
      return {
        regex := ← requiredField string? "regex" f
        patternType := ← requiredField string? "type" f
        numeratorGroup := ← fieldOr u32? "numerator_group" f 1
        denominatorGroup := ← fieldOr u32? "denominator_group" f 2
        group := ← fieldOr u32? "group" f 1
        info := ← fieldOr string? "info" f "" }
  | _ => none

def CompletionPatternDef.read : Json → Option CompletionPatternDef
  | .obj f => do
      return {
        regex := ← requiredField string? "regex" f
        info := ← fieldOr string? "info" f "" }
  | _ => none

def ErrorPatternDef.read : Json → Option ErrorPatternDef
  | .obj f => do
      return {
        regex := ← requiredField string? "regex" f
        info := ← fieldOr string? "info" f "" }
  | _ => none

def ProgressSpec.read : Json → Option ProgressSpec
  | .obj f => do
      return {
        patterns := ← fieldOr (vec? ProgressPatternDef.read) "patterns" f []
        completionPattern := ← optionalField CompletionPatternDef.read "completion_pattern" f
        errorPatterns := ← fieldOr (vec? ErrorPatternDef.read) "error_patterns" f [] }
  | _ => none

def OutputConfig.read : Json → Option OutputConfig
  | .obj f => do
      return {
        regex := ← optionalField string? "regex" f
        captureGroup := ← fieldOr u32? "capture_group" f 1 }
  | _ => none

def TaskMessage.read (f : List (String × Json)) : Option TaskMessage := do
  return {
    jobId := ← requiredField string? "job_id" f
    frameStart := ← requiredField u32? "frame_start" f
    frameEnd := ← requiredField u32? "frame_end" f
    command := ← requiredField CommandSpec.read "command" f
    workingDir := ← optionalField string? "working_dir" f
    environment := ← fieldOr hashMap? "environment" f []
    progress := ← optionalField ProgressSpec.read "progress" f
    outputDetection := ← optionalField OutputConfig.read "output_detection" f
    timeoutSeconds := ← optionalField u64? "timeout_seconds" f }

/-- `serde_json::from_slice::<MonitorToAgent>`, on the value of the payload. -/
def read : Json → Option (MonitorToAgent TaskMessage)
  | .obj f => do
      let type ← requiredField string? "type" f
      if type = "ping" then return .ping
      else if type = "shutdown" then return .shutdown
      else if type = "task" then return .task (← TaskMessage.read f)
      else if type = "abort" then return .abort (← requiredField string? "reason" f)
      else none
  | _ => none

/-! ## What the readers accept -/

theorem u32?_int {n : Int} {u : UInt32} : u32? (.int n) = some u ↔ (u.toNat : Int) = n := by
  show (if 0 ≤ n ∧ n < 2 ^ 32 then some (UInt32.ofNat n.toNat) else none) = some u ↔ _
  constructor
  · intro h
    by_cases hn : 0 ≤ n ∧ n < 2 ^ 32
    · rw [if_pos hn] at h
      have hlt : n.toNat < 2 ^ 32 := by omega
      rw [← Option.some.inj h, UInt32.toNat_ofNat_of_lt' hlt]
      exact Int.toNat_of_nonneg hn.1
    · rw [if_neg hn] at h
      cases h
  · rintro rfl
    have hlt : u.toNat < 2 ^ 32 := u.toNat_lt
    rw [if_pos (by omega)]
    simp

theorem u64?_int {n : Int} {u : UInt64} : u64? (.int n) = some u ↔ (u.toNat : Int) = n := by
  show (if 0 ≤ n ∧ n < 2 ^ 64 then some (UInt64.ofNat n.toNat) else none) = some u ↔ _
  constructor
  · intro h
    by_cases hn : 0 ≤ n ∧ n < 2 ^ 64
    · rw [if_pos hn] at h
      have hlt : n.toNat < 2 ^ 64 := by omega
      rw [← Option.some.inj h, UInt64.toNat_ofNat_of_lt' hlt]
      exact Int.toNat_of_nonneg hn.1
    · rw [if_neg hn] at h
      cases h
  · rintro rfl
    have hlt : u.toNat < 2 ^ 64 := u.toNat_lt
    rw [if_pos (by omega)]
    simp

/-- The integers an unsigned field can hold. -/
theorem exists_u32 {n : Int} : (∃ u : UInt32, (u.toNat : Int) = n) ↔ 0 ≤ n ∧ n < 2 ^ 32 := by
  constructor
  · rintro ⟨u, rfl⟩
    have hlt : u.toNat < 2 ^ 32 := u.toNat_lt
    omega
  · rintro ⟨hpos, hlt⟩
    have hlt : n.toNat < 2 ^ 32 := by omega
    refine ⟨.ofNat n.toNat, ?_⟩
    rw [UInt32.toNat_ofNat_of_lt' hlt]
    exact Int.toNat_of_nonneg hpos

theorem exists_u64 {n : Int} : (∃ u : UInt64, (u.toNat : Int) = n) ↔ 0 ≤ n ∧ n < 2 ^ 64 := by
  constructor
  · rintro ⟨u, rfl⟩
    have hlt : u.toNat < 2 ^ 64 := u.toNat_lt
    omega
  · rintro ⟨hpos, hlt⟩
    have hlt : n.toNat < 2 ^ 64 := by omega
    refine ⟨.ofNat n.toNat, ?_⟩
    rw [UInt64.toNat_ofNat_of_lt' hlt]
    exact Int.toNat_of_nonneg hpos

/-- A message of type `task` is read as one. -/
theorem read_eq_task {f : List (String × Json)} {t : TaskMessage}
    (htype : requiredField string? "type" f = some "task") :
    read (.obj f) = some (.task t) ↔ TaskMessage.read f = some t := by
  have hread : read (.obj f) = (TaskMessage.read f).bind fun t => some (.task t) := by
    simp only [read, htype]
    rfl
  rw [hread]
  constructor
  · intro h
    obtain ⟨u, hu, h⟩ := Option.bind_eq_some_iff.mp h
    cases h
    exact hu
  · intro h
    rw [h]
    rfl

/-- A list is read entry by entry. -/
theorem mapM_eq_some {α β : Type} {read : α → Option β} {xs : List α} {ys : List β} :
    xs.mapM read = some ys ↔ List.Forall₂ (fun x y => read x = some y) xs ys := by
  induction xs generalizing ys with
  | nil =>
      rw [List.forall₂_nil_left_iff]
      exact ⟨fun h => (Option.some.inj h).symm, fun h => congrArg some h.symm⟩
  | cons x xs ih =>
      rw [List.mapM_cons]
      constructor
      · intro h
        obtain ⟨y, hy, h⟩ := Option.bind_eq_some_iff.mp h
        obtain ⟨rest, hrest, h⟩ := Option.bind_eq_some_iff.mp h
        cases h
        exact .cons hy (ih.mp hrest)
      · intro h
        cases h with
        | cons hy hrest => simp [hy, ih.mpr hrest]

/-- What is written from a list is read back entry by entry. -/
theorem vec?_map {α β : Type} {read : Json → Option β} {write : α → Json} {xs : List α}
    {ys : List β} : vec? read (.arr (xs.map write)) = some ys ↔
      List.Forall₂ (fun x y => read (write x) = some y) xs ys := by
  unfold vec?
  rw [mapM_eq_some, List.forall₂_map_left_iff]

theorem vec?_strings {xs ys : List String} :
    vec? string? (.arr (xs.map .str)) = some ys ↔ ys = xs := by
  rw [vec?_map]
  show List.Forall₂ (fun x y : String => some x = some y) xs ys ↔ _
  simp only [Option.some.injEq]
  rw [List.forall₂_eq_eq_eq, eq_comm]

theorem hashMap?_strings {m m' : List (String × String)} :
    hashMap? (.obj (m.map fun kv => (kv.1, .str kv.2))) = some m' ↔ m' = m := by
  unfold hashMap?
  rw [mapM_eq_some, List.forall₂_map_left_iff]
  show List.Forall₂ (fun x y : String × String => some x = some y) m m' ↔ _
  simp only [Option.some.injEq]
  rw [List.forall₂_eq_eq_eq, eq_comm]

end MinRender.Messages
