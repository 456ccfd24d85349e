import Mathlib.Data.List.Sort
import Mathlib.Data.String.Basic
import MinRender.Core.JobTypes

/-!
# Manifests in storage

A manifest is written as JSON when it is stored and read back on every
resubmission, dispatch and edit. The library keeps the fields of an object in
the order of their keys, which no read of a manifest sees. What a read loses is
what was never written: the group numbers that a pattern's type does not use.
-/

namespace MinRender

namespace Json

/-! ## The order of the fields -/

def keyOrder {α : Type*} (a b : String × α) : Prop := a.1 ≤ b.1

instance {α : Type*} : DecidableRel (keyOrder (α := α)) := fun a b =>
  inferInstanceAs (Decidable (a.1 ≤ b.1))

mutual

/-- The value with the fields of its objects in the order of their keys, as the
library holds it. -/
def sorted : Json → Json
  | .arr xs => .arr (sortedAll xs)
  | .obj fields => .obj ((sortedFields fields).insertionSort keyOrder)
  | j => j

def sortedAll : List Json → List Json
  | [] => []
  | x :: xs => sorted x :: sortedAll xs

def sortedFields : List (String × Json) → List (String × Json)
  | [] => []
  | (key, v) :: fields => (key, sorted v) :: sortedFields fields

end

theorem sortedAll_eq (xs : List Json) : sortedAll xs = xs.map sorted := by
  induction xs with
  | nil => rfl
  | cons x xs ih => exact congrArg (sorted x :: ·) ih

theorem lookup_sortedFields (fields : List (String × Json)) (key : String) :
    (sortedFields fields).lookup key = (fields.lookup key).map sorted := by
  induction fields with
  | nil => rfl
  | cons kv fields ih =>
      obtain ⟨k, v⟩ := kv
      rw [sortedFields, List.lookup_cons, List.lookup_cons]
      cases key == k with
      | true => rfl
      | false => exact ih

/-- A field is found wherever it stands. -/
theorem lookup_orderedInsert {α : Type*} (key : String) (kv : String × α)
    (fields : List (String × α)) :
    (fields.orderedInsert keyOrder kv).lookup key = (kv :: fields).lookup key := by
  induction fields with
  | nil => rfl
  | cons kv' fields ih =>
      by_cases hle : keyOrder kv kv'
      · rw [List.orderedInsert_cons_of_le _ _ hle]
      · rw [List.orderedInsert_of_not_le _ _ hle, List.lookup_cons, ih]
        -- the two keys differ
        have hne : kv.1 ≠ kv'.1 := fun heq => hle (le_of_eq heq)
        rw [List.lookup_cons, List.lookup_cons, List.lookup_cons]
        by_cases hkey : key = kv'.1
        · have hother : (key == kv.1) = false := beq_false_of_ne (hkey ▸ Ne.symm hne)
          rw [hother]
        · rw [beq_false_of_ne hkey]

theorem lookup_insertionSort {α : Type*} (key : String) (fields : List (String × α)) :
    (fields.insertionSort keyOrder).lookup key = fields.lookup key := by
  induction fields with
  | nil => rfl
  | cons kv fields ih =>
      rw [List.insertionSort_cons, lookup_orderedInsert, List.lookup_cons, List.lookup_cons, ih]

theorem find?_sorted (j : Json) (key : String) :
    j.sorted.find? key = (j.find? key).map sorted := by
  cases j with
  | obj fields =>
      show ((sortedFields fields).insertionSort _).lookup key = _
      rw [lookup_insertionSort, lookup_sortedFields]
      rfl
  | _ => rfl

section Reads

variable {α : Type} {get : Json → Except JsonError α} {key : String} {fallback : α} {j v : Json}

/-- Reading a field the object has. -/
theorem field_sorted (h : j.find? key = some v) :
    j.sorted.field get key fallback = get v.sorted := by
  unfold field
  rw [find?_sorted, h]
  rfl

theorem field_absent (key : String) (h : j.find? key = none) :
    j.sorted.field get key fallback = .ok fallback := by
  unfold field
  rw [find?_sorted, h]
  rfl

/-- Reading an optional member, which is written as null where it is empty. -/
theorem optField_sorted (write : α → Json) {a : Option α}
    (h : j.find? key = some (match a with | some x => write x | none => .null))
    (hwrite : ∀ x, (write x).sorted ≠ .null)
    (hget : ∀ x, a = some x → get (write x).sorted = .ok x) :
    j.sorted.optField get key = .ok a := by
  unfold optField
  rw [find?_sorted, h]
  cases a with
  | none => rfl
  | some x =>
      have hread : some <$> get (write x).sorted = .ok (some x) := by
        rw [hget x rfl]
        rfl
      rw [Option.map_some]
      dsimp only
      split
      · rename_i hnull
        exact absurd (Option.some.inj hnull) (hwrite x)
      · rename_i hnone
        cases hnone
      · rename_i v _ hv
        rw [← Option.some.inj hv]
        exact hread

end Reads

/-- Reading an array of written records. -/
theorem getArray_sorted {α β : Type} {get : Json → Except JsonError β} {write : α → Json}
    {read : α → β} {xs : List α} (h : ∀ a ∈ xs, get (write a).sorted = .ok (read a)) :
    getArray get (Json.arr (xs.map write)).sorted = .ok (xs.map read) := by
  show (sortedAll (xs.map write)).mapM get = _
  rw [sortedAll_eq, List.map_map]
  induction xs with
  | nil => rfl
  | cons x xs ih =>
      rw [List.map_cons, List.mapM_cons, Function.comp_apply, h x List.mem_cons_self, List.map_cons]
      show ((xs.map (sorted ∘ write)).mapM get >>= fun rest => pure (read x :: rest)) = _
      rw [ih fun a ha => h a (List.mem_cons_of_mem _ ha)]
      rfl

theorem getArray_same {α : Type} {get : Json → Except JsonError α} {write : α → Json}
    {xs : List α} (h : ∀ a ∈ xs, get (write a).sorted = .ok a) :
    getArray get (Json.arr (xs.map write)).sorted = .ok xs := by
  have hread := getArray_sorted h
  rwa [List.map_id'] at hread

theorem getInt_int {n : Int} (h : int32? n = some n) : getInt (.int n) = .ok n := by
  have hrange : -2 ^ 31 ≤ n ∧ n < 2 ^ 31 := by
    unfold int32? at h
    split at h
    · assumption
    · cases h
  show Except.ok (toSigned 32 n) = _
  unfold toSigned
  rw [Int.bmod_eq_of_le (by omega) (by omega)]

theorem getInt64_int {n : Int} (h : -2 ^ 63 ≤ n ∧ n < 2 ^ 63) : getInt64 (.int n) = .ok n := by
  show Except.ok (toSigned 64 n) = _
  unfold toSigned
  rw [Int.bmod_eq_of_le (by omega) (by omega)]

/-- The two reads of an object's field agree. -/
theorem value_eq_field {α : Type} {get : Json → Except JsonError α} {key : String} {fallback : α}
    {j : Json} (h : j.isObject = true) : j.value get key fallback = j.field get key fallback := by
  cases j with
  | obj fields => rfl
  | _ => cases h

section Fields

variable {j : Json}

theorem field_str (key s : String) {fallback : String} (h : j.find? key = some (.str s)) :
    j.sorted.field getString key fallback = .ok s :=
  field_sorted h

theorem field_int (key : String) (n : Int) {fallback : Int} (h : j.find? key = some (.int n))
    (hn : int32? n = some n) : j.sorted.field getInt key fallback = .ok n :=
  (field_sorted h).trans (getInt_int hn)

theorem field_int64 (key : String) (n : Int) {fallback : Int} (h : j.find? key = some (.int n))
    (hn : -2 ^ 63 ≤ n ∧ n < 2 ^ 63) : j.sorted.field getInt64 key fallback = .ok n :=
  (field_sorted h).trans (getInt64_int hn)

theorem field_bool {key : String} {b fallback : Bool} (h : j.find? key = some (.bool b)) :
    j.sorted.field getBool key fallback = .ok b :=
  field_sorted h

end Fields

/-- A map in the order of its keys is held as it was written. -/
theorem sorted_stringMap {m : List (String × String)} (h : m.Pairwise fun a b => a.1 < b.1) :
    (Json.obj (m.map fun kv => (kv.1, .str kv.2))).sorted =
      .obj (m.map fun kv => (kv.1, .str kv.2)) := by
  have hsame : sortedFields (m.map fun kv => (kv.1, Json.str kv.2)) =
      m.map fun kv => (kv.1, Json.str kv.2) := by
    clear h
    induction m with
    | nil => rfl
    | cons kv m ih => exact congrArg ((kv.1, Json.str kv.2) :: ·) ih
  show Json.obj ((sortedFields _).insertionSort keyOrder) = _
  rw [hsame]
  refine congrArg Json.obj (List.Pairwise.insertionSort_eq ?_)
  exact List.pairwise_map.mpr (h.imp fun hlt => le_of_lt hlt)

theorem getStringMap_sorted {m : List (String × String)} (h : m.Pairwise fun a b => a.1 < b.1) :
    getStringMap (Json.obj (m.map fun kv => (kv.1, .str kv.2))).sorted = .ok m := by
  rw [sorted_stringMap h]
  show (m.map fun kv => (kv.1, Json.str kv.2)).mapM _ = _
  clear h
  induction m with
  | nil => rfl
  | cons kv m ih =>
      rw [List.map_cons, List.mapM_cons, ih]
      rfl

end Json

namespace ManifestCodec
open Json

/-! ## What a manifest holds -/

/-- The value is an `int`. -/
def IsInt (n : Int) : Prop := int32? n = some n

instance (n : Int) : Decidable (IsInt n) := inferInstanceAs (Decidable (_ = _))

/-- A `std::map`: the keys are different and in order. -/
def IsMap (m : List (String × String)) : Prop := m.Pairwise fun a b => a.1 < b.1

/-- The types of the fields of a manifest. -/
structure Typed (m : JobManifest) : Prop where
  version : IsInt m.version
  submittedAtMs : -2 ^ 63 ≤ m.submittedAtMs ∧ m.submittedAtMs < 2 ^ 63
  cmd : IsMap m.cmd
  frameStart : IsInt m.frameStart
  frameEnd : IsInt m.frameEnd
  chunkSize : IsInt m.chunkSize
  maxRetries : IsInt m.maxRetries
  timeoutSeconds : ∀ n, m.timeoutSeconds = some n → IsInt n
  groups : ∀ p ∈ m.progress.patterns,
    IsInt p.numeratorGroup ∧ IsInt p.denominatorGroup ∧ IsInt p.group
  pathGroup : IsInt m.outputDetection.pathGroup
  environment : IsMap m.environment

/-! ## What is read back -/

/-- The pattern with the group numbers its type does not use at their
defaults. -/
def usedGroups (p : ProgressPattern) : ProgressPattern :=
  let d : ProgressPattern := {}
  if p.type = "fraction" then { p with group := d.group }
  else { p with numeratorGroup := d.numeratorGroup, denominatorGroup := d.denominatorGroup }

def readBack (m : JobManifest) : JobManifest :=
  { m with progress := { m.progress with patterns := m.progress.patterns.map usedGroups } }

theorem usedGroups_toJson (p : ProgressPattern) : (usedGroups p).toJson = p.toJson := by
  unfold usedGroups
  dsimp only
  by_cases htype : p.type = "fraction"
  · rw [if_pos htype]
    unfold ProgressPattern.toJson
    rw [if_pos htype, if_pos htype]
  · rw [if_neg htype]
    unfold ProgressPattern.toJson
    rw [if_neg htype, if_neg htype]

/-- What is read back is written the same. -/
theorem readBack_toJson (m : JobManifest) : (readBack m).toJson = m.toJson := by
  have hpatterns : (m.progress.patterns.map usedGroups).map (·.toJson) =
      m.progress.patterns.map (·.toJson) := by
    rw [List.map_map]
    exact List.map_congr_left fun p _ => usedGroups_toJson p
  unfold readBack JobManifest.toJson ProgressConfig.toJson
  dsimp only
  rw [hpatterns]

/-! ## Records -/

theorem progressPattern_read {p : ProgressPattern}
    (h : IsInt p.numeratorGroup ∧ IsInt p.denominatorGroup ∧ IsInt p.group) :
    ProgressPattern.fromJson p.toJson.sorted = .ok (usedGroups p) := by
  obtain ⟨hnum, hden, hgroup⟩ := h
  unfold ProgressPattern.fromJson usedGroups
  dsimp only
  by_cases htype : p.type = "fraction"
  · have hjson : p.toJson = .obj [("regex", .str p.regex), ("type", .str p.type),
        ("info", .str p.info), ("numerator_group", .int p.numeratorGroup),
        ("denominator_group", .int p.denominatorGroup)] := by
      unfold ProgressPattern.toJson
      rw [if_pos htype]
      rfl
    rw [hjson, if_pos htype, field_str "regex" p.regex rfl, field_str "type" p.type rfl,
      field_int "numerator_group" p.numeratorGroup rfl hnum,
      field_int "denominator_group" p.denominatorGroup rfl hden,
      field_absent "group" rfl, field_str "info" p.info rfl]
    rfl
  · have hjson : p.toJson = .obj [("regex", .str p.regex), ("type", .str p.type),
        ("info", .str p.info), ("group", .int p.group)] := by
      unfold ProgressPattern.toJson
      rw [if_neg htype]
      rfl
    rw [hjson, if_neg htype, field_str "regex" p.regex rfl, field_str "type" p.type rfl,
      field_absent "numerator_group" rfl, field_absent "denominator_group" rfl,
      field_int "group" p.group rfl hgroup, field_str "info" p.info rfl]
    rfl

theorem completionPattern_read (p : CompletionPattern) :
    CompletionPattern.fromJson p.toJson.sorted = .ok p := by
  unfold CompletionPattern.fromJson
  rw [field_str "regex" p.regex rfl, field_str "info" p.info rfl]
  rfl

theorem errorPattern_read (p : ErrorPattern) :
    ErrorPattern.fromJson p.toJson.sorted = .ok p := by
  unfold ErrorPattern.fromJson
  rw [field_str "regex" p.regex rfl, field_str "info" p.info rfl]
  rfl

theorem manifestFlag_read (f : ManifestFlag) :
    ManifestFlag.fromJson f.toJson.sorted = .ok f := by
  have hflag : f.toJson.sorted.field getString "flag" "" = .ok f.flag := field_str "flag" f.flag rfl
  have hvalue : f.toJson.sorted.optField getString "value" = .ok f.value :=
    optField_sorted .str rfl (fun _ => nofun) fun _ _ => rfl
  have houtput : f.toJson.sorted.field getBool "is_output" false = .ok f.isOutput := by
    cases ho : f.isOutput with
    | true =>
        refine field_bool ?_
        unfold ManifestFlag.toJson
        rw [ho]
        rfl
    | false =>
        refine field_absent _ ?_
        unfold ManifestFlag.toJson
        rw [ho]
        rfl
  unfold ManifestFlag.fromJson
  rw [hflag, hvalue, houtput]
  rfl

theorem progressConfig_read {c : ProgressConfig}
    (h : ∀ p ∈ c.patterns, IsInt p.numeratorGroup ∧ IsInt p.denominatorGroup ∧ IsInt p.group) :
    ProgressConfig.fromJson c.toJson.sorted =
      .ok { c with patterns := c.patterns.map usedGroups } := by
  have hpatterns : c.toJson.sorted.field (getArray ProgressPattern.fromJson) "patterns" [] =
      .ok (c.patterns.map usedGroups) :=
    (field_sorted rfl).trans (getArray_sorted fun p hp => progressPattern_read (h p hp))
  have hcompletion : c.toJson.sorted.optField CompletionPattern.fromJson "completion_pattern" =
      .ok c.completionPattern :=
    optField_sorted CompletionPattern.toJson rfl (fun _ => nofun)
      fun p _ => completionPattern_read p
  have herror : c.toJson.sorted.field (getArray ErrorPattern.fromJson) "error_patterns" [] =
      .ok c.errorPatterns :=
    (field_sorted rfl).trans (getArray_same fun p _ => errorPattern_read p)
  unfold ProgressConfig.fromJson
  rw [hpatterns, hcompletion, herror]
  rfl

theorem outputDetection_read {o : OutputDetection} (h : IsInt o.pathGroup) :
    OutputDetection.fromJson o.toJson.sorted = .ok o := by
  have hregex : o.toJson.sorted.optField getString "stdout_regex" = .ok o.stdoutRegex :=
    optField_sorted .str rfl (fun _ => nofun) fun _ _ => rfl
  unfold OutputDetection.fromJson
  dsimp only
  rw [hregex, field_int "path_group" o.pathGroup rfl h,
    field_str "validation" o.validation rfl,
    field_str "info" o.info rfl]
  rfl

theorem processConfig_read (p : ProcessConfig) :
    ProcessConfig.fromJson p.toJson.sorted = .ok p := by
  have hdir : p.toJson.sorted.optField getString "working_dir" = .ok p.workingDir :=
    optField_sorted .str rfl (fun _ => nofun) fun _ _ => rfl
  unfold ProcessConfig.fromJson
  rw [hdir]
  rfl

/-- **A manifest is read back**, in whatever order the library holds its
fields. -/
theorem jobManifest_read {m : JobManifest} (h : Typed m) :
    JobManifest.fromJson m.toJson.sorted = .ok (readBack m) := by
  have hflags : m.toJson.sorted.field (getArray ManifestFlag.fromJson) "flags" [] =
      .ok m.flags :=
    (field_sorted rfl).trans (getArray_same fun f _ => manifestFlag_read f)
  have htags : m.toJson.sorted.field (getArray getString) "tags_required" [] =
      .ok m.tagsRequired :=
    (field_sorted rfl).trans (getArray_same fun _ _ => rfl)
  have htimeout : m.toJson.sorted.optField getInt "timeout_seconds" = .ok m.timeoutSeconds :=
    optField_sorted .int rfl (fun _ => nofun) fun n hn =>
      getInt_int (h.timeoutSeconds n hn)
  have houtput : m.toJson.sorted.optField getString "output_dir" = .ok m.outputDir :=
    optField_sorted .str rfl (fun _ => nofun) fun _ _ => rfl
  have hcmd : m.toJson.sorted.field getStringMap "cmd" [] = .ok m.cmd :=
    (field_sorted rfl).trans (getStringMap_sorted h.cmd)
  have henvironment : m.toJson.sorted.field getStringMap "environment" [] = .ok m.environment :=
    (field_sorted rfl).trans (getStringMap_sorted h.environment)
  have hprogress : m.toJson.sorted.field ProgressConfig.fromJson "progress" {} =
      .ok (readBack m).progress :=
    (field_sorted rfl).trans (progressConfig_read h.groups)
  have hdetection : m.toJson.sorted.field OutputDetection.fromJson "output_detection" {} =
      .ok m.outputDetection :=
    (field_sorted rfl).trans (outputDetection_read h.pathGroup)
  have hprocess : m.toJson.sorted.field ProcessConfig.fromJson "process" {} = .ok m.process :=
    (field_sorted rfl).trans (processConfig_read m.process)
  unfold JobManifest.fromJson
  dsimp only
  rw [field_int "_version" m.version rfl h.version,
    field_str "job_id" m.jobId rfl,
    field_str "template_id" m.templateId rfl,
    field_str "submitted_by" m.submittedBy rfl,
    field_str "submitted_os" m.submittedOs rfl,
    field_int64 "submitted_at_ms" m.submittedAtMs rfl h.submittedAtMs, hcmd, hflags,
    field_int "frame_start" m.frameStart rfl h.frameStart,
    field_int "frame_end" m.frameEnd rfl h.frameEnd,
    field_int "chunk_size" m.chunkSize rfl h.chunkSize,
    field_int "max_retries" m.maxRetries rfl h.maxRetries, htimeout, houtput,
    hprogress, hdetection, hprocess, henvironment, htags]
  rfl

/-! ## Storing, resubmitting, dispatching and editing -/

/-- A pattern up to the group numbers its type does not use. -/
def SamePattern (p p' : ProgressPattern) : Prop :=
  p'.regex = p.regex ∧ p'.type = p.type ∧ p'.info = p.info ∧
    if p.type = "fraction" then
      p'.numeratorGroup = p.numeratorGroup ∧ p'.denominatorGroup = p.denominatorGroup
    else p'.group = p.group

/-- A manifest up to the group numbers its patterns do not use. -/
structure SameManifest (m m' : JobManifest) : Prop where
  patterns : List.Forall₂ SamePattern m.progress.patterns m'.progress.patterns
  others : m' = { m with progress := { m.progress with patterns := m'.progress.patterns } }

/-- What the library makes of a manifest: it reads back what it wrote, and the
order in which the fields were set does not show in the text. -/
structure Keeps (T : JsonText) (m : JobManifest) : Prop where
  parse_dump : T.parse (T.dump m.toJson) = some m.toJson.sorted
  dump_sorted : T.dump m.toJson.sorted = T.dump m.toJson

/-- What is done with the text of a stored manifest. -/
inductive Cycle
  /-- `submitJob` of a manifest that was read -/
  | store
  /-- `resubmitJob`: a new id and time -/
  | resubmit (newJobId : String) (nowMs : Int)
  /-- `assignWork` passes the parsed text on without reading it -/
  | dispatch
  /-- `applyJobEdit`: fetched, read, written, sent to the leader and dumped
  there -/
  | edit
deriving DecidableEq, Repr

/-- The manifest after a cycle. -/
def Cycle.renamed (m : JobManifest) : Cycle → JobManifest
  | .resubmit newJobId nowMs => { m with jobId := newJobId, submittedAtMs := nowMs }
  | .store | .dispatch | .edit => m

def Cycle.InRange : Cycle → Prop
  | .resubmit _ nowMs => -2 ^ 63 ≤ nowMs ∧ nowMs < 2 ^ 63
  | .store | .dispatch | .edit => True

/-- Parsed and dumped again. -/
def passOn (T : JsonText) (text : String) : Option String := (T.parse text).map T.dump

/-- Read as a manifest and dumped again. -/
def rewrite (T : JsonText) (f : JobManifest → JobManifest) (text : String) : Option String :=
  (T.manifest? text).map fun m => T.dump (f m).toJson

/-- The text after a cycle. -/
def Cycle.apply (T : JsonText) (text : String) : Cycle → Option String
  | .store => rewrite T id text
  | .resubmit newJobId nowMs => rewrite T (Cycle.renamed · (.resubmit newJobId nowMs)) text
  | .dispatch => passOn T text
  | .edit => (passOn T text).bind fun fetched => (rewrite T id fetched).bind (passOn T)

/-- The manifests that are written on the way. -/
def written (m : JobManifest) (cycles : List Cycle) : List JobManifest :=
  cycles.scanl Cycle.renamed m

variable {T : JsonText} {m : JobManifest} {cycles : List Cycle}

theorem samePattern_usedGroups (p : ProgressPattern) : SamePattern p (usedGroups p) := by
  unfold SamePattern usedGroups
  dsimp only
  split
  · exact ⟨rfl, rfl, rfl, rfl, rfl⟩
  · exact ⟨rfl, rfl, rfl, rfl⟩

theorem sameManifest_readBack (m : JobManifest) : SameManifest m (readBack m) where
  patterns := List.forall₂_map_right_iff.mpr
    (List.forall₂_same.mpr fun p _ => samePattern_usedGroups p)
  others := rfl

theorem manifest?_dump (hT : Keeps T m) (hm : Typed m) :
    T.manifest? (T.dump m.toJson) = some (readBack m) := by
  unfold JsonText.manifest?
  rw [hT.parse_dump]
  dsimp only
  rw [jobManifest_read hm]
  rfl

theorem passOn_dump (hT : Keeps T m) : passOn T (T.dump m.toJson) = some (T.dump m.toJson) := by
  unfold passOn
  rw [hT.parse_dump, Option.map_some, hT.dump_sorted]

theorem rewrite_dump (hT : Keeps T m) (hm : Typed m) {f : JobManifest → JobManifest}
    (hf : f (readBack m) = readBack (f m)) :
    rewrite T f (T.dump m.toJson) = some (T.dump (f m).toJson) := by
  unfold rewrite
  rw [manifest?_dump hT hm, Option.map_some, hf, readBack_toJson]

/-- One cycle leaves the text of the manifest it leaves. -/
theorem Cycle.apply_dump (hT : Keeps T m) (hm : Typed m) (c : Cycle) :
    c.apply T (T.dump m.toJson) = some (T.dump (c.renamed m).toJson) := by
  cases c with
  | store => exact rewrite_dump hT hm rfl
  | resubmit newJobId nowMs => exact rewrite_dump hT hm rfl
  | dispatch => exact passOn_dump hT
  | edit =>
      have hpass := passOn_dump hT
      have hrewrite := rewrite_dump hT hm (f := id) rfl
      unfold Cycle.apply
      rw [hpass, Option.bind_some, hrewrite, Option.bind_some]
      exact hpass

theorem typed_renamed (hm : Typed m) {c : Cycle} (hc : c.InRange) : Typed (c.renamed m) := by
  cases c with
  | store | dispatch | edit => exact hm
  | resubmit newJobId nowMs => exact { hm with submittedAtMs := hc }

theorem written_cons (c : Cycle) :
    written m (c :: cycles) = m :: written (c.renamed m) cycles := List.scanl_cons

theorem cycles_dump (hm : Typed m) (hcycles : ∀ c ∈ cycles, c.InRange)
    (hT : ∀ m' ∈ written m cycles, Keeps T m') :
    cycles.foldlM (Cycle.apply T) (T.dump m.toJson) =
      some (T.dump (cycles.foldl Cycle.renamed m).toJson) := by
  induction cycles generalizing m with
  | nil => rfl
  | cons c cycles ih =>
      rw [written_cons] at hT
      obtain ⟨hc, hrest⟩ := List.forall_mem_cons.mp hcycles
      obtain ⟨hfirst, hlater⟩ := List.forall_mem_cons.mp hT
      rw [List.foldlM_cons, Cycle.apply_dump hfirst hm c]
      exact ih (typed_renamed hm hc) hrest hlater

/-- **Manifests do not drift through storage**: what is read back differs only
in group numbers that are not used, is written the same, and any cycles leave
the text unchanged but for the id and time a resubmission sets. -/
theorem manifest_does_not_drift (T : JsonText) (m : JobManifest) (cycles : List Cycle)
    (hm : Typed m) (hcycles : ∀ c ∈ cycles, c.InRange)
    (hT : ∀ m' ∈ written m cycles, Keeps T m') :
    (∃ m', T.manifest? (T.dump m.toJson) = some m' ∧ SameManifest m m' ∧
      m'.toJson = m.toJson) ∧
    cycles.foldlM (Cycle.apply T) (T.dump m.toJson) =
      some (T.dump (cycles.foldl Cycle.renamed m).toJson) := by
  have hfirst : Keeps T m := by
    refine hT m ?_
    cases cycles with
    | nil => exact List.mem_singleton.mpr rfl
    | cons c cycles =>
        rw [written_cons]
        exact List.mem_cons_self
  exact ⟨⟨readBack m, manifest?_dump hfirst hm, sameManifest_readBack m, readBack_toJson m⟩,
    cycles_dump hm hcycles hT⟩

/-- A job with a progress pattern that counts frames. -/
def shot : JobManifest where
  jobId := "shot"
  flags := [{ flag := "-o", value := some "Z:\\a.exr", isOutput := true }]
  progress := { patterns := [{ regex := "Fra:(\\d+)", type := "frame", numeratorGroup := 5 }] }

/-- The texts of the job and of its resubmission. -/
def shotJson (jobId submittedAtMs : String) : String :=
  "\x7b\"_version\":1,\"chunk_size\":1,\"cmd\":\x7b\x7d,\"environment\":\x7b\x7d," ++
  "\"flags\":[\x7b\"flag\":\"-o\",\"is_output\":true,\"value\":\"Z:\\\\a.exr\"\x7d]," ++
  "\"frame_end\":250,\"frame_start\":1,\"job_id\":\"" ++ jobId ++ "\",\"max_retries\":3," ++
  "\"output_detection\":\x7b\"info\":\"\",\"path_group\":1,\"stdout_regex\":null," ++
  "\"validation\":\"exit_code_only\"\x7d,\"output_dir\":null,\"process\":" ++
  "\x7b\"working_dir\":null\x7d,\"progress\":\x7b\"completion_pattern\":null," ++
  "\"error_patterns\":[],\"patterns\":[\x7b\"group\":1,\"info\":\"\"," ++
  "\"regex\":\"Fra:(\\\\d+)\",\"type\":\"frame\"\x7d]\x7d,\"submitted_at_ms\":" ++ submittedAtMs ++
  ",\"submitted_by\":\"\",\"submitted_os\":\"\",\"tags_required\":[],\"template_id\":\"\"," ++
  "\"timeout_seconds\":null\x7d"

/-- Its resubmission. -/
def shotV2 : JobManifest := { shot with jobId := "shot-v2", submittedAtMs := 1001 }

/-- A library reduced to these two texts. -/
def shotLibrary : JsonText where
  dump j :=
    match j.find? "job_id" with
    | some (.str "shot-v2") => shotJson "shot-v2" "1001"
    | _ => shotJson "shot" "0"
  parse text :=
    if text = shotJson "shot" "0" then some shot.toJson.sorted
    else if text = shotJson "shot-v2" "1001" then some shotV2.toJson.sorted
    else none

theorem shotLibrary_dump_sorted (j : Json) : shotLibrary.dump j.sorted = shotLibrary.dump j := by
  unfold shotLibrary
  dsimp only
  rw [find?_sorted]
  cases j.find? "job_id" with
  | none => rfl
  | some v =>
      cases v with
      | str s => rfl
      | null | bool | int | float | arr | obj => rfl

theorem shotLibrary_keeps : Keeps shotLibrary shot ∧ Keeps shotLibrary shotV2 := by
  have hne : shotJson "shot-v2" "1001" ≠ shotJson "shot" "0" := by decide +kernel
  have hdump : shotLibrary.dump shot.toJson = shotJson "shot" "0" := rfl
  have hdumpV2 : shotLibrary.dump shotV2.toJson = shotJson "shot-v2" "1001" := rfl
  refine ⟨⟨?_, shotLibrary_dump_sorted _⟩, ⟨?_, shotLibrary_dump_sorted _⟩⟩
  · rw [hdump]
    unfold shotLibrary
    dsimp only
    rw [if_pos rfl]
  · rw [hdumpV2]
    unfold shotLibrary
    dsimp only
    rw [if_neg hne, if_pos rfl]

theorem shot_typed : Typed shot where
  version := by decide
  submittedAtMs := by decide
  cmd := .nil
  frameStart := by decide
  frameEnd := by decide
  chunkSize := by decide
  maxRetries := by decide
  timeoutSeconds := by rintro _ ⟨⟩
  groups p hp := by
    rw [List.mem_singleton.mp hp]
    exact ⟨by decide, by decide, by decide⟩
  pathGroup := by decide
  environment := .nil

theorem shot_does_not_drift :
    (∃ m', shotLibrary.manifest? (shotLibrary.dump shot.toJson) = some m' ∧
      SameManifest shot m' ∧ m'.toJson = shot.toJson) ∧
    [Cycle.edit, .resubmit "shot-v2" 1001, .dispatch, .store].foldlM (Cycle.apply shotLibrary)
        (shotLibrary.dump shot.toJson) = some (shotLibrary.dump shotV2.toJson) := by
  have hwritten : written shot [.edit, .resubmit "shot-v2" 1001, .dispatch, .store] =
      [shot, shot, shotV2, shotV2, shotV2] := rfl
  obtain ⟨hshot, hshotV2⟩ := shotLibrary_keeps
  refine manifest_does_not_drift shotLibrary shot
    [.edit, .resubmit "shot-v2" 1001, .dispatch, .store] shot_typed ?_ fun m hm => ?_
  · simp only [List.forall_mem_cons, Cycle.InRange]
    exact ⟨trivial, by decide, trivial, trivial, nofun⟩
  · rw [hwritten] at hm
    have hcases : m = shot ∨ m = shotV2 := by simpa using hm
    rcases hcases with rfl | rfl
    · exact hshot
    · exact hshotV2

end ManifestCodec
end MinRender
