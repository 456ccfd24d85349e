import MinRender.Core.ManifestCodec
import MinRender.Framework.Lens
import MinRender.Monitor.CommandLine

/-!
# Applying an edit

The form of the job editor is filled from the stored manifest and baked into a
new one when it is applied. On a Mac the form shows native paths; what is stored
has the paths of Windows. Without its template a manifest's flags are edited in
place.
-/

namespace MinRender
open ManifestCodec TemplateManager

/-- The node whose window is used. -/
structure Desk where
  /-- `currentOsTag()` -/
  osTag : String
  /-- `getOS()` -/
  os : String
  nodeId : String
  mappings : List PathMapping := []

namespace Desk

def onMac (d : Desk) : Bool := d.osTag = "mac"

/-- A stored value as the form shows it. -/
def display (d : Desk) (value : String) : String :=
  if d.onMac then translatePath "win" "mac" value d.mappings else value

/-- A value of the form as it is stored. -/
def store (d : Desk) (value : String) : String :=
  if d.onMac then
    if value = "" then value else toCanonicalPath "mac" value d.mappings
  else value

def storeFlag (d : Desk) (f : ManifestFlag) : ManifestFlag :=
  { f with value := f.value.map d.store }

/-- The paths of a Mac become those of Windows, and so does its name. -/
def canonicalise (d : Desk) (m : JobManifest) : JobManifest :=
  if d.onMac then
    { m with
      flags := m.flags.map d.storeFlag
      outputDir := m.outputDir.map d.store
      submittedOs := "windows" }
  else m

end Desk

/-- What the user has in the form. -/
structure JobForm where
  flagValues : List String
  frameStart : Int
  frameEnd : Int
  chunkSize : Int
  priority : Int
  maxRetries : Int
  timeoutSeconds : Int
deriving DecidableEq, Repr

/-- A value set on a `SpinBox`. -/
def spinBox (first last value : Int) : Int := max first (min value last)

/-- `m_editSeed` -/
structure EditSeed where
  jobId : String
  templateId : String
  templateName : String
  templateFound : Bool
  flags : List AppBridge.EditorFlag
  frameStart : Int
  frameEnd : Int
  chunkSize : Int
  priority : Int
  maxRetries : Int
  timeoutSeconds : Int

/-- The form filled from the seed. -/
def EditSeed.form (seed : EditSeed) : JobForm where
  flagValues := seed.flags.map (·.value)
  frameStart := spinBox 0 1000000 seed.frameStart
  frameEnd := spinBox 0 1000000 seed.frameEnd
  chunkSize := spinBox 1 10000 seed.chunkSize
  priority := spinBox 1 999 seed.priority
  maxRetries := spinBox 0 99 seed.maxRetries
  timeoutSeconds := spinBox 0 1000000 seed.timeoutSeconds

/-- Only a positive timeout is one. -/
def timeoutOf (seconds : Int) : Option Int := if 0 < seconds then some seconds else none

namespace AppBridge

/-- The template of a manifest, if it is there and valid. -/
def templateOf (tmpls : List JobTemplate) (manifest : JobManifest) : Option JobTemplate :=
  (tmpls.find? (·.templateId = manifest.templateId)).filter (·.valid)

/-- `finishOpenJobEditor`; the job's priority is 50 where the node has not heard
of the job. -/
def editSeed (d : Desk) (tmpls : List JobTemplate) (priority : Option Int) (jobId : String)
    (manifest : JobManifest) : EditSeed where
  jobId := jobId
  templateId := manifest.templateId
  templateName := ((templateOf tmpls manifest).map (·.name)).getD manifest.templateId
  templateFound := (templateOf tmpls manifest).isSome
  flags := finishOpenJobEditor d.display tmpls manifest
  frameStart := manifest.frameStart
  frameEnd := manifest.frameEnd
  chunkSize := manifest.chunkSize
  priority := priority.getD 50
  maxRetries := manifest.maxRetries
  timeoutSeconds := manifest.timeoutSeconds.getD 0

/-- What is wrong with a submission, in the order of the checks. -/
def validateSubmission (tmpl : JobTemplate) (flagValues : List String) (cmdPath jobName : String)
    (frameStart frameEnd chunkSize : Int) (taken : String → Bool) : List String :=
  (if cmdPath = "" then ["Executable path is empty"] else []) ++
  (if jobName = "" then ["Job name is empty"]
    else if generateSlug jobName taken = "" then ["Job name produces an empty slug"] else []) ++
  (if frameStart > frameEnd then ["Frame start must be <= frame end"] else []) ++
  (if chunkSize < 1 then ["Chunk size must be >= 1"] else []) ++
  ((tmpl.flags.zip flagValues).filter fun x => x.1.editable && x.1.required && x.2 = "").map
    fun x => "Required field is empty: " ++ x.1.info

/-- The manifest `submitJob` makes of the form, or why it makes none. -/
def newJob (d : Desk) (tmpls : List JobTemplate) (templateId jobName : String)
    (flagValues : List String) (frameStart frameEnd chunkSize : Int) (taken : String → Bool)
    (nowMs : Int) : Except String JobManifest :=
  match tmpls.find? (·.templateId = templateId) with
  | none => .error ("Unknown template: " ++ templateId)
  | some tmpl =>
      let cmd := getCmdForOS tmpl.cmd d.os
      match validateSubmission tmpl flagValues cmd jobName frameStart frameEnd chunkSize taken with
      | error :: _ => .error error
      | [] =>
          let slug := generateSlug jobName taken
          if slug = "" then .error "Failed to generate job slug"
          else
            .ok (d.canonicalise (bakeManifestStatic d.osTag tmpl flagValues cmd slug frameStart
              frameEnd chunkSize tmpl.jobDefaults.maxRetries tmpl.jobDefaults.timeoutSeconds
              d.nodeId d.os nowMs))

/-- The first required flag that was left empty. -/
def emptyRequired (flags : List TemplateFlag) (values : List String) : Option TemplateFlag :=
  ((flags.zip values).find? fun x => x.1.required && x.1.editable && x.2 = "").map (·.1)

/-- Baked from the template as a new job is, for the job's own submission. -/
def rebake (d : Desk) (tmpls : List JobTemplate) (seed : EditSeed) (manifest : JobManifest)
    (form : JobForm) (nowMs : Int) : Except String JobManifest :=
  match tmpls.find? (·.templateId = seed.templateId) with
  | none => .error ("Template no longer available: " ++ seed.templateId)
  | some tmpl =>
      if form.flagValues.length ≠ tmpl.flags.length then
        .error "Template changed while editing — reopen the editor"
      else
        match emptyRequired tmpl.flags form.flagValues with
        | some tf =>
            .error ("Required flag is empty: " ++ if tf.info = "" then tf.flag else tf.info)
        | none =>
            let cmd := getCmdForOS tmpl.cmd d.os
            if cmd = "" then .error "Template has no executable for this OS"
            else
              .ok { bakeManifestStatic d.osTag tmpl form.flagValues cmd seed.jobId form.frameStart
                      form.frameEnd form.chunkSize form.maxRetries (timeoutOf form.timeoutSeconds)
                      d.nodeId d.os nowMs with
                submittedBy := manifest.submittedBy
                submittedAtMs := manifest.submittedAtMs
                submittedOs := manifest.submittedOs }

/-- What stands before the last separator. -/
def beforeSeparator (path : String) : String :=
  String.ofList (path.toList.rdropWhile fun c => c ≠ '/' && c ≠ '\\').dropLast

/-- The directory of the first output that has a value, if one can be had of it. -/
def outputDirOf (flags : List ManifestFlag) (old : Option String) : Option String :=
  match flags.find? fun f => f.isOutput && f.value.getD "" ≠ "" with
  | none => old
  | some f =>
      let dir := beforeSeparator (f.value.getD "")
      if dir = "" then old else some dir

/-- The stored manifest with the values of the form. -/
def mutate (manifest : JobManifest) (form : JobForm) : Except String JobManifest :=
  if form.flagValues.length ≠ manifest.flags.length then
    .error "Job changed while editing — reopen the editor"
  else
    let flags := manifest.flags.zipWith (fun f v => { f with value := some v }) form.flagValues
    .ok { manifest with
      flags := flags
      frameStart := form.frameStart
      frameEnd := form.frameEnd
      chunkSize := form.chunkSize
      maxRetries := form.maxRetries
      timeoutSeconds := timeoutOf form.timeoutSeconds
      outputDir := outputDirOf flags manifest.outputDir }

/-- Through the template the editor was opened with, or in place. -/
def editManifest (d : Desk) (tmpls : List JobTemplate) (seed : EditSeed) (manifest : JobManifest)
    (form : JobForm) (nowMs : Int) : Except String JobManifest :=
  if seed.templateFound then rebake d tmpls seed manifest form nowMs else mutate manifest form

/-- `finishApplyJobEdit`, with the manifest fetched once more. -/
def finishApplyJobEdit (d : Desk) (tmpls : List JobTemplate) (seed : EditSeed)
    (fetched : Except String JobManifest) (form : JobForm) (nowMs : Int) :
    Except String JobManifest := do
  let manifest ← fetched
  let edited ← editManifest d tmpls seed manifest form nowMs
  return { d.canonicalise edited with jobId := seed.jobId }

/-- The manifest that is sent to the leader, or why none is. -/
def applyJobEdit (d : Desk) (tmpls : List JobTemplate) (seed : EditSeed)
    (fetched : Except String JobManifest) (form : JobForm) (nowMs : Int) :
    Except String JobManifest :=
  if form.frameStart > form.frameEnd then .error "Frame start must be <= frame end"
  else if form.chunkSize < 1 then .error "Chunk size must be at least 1"
  else finishApplyJobEdit d tmpls seed fetched form nowMs

end AppBridge

/-! ## The editor as a view of the job -/

/-- A job as the leader has it. -/
structure StoredJob where
  manifest : JobManifest
  priority : Int

/-- The editor, on a node that knows the job: it shows the stored job, and an
edit that is not refused is stored and read again. -/
def editor (d : Desk) (tmpls : List JobTemplate) (jobId : String) (nowMs : Int) :
    Lens StoredJob JobForm String where
  get s := (AppBridge.editSeed d tmpls (some s.priority) jobId s.manifest).form
  put s form := do
    let seed := AppBridge.editSeed d tmpls (some s.priority) jobId s.manifest
    let manifest ← AppBridge.applyJobEdit d tmpls seed (.ok s.manifest) form nowMs
    return { manifest := readBack manifest, priority := form.priority }

/-- A job keeps the time of its submission, so the time of an edit is lost. -/
theorem editor_nowMs (d : Desk) (tmpls : List JobTemplate) (jobId : String) (nowMs nowMs' : Int) :
    editor d tmpls jobId nowMs = editor d tmpls jobId nowMs' := rfl

/-- Edits, each at its time; one that is refused changes nothing. -/
def editsAt (d : Desk) (tmpls : List JobTemplate) (jobId : String) (s : StoredJob)
    (edits : List (Int × JobForm)) : StoredJob :=
  edits.foldl (fun s edit => (editor d tmpls jobId edit.1).edit s edit.2) s

theorem editsAt_eq (d : Desk) (tmpls : List JobTemplate) (jobId : String) (s : StoredJob)
    (edits : List (Int × JobForm)) (nowMs : Int) :
    editsAt d tmpls jobId s edits = (editor d tmpls jobId nowMs).edits s (edits.map (·.2)) := by
  unfold editsAt Lens.edits
  rw [List.foldl_map]
  refine congrArg (fun step => edits.foldl step s) ?_
  funext s edit
  rw [editor_nowMs d tmpls jobId edit.1 nowMs]

namespace JobForm

/-- The numbers fit their boxes. -/
structure InBoxes (form : JobForm) : Prop where
  frameStart : 0 ≤ form.frameStart ∧ form.frameStart ≤ 1000000
  frameEnd : 0 ≤ form.frameEnd ∧ form.frameEnd ≤ 1000000
  chunkSize : 1 ≤ form.chunkSize ∧ form.chunkSize ≤ 10000
  priority : 1 ≤ form.priority ∧ form.priority ≤ 999
  maxRetries : 0 ≤ form.maxRetries ∧ form.maxRetries ≤ 99
  timeoutSeconds : 0 ≤ form.timeoutSeconds ∧ form.timeoutSeconds ≤ 1000000

/-- A form that is accepted and shown again as it is: of a fixed flag it holds
the template's value, no empty slot has the name of the next kept one, and the
path mappings bring the values back. -/
structure Fits (d : Desk) (tmpl : JobTemplate) (form : JobForm) : Prop where
  length : form.flagValues.length = tmpl.flags.length
  fixed : ∀ x ∈ tmpl.flags.zip form.flagValues, x.1.editable = false → x.2 = x.1.value.getD ""
  required : AppBridge.emptyRequired tmpl.flags form.flagValues = none
  apart : AppBridge.NoSwallow tmpl.flags (bakeSlots tmpl.flags form.flagValues)
  range : form.frameStart ≤ form.frameEnd
  boxes : form.InBoxes
  back : ∀ v ∈ form.flagValues, d.display (d.store v) = v

end JobForm

/-- Who submitted a job, on what, and when. -/
structure Origin where
  submittedBy : String
  submittedOs : String
  submittedAtMs : Int

def JobManifest.origin (m : JobManifest) : Origin := ⟨m.submittedBy, m.submittedOs, m.submittedAtMs⟩

/-- What a form is baked into, of the given origin. -/
def baked (d : Desk) (tmpl : JobTemplate) (jobId : String) (origin : Origin) (form : JobForm) :
    JobManifest :=
  { bakeManifestStatic d.osTag tmpl form.flagValues (getCmdForOS tmpl.cmd d.os) jobId
      form.frameStart form.frameEnd form.chunkSize form.maxRetries (timeoutOf form.timeoutSeconds)
      d.nodeId d.os origin.submittedAtMs with
    submittedBy := origin.submittedBy
    submittedOs := origin.submittedOs }

def jobOf (d : Desk) (tmpl : JobTemplate) (jobId : String) (origin : Origin) (form : JobForm) :
    StoredJob where
  manifest := readBack (d.canonicalise (baked d tmpl jobId origin form))
  priority := form.priority

/-! ## What the form shows -/

section Shown

variable {d : Desk} {tmpls : List JobTemplate} {tmpl : JobTemplate} {jobId : String}
  {origin : Origin} {form : JobForm}

theorem spinBox_of_mem {first last value : Int} (h : first ≤ value ∧ value ≤ last) :
    spinBox first last value = value := by
  unfold spinBox
  omega

theorem timeoutOf_getD {seconds : Int} (h : 0 ≤ seconds) :
    (timeoutOf seconds).getD 0 = seconds := by
  unfold timeoutOf
  split
  · rfl
  · show (0 : Int) = seconds
    omega

theorem Desk.canonicalise_jobId (d : Desk) (m : JobManifest) :
    (d.canonicalise m).jobId = m.jobId := by
  unfold Desk.canonicalise
  split <;> rfl

theorem Desk.canonicalise_templateId (d : Desk) (m : JobManifest) :
    (d.canonicalise m).templateId = m.templateId := by
  unfold Desk.canonicalise
  split <;> rfl

theorem Desk.canonicalise_flags (d : Desk) (m : JobManifest) :
    (d.canonicalise m).flags = m.flags.map d.storeFlag := by
  unfold Desk.canonicalise
  split
  · rfl
  · rename_i hother
    have hsame : ∀ f : ManifestFlag, d.storeFlag f = f := by
      intro f
      have hstore : d.store = id := by
        funext value
        exact if_neg hother
      unfold Desk.storeFlag
      rw [hstore, Option.map_id]
      rfl
    rw [List.map_congr_left fun f _ => hsame f, List.map_id']

theorem leftEmpty_value {tf : TemplateFlag} {v : String} {vs : List String}
    (h : leftEmpty tf (v :: vs) = true) : v = "" :=
  of_decide_eq_true (Bool.and_eq_true_iff.mp h).2

theorem bakeFlag_value {tf : TemplateFlag} {v : String} (vs : List String)
    (hfixed : tf.editable = false → v = tf.value.getD "") :
    v = (bakeFlag tf (v :: vs)).value.getD "" := by
  cases hedit : tf.editable with
  | true => simp [bakeFlag, hedit]
  | false => simpa [bakeFlag, hedit] using hfixed hedit

/-- Of a slot the form shows the value it was baked from, a fixed one included. -/
theorem slot_value {flags : List TemplateFlag} {values : List String}
    (hlen : values.length = flags.length)
    (hfixed : ∀ x ∈ flags.zip values, x.1.editable = false → x.2 = x.1.value.getD "") :
    List.Forall₂ (fun (x : TemplateFlag × String) (slot : Option ManifestFlag) =>
        x.2 = (slot.bind (·.value)).getD "")
      (flags.zip values) (bakeSlots flags values) := by
  fun_induction bakeSlots flags values with
  | case1 => exact .nil
  | case2 tf values h =>
      obtain ⟨v, rfl⟩ := List.length_eq_one_iff.mp hlen
      exact .cons (leftEmpty_value h) .nil
  | case3 tf values h =>
      obtain ⟨v, rfl⟩ := List.length_eq_one_iff.mp hlen
      exact .cons (bakeFlag_value [] (hfixed (tf, v) List.mem_cons_self)) .nil
  | case4 tf next rest values h ih =>
      obtain ⟨v, values, rfl⟩ := List.exists_cons_of_length_eq_add_one hlen
      obtain ⟨w, values, rfl⟩ := List.exists_cons_of_length_eq_add_one (Nat.succ.inj hlen)
      simp only [leadsEmpty, Bool.and_eq_true, Bool.not_eq_true'] at h
      have hv : v = tf.value.getD "" := hfixed (tf, v) List.mem_cons_self h.1.1.2
      rw [Option.isNone_iff_eq_none.mp h.1.1.1.2] at hv
      have hw : w = "" := of_decide_eq_true h.2
      refine .cons hv (.cons hw (ih (by simpa using hlen) ?_))
      exact fun x hx => hfixed x (List.mem_cons_of_mem _ (List.mem_cons_of_mem _ hx))
  | case5 tf next rest values h hleft ih =>
      obtain ⟨v, values, rfl⟩ := List.exists_cons_of_length_eq_add_one hlen
      exact .cons (leftEmpty_value hleft) (ih (by simpa using hlen)
        fun x hx => hfixed x (List.mem_cons_of_mem _ hx))
  | case6 tf next rest values h hleft ih =>
      obtain ⟨v, values, rfl⟩ := List.exists_cons_of_length_eq_add_one hlen
      exact .cons (bakeFlag_value values (hfixed (tf, v) List.mem_cons_self))
        (ih (by simpa using hlen) fun x hx => hfixed x (List.mem_cons_of_mem _ hx))

/-- What is stored of a slot keeps its name. -/
theorem stored_named {flags : List TemplateFlag} {slots : List (Option ManifestFlag)}
    (d : Desk) (h : AppBridge.Named flags slots) :
    AppBridge.Named flags (slots.map (Option.map d.storeFlag)) := by
  refine List.forall₂_map_right_iff.mpr (h.imp fun tf slot hslot e he => ?_)
  obtain ⟨e', rfl, rfl⟩ := Option.map_eq_some_iff.mp he
  exact hslot e' rfl

theorem stored_noSwallow {flags : List TemplateFlag} {slots : List (Option ManifestFlag)}
    (d : Desk) (h : AppBridge.NoSwallow flags slots) :
    AppBridge.NoSwallow flags (slots.map (Option.map d.storeFlag)) := by
  induction slots generalizing flags with
  | nil => cases flags <;> exact trivial
  | cons slot slots ih =>
      rcases flags with _ | ⟨tf, flags⟩
      · exact trivial
      · rcases slot with _ | e
        · obtain ⟨hnext, hrest⟩ := h
          refine ⟨?_, ih hrest⟩
          rw [List.reduceOption_map, List.head?_map, Option.map_map]
          exact hnext
        · exact ih h

/-- The overlay finds what was baked from each flag. -/
theorem overlay_stored (d : Desk) (hapart : AppBridge.NoSwallow tmpl.flags
    (bakeSlots tmpl.flags form.flagValues)) :
    AppBridge.overlay tmpl.flags ((bakeFlags tmpl.flags form.flagValues).map d.storeFlag) =
      (bakeSlots tmpl.flags form.flagValues).map (Option.map d.storeFlag) := by
  rw [← reduceOption_bakeSlots, ← List.reduceOption_map]
  exact (AppBridge.overlay_eq_iff (stored_named d (named_bakeSlots _ _))).mpr
    (stored_noSwallow d hapart)

/-- A slot is shown by the value it was baked from. -/
theorem shown_slot {tf : TemplateFlag} {v : String} {slot : Option ManifestFlag}
    (hslot : v = (slot.bind (·.value)).getD "") (hback : d.display (d.store v) = v) :
    (AppBridge.templateField d.display tf (slot.map d.storeFlag)).value = v := by
  have hempty : d.store "" = "" := by
    unfold Desk.store
    split <;> rfl
  rcases slot with _ | e
  · exact hslot.symm
  · show d.display ((e.value.map d.store).getD "") = v
    rcases hvalue : e.value with _ | x
    · have hv : v = "" := by
        rw [hslot, Option.bind_some, hvalue]
        rfl
      rw [hv, hempty] at hback
      rw [hv]
      exact hback
    · have hv : v = x := by
        rw [hslot, Option.bind_some, hvalue]
        rfl
      rw [← hv]
      exact hback

theorem shown_slots {flags : List TemplateFlag} {values : List String}
    {slots : List (Option ManifestFlag)} (hlen : values.length = flags.length)
    (hslots : List.Forall₂ (fun (x : TemplateFlag × String) (slot : Option ManifestFlag) =>
      x.2 = (slot.bind (·.value)).getD "") (flags.zip values) slots)
    (hback : ∀ v ∈ values, d.display (d.store v) = v) :
    ((flags.zip (slots.map (Option.map d.storeFlag))).map fun x =>
      (AppBridge.templateField d.display x.1 x.2).value) = values := by
  induction flags generalizing values slots with
  | nil => exact (List.length_eq_zero_iff.mp hlen).symm
  | cons tf flags ih =>
      obtain ⟨v, values, rfl⟩ := List.exists_cons_of_length_eq_add_one hlen
      cases hslots with
      | @cons _ slot _ slots hslot hslots =>
          have hrest := ih (by simpa using hlen) hslots
            fun w hw => hback w (List.mem_cons_of_mem _ hw)
          rw [List.map_cons, List.zip_cons_cons, List.map_cons, hrest,
            shown_slot hslot (hback v List.mem_cons_self)]

theorem templateId_jobOf :
    (jobOf d tmpl jobId origin form).manifest.templateId = tmpl.templateId :=
  d.canonicalise_templateId _

theorem templateOf_jobOf (hfound : tmpls.find? (·.templateId = tmpl.templateId) = some tmpl)
    (hvalid : tmpl.valid = true) :
    AppBridge.templateOf tmpls (jobOf d tmpl jobId origin form).manifest = some tmpl := by
  unfold AppBridge.templateOf
  rw [templateId_jobOf, hfound]
  exact (Option.filter_eq_some_iff.mpr ⟨rfl, hvalid⟩)

/-- The editor is opened with the template. -/
theorem editSeed_jobOf (d : Desk) (jobId : String) (origin : Origin) (form : JobForm)
    (priority : Option Int) (hfound : tmpls.find? (·.templateId = tmpl.templateId) = some tmpl)
    (hvalid : tmpl.valid = true) :
    (AppBridge.editSeed d tmpls priority jobId
        (jobOf d tmpl jobId origin form).manifest).templateFound = true ∧
      tmpls.find? (·.templateId = (AppBridge.editSeed d tmpls priority jobId
        (jobOf d tmpl jobId origin form).manifest).templateId) = some tmpl := by
  constructor
  · show (AppBridge.templateOf tmpls (jobOf d tmpl jobId origin form).manifest).isSome = true
    rw [templateOf_jobOf hfound hvalid]
    rfl
  · show tmpls.find? (·.templateId = (jobOf d tmpl jobId origin form).manifest.templateId) = _
    rw [templateId_jobOf]
    exact hfound

/-- The form of a job shows the values it was made with. -/
theorem shown_values (hfound : tmpls.find? (·.templateId = tmpl.templateId) = some tmpl)
    (hvalid : tmpl.valid = true) (hform : form.Fits d tmpl) :
    (AppBridge.finishOpenJobEditor d.display tmpls (jobOf d tmpl jobId origin form).manifest).map
      (·.value) = form.flagValues := by
  have hflags : (jobOf d tmpl jobId origin form).manifest.flags =
      (bakeFlags tmpl.flags form.flagValues).map d.storeFlag :=
    d.canonicalise_flags _
  unfold AppBridge.finishOpenJobEditor
  rw [templateId_jobOf, hfound]
  simp only [hvalid, if_true, hflags, overlay_stored d hform.apart, List.map_map]
  exact shown_slots hform.length (slot_value hform.length hform.fixed) hform.back

/-- **The editor shows the form a job was made with.** -/
theorem get_jobOf (nowMs : Int)
    (hfound : tmpls.find? (·.templateId = tmpl.templateId) = some tmpl)
    (hvalid : tmpl.valid = true) (hform : form.Fits d tmpl) :
    (editor d tmpls jobId nowMs).get (jobOf d tmpl jobId origin form) = form := by
  have hvalues : (AppBridge.finishOpenJobEditor d.display tmpls
      (jobOf d tmpl jobId origin form).manifest).map (·.value) = form.flagValues :=
    shown_values hfound hvalid hform
  have hcopied : (d.canonicalise (baked d tmpl jobId origin form)).frameStart = form.frameStart ∧
      (d.canonicalise (baked d tmpl jobId origin form)).frameEnd = form.frameEnd ∧
      (d.canonicalise (baked d tmpl jobId origin form)).chunkSize = form.chunkSize ∧
      (d.canonicalise (baked d tmpl jobId origin form)).maxRetries = form.maxRetries ∧
      (d.canonicalise (baked d tmpl jobId origin form)).timeoutSeconds =
        timeoutOf form.timeoutSeconds := by
    unfold Desk.canonicalise
    split <;> exact ⟨rfl, rfl, rfl, rfl, rfl⟩
  obtain ⟨hstart, hend, hsize, hretries, htimeout⟩ := hcopied
  have hboxes := hform.boxes
  have hseconds := timeoutOf_getD hboxes.timeoutSeconds.1
  show JobForm.mk (((AppBridge.finishOpenJobEditor d.display tmpls
      (jobOf d tmpl jobId origin form).manifest).map (·.value)))
    (spinBox 0 1000000 (d.canonicalise (baked d tmpl jobId origin form)).frameStart)
    (spinBox 0 1000000 (d.canonicalise (baked d tmpl jobId origin form)).frameEnd)
    (spinBox 1 10000 (d.canonicalise (baked d tmpl jobId origin form)).chunkSize)
    (spinBox 1 999 form.priority)
    (spinBox 0 99 (d.canonicalise (baked d tmpl jobId origin form)).maxRetries)
    (spinBox 0 1000000
      ((d.canonicalise (baked d tmpl jobId origin form)).timeoutSeconds.getD 0)) = form
  rw [hvalues, hstart, hend, hsize, hretries, htimeout, hseconds,
    spinBox_of_mem hboxes.frameStart, spinBox_of_mem hboxes.frameEnd,
    spinBox_of_mem hboxes.chunkSize, spinBox_of_mem hboxes.priority,
    spinBox_of_mem hboxes.maxRetries, spinBox_of_mem hboxes.timeoutSeconds]

theorem rebake_fits {seed : EditSeed} {manifest : JobManifest} (nowMs : Int)
    (hfound : tmpls.find? (·.templateId = seed.templateId) = some tmpl)
    (hcmd : getCmdForOS tmpl.cmd d.os ≠ "") (hform : form.Fits d tmpl) :
    AppBridge.rebake d tmpls seed manifest form nowMs =
      .ok (baked d tmpl seed.jobId manifest.origin form) := by
  unfold AppBridge.rebake
  rw [hfound]
  dsimp only
  rw [if_neg (not_not_intro hform.length), hform.required]
  dsimp only
  rw [if_neg hcmd]
  rfl

theorem own_jobId {m : JobManifest} (h : m.jobId = jobId) : { m with jobId := jobId } = m := by
  subst h
  rfl

theorem apply_fits (seed : EditSeed) (manifest : JobManifest) (nowMs : Int)
    (htemplate : seed.templateFound = true)
    (hfound : tmpls.find? (·.templateId = seed.templateId) = some tmpl)
    (hcmd : getCmdForOS tmpl.cmd d.os ≠ "") (hform : form.Fits d tmpl) :
    AppBridge.applyJobEdit d tmpls seed (.ok manifest) form nowMs =
      .ok (d.canonicalise (baked d tmpl seed.jobId manifest.origin form)) := by
  have hid : (d.canonicalise (baked d tmpl seed.jobId manifest.origin form)).jobId =
      seed.jobId := d.canonicalise_jobId _
  have hrange := hform.range
  have hsize := hform.boxes.chunkSize.1
  unfold AppBridge.applyJobEdit
  rw [if_neg (by omega), if_neg (by omega)]
  have hedited : AppBridge.editManifest d tmpls seed manifest form nowMs =
      .ok (baked d tmpl seed.jobId manifest.origin form) := by
    unfold AppBridge.editManifest
    rw [if_pos htemplate, rebake_fits nowMs hfound hcmd hform]
  show (AppBridge.editManifest d tmpls seed manifest form nowMs >>= fun edited =>
    Except.ok { d.canonicalise edited with jobId := seed.jobId }) = _
  rw [hedited]
  exact congrArg Except.ok (own_jobId hid)

/-- A job made of a job's origin is of that origin. -/
theorem canonicalise_origin (d : Desk) (tmpl : JobTemplate) (jobId : String) (origin : Origin)
    (form edit : JobForm) :
    d.canonicalise (baked d tmpl jobId (jobOf d tmpl jobId origin form).manifest.origin edit) =
      d.canonicalise (baked d tmpl jobId origin edit) := by
  show d.canonicalise (baked d tmpl jobId (d.canonicalise (baked d tmpl jobId origin form)).origin
    edit) = _
  unfold Desk.canonicalise
  split <;> rfl

/-- **An edit makes the job of its form**, of the origin the job had. -/
theorem put_jobOf (nowMs : Int) {edit : JobForm}
    (hfound : tmpls.find? (·.templateId = tmpl.templateId) = some tmpl)
    (hvalid : tmpl.valid = true) (hcmd : getCmdForOS tmpl.cmd d.os ≠ "")
    (hedit : edit.Fits d tmpl) :
    (editor d tmpls jobId nowMs).put (jobOf d tmpl jobId origin form) edit =
      .ok (jobOf d tmpl jobId origin edit) := by
  let stored := (jobOf d tmpl jobId origin form).manifest
  let seed := AppBridge.editSeed d tmpls (some form.priority) jobId stored
  obtain ⟨hseed, hstored⟩ :=
    editSeed_jobOf d jobId origin form (some form.priority) hfound hvalid
  have happlied : AppBridge.applyJobEdit d tmpls seed (.ok stored) edit nowMs =
      .ok (d.canonicalise (baked d tmpl jobId origin edit)) := by
    rw [apply_fits seed stored nowMs hseed hstored hcmd hedit]
    exact congrArg Except.ok (canonicalise_origin d tmpl jobId origin form edit)
  show (AppBridge.applyJobEdit d tmpls seed (.ok stored) edit nowMs >>= fun manifest =>
    Except.ok (StoredJob.mk (readBack manifest) edit.priority)) = _
  rw [happlied]
  rfl

/-- The job of some form that fits. -/
def IsJob (d : Desk) (tmpl : JobTemplate) (jobId : String) (origin : Origin) (s : StoredJob) :
    Prop :=
  ∃ form, form.Fits d tmpl ∧ s = jobOf d tmpl jobId origin form

theorem editor_lawful (nowMs : Int)
    (hfound : tmpls.find? (·.templateId = tmpl.templateId) = some tmpl)
    (hvalid : tmpl.valid = true) (hcmd : getCmdForOS tmpl.cmd d.os ≠ "") :
    (editor d tmpls jobId nowMs).Lawful (IsJob d tmpl jobId origin) (JobForm.Fits d tmpl) where
  fits := by
    rintro s ⟨form, hform, rfl⟩
    rw [get_jobOf nowMs hfound hvalid hform]
    exact hform
  accepts := by
    rintro s edit ⟨form, -, rfl⟩ hedit
    exact ⟨jobOf d tmpl jobId origin edit, put_jobOf nowMs hfound hvalid hcmd hedit,
      ⟨edit, hedit, rfl⟩, get_jobOf nowMs hfound hvalid hedit⟩
  unchanged := by
    rintro s ⟨form, hform, rfl⟩
    rw [get_jobOf nowMs hfound hvalid hform]
    exact put_jobOf nowMs hfound hvalid hcmd hform
  forgets := by
    rintro s s' edit next ⟨form, -, rfl⟩ hedit hnext hput
    rw [put_jobOf nowMs hfound hvalid hcmd hedit] at hput
    cases hput
    rw [put_jobOf nowMs hfound hvalid hcmd hnext, put_jobOf nowMs hfound hvalid hcmd hnext]

namespace JobForm

/-- A form the checks of the editor find something wrong with. -/
def Invalid (tmpl : JobTemplate) (form : JobForm) : Prop :=
  form.frameEnd < form.frameStart ∨ form.chunkSize < 1 ∨
    form.flagValues.length ≠ tmpl.flags.length ∨
    AppBridge.emptyRequired tmpl.flags form.flagValues ≠ none

end JobForm

theorem invalid_refused (nowMs : Int)
    (hfound : tmpls.find? (·.templateId = tmpl.templateId) = some tmpl)
    (hvalid : tmpl.valid = true) (hform : form.Invalid tmpl) :
    (editor d tmpls jobId nowMs).Refused (IsJob d tmpl jobId origin) form := by
  rintro s ⟨stored, -, rfl⟩
  let seed := AppBridge.editSeed d tmpls (some stored.priority) jobId
    (jobOf d tmpl jobId origin stored).manifest
  suffices h : ∃ e, AppBridge.applyJobEdit d tmpls seed
      (.ok (jobOf d tmpl jobId origin stored).manifest) form nowMs = .error e by
    obtain ⟨e, he⟩ := h
    refine ⟨e, ?_⟩
    show (AppBridge.applyJobEdit d tmpls seed (.ok (jobOf d tmpl jobId origin stored).manifest)
      form nowMs >>= fun manifest =>
        Except.ok (StoredJob.mk (readBack manifest) form.priority)) = _
    rw [he]
    rfl
  unfold AppBridge.applyJobEdit
  split
  · exact ⟨_, rfl⟩
  · rename_i hrange
    split
    · exact ⟨_, rfl⟩
    · rename_i hsize
      obtain ⟨htemplate, hstored⟩ :=
        editSeed_jobOf d jobId origin stored (some stored.priority) hfound hvalid
      suffices h : ∃ e, AppBridge.editManifest d tmpls seed
          (jobOf d tmpl jobId origin stored).manifest form nowMs = .error e by
        obtain ⟨e, he⟩ := h
        refine ⟨e, ?_⟩
        show (AppBridge.editManifest d tmpls seed (jobOf d tmpl jobId origin stored).manifest form
          nowMs >>= _) = _
        rw [he]
        rfl
      unfold AppBridge.editManifest AppBridge.rebake
      rw [if_pos htemplate, hstored]
      dsimp only
      split
      · exact ⟨_, rfl⟩
      · rename_i hlength
        rcases hform with h | h | h | h
        · exact absurd h (by omega)
        · exact absurd h hsize
        · exact absurd h hlength
        · obtain ⟨tf, htf⟩ := Option.ne_none_iff_exists'.mp h
          rw [htf]
          exact ⟨_, rfl⟩

/-- What a submission sends is the job of its form, with the retries and the
timeout of the template. -/
theorem newJob_is_jobOf {jobName : String} {taken : String → Bool} {submittedAtMs : Int}
    {manifest : JobManifest}
    (hfound : tmpls.find? (·.templateId = tmpl.templateId) = some tmpl)
    (hsubmit : AppBridge.newJob d tmpls tmpl.templateId jobName form.flagValues form.frameStart
      form.frameEnd form.chunkSize taken submittedAtMs = .ok manifest)
    (hretries : form.maxRetries = tmpl.jobDefaults.maxRetries)
    (htimeout : timeoutOf form.timeoutSeconds = tmpl.jobDefaults.timeoutSeconds) :
    getCmdForOS tmpl.cmd d.os ≠ "" ∧
      StoredJob.mk (readBack manifest) form.priority =
        jobOf d tmpl manifest.jobId ⟨d.nodeId, d.os, submittedAtMs⟩ form := by
  unfold AppBridge.newJob at hsubmit
  rw [hfound] at hsubmit
  dsimp only at hsubmit
  generalize generateSlug jobName taken = slug at hsubmit
  split at hsubmit
  · cases hsubmit
  · rename_i hvalidated
    split at hsubmit
    · cases hsubmit
    · obtain rfl := Except.ok.inj hsubmit
      constructor
      · intro hcmd
        unfold AppBridge.validateSubmission at hvalidated
        rw [if_pos hcmd] at hvalidated
        cases hvalidated
      · unfold jobOf baked
        rw [d.canonicalise_jobId, hretries, htimeout]
        rfl

/-- **A job is what its last edit made of it.** A job is submitted and then
edited any number of times; edits that the checks refuse change nothing. The
editor shows the last form that was not refused, and the job stored is the one
this form makes, whatever the forms before it were, with the job's own id and
submission. Applying what the editor shows, at any time, changes nothing. -/
theorem job_is_its_last_edit {jobName : String} {taken : String → Bool} {submittedAtMs : Int}
    {manifest : JobManifest} (nowMs : Int)
    (hfound : tmpls.find? (·.templateId = tmpl.templateId) = some tmpl)
    (hvalid : tmpl.valid = true)
    (hsubmit : AppBridge.newJob d tmpls tmpl.templateId jobName form.flagValues form.frameStart
      form.frameEnd form.chunkSize taken submittedAtMs = .ok manifest)
    (hretries : form.maxRetries = tmpl.jobDefaults.maxRetries)
    (htimeout : timeoutOf form.timeoutSeconds = tmpl.jobDefaults.timeoutSeconds)
    (hform : form.Fits d tmpl) (edits : List (Int × JobForm))
    (hedits : ∀ edit ∈ edits, edit.2.Fits d tmpl ∨ edit.2.Invalid tmpl) :
    ∃ s last before after,
      editsAt d tmpls manifest.jobId ⟨readBack manifest, form.priority⟩ edits = s ∧
      form :: edits.map (·.2) = before ++ last :: after ∧
      (∀ edit ∈ after, edit.Invalid tmpl) ∧
      (editor d tmpls manifest.jobId nowMs).get s = last ∧
      s = jobOf d tmpl manifest.jobId ⟨d.nodeId, d.os, submittedAtMs⟩ last ∧
      (editor d tmpls manifest.jobId nowMs).put s last = .ok s := by
  obtain ⟨hcmd, hjob⟩ := newJob_is_jobOf hfound hsubmit hretries htimeout
  let origin : Origin := ⟨d.nodeId, d.os, submittedAtMs⟩
  have hlawful : (editor d tmpls manifest.jobId nowMs).Lawful
      (IsJob d tmpl manifest.jobId origin) (JobForm.Fits d tmpl) :=
    editor_lawful nowMs hfound hvalid hcmd
  have hforms : ∀ edit ∈ edits.map (·.2), edit.Fits d tmpl ∨ edit.Invalid tmpl := by
    intro edit hedit
    obtain ⟨timed, htimed, rfl⟩ := List.mem_map.mp hedit
    exact hedits timed htimed
  rw [editsAt_eq d tmpls manifest.jobId _ edits nowMs, hjob]
  obtain ⟨s, last, before, after, hs, ⟨shown, hshown, rfl⟩, hget, hsplit, hafter, -, hsame⟩ :=
    hlawful.edits ⟨form, hform, rfl⟩ fun edit hedit =>
      (hforms edit hedit).imp_right (invalid_refused nowMs hfound hvalid)
  rw [get_jobOf nowMs hfound hvalid hform] at hsplit
  rw [get_jobOf nowMs hfound hvalid hshown] at hget
  subst hget
  refine ⟨_, shown, before, after, hs, hsplit, ?_, get_jobOf nowMs hfound hvalid hshown, rfl,
    hsame⟩
  intro edit hedit
  have hmem : edit ∈ edits.map (·.2) := by
    rcases before with _ | ⟨first, before⟩
    · rw [(List.cons.inj hsplit).2]
      exact hedit
    · rw [(List.cons.inj hsplit).2]
      exact List.mem_append_right _ (List.mem_cons_of_mem _ hedit)
  refine (hforms edit hmem).resolve_left fun hfits => ?_
  -- a form that fits is not refused
  obtain ⟨e, he⟩ := hafter edit hedit _ ⟨form, hform, rfl⟩
  rw [put_jobOf nowMs hfound hvalid hcmd hfits] at he
  cases he

end Shown

def linuxDesk : Desk := { osTag := "lin", os := "linux", nodeId := "n1" }

def resolutionForm : JobForm where
  flagValues := ["", "a.c4d", "", "1920", "1080"]
  frameStart := 1
  frameEnd := 90
  chunkSize := 10
  priority := 50
  maxRetries := 3
  timeoutSeconds := 0

/-- Another scene file, and more frames. -/
def longerForm : JobForm :=
  { resolutionForm with flagValues := ["", "b.c4d", "", "1920", "1080"], frameEnd := 120 }

def resolutionManifest : JobManifest :=
  bakeManifestStatic "lin" resolutionTemplate ["", "a.c4d", "", "1920", "1080"]
    "/opt/maxon/Commandline" "shot" 1 90 10 3 none "n1" "linux" 1000

theorem resolution_submitted : AppBridge.newJob linuxDesk [resolutionTemplate]
    resolutionTemplate.templateId "Shot" resolutionForm.flagValues resolutionForm.frameStart
    resolutionForm.frameEnd resolutionForm.chunkSize (fun _ => false) 1000 =
      .ok resolutionManifest := by
  decide

theorem resolutionForm_fits : resolutionForm.Fits linuxDesk resolutionTemplate where
  length := rfl
  fixed := by decide
  required := by decide
  apart := by decide
  range := by decide
  boxes := by constructor <;> decide
  back _ _ := rfl

theorem longerForm_fits : longerForm.Fits linuxDesk resolutionTemplate where
  length := rfl
  fixed := by decide
  required := by decide
  apart := by decide
  range := by decide
  boxes := by constructor <;> decide
  back _ _ := rfl

/-- The job of the second form, after an edit without a scene file was refused. -/
theorem resolution_edited :
    ∃ s last before after,
      editsAt linuxDesk [resolutionTemplate] resolutionManifest.jobId
        ⟨readBack resolutionManifest, 50⟩
        [(2000, longerForm),
          (3000, { longerForm with flagValues := ["", "", "", "1920", "1080"] })] = s ∧
      [resolutionForm, longerForm,
        { longerForm with flagValues := ["", "", "", "1920", "1080"] }] =
          before ++ last :: after ∧
      (∀ edit ∈ after, edit.Invalid resolutionTemplate) ∧
      (editor linuxDesk [resolutionTemplate] resolutionManifest.jobId 4000).get s = last ∧
      s = jobOf linuxDesk resolutionTemplate resolutionManifest.jobId ⟨"n1", "linux", 1000⟩ last ∧
      (editor linuxDesk [resolutionTemplate] resolutionManifest.jobId 4000).put s last = .ok s :=
  job_is_its_last_edit 4000 (by decide) rfl resolution_submitted rfl rfl
    resolutionForm_fits _ (List.forall_mem_cons.mpr ⟨.inl longerForm_fits,
      List.forall_mem_singleton.mpr (.inr (.inr (.inr (.inr (by decide)))))⟩)

end MinRender
