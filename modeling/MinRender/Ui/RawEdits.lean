import MinRender.Ui.JobForm

/-!
# Editing without the template

The template of a job is gone: its flags are edited one by one, as the manifest
has them. A flag without a value is shown as an empty one, and applied as one.
-/

namespace MinRender
open ManifestCodec AppBridge
open TaskFormat (buildArgs)

/-! ## What an edit makes of the job -/

/-- The flag with the value the form shows of it. -/
def shownFlag (d : Desk) (f : ManifestFlag) : ManifestFlag :=
  { f with value := some (d.display (f.value.getD "")) }

/-- The job after the form was applied as it was shown. -/
def rawManifest (d : Desk) (tmpls : List JobTemplate) (jobId : String) (s : StoredJob) :
    JobManifest :=
  let form := (editSeed d tmpls (some s.priority) jobId s.manifest).form
  { s.manifest with
    flags := s.manifest.flags.map (shownFlag d)
    frameStart := form.frameStart
    frameEnd := form.frameEnd
    chunkSize := form.chunkSize
    maxRetries := form.maxRetries
    timeoutSeconds := timeoutOf form.timeoutSeconds
    outputDir := outputDirOf (s.manifest.flags.map (shownFlag d)) s.manifest.outputDir }

def rawJob (d : Desk) (tmpls : List JobTemplate) (jobId : String) (s : StoredJob) : StoredJob where
  manifest := readBack { d.canonicalise (rawManifest d tmpls jobId s) with jobId := jobId }
  priority := spinBox 1 999 s.priority

section Raw

variable {d : Desk} {tmpls : List JobTemplate} {jobId : String} {s s' : StoredJob}

theorem raw_fields (hmissing : templateOf tmpls s.manifest = none) :
    finishOpenJobEditor d.display tmpls s.manifest = s.manifest.flags.map (rawField d.display) := by
  unfold templateOf at hmissing
  unfold finishOpenJobEditor
  split
  · rename_i tmpl hfound
    rw [hfound] at hmissing
    split
    · rename_i hvalid
      rw [Option.filter_some, if_pos hvalid] at hmissing
      cases hmissing
    · rfl
  · rfl

theorem raw_values (hmissing : templateOf tmpls s.manifest = none) (nowMs : Int) :
    ((editor d tmpls jobId nowMs).get s).flagValues =
      s.manifest.flags.map fun f => d.display (f.value.getD "") := by
  show (finishOpenJobEditor d.display tmpls s.manifest).map (·.value) = _
  rw [raw_fields hmissing, List.map_map]
  rfl

theorem mutate_shown (hmissing : templateOf tmpls s.manifest = none) :
    mutate s.manifest (editSeed d tmpls (some s.priority) jobId s.manifest).form =
      .ok (rawManifest d tmpls jobId s) := by
  have hvalues : (editSeed d tmpls (some s.priority) jobId s.manifest).form.flagValues =
      s.manifest.flags.map fun f => d.display (f.value.getD "") := raw_values hmissing 0
  have hflags : s.manifest.flags.zipWith (fun f v => { f with value := some v })
      (s.manifest.flags.map fun f => d.display (f.value.getD "")) =
        s.manifest.flags.map (shownFlag d) := by
    rw [List.zipWith_map_right, List.zipWith_self]
    rfl
  unfold mutate
  rw [hvalues, if_neg (by rw [List.length_map]; exact not_not_intro rfl)]
  dsimp only
  rw [hflags]
  rfl

/-- An edit that changes nothing is refused only where the frames are inverted. -/
theorem put_shown (hmissing : templateOf tmpls s.manifest = none) (nowMs : Int) :
    (editor d tmpls jobId nowMs).put s ((editor d tmpls jobId nowMs).get s) =
      if spinBox 0 1000000 s.manifest.frameStart > spinBox 0 1000000 s.manifest.frameEnd then
        .error "Frame start must be <= frame end"
      else .ok (rawJob d tmpls jobId s) := by
  let seed := editSeed d tmpls (some s.priority) jobId s.manifest
  have hraw : seed.templateFound = false := by
    show (templateOf tmpls s.manifest).isSome = false
    rw [hmissing]
    rfl
  have hsize : ¬ seed.form.chunkSize < 1 := by
    show ¬ spinBox 1 10000 s.manifest.chunkSize < 1
    unfold spinBox
    omega
  show (applyJobEdit d tmpls seed (.ok s.manifest) seed.form nowMs >>= fun manifest =>
    Except.ok (StoredJob.mk (readBack manifest) seed.form.priority)) = _
  have hedited : editManifest d tmpls seed s.manifest seed.form nowMs =
      .ok (rawManifest d tmpls jobId s) := by
    unfold editManifest
    rw [if_neg (by rw [hraw]; exact Bool.false_ne_true)]
    exact mutate_shown hmissing
  unfold applyJobEdit
  by_cases hrange : seed.form.frameStart > seed.form.frameEnd
  · rw [if_pos hrange]
    exact (if_pos hrange).symm
  · rw [if_neg hrange, if_neg hsize]
    refine Eq.trans ?_ (if_neg hrange).symm
    show (editManifest d tmpls seed s.manifest seed.form nowMs >>= fun edited =>
      Except.ok { d.canonicalise edited with jobId := seed.jobId }) >>= _ = _
    rw [hedited]
    rfl

/-! ## It settles at once -/

theorem matchesPrefix_empty {pre : String} (h : matchesPrefix "win" pre (normalizePath "") = true) :
    pre = "" := by
  unfold matchesPrefix at h
  rw [if_pos rfl] at h
  have hprefix : (lowercase pre).toList <+: [] := List.isPrefixOf_iff_prefix.mp h
  have hempty : pre.toList.map Char.toLower = [] := by
    have hlower := List.prefix_nil.mp hprefix
    unfold lowercase at hlower
    rwa [String.toList_ofList] at hlower
  exact String.toList_inj.mp (List.map_eq_nil_iff.mp hempty)

theorem Desk.display_empty (d : Desk) : d.display "" = "" := by
  unfold Desk.display
  split
  · unfold translatePath
    rw [if_neg (by decide)]
    dsimp only
    split
    · decide
    · rename_i m hfind
      have happlies := List.find?_some hfind
      simp only [Bool.and_eq_true, decide_eq_true_eq] at happlies
      exact absurd (matchesPrefix_empty happlies.2) happlies.1.1.2
  · rfl

theorem spinBox_spinBox {first last : Int} (h : first ≤ last) (value : Int) :
    spinBox first last (spinBox first last value) = spinBox first last value := by
  unfold spinBox
  omega

theorem usedGroups_usedGroups (p : ProgressPattern) : usedGroups (usedGroups p) = usedGroups p := by
  unfold usedGroups
  dsimp only
  by_cases htype : p.type = "fraction"
  · rw [if_pos htype, if_pos htype]
  · rw [if_neg htype, if_neg htype]

theorem readBack_readBack (m : JobManifest) : readBack (readBack m) = readBack m := by
  have hpatterns : (m.progress.patterns.map usedGroups).map usedGroups =
      m.progress.patterns.map usedGroups := by
    rw [List.map_map]
    exact List.map_congr_left fun p _ => usedGroups_usedGroups p
  unfold readBack
  dsimp only
  rw [hpatterns]

/-- The form brings back what is stored: its values, and the directory. -/
structure Settles (d : Desk) (m : JobManifest) : Prop where
  values : ∀ f ∈ m.flags, ∀ v, f.value = some v → d.store (d.display v) = v
  outputDir : ∀ dir, m.outputDir = some dir → d.store (d.store dir) = d.store dir

theorem store_empty (d : Desk) : d.store "" = "" := by
  unfold Desk.store
  split <;> rfl

theorem shown_value (h : Settles d s.manifest) {f : ManifestFlag} (hf : f ∈ s.manifest.flags) :
    d.store (d.display (f.value.getD "")) = f.value.getD "" := by
  rcases hvalue : f.value with _ | v
  · show d.store (d.display "") = ""
    rw [d.display_empty, store_empty]
  · exact h.values f hf v hvalue

theorem rawJob_flags (d : Desk) (tmpls : List JobTemplate) (jobId : String) (s : StoredJob) :
    (rawJob d tmpls jobId s).manifest.flags =
      s.manifest.flags.map fun f => d.storeFlag (shownFlag d f) := by
  show (d.canonicalise (rawManifest d tmpls jobId s)).flags = _
  rw [d.canonicalise_flags]
  exact List.map_map ..

/-- What the form shows of the flags after the edit is what it showed before. -/
theorem shown_again (h : Settles d s.manifest) :
    (rawJob d tmpls jobId s).manifest.flags.map (shownFlag d) =
      s.manifest.flags.map (shownFlag d) := by
  rw [rawJob_flags, List.map_map]
  refine List.map_congr_left fun f hf => ?_
  show { f with value := some (d.display (d.store (d.display (f.value.getD "")))) } = shownFlag d f
  rw [shown_value h hf]
  rfl

theorem raw_missing (hmissing : templateOf tmpls s.manifest = none) :
    templateOf tmpls (rawJob d tmpls jobId s).manifest = none := by
  have hid : (rawJob d tmpls jobId s).manifest.templateId = s.manifest.templateId :=
    d.canonicalise_templateId _
  unfold templateOf
  rw [hid]
  exact hmissing

theorem raw_numbers (d : Desk) (tmpls : List JobTemplate) (jobId : String) (s : StoredJob) :
    (rawJob d tmpls jobId s).manifest.frameStart = spinBox 0 1000000 s.manifest.frameStart ∧
      (rawJob d tmpls jobId s).manifest.frameEnd = spinBox 0 1000000 s.manifest.frameEnd ∧
      (rawJob d tmpls jobId s).manifest.chunkSize = spinBox 1 10000 s.manifest.chunkSize ∧
      (rawJob d tmpls jobId s).manifest.maxRetries = spinBox 0 99 s.manifest.maxRetries ∧
      (rawJob d tmpls jobId s).manifest.timeoutSeconds =
        timeoutOf (spinBox 0 1000000 (s.manifest.timeoutSeconds.getD 0)) := by
  unfold rawJob Desk.canonicalise
  split <;> exact ⟨rfl, rfl, rfl, rfl, rfl⟩

/-- The form shows the job as it did before the edit. -/
theorem get_rawJob (hmissing : templateOf tmpls s.manifest = none) (h : Settles d s.manifest)
    (nowMs : Int) :
    (editor d tmpls jobId nowMs).get (rawJob d tmpls jobId s) =
      (editor d tmpls jobId nowMs).get s := by
  have hvalues : ((editor d tmpls jobId nowMs).get (rawJob d tmpls jobId s)).flagValues =
      ((editor d tmpls jobId nowMs).get s).flagValues := by
    rw [raw_values (raw_missing hmissing), raw_values hmissing, rawJob_flags, List.map_map]
    refine List.map_congr_left fun f hf => ?_
    show d.display (d.store (d.display (f.value.getD ""))) = _
    rw [shown_value h hf]
  obtain ⟨hstart, hend, hsize, hretries, htimeout⟩ := raw_numbers d tmpls jobId s
  have hseconds : (timeoutOf (spinBox 0 1000000 (s.manifest.timeoutSeconds.getD 0))).getD 0 =
      spinBox 0 1000000 (s.manifest.timeoutSeconds.getD 0) :=
    timeoutOf_getD (by unfold spinBox; omega)
  show JobForm.mk ((editor d tmpls jobId nowMs).get (rawJob d tmpls jobId s)).flagValues
    (spinBox 0 1000000 (rawJob d tmpls jobId s).manifest.frameStart)
    (spinBox 0 1000000 (rawJob d tmpls jobId s).manifest.frameEnd)
    (spinBox 1 10000 (rawJob d tmpls jobId s).manifest.chunkSize)
    (spinBox 1 999 (spinBox 1 999 s.priority))
    (spinBox 0 99 (rawJob d tmpls jobId s).manifest.maxRetries)
    (spinBox 0 1000000 ((rawJob d tmpls jobId s).manifest.timeoutSeconds.getD 0)) = _
  rw [hvalues, hstart, hend, hsize, hretries, htimeout, hseconds,
    spinBox_spinBox (by decide), spinBox_spinBox (by decide), spinBox_spinBox (by decide),
    spinBox_spinBox (by decide), spinBox_spinBox (by decide), spinBox_spinBox (by decide)]
  rfl

theorem Desk.canonicalise_outputDir (d : Desk) (m : JobManifest) :
    (d.canonicalise m).outputDir = m.outputDir.map d.store := by
  unfold Desk.canonicalise
  split
  · rfl
  · rename_i hother
    have hstore : d.store = id := by
      funext value
      exact if_neg hother
    rw [hstore, Option.map_id]
    rfl

/-- The directory is had of the same flag, or is the stored one. -/
theorem outputDir_again (h : Settles d s.manifest) (flags : List ManifestFlag) :
    (outputDirOf flags ((outputDirOf flags s.manifest.outputDir).map d.store)).map d.store =
      (outputDirOf flags s.manifest.outputDir).map d.store := by
  have hold : (s.manifest.outputDir.map d.store).map d.store =
      s.manifest.outputDir.map d.store := by
    rcases hdir : s.manifest.outputDir with _ | dir
    · rfl
    · exact congrArg some (h.outputDir dir hdir)
  unfold outputDirOf
  split
  · exact hold
  · dsimp only
    split
    · exact hold
    · rfl

/-- What the second edit starts from, apart from what a Mac stores otherwise. -/
theorem rawManifest_rawJob (hmissing : templateOf tmpls s.manifest = none)
    (h : Settles d s.manifest) :
    rawManifest d tmpls jobId (rawJob d tmpls jobId s) =
      { readBack (rawManifest d tmpls jobId s) with
        jobId := jobId
        submittedOs := (rawJob d tmpls jobId s).manifest.submittedOs
        outputDir := outputDirOf (s.manifest.flags.map (shownFlag d))
          (rawJob d tmpls jobId s).manifest.outputDir } := by
  have hform : (editSeed d tmpls (some (rawJob d tmpls jobId s).priority) jobId
      (rawJob d tmpls jobId s).manifest).form =
        (editSeed d tmpls (some s.priority) jobId s.manifest).form :=
    get_rawJob hmissing h 0
  have hflags : (rawJob d tmpls jobId s).manifest.flags.map (shownFlag d) =
      s.manifest.flags.map (shownFlag d) := shown_again h
  unfold rawManifest
  dsimp only
  rw [hform, hflags]
  unfold rawJob Desk.canonicalise
  split <;> rfl

/-- A manifest that was stored and read is stored as it is, but for its directory. -/
theorem stored_again (d : Desk) (m : JobManifest) (jobId : String) {dir : Option String}
    (hdir : dir.map d.store = m.outputDir.map d.store) :
    readBack { d.canonicalise { readBack m with
      jobId := jobId
      submittedOs := (d.canonicalise m).submittedOs
      outputDir := dir } with jobId := jobId } =
    readBack { d.canonicalise m with jobId := jobId } := by
  have hprogress : (readBack (readBack m)).progress = (readBack m).progress :=
    congrArg (·.progress) (readBack_readBack m)
  unfold Desk.canonicalise
  by_cases hmac : d.onMac = true
  · simp only [if_pos hmac, hdir]
    unfold readBack at hprogress ⊢
    dsimp only at hprogress ⊢
    rw [hprogress]
  · have hstore : d.store = id := by
      funext value
      exact if_neg hmac
    rw [hstore, Option.map_id] at hdir
    simp only [if_neg hmac]
    unfold readBack at hprogress ⊢
    dsimp only at hprogress ⊢
    rw [hprogress, show dir = m.outputDir from hdir]

/-- A second edit like the first makes nothing new of the job. -/
theorem rawJob_rawJob (hmissing : templateOf tmpls s.manifest = none) (h : Settles d s.manifest) :
    rawJob d tmpls jobId (rawJob d tmpls jobId s) = rawJob d tmpls jobId s := by
  have hpriority : spinBox 1 999 (spinBox 1 999 s.priority) = spinBox 1 999 s.priority :=
    spinBox_spinBox (by decide) _
  have hout : (rawJob d tmpls jobId s).manifest.outputDir =
      (outputDirOf (s.manifest.flags.map (shownFlag d)) s.manifest.outputDir).map d.store :=
    d.canonicalise_outputDir _
  have hdir : (outputDirOf (s.manifest.flags.map (shownFlag d))
      (rawJob d tmpls jobId s).manifest.outputDir).map d.store =
        (rawManifest d tmpls jobId s).outputDir.map d.store := by
    rw [hout]
    exact outputDir_again h _
  have hmanifest : readBack { d.canonicalise (rawManifest d tmpls jobId (rawJob d tmpls jobId s))
      with jobId := jobId } = (rawJob d tmpls jobId s).manifest := by
    rw [rawManifest_rawJob hmissing h]
    exact stored_again d (rawManifest d tmpls jobId s) jobId hdir
  show StoredJob.mk (readBack { d.canonicalise (rawManifest d tmpls jobId (rawJob d tmpls jobId s))
    with jobId := jobId }) (spinBox 1 999 (spinBox 1 999 s.priority)) = _
  rw [hmanifest, hpriority]
  rfl

/-! ## What it does to the command line -/

theorem length_buildArgs (nodeOS stagingDir : String) (chunk : ChunkRange) (f : ManifestFlag)
    (value : String) :
    (buildArgs nodeOS stagingDir [{ f with value := some value }] chunk).length =
      (buildArgs nodeOS stagingDir [f] chunk).length + if f.value.isNone then 1 else 0 := by
  unfold buildArgs
  simp only [List.flatMap_singleton, List.length_append]
  cases f.value <;> rfl

/-- Every flag without a value gets an argument more. -/
theorem length_rawArgs (d : Desk) (nodeOS stagingDir : String) (chunk : ChunkRange)
    (flags : List ManifestFlag) :
    (buildArgs nodeOS stagingDir (flags.map fun f => d.storeFlag (shownFlag d f)) chunk).length =
      (buildArgs nodeOS stagingDir flags chunk).length + flags.countP (·.value.isNone) := by
  induction flags with
  | nil => rfl
  | cons f flags ih =>
      have hfirst := length_buildArgs nodeOS stagingDir chunk f
        (d.store (d.display (f.value.getD "")))
      have hsplit : ∀ (g : ManifestFlag) gs, (buildArgs nodeOS stagingDir (g :: gs) chunk).length =
          (buildArgs nodeOS stagingDir [g] chunk).length +
            (buildArgs nodeOS stagingDir gs chunk).length := by
        intro g gs
        unfold buildArgs
        rw [List.flatMap_cons, List.length_append, List.flatMap_singleton]
      rw [List.map_cons, hsplit, hsplit f flags, ih, List.countP_cons]
      have hstored : d.storeFlag (shownFlag d f) =
          { f with value := some (d.store (d.display (f.value.getD ""))) } := rfl
      rw [hstored, hfirst]
      omega

end Raw

/-- A Mac that has the farm's drive mounted. -/
def macDesk : Desk where
  osTag := "mac"
  os := "macos"
  nodeId := "m1"
  mappings := [{ win := "Z:\\shots", mac := "/Volumes/shots" }]

/-- A job whose template is gone; its switch has no value. -/
def orphanJob : StoredJob where
  manifest :=
    { resolutionManifest with
      flags := [{ flag := "-render", value := none }, { flag := "", value := some "Z:\\shots\\a" }]
      outputDir := some "Z:\\shots" }
  priority := 50

theorem orphanJob_back : Settles macDesk orphanJob.manifest where
  values f hf v hv := by
    rcases List.mem_cons.mp hf with rfl | hf
    · cases hv
    · rw [List.mem_singleton.mp hf] at hv
      rw [← Option.some.inj hv]
      decide
  outputDir dir hdir := by
    rw [← Option.some.inj hdir]
    decide

/-- With the other slash a path does not come back. -/
example : macDesk.store (macDesk.display "Z:/shots/a") = "Z:\\shots\\a" := by decide

theorem orphanJob_put : (editor macDesk [] "shot" 2000).put orphanJob
    ((editor macDesk [] "shot" 2000).get orphanJob) =
      .ok (rawJob macDesk [] "shot" orphanJob) :=
  (put_shown rfl 2000).trans (if_neg (by decide))

end MinRender
