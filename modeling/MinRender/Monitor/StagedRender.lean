import MinRender.Monitor.Delivery
import MinRender.Monitor.StagedPaths

/-!
# A staged render

The renderer is given output paths in a staging directory, and what it leaves
there is copied into the one output directory of the manifest. Only the file
name of an output path survives this, so the files arrive where an unstaged
render writes them exactly where every output path lies in that directory.
-/

namespace MinRender.StagedRender
open TaskFormat

/-! ## The command line -/

/-- The output arguments a renderer is given. -/
def outputArgs (nodeOS stagingDir : String) (flags : List ManifestFlag) (chunk : ChunkRange) :
    List String :=
  flags.flatMap fun f =>
    match f.value with
    | some value => if f.isOutput then [flagValue nodeOS stagingDir f value chunk] else []
    | none => []

/-- The paths an unstaged render writes. -/
def outputPaths (nodeOS : String) (flags : List ManifestFlag) (chunk : ChunkRange) :
    List String :=
  outputArgs nodeOS "" flags chunk

/-- With staging each output path keeps its file name only. -/
theorem outputArgs_staged {nodeOS stagingDir : String} (h : stagingDir ≠ "")
    (flags : List ManifestFlag) (chunk : ChunkRange) :
    outputArgs nodeOS stagingDir flags chunk = (outputPaths nodeOS flags chunk).map fun path =>
      joinPath (pathTag nodeOS) stagingDir (filename (pathTag nodeOS) path) := by
  unfold outputPaths outputArgs
  rw [List.map_flatMap]
  congr 1
  funext f
  cases f.value with
  | none => rfl
  | some value =>
      cases hout : f.isOutput with
      | false => rfl
      | true => simp [flagValue, h, hout]

/-! ## Files -/

/-- Files and their contents; letter case is the file system's. -/
abbrev Files := List (Location × String)

instance (os : String) (l k : Location) : Decidable (SamePlace os l k) :=
  inferInstanceAs (Decidable (_ = _))

/-- A file written anew, or over the one in its place. -/
def Files.write (os : String) (files : Files) (l : Location) (content : String) : Files :=
  (l, content) :: files.filter fun f => decide ¬ SamePlace os f.1 l

def Files.at? (os : String) (files : Files) (l : Location) : Option String :=
  (files.find? fun f => decide (SamePlace os f.1 l)).map (·.2)

/-- Files written in order. -/
def Files.writeAll (os : String) (files : List (Location × String)) : Files :=
  files.foldl (fun acc f => Files.write os acc f.1 f.2) []

/-! ## The render and its delivery -/

/-- A node with staging: where its renderer and itself are, and the staging
directory it has made for the chunk. -/
structure Site where
  nodeOS : String
  renderCwd : CurrentDirs
  nodeCwd : CurrentDirs
  staging : Directory (pathTag nodeOS)

abbrev Site.os (s : Site) : String := pathTag s.nodeOS

/-- What the renderer writes: at each output argument, if its path can be that
of a file, a file that holds what was meant for the path. -/
def render (s : Site) (flags : List ManifestFlag) (chunk : ChunkRange) : Files :=
  Files.writeAll s.os (((outputArgs s.nodeOS s.staging.text flags chunk).zip
    (outputPaths s.nodeOS flags chunk)).filterMap fun (arg, path) =>
      (fileName? s.os path).map fun _ => (place s.os s.renderCwd arg, path))

/-- The entry a file is in a directory. -/
def entryIn (os : String) (dir : Location) (f : Location × String) : Option Delivery.Entry :=
  match f.1.names.getLast? with
  | some n =>
      if SamePlace os ⟨f.1.root, f.1.names.dropLast⟩ dir then
        some (.file (String.ofList n.text) f.2)
      else none
  | none => none

/-- The staging directory after the render. -/
def staged (s : Site) (flags : List ManifestFlag) (chunk : ChunkRange) : List Delivery.Entry :=
  (render s flags chunk).filterMap
    (entryIn s.os (place s.os s.nodeCwd s.staging.text))

/-- Where `copyStagingFiles` puts an entry. -/
def destination (s : Site) (outputDir : String) (f : Delivery.Staged) : Location :=
  resolve s.os s.nodeCwd
    (f.1.foldl (fun p name => p.append name.toList) (FsPath.parse s.os outputDir))

/-- The files a delivery leaves in the output directory. -/
def delivered (s : Site) (outputDir : String) (o : Delivery.Outcome) : Files :=
  Files.writeAll s.os (o.copied.map fun f => (destination s outputDir f, f.2))

/-- After a successful delivery, in which every file of the staging directory
was within reach, the place of every output path that can be a file holds the
file meant for it, or for another path of the same place. -/
def Transparent (s : Site) (m : JobManifest) (chunk : ChunkRange) : Prop :=
  ∀ outputDir, m.outputDir = some outputDir → outputDir ≠ "" → ∀ fs,
    Delivery.AllInReach fs (staged s m.flags chunk) →
    (Delivery.deliverStagedFiles fs (staged s m.flags chunk)).returned = some true →
    ∀ path ∈ outputPaths s.nodeOS m.flags chunk, (fileName? s.os path).isSome = true →
      ∃ other ∈ outputPaths s.nodeOS m.flags chunk,
        SamePlace s.os (place s.os s.renderCwd other) (place s.os s.renderCwd path) ∧
        (delivered s outputDir (Delivery.deliverStagedFiles fs (staged s m.flags chunk))).at?
          s.os (place s.os s.renderCwd path) = some other

/-- The path lies directly in the output directory. -/
def InOutputDir (s : Site) (outputDir path : String) : Prop :=
  SamePlace s.os (folder s.os s.renderCwd path) (inside s.os s.nodeCwd outputDir)

/-! ## Writing files -/

variable {os : String}

theorem SamePlace.refl (l : Location) : SamePlace os l l := rfl

theorem child_fold (l : Location) (n : FileName) :
    (l.child n).fold os =
      ⟨l.root.fold os, (l.fold os).names ++ [if os = "win" then n.lower else n]⟩ := by
  unfold Location.fold Location.child
  split
  · simp
  · simp

/-- Two files are the same place when their directories are and their names. -/
theorem samePlace_child {l k : Location} {n m : FileName} :
    SamePlace os (l.child n) (k.child m) ↔ SamePlace os l k ∧
      (if os = "win" then n.lower else n) = if os = "win" then m.lower else m := by
  unfold SamePlace
  rw [child_fold, child_fold]
  constructor
  · intro h
    injection h with hroot hnames
    have hinj := List.append_inj' hnames rfl
    refine ⟨?_, by simpa using hinj.2⟩
    show (⟨l.root.fold os, (l.fold os).names⟩ : Location) = ⟨k.root.fold os, (k.fold os).names⟩
    rw [hroot, hinj.1]
  · rintro ⟨hdir, hname⟩
    have hroot : l.root.fold os = k.root.fold os := congrArg Location.root hdir
    rw [hroot, hdir, hname]

theorem writeAll_concat (files : List (Location × String)) (f : Location × String) :
    Files.writeAll os (files ++ [f]) = Files.write os (Files.writeAll os files) f.1 f.2 := by
  unfold Files.writeAll
  rw [List.foldl_append]
  rfl

theorem mem_write {files : Files} {l : Location} {content : String} {f : Location × String} :
    f ∈ Files.write os files l content ↔
      f = (l, content) ∨ f ∈ files ∧ ¬ SamePlace os f.1 l := by
  unfold Files.write
  rw [List.mem_cons, List.mem_filter, decide_eq_true_eq]

theorem mem_of_writeAll {f : Location × String} :
    ∀ {files : List (Location × String)}, f ∈ Files.writeAll os files → f ∈ files := by
  intro files
  induction files using List.reverseRecOn with
  | nil => exact fun h => h
  | append_singleton files g ih =>
      intro h
      rw [writeAll_concat, mem_write] at h
      rcases h with rfl | ⟨h, -⟩
      · simp
      · exact List.mem_append_left _ (ih h)

/-- The place of every write holds a file in the end. -/
theorem exists_writeAll {g : Location × String} :
    ∀ {files : List (Location × String)}, g ∈ files →
      ∃ f ∈ Files.writeAll os files, SamePlace os f.1 g.1 := by
  intro files
  induction files using List.reverseRecOn with
  | nil => exact fun h => (nomatch h)
  | append_singleton files f ih =>
      intro hg
      by_cases hsame : SamePlace os g.1 f.1
      · exact ⟨f, by rw [writeAll_concat, mem_write]; exact .inl rfl, hsame.symm⟩
      · have hold : g ∈ files := by
          rcases List.mem_append.mp hg with h | h
          · exact h
          · rw [List.mem_singleton] at h
            exact absurd (by rw [h]; exact SamePlace.refl _) hsame
        obtain ⟨f', hf', hplace⟩ := ih hold
        refine ⟨f', ?_, hplace⟩
        rw [writeAll_concat, mem_write]
        exact .inr ⟨hf', fun h => hsame (hplace.symm.trans h)⟩

theorem at?_some {files : Files} {l : Location} {content : String}
    (h : files.at? os l = some content) : ∃ f ∈ files, SamePlace os f.1 l ∧ f.2 = content := by
  obtain ⟨f, hf, hc⟩ := Option.map_eq_some_iff.mp h
  have hplace := List.find?_some hf
  exact ⟨f, List.mem_of_find?_eq_some hf, of_decide_eq_true hplace, hc⟩

theorem at?_isSome {files : Files} {l : Location} {f : Location × String} (hf : f ∈ files)
    (h : SamePlace os f.1 l) : ∃ content, files.at? os l = some content := by
  have hfind : (files.find? fun f => decide (SamePlace os f.1 l)).isSome = true := by
    rw [List.find?_isSome]
    exact ⟨f, hf, decide_eq_true h⟩
  obtain ⟨g, hg⟩ := Option.isSome_iff_exists.mp hfind
  exact ⟨g.2, by unfold Files.at?; rw [hg]; rfl⟩

/-! ## What is staged and delivered -/

variable {s : Site} {flags : List ManifestFlag} {chunk : ChunkRange}

/-- Where the staged files are. -/
def stagingPlace (s : Site) : Location := place s.os s.nodeCwd s.staging.text

theorem Directory.text_ne_empty (dir : Directory os) : dir.text ≠ "" := by
  intro h
  have hnamed := dir.named
  rw [parse_eq, h] at hnamed
  apply hnamed
  unfold splitRootName
  split
  · rfl
  · rfl

/-- The writes of a render, by output path. -/
def writes (s : Site) (flags : List ManifestFlag) (chunk : ChunkRange) :
    List (Location × String) :=
  (outputPaths s.nodeOS flags chunk).filterMap fun path =>
    (fileName? s.os path).map fun n => ((stagingPlace s).child n, path)

theorem render_eq (s : Site) (flags : List ManifestFlag) (chunk : ChunkRange) :
    render s flags chunk = Files.writeAll s.os (writes s flags chunk) := by
  unfold render writes
  rw [outputArgs_staged (Directory.text_ne_empty s.staging), ← List.map_prod_right_eq_zip,
    List.filterMap_map]
  congr 2
  funext path
  show (fileName? s.os path).map _ = _
  cases hn : fileName? s.os path with
  | none => rfl
  | some n =>
      show some (place s.os s.renderCwd _, path) = some _
      rw [place_joinPath s.staging hn, s.staging.inside_eq s.renderCwd s.nodeCwd]
      rfl

theorem entryIn_child (dir : Location) (n : FileName) (content : String) :
    entryIn os dir (dir.child n, content) = some (.file (String.ofList n.text) content) := by
  unfold entryIn Location.child
  rw [List.getLast?_concat, List.dropLast_concat]
  exact if_pos (SamePlace.refl dir)

/-- An output path and the entry of its file in the staging directory. -/
def EntryOf (s : Site) (flags : List ManifestFlag) (chunk : ChunkRange) (path : String)
    (n : FileName) : Prop :=
  path ∈ outputPaths s.nodeOS flags chunk ∧ fileName? s.os path = some n

/-- The files of the render are files of output paths. -/
theorem mem_render {f : Location × String} (h : f ∈ render s flags chunk) :
    ∃ n, EntryOf s flags chunk f.2 n ∧ f.1 = (stagingPlace s).child n := by
  rw [render_eq] at h
  obtain ⟨path, hpath, hf⟩ := List.mem_filterMap.mp (mem_of_writeAll h)
  obtain ⟨n, hn, rfl⟩ := Option.map_eq_some_iff.mp hf
  exact ⟨n, ⟨hpath, hn⟩, rfl⟩

theorem mem_staged {e : Delivery.Entry} (h : e ∈ staged s flags chunk) :
    ∃ path n, EntryOf s flags chunk path n ∧ e = .file (String.ofList n.text) path := by
  obtain ⟨⟨l, path⟩, hf, he⟩ := List.mem_filterMap.mp h
  obtain ⟨n, hentry, hl⟩ := mem_render hf
  dsimp only at hentry hl
  rw [hl, show place s.os s.nodeCwd s.staging.text = stagingPlace s from rfl,
    entryIn_child] at he
  cases he
  exact ⟨path, n, hentry, rfl⟩

/-- The place of every staged path holds a file in the end. -/
theorem exists_staged {path : String} {n : FileName} (h : EntryOf s flags chunk path n) :
    ∃ path' n', EntryOf s flags chunk path' n' ∧
      SamePlace s.os ((stagingPlace s).child n') ((stagingPlace s).child n) ∧
      Delivery.Entry.file (String.ofList n'.text) path' ∈ staged s flags chunk := by
  obtain ⟨hpath, hn⟩ := h
  have hwrite : ((stagingPlace s).child n, path) ∈ writes s flags chunk := by
    refine List.mem_filterMap.mpr ⟨path, hpath, ?_⟩
    rw [hn]
    rfl
  obtain ⟨⟨l, path'⟩, hf, hplace⟩ := @exists_writeAll s.os _ _ hwrite
  rw [← render_eq] at hf
  obtain ⟨n', hentry, hl⟩ := mem_render hf
  dsimp only at hentry hl hplace
  subst hl
  refine ⟨path', n', hentry, hplace, List.mem_filterMap.mpr ⟨_, hf, ?_⟩⟩
  exact entryIn_child (stagingPlace s) n' path'

theorem mem_regularFiles {f : Delivery.Staged} :
    f ∈ Delivery.regularFiles (staged s flags chunk) ↔
      ∃ name content, Delivery.Entry.file name content ∈ staged s flags chunk ∧
        f = ([name], content) := by
  unfold Delivery.regularFiles
  rw [Delivery.mem_filesIn]
  constructor
  · rintro ⟨e, he, hf⟩
    obtain ⟨path, n, -, rfl⟩ := mem_staged he
    rw [Delivery.Entry.files, List.mem_singleton] at hf
    exact ⟨_, _, he, hf⟩
  · rintro ⟨name, content, he, rfl⟩
    exact ⟨_, he, by simp [Delivery.Entry.files]⟩

/-- A delivery that returned true copied what it could see. -/
theorem copied_of_returned {fs : Delivery.FileSystem} {entries : List Delivery.Entry}
    (h : (Delivery.deliverStagedFiles fs entries).returned = some true) :
    ¬ Delivery.SomeCopyFails fs entries ∧ (Delivery.deliverStagedFiles fs entries).copied =
      (Delivery.listed fs entries).flatMap fun e => (Delivery.copyEntry fs e).2 := by
  cases hout : fs.outputExists with
  | false =>
      rw [Delivery.deliver_of_not_exists hout] at h
      cases h
  | true =>
      by_cases hadv : ∀ e ∈ Delivery.listed fs entries, fs.advances e.name = true
      · by_cases hfails : Delivery.SomeCopyFails fs entries
        · rw [(Delivery.deliver_of_copy_fails hout hadv hfails).1] at h
          cases h
        · rw [Delivery.deliver_of_copies hout hadv hfails]
          exact ⟨hfails, rfl⟩
      · rw [(Delivery.deliver_of_not_advances hout hadv).1] at h
        cases h

/-- What is copied is staged. -/
theorem mem_copied {fs : Delivery.FileSystem} {f : Delivery.Staged}
    (h : (Delivery.deliverStagedFiles fs (staged s flags chunk)).returned = some true)
    (hf : f ∈ (Delivery.deliverStagedFiles fs (staged s flags chunk)).copied) :
    ∃ path n, EntryOf s flags chunk path n ∧ f = ([String.ofList n.text], path) := by
  rw [(copied_of_returned h).2] at hf
  obtain ⟨e, he, hcopy⟩ := List.mem_flatMap.mp hf
  obtain ⟨content, hreg, -, rfl⟩ := Delivery.mem_copyEntry.mp hcopy
  have hstaged : e ∈ staged s flags chunk := by
    unfold Delivery.listed at he
    split at he
    · exact he
    · cases he
  obtain ⟨path, n, hentry, rfl⟩ := mem_staged hstaged
  refine ⟨path, n, hentry, ?_⟩
  unfold Delivery.regular? at hreg
  split at hreg
  · cases hreg
    rfl
  · cases hreg

theorem destination_eq {outputDir path : String} {n : FileName}
    (h : fileName? s.os path = some n) (content : String) :
    destination s outputDir ([String.ofList n.text], content) =
      (inside s.os s.nodeCwd outputDir).child n := by
  unfold destination
  dsimp only [List.foldl_cons, List.foldl_nil]
  rw [String.toList_ofList]
  exact resolve_append (named_of_fileName h).2.settled

/-! ## When staging is transparent -/

/-- A place that holds a file after the delivery: the file is that of an output
path whose name it is, in the output directory. -/
theorem at?_delivered {fs : Delivery.FileSystem} {outputDir : String} {l : Location}
    {content : String}
    (h : (Delivery.deliverStagedFiles fs (staged s flags chunk)).returned = some true)
    (hat : (delivered s outputDir (Delivery.deliverStagedFiles fs (staged s flags chunk))).at?
      s.os l = some content) :
    ∃ n, EntryOf s flags chunk content n ∧
      SamePlace s.os ((inside s.os s.nodeCwd outputDir).child n) l := by
  obtain ⟨f, hf, hplace, hcontent⟩ := at?_some hat
  obtain ⟨g, hg, rfl⟩ := List.mem_map.mp (mem_of_writeAll hf)
  obtain ⟨path, n, hentry, rfl⟩ := mem_copied h hg
  dsimp only at hplace hcontent
  subst hcontent
  rw [destination_eq hentry.2] at hplace
  exact ⟨n, hentry, hplace⟩

theorem transparent_of_inOutputDir {m : JobManifest} {outputDir : String}
    (h : ∀ path ∈ outputPaths s.nodeOS m.flags chunk, (fileName? s.os path).isSome = true →
      InOutputDir s outputDir path) {fs : Delivery.FileSystem}
    (hreach : Delivery.AllInReach fs (staged s m.flags chunk))
    (hret : (Delivery.deliverStagedFiles fs (staged s m.flags chunk)).returned = some true)
    {path : String} (hpath : path ∈ outputPaths s.nodeOS m.flags chunk)
    (hname : (fileName? s.os path).isSome = true) :
    ∃ other ∈ outputPaths s.nodeOS m.flags chunk,
      SamePlace s.os (place s.os s.renderCwd other) (place s.os s.renderCwd path) ∧
      (delivered s outputDir (Delivery.deliverStagedFiles fs (staged s m.flags chunk))).at?
        s.os (place s.os s.renderCwd path) = some other := by
  obtain ⟨n, hn⟩ := Option.isSome_iff_exists.mp hname
  -- a path lies where its name is delivered to
  have hdelivers : ∀ p k, EntryOf s m.flags chunk p k →
      SamePlace s.os ((inside s.os s.nodeCwd outputDir).child k) (place s.os s.renderCwd p) := by
    rintro p k ⟨hp, hk⟩
    rw [place_of_fileName hk]
    have hdir := h p hp (Option.isSome_iff_exists.mpr ⟨k, hk⟩)
    exact samePlace_child.mpr ⟨hdir.symm, rfl⟩
  obtain ⟨path', n', hentry, hplace, hstaged⟩ := exists_staged ⟨hpath, hn⟩
  obtain ⟨hfails, hcopied⟩ := copied_of_returned hret
  have hcopy : ([String.ofList n'.text], path') ∈
      (Delivery.deliverStagedFiles fs (staged s m.flags chunk)).copied := by
    rw [hcopied]
    exact (Delivery.all_copied_iff hfails).mpr hreach _
      (mem_regularFiles.mpr ⟨_, _, hstaged, rfl⟩)
  obtain ⟨f, hf, hdest⟩ := @exists_writeAll s.os _ _
    (List.mem_map.mpr ⟨_, hcopy, rfl⟩ :
      (destination s outputDir ([String.ofList n'.text], path'), path') ∈
        (Delivery.deliverStagedFiles fs (staged s m.flags chunk)).copied.map
          fun f => (destination s outputDir f, f.2))
  rw [destination_eq hentry.2] at hdest
  -- the file in the place of the path's file
  have hhere : SamePlace s.os f.1 (place s.os s.renderCwd path) := by
    refine hdest.trans ?_
    rw [place_of_fileName hn]
    have hdir := h path hpath hname
    exact samePlace_child.mpr ⟨hdir.symm, (samePlace_child.mp hplace).2⟩
  obtain ⟨content, hat⟩ := at?_isSome hf hhere
  obtain ⟨k, hk, hsame⟩ := at?_delivered hret hat
  exact ⟨content, hk.1, (hdelivers content k hk).symm.trans hsame, hat⟩

/-- The file system that never fails. -/
theorem returned_default (s : Site) (flags : List ManifestFlag) (chunk : ChunkRange) :
    Delivery.AllInReach {} (staged s flags chunk) ∧
      (Delivery.deliverStagedFiles {} (staged s flags chunk)).returned = some true := by
  constructor
  · intro f hf
    obtain ⟨name, content, -, rfl⟩ := mem_regularFiles.mp hf
    exact ⟨rfl, name, rfl, rfl⟩
  · have hfails : ¬ Delivery.SomeCopyFails {} (staged s flags chunk) := by
      rintro ⟨e, -, -, hcopies⟩
      cases hcopies
    rw [Delivery.deliver_of_copies rfl (fun _ _ => rfl) hfails]

/-- **Staging is transparent exactly when every output path that can be a file
lies directly in the output directory**, whatever the flags, the tokens in
them and the directories. -/
theorem transparent_iff (s : Site) (m : JobManifest) (chunk : ChunkRange) :
    Transparent s m chunk ↔ ∀ outputDir, m.outputDir = some outputDir → outputDir ≠ "" →
      ∀ path ∈ outputPaths s.nodeOS m.flags chunk, (fileName? s.os path).isSome = true →
        InOutputDir s outputDir path := by
  constructor
  · intro h outputDir hdir hne path hpath hname
    obtain ⟨hreach, hret⟩ := returned_default s m.flags chunk
    obtain ⟨other, -, -, hat⟩ := h outputDir hdir hne {} hreach hret path hpath hname
    obtain ⟨k, -, hplace⟩ := at?_delivered hret hat
    obtain ⟨n, hn⟩ := Option.isSome_iff_exists.mp hname
    rw [place_of_fileName hn] at hplace
    exact (samePlace_child.mp hplace).1.symm
  · intro h outputDir hdir hne fs hreach hret path hpath hname
    exact transparent_of_inOutputDir (h outputDir hdir hne) hreach hret hpath hname

/-! ## Two output directories -/

/-- A node at the root directory. -/
def site : Site where
  nodeOS := "linux"
  renderCwd := fun _ => ⟨.slash, []⟩
  nodeCwd := fun _ => ⟨.slash, []⟩
  staging :=
    { text := "/data/staging/shot/1-1"
      absolute := by decide
      named := by decide
      settled := by decide }

/-- A manifest baked from two output flags; the directory is the first one's. -/
def twoPasses : JobManifest :=
  { jobId := "shot"
    flags := [{ flag := "-o", value := some "/renders/beauty/shot.exr", isOutput := true },
      { flag := "-p", value := some "/renders/depth/shot.exr", isOutput := true }]
    outputDir := some "/renders/beauty" }

/-- The second pass is delivered over the first, and nothing is in its place. -/
theorem second_pass_lost : ¬ ∀ s m chunk, Transparent s m chunk := by
  intro h
  have hname : (fileName? site.os "/renders/depth/shot.exr").isSome = true := by decide
  obtain ⟨hreach, hret⟩ := returned_default site twoPasses.flags ⟨1, 1⟩
  obtain ⟨other, -, -, hat⟩ := h site twoPasses ⟨1, 1⟩ "/renders/beauty" rfl (by decide) {}
    hreach hret "/renders/depth/shot.exr" (by decide +kernel) hname
  obtain ⟨k, -, hplace⟩ := at?_delivered hret hat
  obtain ⟨n, hn⟩ := Option.isSome_iff_exists.mp hname
  rw [place_of_fileName hn] at hplace
  have hdir := (samePlace_child.mp hplace).1
  exact absurd hdir (by decide)

end MinRender.StagedRender
