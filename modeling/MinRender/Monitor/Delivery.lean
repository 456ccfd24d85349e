import MinRender.Monitor.RenderCoordinator

/-!
# Delivering staged frames

`copyStagingFiles` and `deliverStagedFiles` on a staging directory of any
shape, with every answer the file system may give along the way. The module
says when a delivery loses no frame.
-/

namespace MinRender.Delivery

/-- An entry of a directory: a regular file, a directory, or anything else,
such as a symbolic link, with the content of the regular file it leads to if
it leads to one. -/
inductive Entry
  | file (name content : String)
  | dir (name : String) (entries : List Entry)
  | link (name : String) (target : Option String)

def Entry.name : Entry → String
  | .file name _ | .dir name _ | .link name _ => name

/-- A file by its path below the staging directory, and its content. -/
abbrev Staged := List String × String

mutual

/-- The regular files at and below an entry of the directory at `path`. -/
def Entry.files (path : List String) : Entry → List Staged
  | .file name content => [(path ++ [name], content)]
  | .dir name entries => filesIn (path ++ [name]) entries
  | .link _ _ => []

def filesIn (path : List String) : List Entry → List Staged
  | [] => []
  | e :: rest => e.files path ++ filesIn path rest

end

/-- Every regular file anywhere under the staging directory. -/
def regularFiles (staging : List Entry) : List Staged := filesIn [] staging

/-- What the file system answers during one delivery: whether the output
directory exists after the attempt to create it, whether the staging directory
opens for listing, and for an entry's name whether its type can be read,
whether its copy succeeds and whether the listing advances past it. `left` is
what the final removal leaves, `none` if nothing. -/
structure FileSystem where
  outputExists : Bool := true
  opens : Bool := true
  typeReads : String → Bool := fun _ => true
  copies : String → Bool := fun _ => true
  advances : String → Bool := fun _ => true
  left : Option (List Entry) := none

/-- What `is_regular_file` finds, through a link: the content, if the type can
be read and is that of a regular file. -/
def regular? (fs : FileSystem) (e : Entry) : Option String :=
  if fs.typeReads e.name then
    match e with
    | .file _ content => some content
    | .link _ target => target
    | .dir _ _ => none
  else none

/-- One turn of the loop: whether nothing failed, and the file copied. An entry
that is not seen to be a regular file is skipped. -/
def copyEntry (fs : FileSystem) (e : Entry) : Bool × List Staged :=
  match regular? fs e with
  | none => (true, [])
  | some content =>
      if fs.copies e.name then (true, [([e.name], content)]) else (false, [])

/-- The loop over the listing: `allOk`, or `none` where advancing raises, and
the files copied. -/
def copyEntries (fs : FileSystem) : List Entry → Option Bool × List Staged
  | [] => (some true, [])
  | e :: rest =>
      let (ok, copied) := copyEntry fs e
      if fs.advances e.name then
        let (allOk, more) := copyEntries fs rest
        (allOk.map (ok && ·), copied ++ more)
      else (none, copied)

/-- The entries the listing gives: none where it does not open, which the loop
does not tell from an empty directory. -/
def listed (fs : FileSystem) (staging : List Entry) : List Entry :=
  if fs.opens then staging else []

def copyStagingFiles (fs : FileSystem) (staging : List Entry) :
    Option Bool × List Staged :=
  if fs.outputExists then copyEntries fs (listed fs staging) else (some false, [])

/-- What a delivery returned, `none` where it raised, which files it copied,
and what is left of the staging directory. -/
structure Outcome where
  returned : Option Bool
  copied : List Staged
  staging : Option (List Entry)

def deliverStagedFiles (fs : FileSystem) (staging : List Entry) : Outcome :=
  match copyStagingFiles fs staging with
  | (some true, copied) => ⟨some true, copied, fs.left⟩
  | (returned, copied) => ⟨returned, copied, some staging⟩

/-! ## No frame is lost -/

/-- Where the delivery returns true or touches the staging directory, every
regular file that was anywhere under it was copied; otherwise it returns
false. -/
def LosesNoFrame (fs : FileSystem) (staging : List Entry) : Prop :=
  let o := deliverStagedFiles fs staging
  (o.returned = some true ∨ o.staging ≠ some staging →
    ∀ f ∈ regularFiles staging, f ∈ o.copied) ∧
  (o.returned ≠ some true → o.staging = some staging → o.returned = some false)

/-- Every regular file is directly in the staging directory, which opens, and
its type can be read. -/
def AllInReach (fs : FileSystem) (staging : List Entry) : Prop :=
  ∀ f ∈ regularFiles staging, fs.opens = true ∧
    ∃ name, f.1 = [name] ∧ fs.typeReads name = true

/-- The copy of some listed file fails. -/
def SomeCopyFails (fs : FileSystem) (staging : List Entry) : Prop :=
  ∃ e ∈ listed fs staging, (regular? fs e).isSome ∧ fs.copies e.name = false

/-- The output directory is out of reach; or the listing never fails to
advance, and either the copy of a listed file fails or no regular file is out
of reach. -/
def Safe (fs : FileSystem) (staging : List Entry) : Prop :=
  fs.outputExists = false ∨
    (∀ e ∈ listed fs staging, fs.advances e.name = true) ∧
      (SomeCopyFails fs staging ∨ AllInReach fs staging)

/-! ## Paths -/

mutual

/-- The path of a file below an entry goes through the entry. -/
theorem Entry.path_of_mem {path : List String} {f : Staged} :
    ∀ {e : Entry}, f ∈ e.files path → ∃ rest, f.1 = path ++ e.name :: rest
  | .file name content, h => by
      rw [Entry.files, List.mem_singleton] at h
      exact ⟨[], by rw [h]; rfl⟩
  -- one name longer for every directory on the way
  | .dir name entries, h => by
      rw [Entry.files] at h
      obtain ⟨e, -, rest, hpath⟩ := path_of_mem_filesIn h
      exact ⟨e.name :: rest, by rw [hpath, List.append_assoc]; rfl⟩
  | .link name target, h => by
      rw [Entry.files] at h
      cases h

theorem path_of_mem_filesIn {path : List String} {f : Staged} :
    ∀ {entries : List Entry}, f ∈ filesIn path entries →
      ∃ e ∈ entries, ∃ rest, f.1 = path ++ e.name :: rest
  | [], h => by
      rw [filesIn] at h
      cases h
  | e :: entries, h => by
      rw [filesIn, List.mem_append] at h
      rcases h with h | h
      · obtain ⟨rest, hpath⟩ := Entry.path_of_mem h
        exact ⟨e, List.mem_cons_self, rest, hpath⟩
      · obtain ⟨e', he', rest, hpath⟩ := path_of_mem_filesIn h
        exact ⟨e', List.mem_cons_of_mem e he', rest, hpath⟩

end

theorem mem_filesIn {path : List String} {f : Staged} {entries : List Entry} :
    f ∈ filesIn path entries ↔ ∃ e ∈ entries, f ∈ e.files path := by
  induction entries with
  | nil => simp [filesIn]
  | cons e entries ih => simp [filesIn, ih]

/-- The files directly in the staging directory are those with a path of one
name. -/
theorem mem_regularFiles_singleton {staging : List Entry} {name content : String} :
    ([name], content) ∈ regularFiles staging ↔ Entry.file name content ∈ staging := by
  rw [regularFiles, mem_filesIn]
  constructor
  · rintro ⟨e, he, hf⟩
    cases e with
    | file name' content' =>
        rw [Entry.files, List.mem_singleton, Prod.mk.injEq] at hf
        obtain ⟨hname, rfl⟩ := hf
        cases hname
        exact he
    | dir name' entries =>
        rw [Entry.files] at hf
        obtain ⟨e', -, rest, hpath⟩ := path_of_mem_filesIn hf
        simp at hpath
    | link name' target =>
        rw [Entry.files] at hf
        cases hf
  · intro he
    exact ⟨_, he, by simp [Entry.files]⟩

/-! ## The copy loop -/

variable {fs : FileSystem} {staging : List Entry}

theorem copyEntries_of_advances {entries : List Entry}
    (h : ∀ e ∈ entries, fs.advances e.name = true) :
    copyEntries fs entries = (some (entries.all fun e => (copyEntry fs e).1),
      entries.flatMap fun e => (copyEntry fs e).2) := by
  induction entries with
  | nil => rfl
  | cons e entries ih =>
      obtain ⟨he, hrest⟩ := List.forall_mem_cons.mp h
      rw [copyEntries, ih hrest]
      simp [he]

theorem copyEntries_of_not_advances {entries : List Entry}
    (h : ¬ ∀ e ∈ entries, fs.advances e.name = true) :
    (copyEntries fs entries).1 = none := by
  induction entries with
  | nil => exact absurd (fun e he => by cases he) h
  | cons e entries ih =>
      rw [copyEntries]
      by_cases he : fs.advances e.name = true
      · have hrest : ¬ ∀ e ∈ entries, fs.advances e.name = true :=
          fun hall => h (List.forall_mem_cons.mpr ⟨he, hall⟩)
        simp [he, ih hrest]
      · simp [he]

theorem copyEntry_fst {e : Entry} :
    (copyEntry fs e).1 = false ↔ (regular? fs e).isSome ∧ fs.copies e.name = false := by
  unfold copyEntry
  cases regular? fs e with
  | none => simp
  | some content => cases fs.copies e.name <;> simp

theorem mem_copyEntry {e : Entry} {f : Staged} : f ∈ (copyEntry fs e).2 ↔
    ∃ content, regular? fs e = some content ∧ fs.copies e.name = true ∧
      f = ([e.name], content) := by
  unfold copyEntry
  cases regular? fs e with
  | none => simp
  | some content => cases fs.copies e.name <;> simp

theorem regular?_typeReads {e : Entry} {content : String}
    (h : regular? fs e = some content) : fs.typeReads e.name = true := by
  unfold regular? at h
  split at h
  · assumption
  · cases h

/-- Where no copy fails, every regular file is copied exactly if every one is
in reach. -/
theorem all_copied_iff (hno : ¬ SomeCopyFails fs staging) :
    (∀ f ∈ regularFiles staging,
      f ∈ (listed fs staging).flatMap fun e => (copyEntry fs e).2) ↔
    AllInReach fs staging := by
  refine forall_congr' fun f => forall_congr' fun hf => ?_
  rw [List.mem_flatMap]
  constructor
  · rintro ⟨e, he, hcopy⟩
    obtain ⟨content, hreg, -, rfl⟩ := mem_copyEntry.mp hcopy
    -- nothing is copied from a listing that did not open
    have hopens : fs.opens = true := by
      by_contra hclosed
      rw [listed, if_neg hclosed] at he
      cases he
    exact ⟨hopens, e.name, rfl, regular?_typeReads hreg⟩
  · rintro ⟨hopens, name, hpath, htype⟩
    obtain ⟨path, content⟩ := f
    cases hpath
    have he : Entry.file name content ∈ listed fs staging := by
      rw [listed, if_pos hopens]
      exact mem_regularFiles_singleton.mp hf
    have hreg : regular? fs (.file name content) = some content := if_pos htype
    refine ⟨_, he, mem_copyEntry.mpr ⟨content, hreg, ?_, rfl⟩⟩
    by_contra hfails
    exact hno ⟨_, he, by rw [hreg]; rfl, Bool.not_eq_true _ ▸ hfails⟩

theorem all_ok_iff :
    ((listed fs staging).all fun e => (copyEntry fs e).1) = false ↔
      SomeCopyFails fs staging := by
  rw [List.all_eq_false]
  constructor
  · rintro ⟨e, he, hbad⟩
    exact ⟨e, he, copyEntry_fst.mp (Bool.not_eq_true _ ▸ hbad)⟩
  · rintro ⟨e, he, hfails⟩
    exact ⟨e, he, by rw [copyEntry_fst.mpr hfails]; exact Bool.false_ne_true⟩

/-! ## The delivery -/

/-- Out of reach of the output directory nothing happens. -/
theorem deliver_of_not_exists (h : fs.outputExists = false) :
    deliverStagedFiles fs staging = ⟨some false, [], some staging⟩ := by
  simp [deliverStagedFiles, copyStagingFiles, h]

/-- A listing that fails to advance raises. -/
theorem deliver_of_not_advances (hout : fs.outputExists = true)
    (h : ¬ ∀ e ∈ listed fs staging, fs.advances e.name = true) :
    (deliverStagedFiles fs staging).returned = none ∧
      (deliverStagedFiles fs staging).staging = some staging := by
  unfold deliverStagedFiles copyStagingFiles
  rw [if_pos hout]
  have hnone := copyEntries_of_not_advances h
  generalize copyEntries fs (listed fs staging) = r at hnone
  obtain ⟨returned, copied⟩ := r
  cases hnone
  exact ⟨rfl, rfl⟩

/-- A failed copy keeps the staging directory. -/
theorem deliver_of_copy_fails (hout : fs.outputExists = true)
    (hadv : ∀ e ∈ listed fs staging, fs.advances e.name = true)
    (h : SomeCopyFails fs staging) :
    (deliverStagedFiles fs staging).returned = some false ∧
      (deliverStagedFiles fs staging).staging = some staging := by
  unfold deliverStagedFiles copyStagingFiles
  rw [if_pos hout, copyEntries_of_advances hadv, all_ok_iff.mpr h]
  exact ⟨rfl, rfl⟩

/-- A listing walked to its end without a failed copy counts as delivered. -/
theorem deliver_of_copies (hout : fs.outputExists = true)
    (hadv : ∀ e ∈ listed fs staging, fs.advances e.name = true)
    (h : ¬ SomeCopyFails fs staging) :
    deliverStagedFiles fs staging = ⟨some true,
      (listed fs staging).flatMap fun e => (copyEntry fs e).2, fs.left⟩ := by
  have hok : ((listed fs staging).all fun e => (copyEntry fs e).1) = true := by
    by_contra hbad
    exact h (all_ok_iff.mp (Bool.not_eq_true _ ▸ hbad))
  unfold deliverStagedFiles copyStagingFiles
  rw [if_pos hout, copyEntries_of_advances hadv, hok]

theorem losesNoFrame_of_safe (h : Safe fs staging) : LosesNoFrame fs staging := by
  unfold LosesNoFrame
  cases hout : fs.outputExists with
  | false =>
      rw [deliver_of_not_exists hout]
      simp
  | true =>
      rcases h with hno | ⟨hadv, hsafe⟩
      · rw [hout] at hno
        cases hno
      by_cases hfails : SomeCopyFails fs staging
      · obtain ⟨hret, hstag⟩ := deliver_of_copy_fails hout hadv hfails
        simp [hret, hstag]
      · rw [deliver_of_copies hout hadv hfails]
        refine ⟨fun _ => ?_, fun hne => absurd rfl hne⟩
        exact (all_copied_iff hfails).mpr (hsafe.resolve_left hfails)

theorem safe_of_losesNoFrame (h : LosesNoFrame fs staging) : Safe fs staging := by
  unfold LosesNoFrame at h
  cases hout : fs.outputExists with
  | false => exact .inl hout
  | true =>
      refine .inr ?_
      by_cases hadv : ∀ e ∈ listed fs staging, fs.advances e.name = true
      · refine ⟨hadv, ?_⟩
        by_cases hfails : SomeCopyFails fs staging
        · exact .inl hfails
        · rw [deliver_of_copies hout hadv hfails] at h
          exact .inr ((all_copied_iff hfails).mp (h.1 (.inl rfl)))
      · obtain ⟨hret, hstag⟩ := deliver_of_not_advances hout hadv
        have := h.2 (by simp [hret]) hstag
        rw [hret] at this
        cases this

/-- **A delivery loses no frame exactly when it is safe.** For every shape of
the staging directory and every pattern of failures: it returns true or
touches the staging directory only after copying every regular file under it,
and otherwise returns false and leaves it whole, if and only if the output
directory is out of reach, or the listing never fails to advance and either
some listed file's copy fails or every regular file is a top-level entry whose
type can be read in a directory that opens. -/
theorem loses_no_frame_iff_safe (fs : FileSystem) (staging : List Entry) :
    Safe fs staging ↔ LosesNoFrame fs staging :=
  ⟨losesNoFrame_of_safe, safe_of_losesNoFrame⟩

/-- A pass rendered into a subdirectory of the staging directory. -/
def subdirectory : List Entry := [.dir "beauty" [.file "shot_0001.exr" "pixels"]]

/-- **A frame in a subdirectory is lost**: it is not copied, and the delivery
still returns true and removes it. -/
theorem nested_frame_is_lost : ¬ ∀ fs staging, LosesNoFrame fs staging := by
  intro h
  have hlost := (h {} subdirectory).1 (.inl rfl)
    (["beauty", "shot_0001.exr"], "pixels") (.head _)
  cases hlost

/-! ## What a completion report says -/

/-- A staged chunk whose delivery is safe is reported completed by the agent's
`completed` message only with every frame copied. -/
theorem completed_only_delivered {c : RenderCoordinator} {env : Surroundings}
    {ar : ActiveRender} (hstaged : ar.stagingDir ≠ "" ∧ ar.originalOutputDir ≠ "")
    (henv : env.delivers ar.stagingDir ar.originalOutputDir = true ↔
      (deliverStagedFiles fs staging).returned = some true)
    (hsafe : Safe fs staging) {jobId : String} {chunk : ChunkRange} {epoch : Int}
    (hdone : RenderEffect.completion jobId chunk .completed epoch ∈
      (c.onChunkCompleted env ar).2) :
    ∀ f ∈ regularFiles staging, f ∈ (deliverStagedFiles fs staging).copied := by
  refine (losesNoFrame_of_safe hsafe).1 (.inl (henv.mp ?_))
  by_contra hheld
  unfold RenderCoordinator.onChunkCompleted at hdone
  rw [if_pos ⟨hstaged.1, hstaged.2, by simpa using hheld⟩] at hdone
  cases hdone

end MinRender.Delivery
