import MinRender.Core.Paths

/-!
# What deletion may reach

The folders a node removes recursively: a job's directory in `deleteJob`, and
those of the cleanup actions. Each path goes through one of the two checks of
`platform.cpp`; where it leads is up to the operating system.
-/

namespace MinRender.Cleanup

/-- A path that a folder can have. -/
structure FolderPath where
  path : FsPath
  noNul : path.NoNul

/-- The folder that a text names. -/
def FolderPath.ofText (os text : String) : FolderPath :=
  ⟨(FsPath.parse os text).beforeNul, FsPath.noNul_beforeNul⟩

structure Node where
  os : String
  cwd : CurrentDirs
  farmPath : FolderPath
  appDataDir : FolderPath
  farmRunning : Bool := true
  /-- `isLeader() && m_databaseManager.isOpen()` -/
  leaderDb : Bool := false
  /-- Whether `remove_all` of a path reports an error. -/
  fails : FsPath → Bool := fun _ => false

inductive Effect
  | archiveJob (jobId : String)
  | cancelJob (jobId : String)
  | markJobDeleted (jobId : String)
  | databaseDelete (jobId : String)
  | postToLeader (path : String) (method : String)
  | removeAll (path : FsPath)
  | deselect (jobId : String)

/-- The folders something may be deleted in. -/
inductive Folder
  | jobs
  | nodes
  | staging
deriving DecidableEq

namespace Node

def jobsRoot (node : Node) : FsPath := node.farmPath.path.append "jobs".toList

def nodesRoot (node : Node) : FsPath := node.farmPath.path.append "nodes".toList

def stagingRoot (node : Node) : FsPath := node.appDataDir.path.append "staging".toList

def deleteJob (node : Node) (jobId : String) : List Effect :=
  if !isSafePathSegment jobId then []
  else
    let jobDir := node.jobsRoot.append jobId.toList
    [.cancelJob jobId, .markJobDeleted jobId,
      if node.leaderDb then .databaseDelete jobId
      else .postToLeader ("/api/jobs/" ++ jobId) "DELETE"] ++
    (if node.farmRunning then
      -- one retry on an error
      .removeAll jobDir :: (if node.fails jobDir then [.removeAll jobDir] else [])
    else []) ++
    [.deselect jobId]

/-- What one id of a cleanup does, and what it adds to the count. -/
def cleanupId (node : Node) (action id : String) : List Effect × Nat :=
  if action = "archive" then
    if !isSafePathSegment id then ([], 0) else ([.archiveJob id], 1)
  else if action = "delete_jobs" then
    if !isSafePathSegment id then ([], 0) else (node.deleteJob id, 1)
  else if action = "delete_dirs" then
    let target := FsPath.parse node.os id
    if !target.isAbsolute ||
        !(isPathWithin node.os node.cwd node.jobsRoot target ||
          isPathWithin node.os node.cwd node.stagingRoot target) then ([], 0)
    else ([.removeAll target], if node.fails target then 0 else 1)
  else if action = "remove_peers" then
    if !isSafePathSegment id then ([], 0)
    else
      let nodeDir := node.nodesRoot.append id.toList
      ([.removeAll nodeDir], if node.fails nodeDir then 0 else 1)
  else ([], 0)

def executeFarmCleanup (node : Node) (action : String) (ids : List String) :
    List Effect × Nat :=
  (ids.flatMap fun id => (node.cleanupId action id).1,
    ids.foldl (fun count id => count + (node.cleanupId action id).2) 0)

end Node

inductive Request
  | deleteJob (jobId : String)
  | executeFarmCleanup (action : String) (ids : List String)

def Request.effects (node : Node) : Request → List Effect
  | .deleteJob jobId => node.deleteJob jobId
  | .executeFarmCleanup action ids => (node.executeFarmCleanup action ids).1

/-! ## Deletions that stay inside -/

namespace Node

def folder (node : Node) : Folder → FsPath
  | .jobs => node.jobsRoot
  | .nodes => node.nodesRoot
  | .staging => node.stagingRoot

/-- Where a path leads on the node. -/
def denotes (node : Node) (path : FsPath) : Location :=
  MinRender.denotes node.os node.cwd path

end Node

/-- The path denotes an entry strictly inside one of the folders, and none of
the folders. -/
def Stays (node : Node) (path : FsPath) : Prop :=
  (∃ f, Inside node.os (node.denotes path) (node.denotes (node.folder f))) ∧
    ∀ f, ¬ SamePlace node.os (node.denotes path) (node.denotes (node.folder f))

/-- The part of an id that a C string keeps. -/
def cText (id : String) : List Char := id.toList.takeWhile (· ≠ '\x00')

/-- The text is the name of an entry: not empty or `.` or `..`, and on Windows
not of dots and spaces only. -/
def NamesEntry (os : String) (text : List Char) : Prop :=
  text ≠ [] ∧ text ≠ ['.'] ∧ text ≠ ['.', '.'] ∧
    (os = "win" → ∃ c ∈ text, c ≠ '.' ∧ c ≠ ' ')

/-- An id that passes as a segment names an entry of the folder, other than the
staging root; or it is `..` up to a NUL on a node with its whole farm inside the
staging root. -/
def EntryStays (node : Node) (f : Folder) (id : String) : Prop :=
  isSafePathSegment id →
    let entry := node.denotes ((node.folder f).append (cText id))
    let staging := node.denotes node.stagingRoot
    (NamesEntry node.os (cText id) ∧ ¬ SamePlace node.os entry staging) ∨
      (cText id = ['.', '.'] ∧ Inside node.os entry staging)

/-- The targets that `delete_dirs` goes through with. -/
def TargetAccepted (node : Node) (id : String) : Prop :=
  (FsPath.parse node.os id).isAbsolute ∧
    (isPathWithin node.os node.cwd node.jobsRoot (FsPath.parse node.os id) ∨
      isPathWithin node.os node.cwd node.stagingRoot (FsPath.parse node.os id))

/-- Up to a NUL an accepted target still lies within one of the folders, and
is none of them. -/
def TargetStays (node : Node) (id : String) : Prop :=
  TargetAccepted node id →
    let target := FsPath.parse node.os id
    (∃ f, isPathWithin node.os node.cwd (node.folder f) target.beforeNul) ∧
      ∀ f, ¬ SamePlace node.os (node.denotes target) (node.denotes (node.folder f))

def IdCareful (node : Node) (action id : String) : Prop :=
  (action = "delete_jobs" → node.farmRunning → EntryStays node .jobs id) ∧
    (action = "delete_dirs" → TargetStays node id) ∧
    (action = "remove_peers" → EntryStays node .nodes id)

def Request.Careful (node : Node) : Request → Prop
  | .deleteJob jobId => node.farmRunning → EntryStays node .jobs jobId
  | .executeFarmCleanup action ids => ∀ id ∈ ids, IdCareful node action id

/-! ## Where the folders are -/

variable {node : Node} {a b : Location} {os : String}

def Folder.name : Folder → FileName
  | .jobs => ⟨"jobs".toList, by decide⟩
  | .nodes => ⟨"nodes".toList, by decide⟩
  | .staging => ⟨"staging".toList, by decide⟩

def Folder.parent (node : Node) : Folder → FolderPath
  | .jobs => node.farmPath
  | .nodes => node.farmPath
  | .staging => node.appDataDir

/-- Where the names of a folder's parent lead. -/
def parentLocation (node : Node) (f : Folder) : Location :=
  ((f.parent node).path.anchor.base node.cwd).walk (f.parent node).path.names

theorem folder_eq (f : Folder) : node.folder f =
    { (f.parent node).path with names := (f.parent node).path.names ++ [f.name] } := by
  cases f <;> rfl

theorem folder_noNul (f : Folder) : (node.folder f).NoNul := by
  rw [folder_eq]
  refine ⟨(f.parent node).noNul.1, fun n hn => ?_⟩
  rcases List.mem_append.mp hn with hn | hn
  · exact (f.parent node).noNul.2 n hn
  · rw [List.mem_singleton.mp hn]
    cases f <;> decide

theorem lastName_folder (f : Folder) : lastName os f.name = some f.name := by
  unfold lastName
  split
  · rfl
  · cases f <;> decide

theorem enter_folder (f : Folder) : a.enter f.name = a.child f.name := by
  cases f <;> rfl

/-- A folder with nothing more of a path after it. -/
theorem resolve_folder (f : Folder) :
    resolve node.os node.cwd (node.folder f) = (parentLocation node f).child f.name := by
  unfold resolve
  rw [folder_eq]
  show Location.walk _ (settleNames _ (_ ++ [f.name])) = _
  rw [settleNames_snoc, lastName_folder]
  show Location.walk _ (_ ++ [f.name]) = _
  rw [Location.walk_snoc, enter_folder]
  rfl

theorem denotes_folder (f : Folder) :
    node.denotes (node.folder f) = (parentLocation node f).child f.name := by
  unfold Node.denotes denotes
  rw [FsPath.beforeNul_eq (folder_noNul f), resolve_folder]

theorem absolute_folder (f : Folder) :
    absolute node.os node.cwd (node.folder f) = node.denotes (node.folder f) := by
  unfold absolute
  split
  · rfl
  · rw [denotes_folder, resolve_folder]

/-! ## Depth -/

theorem length_fold : (a.fold os).names.length = a.names.length := by
  unfold Location.fold
  split
  · exact List.length_map _
  · rfl

theorem length_of_inside (h : Inside os a b) : b.names.length < a.names.length := by
  obtain ⟨-, n, ns, hnames⟩ := h
  have hlen := congrArg List.length hnames
  rw [List.length_append, length_fold, length_fold, List.length_cons] at hlen
  omega

theorem length_of_samePlace (h : SamePlace os a b) : a.names.length = b.names.length := by
  have hlen := congrArg (fun l : Location => l.names.length) h
  simpa only [length_fold] using hlen

theorem inside_child {n : FileName} : Inside os (a.child n) a := by
  unfold Inside Location.fold Location.child
  refine ⟨rfl, ?_⟩
  split
  · exact ⟨n.lower, [], List.map_append⟩
  · exact ⟨n, [], rfl⟩

/-! ## Where an entry is -/

/-- The last name a text becomes under a folder, if any. -/
def entryName (os : String) (text : List Char) : Option FileName :=
  (FileName.of? text).bind (lastName os)

theorem takeWhile_takeWhile (text : List Char) :
    (text.takeWhile (· ≠ '\x00')).takeWhile (· ≠ '\x00') = text.takeWhile (· ≠ '\x00') :=
  List.takeWhile_eq_self_iff.mpr fun _ hc => by simpa using List.mem_takeWhile_imp hc

theorem of?_beforeNul {text : List Char} (hplain : '/' ∉ text) :
    FsPath.namesBeforeNul (FileName.of? text).toList =
      (FileName.of? (text.takeWhile (· ≠ '\x00'))).toList := by
  by_cases htext : text = []
  · subst htext
    rfl
  · have hof : FileName.of? text = some ⟨text, htext, hplain⟩ := dif_pos ⟨htext, hplain⟩
    rw [hof]
    show (if '\x00' ∈ text then _ else _) = _
    split
    · rfl
    · rename_i hnul
      have hself : text.takeWhile (· ≠ '\x00') = text :=
        List.takeWhile_eq_self_iff.mpr fun c hc => by
          simpa using fun h : c = '\x00' => hnul (h ▸ hc)
      rw [hself, hof]
      rfl

/-- Where an entry of a folder is: in the folder under the name its text
becomes, or the folder itself. -/
theorem denotes_append {f : Folder} {text : List Char} (hplain : '/' ∉ text) :
    node.denotes ((node.folder f).append text) =
      match entryName node.os (text.takeWhile (· ≠ '\x00')) with
      | none => node.denotes (node.folder f)
      | some n => (node.denotes (node.folder f)).enter n := by
  have hcut : ((node.folder f).append text).beforeNul =
      { node.folder f with names := (node.folder f).names ++
          (FileName.of? (text.takeWhile (· ≠ '\x00'))).toList } := by
    show FsPath.beforeNul { node.folder f with names := _ ++ _ } = _
    rw [FsPath.names_beforeNul (folder_noNul f), of?_beforeNul hplain]
  have hfolder : node.denotes (node.folder f) =
      ((node.folder f).anchor.base node.cwd).walk (node.folder f).names := by
    rw [denotes_folder, folder_eq]
    show _ = Location.walk _ (_ ++ [f.name])
    rw [Location.walk_snoc, enter_folder]
    rfl
  show resolve node.os node.cwd (FsPath.beforeNul _) = _
  rw [hcut]
  unfold resolve entryName
  cases FileName.of? (text.takeWhile (· ≠ '\x00')) with
  | none =>
      show Location.walk _ (settleNames _ (_ ++ [])) = node.denotes (node.folder f)
      rw [List.append_nil]
      exact (resolve_folder f).trans (denotes_folder f).symm
  | some n =>
      show Location.walk _ (settleNames _ (_ ++ [n])) = match lastName node.os n with
        | none => node.denotes (node.folder f)
        | some n => (node.denotes (node.folder f)).enter n
      rw [settleNames_snoc, hfolder]
      cases lastName node.os n with
      | none => exact congrArg (Location.walk _) (List.append_nil _)
      | some m => exact Location.walk_snoc

theorem of?_eq_some {text : List Char} {n : FileName} :
    FileName.of? text = some n ↔ n.text = text := by
  unfold FileName.of?
  constructor
  · intro h
    split at h
    · cases h
      rfl
    · cases h
  · rintro rfl
    exact dif_pos n.plain

/-- What is left of a name with the trailing dots and spaces dropped ends in
neither. -/
theorem text_ne_dots {text : List Char} {n : FileName}
    (h : n.text = text.rdropWhile fun c => c = '.' || c = ' ') :
    n.text ≠ ['.'] ∧ n.text ≠ ['.', '.'] := by
  have hlast := @List.rdropWhile_last_not _ (fun c => c = '.' || c = ' ') text (h ▸ n.plain.1)
  constructor
  · intro hdot
    simp [← h, hdot] at hlast
  · intro hdots
    simp [← h, hdots] at hlast

theorem enter_of_namesEntry {text : List Char} (hplain : '/' ∉ text)
    (h : NamesEntry os text) :
    ∃ n, entryName os text = some n ∧ ∀ l : Location, l.enter n = l.child n := by
  obtain ⟨hne, hdot, hdots, hwin⟩ := h
  have hchild (n : FileName) (h1 : n.text ≠ ['.']) (h2 : n.text ≠ ['.', '.'])
      (l : Location) : l.enter n = l.child n := by
    unfold Location.enter
    rw [if_neg h1, if_neg h2]
  unfold entryName
  rw [of?_eq_some.mpr (rfl : (⟨text, hne, hplain⟩ : FileName).text = text)]
  show ∃ n, lastName os ⟨text, hne, hplain⟩ = some n ∧ _
  unfold lastName
  by_cases hos : os = "win"
  · rw [if_neg (by simp [hos, hdot, hdots])]
    obtain ⟨c, hc, hcdot, hcspace⟩ := hwin hos
    have hleft : text.rdropWhile (fun c => c = '.' || c = ' ') ≠ [] := by
      intro hnil
      have := List.rdropWhile_eq_nil_iff.mp hnil c hc
      simp [hcdot, hcspace] at this
    have hslash : '/' ∉ text.rdropWhile (fun c => c = '.' || c = ' ') := fun hmem =>
      hplain ((List.rdropWhile_prefix _ text).subset hmem)
    refine ⟨⟨_, hleft, hslash⟩, of?_eq_some.mpr rfl, hchild _ ?_ ?_⟩
    · exact (text_ne_dots rfl).1
    · exact (text_ne_dots rfl).2
  · rw [if_pos (.inl hos)]
    exact ⟨_, rfl, hchild _ hdot hdots⟩

theorem stay_of_not_namesEntry {text : List Char} (h : ¬ NamesEntry os text)
    (hup : text ≠ ['.', '.']) :
    entryName os text = none ∨
      ∃ n, entryName os text = some n ∧ ∀ l : Location, l.enter n = l := by
  unfold entryName
  cases hof : FileName.of? text with
  | none => exact .inl rfl
  | some n =>
      have htext := of?_eq_some.mp hof
      show lastName os n = none ∨ ∃ m, lastName os n = some m ∧ _
      unfold lastName
      by_cases hdot : n.text = ['.']
      · right
        rw [if_pos (.inr (.inl hdot))]
        refine ⟨n, rfl, fun l => ?_⟩
        unfold Location.enter
        rw [if_pos hdot]
      · -- only Windows drops a whole name
        left
        rw [htext] at hdot
        have hne : text ≠ [] := htext ▸ n.plain.1
        have hblank : os = "win" ∧ ∀ c ∈ text, c = '.' ∨ c = ' ' := by
          by_contra hnot
          refine h ⟨hne, hdot, hup, fun hos => ?_⟩
          by_contra hall
          refine hnot ⟨hos, fun c hc => ?_⟩
          by_contra hc'
          rw [not_or] at hc'
          exact hall ⟨c, hc, hc'⟩
        rw [if_neg (by simp [hblank.1, hdot, htext, hup])]
        have hnil : n.text.rdropWhile (fun c => c = '.' || c = ' ') = [] :=
          List.rdropWhile_eq_nil_iff.mpr fun c hc => by
            simpa using hblank.2 c (htext ▸ hc)
        rw [hnil]
        rfl

/-- The folder of a farm and its sibling lie next to each other. -/
theorem length_parent {f g : Folder} (hf : f ≠ .staging) (hg : g ≠ .staging) :
    (node.denotes (node.folder f)).names.length =
      (node.denotes (node.folder g)).names.length := by
  rw [denotes_folder, denotes_folder]
  cases f with
  | staging => exact absurd rfl hf
  | jobs | nodes =>
      cases g with
      | staging => exact absurd rfl hg
      | jobs | nodes => simp [Location.child, parentLocation, Folder.parent]

theorem slash_of_safe {id : String} (h : isSafePathSegment id) : '/' ∉ id.toList := by
  unfold isSafePathSegment at h
  split at h
  · cases h
  · simp only [Bool.and_eq_true, decide_eq_true_eq] at h
    exact h.1.1

/-- A named entry of a farm folder. -/
theorem stays_child_iff {f : Folder} (hf : f ≠ .staging) {path : FsPath} {n : FileName}
    (hpath : node.denotes path = (node.denotes (node.folder f)).child n) :
    Stays node path ↔
      ¬ SamePlace node.os (node.denotes path) (node.denotes node.stagingRoot) := by
  constructor
  · rintro ⟨-, hout⟩
    exact hout .staging
  · intro hstaging
    refine ⟨⟨f, hpath ▸ inside_child⟩, fun g => ?_⟩
    by_cases hg : g = .staging
    · exact hg ▸ hstaging
    · intro hsame
      have hlen := length_of_samePlace hsame
      rw [hpath, ← length_parent hf hg] at hlen
      simp [Location.child] at hlen

/-- The parent of a farm folder. -/
theorem stays_parent_iff {f : Folder} (hf : f ≠ .staging) {path : FsPath}
    (hpath : node.denotes path = parentLocation node f) :
    Stays node path ↔
      Inside node.os (node.denotes path) (node.denotes node.stagingRoot) := by
  have hshort (g : Folder) (hg : g ≠ .staging) :
      (node.denotes path).names.length < (node.denotes (node.folder g)).names.length := by
    rw [← length_parent hf hg, denotes_folder, hpath]
    simp [Location.child]
  constructor
  · rintro ⟨⟨g, hin⟩, -⟩
    by_cases hg : g = .staging
    · subst hg
      exact hin
    · have := hshort g hg
      have := length_of_inside hin
      omega
  · intro hin
    refine ⟨⟨.staging, hin⟩, fun g hsame => ?_⟩
    have hlen := length_of_samePlace hsame
    by_cases hg : g = .staging
    · subst hg
      have hlong : (node.denotes (node.folder .staging)).names.length <
          (node.denotes path).names.length := length_of_inside hin
      omega
    · have := hshort g hg
      omega

theorem not_stays_folder {f : Folder} {path : FsPath}
    (hpath : node.denotes path = node.denotes (node.folder f)) : ¬ Stays node path :=
  fun hstays => hstays.2 f (hpath ▸ rfl)

theorem entryName_dots : entryName os ['.', '.'] = some ⟨['.', '.'], by decide⟩ := by
  unfold entryName lastName
  rw [of?_eq_some.mpr (rfl : (⟨['.', '.'], by decide⟩ : FileName).text = _)]
  exact if_pos (.inr (.inr rfl))

/-- **An entry of a farm folder.** -/
theorem entry_stays_iff {f : Folder} (hf : f ≠ .staging) {id : String}
    (hsafe : isSafePathSegment id) :
    Stays node ((node.folder f).append id.toList) ↔ EntryStays node f id := by
  have hplain := slash_of_safe hsafe
  have hplain' : '/' ∉ cText id := fun h => hplain ((List.takeWhile_prefix _).subset h)
  have hentry : node.denotes ((node.folder f).append (cText id)) =
      node.denotes ((node.folder f).append id.toList) := by
    rw [denotes_append hplain, denotes_append hplain', cText, takeWhile_takeWhile]
  have hwhere := @denotes_append node f id.toList hplain
  rw [← cText] at hwhere
  unfold EntryStays
  simp only [hsafe, true_implies, hentry]
  by_cases hname : NamesEntry node.os (cText id)
  · obtain ⟨n, hn, hchild⟩ := enter_of_namesEntry hplain' hname
    rw [hn] at hwhere
    rw [stays_child_iff hf (hwhere.trans (hchild _))]
    simp [hname, hname.2.2.1]
  · by_cases hup : cText id = ['.', '.']
    · rw [hup, entryName_dots, denotes_folder] at hwhere
      have hparent : Location.enter ((parentLocation node f).child f.name)
          ⟨['.', '.'], by decide⟩ = parentLocation node f := by
        show (⟨_, List.dropLast _⟩ : Location) = _
        simp [Location.child]
      rw [stays_parent_iff hf (hwhere.trans hparent)]
      constructor
      · exact fun hin => .inr ⟨hup, hin⟩
      · rintro (⟨hname', -⟩ | ⟨-, hin⟩)
        · exact absurd hname' hname
        · exact hin
    · -- the folder itself
      refine iff_of_false (not_stays_folder (f := f) ?_) (by simp [hname, hup])
      rcases stay_of_not_namesEntry hname hup with hnone | ⟨n, hn, hstay⟩
      · rw [hnone] at hwhere
        exact hwhere
      · rw [hn] at hwhere
        exact hwhere.trans (hstay _)

/-! ## Where a target is -/

theorem absolute_beforeNul (path : FsPath) :
    absolute node.os node.cwd path.beforeNul = node.denotes path := by
  unfold absolute
  split
  · show resolve _ _ path.beforeNul.beforeNul = _
    rw [FsPath.beforeNul_eq FsPath.noNul_beforeNul]
    rfl
  · rfl

/-- **The cut target within a folder is the target inside it.** -/
theorem within_beforeNul_iff {f : Folder} {path : FsPath} :
    isPathWithin node.os node.cwd (node.folder f) path.beforeNul ↔
      Inside node.os (node.denotes path) (node.denotes (node.folder f)) := by
  have hnames : (absolute node.os node.cwd (node.folder f)).names ≠ [] := by
    rw [absolute_folder, denotes_folder]
    simp [Location.child]
  rw [isPathWithin_iff hnames, absolute_beforeNul, absolute_folder]

theorem refused_iff {id : String} :
    (!(FsPath.parse node.os id).isAbsolute ||
      !(isPathWithin node.os node.cwd node.jobsRoot (FsPath.parse node.os id) ||
        isPathWithin node.os node.cwd node.stagingRoot (FsPath.parse node.os id))) = true ↔
      ¬ TargetAccepted node id := by
  rw [← Bool.not_and, Bool.not_eq_true', ← Bool.not_eq_true, Bool.and_eq_true_iff,
    Bool.or_eq_true_iff]
  rfl

theorem target_stays_iff {id : String} (h : TargetAccepted node id) :
    Stays node (FsPath.parse node.os id) ↔ TargetStays node id := by
  unfold Stays TargetStays
  simp only [within_beforeNul_iff]
  exact ⟨fun hstays _ => hstays, fun hstays => hstays h⟩

/-! ## What each request removes -/

/-- Every path handed to `remove_all` stays inside. -/
def AllStay (node : Node) (effects : List Effect) : Prop :=
  ∀ path, .removeAll path ∈ effects → Stays node path

theorem mem_deleteJob {jobId : String} {path : FsPath} :
    .removeAll path ∈ node.deleteJob jobId ↔
      isSafePathSegment jobId ∧ node.farmRunning ∧
        path = (node.folder .jobs).append jobId.toList := by
  unfold Node.deleteJob
  by_cases hsafe : isSafePathSegment jobId
  · rw [if_neg (by simp [hsafe])]
    have hdelete : .removeAll path ≠ if node.leaderDb then Effect.databaseDelete jobId
        else .postToLeader ("/api/jobs/" ++ jobId) "DELETE" := by
      split <;> simp
    cases hrun : node.farmRunning with
    | false => simp [hsafe, hdelete]
    | true =>
        cases hfails : node.fails (node.jobsRoot.append jobId.toList) <;>
          simp [hsafe, hdelete, hfails, Node.folder]
  · rw [if_pos (by simpa using hsafe)]
    simp [hsafe]

theorem allStay_deleteJob {jobId : String} :
    AllStay node (node.deleteJob jobId) ↔
      (node.farmRunning → EntryStays node .jobs jobId) := by
  unfold AllStay
  simp only [mem_deleteJob]
  constructor
  · intro h hrun hsafe
    exact (entry_stays_iff (by decide) hsafe).mp (h _ ⟨hsafe, hrun, rfl⟩) hsafe
  · rintro h path ⟨hsafe, hrun, rfl⟩
    exact (entry_stays_iff (by decide) hsafe).mpr (h hrun)

theorem allStay_nil : AllStay node [] := fun _ hpath => absurd hpath List.not_mem_nil

theorem allStay_removeAll {path : FsPath} :
    AllStay node [.removeAll path] ↔ Stays node path := by
  simp [AllStay]

theorem allStay_cleanupId {action id : String} :
    AllStay node (node.cleanupId action id).1 ↔ IdCareful node action id := by
  unfold Node.cleanupId IdCareful
  by_cases h1 : action = "archive"
  · subst h1
    rw [if_pos rfl]
    refine iff_of_true (fun path hpath => ?_) (by simp)
    split at hpath <;> simp at hpath
  rw [if_neg h1]
  by_cases h2 : action = "delete_jobs"
  · subst h2
    rw [if_pos rfl]
    simp only [true_implies, String.reduceEq, false_implies, and_true]
    rw [← allStay_deleteJob]
    by_cases hsafe : isSafePathSegment id
    · rw [if_neg (by simp [hsafe])]
    · -- the id is refused a second time
      rw [if_pos (by simpa using hsafe)]
      refine iff_of_true (fun path hpath => absurd hpath List.not_mem_nil) ?_
      intro path hpath
      exact absurd (mem_deleteJob.mp hpath).1 hsafe
  rw [if_neg h2]
  by_cases h3 : action = "delete_dirs"
  · subst h3
    rw [if_pos rfl]
    simp only [true_implies, String.reduceEq, false_implies, true_and, and_true]
    by_cases hok : TargetAccepted node id
    · rw [if_neg fun hrefused => refused_iff.mp hrefused hok]
      exact allStay_removeAll.trans (target_stays_iff hok)
    · rw [if_pos (refused_iff.mpr hok)]
      exact iff_of_true allStay_nil fun hok' => absurd hok' hok
  rw [if_neg h3]
  by_cases h4 : action = "remove_peers"
  · subst h4
    rw [if_pos rfl]
    simp only [true_implies, String.reduceEq, false_implies, true_and]
    by_cases hsafe : isSafePathSegment id
    · rw [if_neg (by simp [hsafe])]
      exact allStay_removeAll.trans (@entry_stays_iff node .nodes (by decide) id hsafe)
    · rw [if_pos (by simpa using hsafe)]
      exact iff_of_true allStay_nil fun hsafe' => absurd hsafe' hsafe
  rw [if_neg h4]
  exact iff_of_true allStay_nil
    ⟨fun h => absurd h h2, fun h => absurd h h3, fun h => absurd h h4⟩

/-- **Deletion stays inside exactly for careful requests.** On every node, for
every job id and every action with every list of ids: each path handed to
`remove_all` denotes an entry strictly inside a folder and none of the folders,
if and only if the ids that pass name such entries. -/
theorem deletion_stays_iff (node : Node) (request : Request) :
    (∀ path, .removeAll path ∈ request.effects node → Stays node path) ↔
      request.Careful node := by
  cases request with
  | deleteJob jobId => exact allStay_deleteJob
  | executeFarmCleanup action ids =>
      show AllStay node (ids.flatMap fun id => (node.cleanupId action id).1) ↔
        ∀ id ∈ ids, IdCareful node action id
      simp only [← allStay_cleanupId, AllStay, List.mem_flatMap]
      constructor
      · intro h id hid path hpath
        exact h path ⟨id, hid, hpath⟩
      · rintro h path ⟨id, hid, hpath⟩
        exact h id hid path hpath

/-! ## A job made of dots -/

/-- A Windows node with its farm on a share. -/
def studio : Node where
  os := "win"
  cwd := fun _ => ⟨.slash, []⟩
  farmPath := .ofText "win" "\\\\nas\\farm"
  appDataDir := .ofText "win" "C:\\MinRender"

/-- **Every job is deleted for one id**, which is the jobs folder to Windows. -/
theorem dots_delete_every_job :
    ¬ ∀ node request path, .removeAll path ∈ Request.effects node request →
      Stays node path := by
  intro h
  refine (h studio (.deleteJob "...") _
    (mem_deleteJob.mpr ⟨by decide, rfl, rfl⟩)).2 .jobs ?_
  show _ = _
  decide

end MinRender.Cleanup
