import MinRender.Core.PathMapping

/-!
# Where a path leads

`std::filesystem::path` as an anchor and names, the place a path leads to on
each operating system (`win` is Win32, every other tag is POSIX), and the two
checks of `platform.cpp`: a safe segment and a path within a folder.
-/

namespace MinRender

/-- A component of a path. -/
structure FileName where
  text : List Char
  plain : text ≠ [] ∧ '/' ∉ text
deriving DecidableEq

namespace FileName

def of? (text : List Char) : Option FileName :=
  if h : text ≠ [] ∧ '/' ∉ text then some ⟨text, h⟩ else none

theorem slash_of_toLower {c : Char} (h : c.toLower = '/') : c = '/' := by
  unfold Char.toLower at h
  split at h
  · -- a lower case letter is no slash
    rename_i hup
    have hlow : 65 ≤ c.val.toNat := hup.1
    have hhigh : c.val.toNat ≤ 90 := hup.2
    have hval : (c.val + 32).toNat = 47 := congrArg (fun d : Char => d.val.toNat) h
    rw [UInt32.toNat_add] at hval
    have h32 : (32 : UInt32).toNat = 32 := rfl
    omega
  · exact h

/-- Lower case, as `std::tolower` has it in the C locale. -/
def lower (n : FileName) : FileName :=
  ⟨n.text.map Char.toLower, by
    refine ⟨by simpa using n.plain.1, fun hmem => ?_⟩
    obtain ⟨c, hc, hslash⟩ := List.mem_map.mp hmem
    exact n.plain.2 (slash_of_toLower hslash ▸ hc)⟩

/-- What a C string keeps of the name. -/
def beforeNul (n : FileName) : Option FileName := of? (n.text.takeWhile (· ≠ '\x00'))

end FileName

/-- A root directory with its root name: `/`, `C:/` or `//server/`. -/
inductive Root
  | slash
  | drive (name : FileName)
  | share (server : FileName)
deriving DecidableEq

/-- Where the names of a path start. -/
inductive Anchor
  | root (root : Root)
  | current
  /-- `\names` on Windows -/
  | currentRoot
  /-- `C:names` on Windows -/
  | drive (name : FileName)
deriving DecidableEq

/-- Separators are not kept: `isPathWithin` strips those a path ends with, and
no other one counts. -/
structure FsPath where
  anchor : Anchor
  names : List FileName := []
deriving DecidableEq

namespace FsPath

def parse (os text : String) : FsPath :=
  let (rootName, rest) := splitRootName os text.toList
  let rooted := rest.head?.any (isSeparator os)
  let names := (rest.splitOnP (isSeparator os)).filterMap FileName.of?
  if rootName = [] then
    if !rooted then ⟨.current, names⟩
    else if os = "win" then ⟨.currentRoot, names⟩
    else ⟨.root .slash, names⟩
  else
    -- a drive letter with its colon, or two separators and a host
    match FileName.of? rootName, FileName.of? (rootName.drop 2) with
    | _, some server => ⟨.root (.share server), names⟩
    | some drive, none =>
        if rooted then ⟨.root (.drive drive), names⟩ else ⟨.drive drive, names⟩
    | none, none => ⟨.currentRoot, names⟩

def isAbsolute (p : FsPath) : Bool :=
  match p.anchor with
  | .root _ => true
  | _ => false

/-- `p / name` for a name without separators. -/
def append (p : FsPath) (name : List Char) : FsPath :=
  { p with names := p.names ++ (FileName.of? name).toList }

/-- The names a C string keeps. -/
def namesBeforeNul : List FileName → List FileName
  | [] => []
  | n :: ns => if '\x00' ∈ n.text then n.beforeNul.toList else n :: namesBeforeNul ns

/-- What a call into the operating system, which takes a C string, sees of the
path. -/
def beforeNul (p : FsPath) : FsPath :=
  match p.anchor with
  | .root (.share server) =>
      if '\x00' ∈ server.text then
        ⟨(server.beforeNul.map fun s => Anchor.root (.share s)).getD .currentRoot, []⟩
      else { p with names := namesBeforeNul p.names }
  | _ => { p with names := namesBeforeNul p.names }

end FsPath

/-! ## Resolution -/

/-- A place in the file system. -/
structure Location where
  root : Root
  names : List FileName := []
deriving DecidableEq

namespace Location

def child (l : Location) (n : FileName) : Location := { l with names := l.names ++ [n] }

/-- One component further; the parent of a root is the root. -/
def enter (l : Location) (n : FileName) : Location :=
  if n.text = ['.'] then l
  else if n.text = ['.', '.'] then { l with names := l.names.dropLast }
  else l.child n

def walk (l : Location) (names : List FileName) : Location := names.foldl enter l

end Location

/-- The current directory, and on Windows that of each drive. -/
abbrev CurrentDirs := Option FileName → Location

def Anchor.base (cwd : CurrentDirs) : Anchor → Location
  | .root r => ⟨r, []⟩
  | .current => cwd none
  | .currentRoot => ⟨(cwd none).root, []⟩
  | .drive name => cwd (some name)

/-- The last component of a path: Win32 drops the dots and spaces it ends
with, unless it is `.` or `..`. -/
def lastName (os : String) (n : FileName) : Option FileName :=
  if os ≠ "win" ∨ n.text = ['.'] ∨ n.text = ['.', '.'] then some n
  else FileName.of? (n.text.rdropWhile fun c => c = '.' || c = ' ')

def settleNames (os : String) (names : List FileName) : List FileName :=
  match names.getLast? with
  | none => []
  | some n => names.dropLast ++ (lastName os n).toList

/-- Where a path leads by its text alone. -/
def resolve (os : String) (cwd : CurrentDirs) (p : FsPath) : Location :=
  (p.anchor.base cwd).walk (settleNames os p.names)

/-- What the path denotes to the operating system. -/
def denotes (os : String) (cwd : CurrentDirs) (p : FsPath) : Location :=
  resolve os cwd p.beforeNul

/-- `std::filesystem::absolute` and `lexically_normal`. On Windows the former is
`GetFullPathNameW`, which takes a C string. -/
def absolute (os : String) (cwd : CurrentDirs) (p : FsPath) : Location :=
  if os = "win" then denotes os cwd p else resolve os cwd p

def Root.fold (os : String) : Root → Root
  | .slash => .slash
  | .drive name => .drive (if os = "win" then name.lower else name)
  | .share server => .share (if os = "win" then server.lower else server)

/-- A location up to the letter case its system ignores. -/
def Location.fold (os : String) (l : Location) : Location :=
  ⟨l.root.fold os, if os = "win" then l.names.map FileName.lower else l.names⟩

def SamePlace (os : String) (a b : Location) : Prop := a.fold os = b.fold os

/-- `a` lies strictly inside `b`. -/
def Inside (os : String) (a b : Location) : Prop :=
  (a.fold os).root = (b.fold os).root ∧
    ∃ n ns, (a.fold os).names = (b.fold os).names ++ n :: ns

/-! ## The checks -/

/-- `isSafePathSegment` -/
def isSafePathSegment (seg : String) : Bool :=
  if seg = "" || seg = "." || seg = ".." then false
  else '/' ∉ seg.toList && '\\' ∉ seg.toList && ':' ∉ seg.toList

def Root.text : Root → List Char
  | .slash => []
  | .drive name => name.text
  | .share server => '/' :: '/' :: server.text

/-- `generic_string` -/
def Location.generic (l : Location) : List Char :=
  l.root.text ++ '/' :: ['/'].intercalate (l.names.map (·.text))

/-- Slashes at the end go, a lone one stays. -/
def stripSlashes (s : List Char) : List Char :=
  match s.rdropWhile (· = '/') with
  | [] => s.take 1
  | stripped => stripped

def lowerOn (os : String) (s : List Char) : List Char :=
  if os = "win" then s.map Char.toLower else s

/-- `isPathWithin` -/
def isPathWithin (os : String) (cwd : CurrentDirs) (base p : FsPath) : Bool :=
  let outer := (absolute os cwd base).generic
  let inner := (absolute os cwd p).generic
  if outer = [] || inner = [] then false
  else
    let outer := lowerOn os (stripSlashes outer)
    let inner := lowerOn os (stripSlashes inner)
    if inner.length ≤ outer.length + 1 then false
    else inner.take outer.length = outer && inner[outer.length]? = some '/'

/-! ## The prefix check decides containment -/

theorem FileName.eq_of_text {m n : FileName} (h : m.text = n.text) : m = n := by
  cases m
  cases n
  cases h
  rfl

/-- The pieces of a generic string between its slashes. -/
def Root.segments : Root → List (List Char)
  | .slash => [[]]
  | .drive name => [name.text]
  | .share server => [[], [], server.text]

def Location.segments (l : Location) : List (List Char) :=
  l.root.segments ++ l.names.map (·.text)

variable {os : String} {cwd : CurrentDirs} {a b : Location}

theorem segments_ne_nil : a.segments ≠ [] := by
  cases h : a.root <;> simp [Location.segments, Root.segments, h]

theorem segments_plain : ∀ s ∈ a.segments, '/' ∉ s := by
  intro s hs
  rcases List.mem_append.mp hs with hroot | hname
  · cases hr : a.root with
    | slash =>
        rw [hr] at hroot
        rw [List.mem_singleton.mp hroot]
        exact List.not_mem_nil
    | drive name =>
        rw [hr] at hroot
        rw [List.mem_singleton.mp hroot]
        exact name.plain.2
    | share server =>
        rw [hr] at hroot
        simp only [Root.segments, List.mem_cons, List.not_mem_nil, or_false] at hroot
        rcases hroot with rfl | rfl | rfl
        · exact List.not_mem_nil
        · exact List.not_mem_nil
        · exact server.plain.2
  · obtain ⟨n, -, rfl⟩ := List.mem_map.mp hname
    exact n.plain.2

/-- In front of a name the pieces show which root it is. -/
theorem root_of_segments (hb : b.names ≠ []) {rest : List (List Char)}
    (h : a.segments = b.segments ++ rest) :
    a.root = b.root ∧ a.names.map (·.text) = b.names.map (·.text) ++ rest := by
  obtain ⟨n, ns, hnames⟩ := List.exists_cons_of_ne_nil hb
  have hn : n.text ≠ [] := n.plain.1
  unfold Location.segments at h
  cases ha : a.root <;> cases hroot : b.root <;>
    simp [ha, hroot, Root.segments, hnames] at h ⊢
  case slash.slash => exact h
  case slash.drive name => exact name.plain.1 h.1
  case slash.share =>
    -- no name is empty
    obtain ⟨m, ms, hm⟩ : ∃ m ms, a.names = m :: ms :=
      List.exists_cons_of_ne_nil fun hnil => by simp [hnil] at h
    rw [hm, List.map_cons, List.cons_eq_cons] at h
    exact m.plain.1 h.1
  case drive.slash name => exact name.plain.1 h.1
  case drive.drive => exact ⟨FileName.eq_of_text h.1, h.2⟩
  case drive.share name _ => exact name.plain.1 h.1
  case share.slash => exact hn h.1
  case share.drive _ name => exact name.plain.1 h.1
  case share.share => exact ⟨FileName.eq_of_text h.1, h.2⟩

theorem intercalate_append {xs ys : List (List Char)} (hx : xs ≠ []) (hy : ys ≠ []) :
    ['/'].intercalate (xs ++ ys) = ['/'].intercalate xs ++ '/' :: ['/'].intercalate ys := by
  induction xs with
  | nil => exact absurd rfl hx
  | cons x xs ih =>
      cases xs with
      | nil =>
          rw [List.singleton_append, List.intercalate_cons_of_ne_nil hy,
            List.intercalate_singleton]
          simp
      | cons x' xs =>
          have htail := ih (List.cons_ne_nil _ _)
          simp only [List.cons_append, List.intercalate_cons_cons] at htail ⊢
          rw [htail]
          simp

theorem map_intercalate (f : Char → Char) (hf : f '/' = '/') (xs : List (List Char)) :
    (['/'].intercalate xs).map f = ['/'].intercalate (xs.map (·.map f)) := by
  induction xs with
  | nil => rfl
  | cons x xs ih =>
      cases xs with
      | nil => simp
      | cons x' xs =>
          rw [List.map_cons, List.map_cons, List.intercalate_cons_cons,
            List.intercalate_cons_cons, List.map_append, List.map_append, ih]
          simp [hf]

/-- What the prefix check compares. -/
def Location.shown (os : String) (l : Location) : List Char :=
  lowerOn os (stripSlashes l.generic)

theorem generic_of_names (h : a.names ≠ []) : a.generic = ['/'].intercalate a.segments := by
  have hnames : a.names.map (·.text) ≠ [] := by simpa using h
  unfold Location.generic Location.segments
  rw [intercalate_append _ hnames]
  · cases a.root <;> simp [Root.text, Root.segments, List.intercalate_cons_cons]
  · cases a.root <;> simp [Root.segments]

theorem lower_segments (l : Location) :
    lowerOn os (['/'].intercalate l.segments) = ['/'].intercalate (l.fold os).segments := by
  unfold lowerOn Location.fold
  by_cases hos : os = "win"
  · rw [if_pos hos, if_pos hos, map_intercalate _ (by decide)]
    congr 1
    cases h : l.root <;>
      simp [Location.segments, Root.segments, Root.fold, FileName.lower, hos, h,
        Function.comp_def]
  · rw [if_neg hos, if_neg hos]
    congr 1
    cases h : l.root <;> simp [Location.segments, Root.segments, Root.fold, hos, h]

/-- Stripping stops at a name. -/
theorem stripSlashes_of_name {s t : List Char} {n : FileName}
    (h : s.rdropWhile (· = '/') = (t ++ n.text).rdropWhile (· = '/')) :
    stripSlashes s = t ++ n.text := by
  have hkeep : (t ++ n.text).rdropWhile (· = '/') = t ++ n.text := by
    refine List.rdropWhile_eq_self_iff.mpr fun hne hlast => n.plain.2 ?_
    rw [List.getLast_append_of_ne_nil hne n.plain.1] at hlast
    exact of_decide_eq_true hlast ▸ List.getLast_mem n.plain.1
  unfold stripSlashes
  rw [h, hkeep]
  cases happ : t ++ n.text with
  | nil => exact absurd (List.append_eq_nil_iff.mp happ).2 n.plain.1
  | cons c cs => rfl

theorem shown_of_names (h : a.names ≠ []) :
    a.shown os = ['/'].intercalate (a.fold os).segments := by
  rw [← lower_segments]
  unfold Location.shown
  rw [generic_of_names h]
  obtain ⟨ns, n, hn⟩ := (List.eq_nil_or_concat a.names).resolve_left h
  have hsnoc : a.segments = (a.root.segments ++ ns.map (·.text)) ++ [n.text] := by
    unfold Location.segments
    rw [hn]
    simp
  have hinit : a.root.segments ++ ns.map (·.text) ≠ [] := by
    cases a.root <;> simp [Root.segments]
  rw [hsnoc, intercalate_append hinit (List.cons_ne_nil _ _), List.intercalate_singleton,
    List.append_cons, stripSlashes_of_name rfl]

/-- A root is shown with the slash of `/` only. -/
theorem shown_of_root (h : a.names = []) :
    a.shown os = ['/'] ∨ a.shown os = ['/'].intercalate (a.fold os).segments := by
  rw [← lower_segments]
  unfold Location.shown Location.generic Location.segments
  rw [h]
  cases a.root with
  | slash =>
      left
      unfold lowerOn
      split
      · decide
      · decide
  | drive name =>
      right
      have hstrip := @stripSlashes_of_name (name.text ++ ['/']) [] name
        (List.rdropWhile_concat_pos _ _ _ (by decide))
      simpa [Root.text, Root.segments] using congrArg (lowerOn os) hstrip
  | share server =>
      right
      have hstrip := @stripSlashes_of_name (['/', '/'] ++ server.text ++ ['/']) ['/', '/'] server
        (List.rdropWhile_concat_pos _ _ _ (by decide))
      simpa [Root.text, Root.segments] using congrArg (lowerOn os) hstrip

/-- A prefix of whole pieces, then a slash. -/
theorem prefix_iff (hb : b.names ≠ []) {rest : List Char} :
    ['/'].intercalate a.segments = ['/'].intercalate b.segments ++ '/' :: rest ↔
      a.root = b.root ∧ ∃ n ns, a.names = b.names ++ n :: ns ∧
        ['/'].intercalate ((n :: ns).map (·.text)) = rest := by
  constructor
  · intro h
    have hsplit := congrArg (List.splitOn '/') h
    rw [List.splitOn_append_cons_self, List.splitOn_intercalate _ segments_plain segments_ne_nil,
      List.splitOn_intercalate _ segments_plain segments_ne_nil] at hsplit
    obtain ⟨hroot, hnames⟩ := root_of_segments hb hsplit
    obtain ⟨front, back, happ, hfront, hback⟩ := List.map_eq_append_iff.mp hnames
    have hinj : Function.Injective FileName.text := fun _ _ => FileName.eq_of_text
    have hfront := List.map_injective_iff.mpr hinj hfront
    cases back with
    | nil => exact absurd hback.symm (List.splitOn_ne_nil _ _)
    | cons n ns =>
        refine ⟨hroot, n, ns, hfront ▸ happ, ?_⟩
        rw [hback, List.intercalate_splitOn]
  · rintro ⟨hroot, n, ns, hnames, rfl⟩
    unfold Location.segments
    rw [hroot, hnames, List.map_append, ← List.append_assoc, intercalate_append]
    · cases b.root <;> simp [Root.segments]
    · simp

theorem fold_names_ne_nil (h : a.names ≠ []) : (a.fold os).names ≠ [] := by
  unfold Location.fold
  split
  · simpa using h
  · exact h

/-- The comparison of two texts. -/
theorem compare_iff {outer inner : List Char} :
    (if inner.length ≤ outer.length + 1 then false
      else decide (inner.take outer.length = outer) &&
        decide (inner[outer.length]? = some '/')) = true ↔
      ∃ rest, rest ≠ [] ∧ inner = outer ++ '/' :: rest := by
  constructor
  · intro h
    split at h
    · cases h
    · rename_i hlen
      obtain ⟨htake, hslash⟩ := Bool.and_eq_true_iff.mp h
      obtain ⟨hlt, hget⟩ := List.getElem?_eq_some_iff.mp (of_decide_eq_true hslash)
      refine ⟨inner.drop (outer.length + 1), ?_, ?_⟩
      · intro hnil
        have := List.drop_eq_nil_iff.mp hnil
        omega
      · calc inner = inner.take outer.length ++ inner.drop outer.length :=
              (List.take_append_drop _ _).symm
          _ = outer ++ '/' :: inner.drop (outer.length + 1) := by
            rw [of_decide_eq_true htake, List.drop_eq_getElem_cons hlt, hget]
  · rintro ⟨rest, hrest, rfl⟩
    have hpos := List.length_pos_of_ne_nil hrest
    rw [if_neg (by rw [List.length_append, List.length_cons]; omega)]
    refine Bool.and_eq_true_iff.mpr ⟨decide_eq_true List.take_left, decide_eq_true ?_⟩
    rw [List.getElem?_append_right (le_refl _), Nat.sub_self]
    rfl

theorem isPathWithin_iff_shown {base p : FsPath} :
    isPathWithin os cwd base p ↔
      ∃ rest, rest ≠ [] ∧ (absolute os cwd p).shown os =
        (absolute os cwd base).shown os ++ '/' :: rest := by
  have hgen (l : Location) : l.generic ≠ [] := by simp [Location.generic]
  unfold isPathWithin
  simp only [hgen, decide_false, Bool.or_self, Bool.false_eq_true, if_false]
  exact compare_iff

/-- **The prefix check decides containment.** -/
theorem isPathWithin_iff {base p : FsPath} (hbase : (absolute os cwd base).names ≠ []) :
    isPathWithin os cwd base p ↔
      Inside os (absolute os cwd p) (absolute os cwd base) := by
  rw [isPathWithin_iff_shown, shown_of_names hbase]
  have hfold := @fold_names_ne_nil os _ hbase
  constructor
  · rintro ⟨rest, hrest, h⟩
    have hshown : (absolute os cwd p).shown os =
        ['/'].intercalate ((absolute os cwd p).fold os).segments := by
      by_cases hp : (absolute os cwd p).names = []
      · rcases @shown_of_root os _ hp with hroot | hroot
        · -- a lone slash is too short
          rw [hroot] at h
          have hlen := congrArg List.length h
          simp only [List.length_append, List.length_cons, List.length_nil] at hlen
          exact absurd (List.length_eq_zero_iff.mp (by omega)) hrest
        · exact hroot
      · exact shown_of_names hp
    rw [hshown] at h
    obtain ⟨hroot, n, ns, hnames, -⟩ := (prefix_iff hfold).mp h
    exact ⟨hroot, n, ns, hnames⟩
  · rintro ⟨hroot, n, ns, hnames⟩
    have hp : (absolute os cwd p).names ≠ [] := by
      intro hnil
      simp [Location.fold, hnil] at hnames
    refine ⟨['/'].intercalate ((n :: ns).map (·.text)), ?_, ?_⟩
    · cases ns with
      | nil => simpa using n.plain.1
      | cons m ns => simp [n.plain.1]
    · rw [shown_of_names hp]
      exact (prefix_iff hfold).mpr ⟨hroot, n, ns, hnames, rfl⟩

/-! ## Names in front of a C string's end -/

variable {p : FsPath}

/-- No character of the path ends a C string. -/
def FsPath.NoNul (p : FsPath) : Prop :=
  (∀ server, p.anchor = .root (.share server) → '\x00' ∉ server.text) ∧
    ∀ n ∈ p.names, '\x00' ∉ n.text

theorem FsPath.names_beforeNul (h : p.NoNul) {ms : List FileName} :
    ({ p with names := p.names ++ ms } : FsPath).beforeNul =
      { p with names := p.names ++ namesBeforeNul ms } := by
  have hnames : namesBeforeNul (p.names ++ ms) = p.names ++ namesBeforeNul ms := by
    have hplain := h.2
    generalize p.names = ns at hplain
    induction ns with
    | nil => rfl
    | cons n ns ih =>
        rw [List.cons_append, namesBeforeNul, if_neg (hplain n List.mem_cons_self),
          ih fun m hm => hplain m (List.mem_cons_of_mem _ hm)]
        rfl
  unfold beforeNul
  simp only [hnames]
  split
  · rename_i server hserver
    rw [if_neg (h.1 server hserver)]
  · rfl

theorem FsPath.beforeNul_eq (h : p.NoNul) : p.beforeNul = p := by
  simpa [namesBeforeNul] using @names_beforeNul p h []

theorem FileName.beforeNul_plain {n m : FileName} (h : n.beforeNul = some m) :
    '\x00' ∉ m.text := by
  unfold beforeNul of? at h
  split at h
  · cases h
    intro hmem
    have := List.mem_takeWhile_imp hmem
    simp at this
  · cases h

theorem FsPath.noNul_beforeNul : p.beforeNul.NoNul := by
  have hnames : ∀ ns : List FileName, ∀ n ∈ namesBeforeNul ns, '\x00' ∉ n.text := by
    intro ns
    induction ns with
    | nil => exact fun n hn => absurd hn List.not_mem_nil
    | cons m ms ih =>
        intro n hn
        rw [namesBeforeNul] at hn
        split at hn
        · exact FileName.beforeNul_plain (Option.mem_toList.mp hn)
        · rename_i hm
          rcases List.mem_cons.mp hn with rfl | hn
          · exact hm
          · exact ih n hn
  unfold beforeNul
  split
  · rename_i server hserver
    split
    · refine ⟨fun s hs => ?_, fun n hn => absurd hn List.not_mem_nil⟩
      cases hcut : server.beforeNul with
      | none => simp [hcut] at hs
      | some t =>
          have hst : t = s := by simpa [hcut] using hs
          exact hst ▸ FileName.beforeNul_plain hcut
    · rename_i hplain
      refine ⟨fun s hs => ?_, hnames p.names⟩
      have hst := hserver.symm.trans hs
      cases hst
      exact hplain
  · rename_i hother
    exact ⟨fun s hs => absurd hs (hother s), hnames p.names⟩

/-! ## An entry of a folder -/

theorem settleNames_snoc {ns : List FileName} {n : FileName} :
    settleNames os (ns ++ [n]) = ns ++ (lastName os n).toList := by
  unfold settleNames
  rw [List.getLast?_concat, List.dropLast_concat]

theorem Location.walk_snoc {l : Location} {ns : List FileName} {n : FileName} :
    l.walk (ns ++ [n]) = (l.walk ns).enter n := by
  unfold walk
  rw [List.foldl_append]
  rfl

end MinRender
