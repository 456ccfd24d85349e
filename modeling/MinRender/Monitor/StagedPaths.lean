import MinRender.Core.Paths
import MinRender.Monitor.TaskFormat

/-!
# Paths of output files

What taking the file name of a path and appending it to a directory, which the
coordinator does on texts, mean for the places the texts lead to.
-/

namespace MinRender.TaskFormat

variable {os : String}

/-! ## The names in a text -/

/-- The names of what follows the root name. -/
def namesOf (os : String) (rest : List Char) : List FileName :=
  (rest.splitOnP (isSeparator os)).filterMap FileName.of?

theorem namesOf_nil : namesOf os [] = [] := rfl

theorem namesOf_append {front last : List Char} {s : Char} (hs : isSeparator os s = true) :
    namesOf os (front ++ s :: last) = namesOf os front ++ namesOf os last := by
  unfold namesOf
  rw [List.splitOnP_append_cons _ _ hs, List.filterMap_append]

theorem namesOf_plain {name : List Char} (h : ∀ c ∈ name, isSeparator os c = false) :
    namesOf os name = (FileName.of? name).toList := by
  unfold namesOf
  rw [List.splitOnP_eq_singleton h]
  cases hname : FileName.of? name <;> simp [hname]

/-- The last piece of a text and the names before it. -/
theorem namesOf_eq (rest : List Char) :
    namesOf os rest = namesOf os (rest.rdropWhile (!isSeparator os ·)) ++
      (FileName.of? (rest.rtakeWhile (!isSeparator os ·))).toList := by
  have hplain : ∀ c ∈ rest.rtakeWhile (!isSeparator os ·), isSeparator os c = false := by
    intro c hc
    simpa using List.mem_rtakeWhile_imp hc
  rw [← namesOf_plain hplain]
  have hjoin := List.rdropWhile_append_rtakeWhile (p := (!isSeparator os ·)) (l := rest)
  rcases List.eq_nil_or_concat (rest.rdropWhile (!isSeparator os ·)) with hnil | ⟨f, s, hf⟩
  · rw [hnil, List.nil_append] at hjoin
    rw [hnil, hjoin, namesOf_nil, List.nil_append]
  · have hs : isSeparator os s = true := by
      have hlast := List.rdropWhile_last_not (p := (!isSeparator os ·)) (l := rest)
        (by rw [hf]; simp)
      simpa [hf] using hlast
    rw [List.concat_eq_append] at hf
    conv_lhs => rw [← hjoin, hf, List.append_assoc, List.singleton_append, namesOf_append hs]
    rw [hf, namesOf_append hs, namesOf_nil, List.append_nil]

/-! ## The root name of a longer text -/

theorem splitRootName_join (p : List Char) :
    (splitRootName os p).1 ++ (splitRootName os p).2 = p := by
  unfold splitRootName
  split
  · rfl
  · split
    · split
      · rfl
      · rfl
    · split
      · simp
      · rfl
    · rfl

/-- A drive, or two separators and a host. -/
theorem splitRootName_cases {p : List Char} (h : (splitRootName os p).1 ≠ []) :
    os = "win" ∧
      ((∃ d rest, p = d :: ':' :: rest ∧ d.isAlpha = true) ∨
        ∃ a b c rest, p = a :: b :: c :: rest ∧ b ≠ ':' ∧ isSeparator os a = true ∧
          isSeparator os b = true ∧ isSeparator os c = false) := by
  unfold splitRootName at h
  split at h
  · exact absurd rfl h
  rename_i hos
  refine ⟨not_not.mp hos, ?_⟩
  split at h
  · rename_i d rest
    split at h
    · rename_i hd
      exact .inl ⟨d, rest, rfl, hd⟩
    · exact absurd rfl h
  · rename_i a b c rest hno
    split at h
    · rename_i hunc
      simp only [Bool.and_eq_true, Bool.not_eq_true'] at hunc
      refine .inr ⟨a, b, c, rest, rfl, ?_, hunc.1.1, hunc.1.2, hunc.2⟩
      rintro rfl
      exact hno rfl
    · exact absurd rfl h
  · exact absurd rfl h

theorem splitRootName_drive {d : Char} (hd : d.isAlpha = true) (rest : List Char) :
    splitRootName "win" (d :: ':' :: rest) = ([d, ':'], rest) := by
  unfold splitRootName
  rw [if_neg (not_not.mpr rfl)]
  exact if_pos hd

theorem splitRootName_share {a b c : Char} (hb : b ≠ ':') (hsa : isSeparator "win" a = true)
    (hsb : isSeparator "win" b = true) (hc : isSeparator "win" c = false) (rest : List Char) :
    splitRootName "win" (a :: b :: c :: rest) =
      (a :: b :: (c :: rest).takeWhile (!isSeparator "win" ·),
        (c :: rest).dropWhile (!isSeparator "win" ·)) := by
  unfold splitRootName
  rw [if_neg (not_not.mpr rfl)]
  split
  · rename_i hcons
    cases hcons
    exact absurd rfl hb
  · rename_i hcons
    cases hcons
    rw [if_pos]
    simp [hsa, hsb, hc]
  · rename_i hno
    exact absurd rfl (hno a b c rest)

/-- What comes after the name of a root does not change it. -/
theorem splitRootName_append {p : List Char} (hrest : (splitRootName os p).2 ≠ [])
    (hroot : os = "win" → (splitRootName os p).1 ≠ []) (x : List Char) :
    splitRootName os (p ++ x) = ((splitRootName os p).1, (splitRootName os p).2 ++ x) := by
  by_cases hos : os = "win"
  · obtain ⟨rfl, ⟨d, rest, rfl, hd⟩ | ⟨a, b, c, rest, rfl, hb, hsa, hsb, hc⟩⟩ :=
      splitRootName_cases (hroot hos)
    · rw [List.cons_append, List.cons_append, splitRootName_drive hd, splitRootName_drive hd]
    · rw [splitRootName_share hb hsa hsb hc] at hrest ⊢
      dsimp only at hrest ⊢
      rw [List.cons_append, List.cons_append, List.cons_append,
        splitRootName_share hb hsa hsb hc, ← List.cons_append, List.takeWhile_append,
        List.dropWhile_append]
      -- the host ends before the rest
      have hlen : ((c :: rest).takeWhile (!isSeparator "win" ·)).length ≠
          (c :: rest).length := by
        intro heq
        have hall := List.takeWhile_append_dropWhile (p := (!isSeparator "win" ·))
          (l := c :: rest)
        have hlength := congrArg List.length hall
        rw [List.length_append, heq] at hlength
        exact hrest (List.eq_nil_of_length_eq_zero (by omega))
      rw [if_neg hlen, if_neg (by simpa using hrest)]
  · unfold splitRootName
    rw [if_pos hos, if_pos hos]

theorem splitRootName_of_plain {name : List Char} (h : (splitRootName os name).1 = []) :
    (splitRootName os name).2 = name := by
  have hjoin := @splitRootName_join os name
  rw [h] at hjoin
  exact hjoin

/-! ## Appending a name -/

/-- Where the names of a text start. -/
def anchorOf (os : String) (rootName rest : List Char) : Anchor :=
  let rooted := rest.head?.any (isSeparator os)
  if rootName = [] then
    if !rooted then .current else if os = "win" then .currentRoot else .root .slash
  else
    match FileName.of? rootName, FileName.of? (rootName.drop 2) with
    | _, some server => .root (.share server)
    | some drive, none => if rooted then .root (.drive drive) else .drive drive
    | none, none => .currentRoot

theorem parse_eq (text : String) :
    FsPath.parse os text =
      ⟨anchorOf os (splitRootName os text.toList).1 (splitRootName os text.toList).2,
        namesOf os (splitRootName os text.toList).2⟩ := by
  unfold FsPath.parse anchorOf namesOf
  split
  rename_i rootName rest hsplit
  rw [hsplit]
  dsimp only
  by_cases hroot : rootName = []
  · rw [if_pos hroot, if_pos hroot]
    split
    · rfl
    · split
      · rfl
      · rfl
  · rw [if_neg hroot, if_neg hroot]
    cases FileName.of? (rootName.drop 2) with
    | some server => rfl
    | none =>
        cases FileName.of? rootName with
        | none => rfl
        | some drive =>
            dsimp only
            split
            · rfl
            · rfl

/-- A directory of a file system: an absolute path with a name, which is the
name of its last component. -/
structure Directory (os : String) where
  text : String
  absolute : (FsPath.parse os text).isAbsolute = true
  named : (FsPath.parse os text).names ≠ []
  settled : settleNames os (FsPath.parse os text).names = (FsPath.parse os text).names

theorem Directory.rest_ne_nil (dir : Directory os) :
    (splitRootName os dir.text.toList).2 ≠ [] := by
  intro hnil
  have hnamed := dir.named
  rw [parse_eq, hnil] at hnamed
  exact hnamed rfl

theorem Directory.rootName_ne_nil (dir : Directory os) (hos : os = "win") :
    (splitRootName os dir.text.toList).1 ≠ [] := by
  intro hnil
  have habs := dir.absolute
  rw [parse_eq, hnil] at habs
  unfold anchorOf FsPath.isAbsolute at habs
  rw [if_pos rfl, if_pos hos] at habs
  split at habs
  · rename_i hroot
    split at hroot
    · cases hroot
    · cases hroot
  · cases habs

/-- A text that goes on below a directory. -/
theorem Directory.parse_append (dir : Directory os) {x : List Char} {text : String}
    (h : text.toList = dir.text.toList ++ x) :
    FsPath.parse os text =
      ⟨(FsPath.parse os dir.text).anchor,
        namesOf os ((splitRootName os dir.text.toList).2 ++ x)⟩ := by
  have hhead : ((splitRootName os dir.text.toList).2 ++ x).head? =
      (splitRootName os dir.text.toList).2.head? :=
    List.head?_append_of_ne_nil _ dir.rest_ne_nil
  rw [parse_eq, parse_eq, h, splitRootName_append dir.rest_ne_nil dir.rootName_ne_nil]
  unfold anchorOf
  rw [hhead]

/-- A name below a directory: a separator stands between them. -/
theorem joinPath_name {dir name : String} (hplain : ∀ c ∈ name.toList, isSeparator os c = false)
    (hdrive : (splitRootName os name.toList).1 = [])
    (hdirs : (splitRootName os dir.toList).2 ≠ []) :
    joinPath os dir name =
      if (splitRootName os dir.toList).2.getLast?.any (isSeparator os) then dir ++ name
      else dir ++ (if os = "win" then "\\" else "/") ++ name := by
  have hrest := splitRootName_of_plain hdrive
  have hhead : name.toList.head?.any (isSeparator os) = false := by
    cases hname : name.toList with
    | nil => rfl
    | cons c cs => exact hplain c (by rw [hname]; exact List.mem_cons_self)
  unfold joinPath
  simp only [hdrive, hrest, hhead, hdirs, ne_eq, not_true_eq_false, false_and, false_or,
    if_false, Bool.false_eq_true, String.ofList_toList]

/-- `operator/` on the text of a directory is `operator/` on its path. -/
theorem Directory.parse_joinPath (dir : Directory os) {name : String}
    (hplain : ∀ c ∈ name.toList, isSeparator os c = false)
    (hdrive : (splitRootName os name.toList).1 = []) :
    FsPath.parse os (joinPath os dir.text name) =
      (FsPath.parse os dir.text).append name.toList := by
  have hself := dir.parse_append (x := []) (List.append_nil _).symm
  rw [List.append_nil] at hself
  rw [joinPath_name hplain hdrive dir.rest_ne_nil]
  unfold FsPath.append
  rcases List.eq_nil_or_concat (splitRootName os dir.text.toList).2 with hnil | ⟨f, s, hf⟩
  · exact absurd hnil dir.rest_ne_nil
  rw [List.concat_eq_append] at hf
  have hlast : (splitRootName os dir.text.toList).2.getLast?.any (isSeparator os) =
      isSeparator os s := by
    rw [hf, List.getLast?_concat]
    rfl
  by_cases hs : isSeparator os s = true
  · rw [if_pos (hlast.trans hs), dir.parse_append (String.toList_append), hf, hself, hf]
    simp only [List.append_assoc, List.singleton_append, namesOf_append hs, namesOf_nil,
      List.append_nil, namesOf_plain hplain]
  · rw [if_neg (fun h => hs (hlast.symm.trans h))]
    obtain ⟨t, ht, htext⟩ : ∃ t, isSeparator os t = true ∧
        (if os = "win" then "\\" else "/").toList = [t] := by
      by_cases hos : os = "win"
      · exact ⟨'\\', by simp [isSeparator, hos], by rw [if_pos hos]; rfl⟩
      · exact ⟨'/', by simp [isSeparator], by rw [if_neg hos]; rfl⟩
    rw [dir.parse_append (x := t :: name.toList), namesOf_append ht, hself,
      namesOf_plain hplain]
    rw [String.toList_append, String.toList_append, htext, List.append_assoc]
    rfl

/-! ## The place of a file -/

/-- The file name a path ends with, as the file system has it; none where the
path can only be that of a directory or has no such name. -/
def fileName? (os path : String) : Option FileName :=
  if (splitRootName os (filename os path).toList).1 = [] then
    ((FileName.of? (filename os path).toList).bind (lastName os)).filter
      fun n => n.text ≠ ['.'] ∧ n.text ≠ ['.', '.']
  else none

def place (os : String) (cwd : CurrentDirs) (path : String) : Location :=
  resolve os cwd (FsPath.parse os path)

/-- The directory a path goes through last. -/
def folder (os : String) (cwd : CurrentDirs) (path : String) : Location :=
  ((FsPath.parse os path).anchor.base cwd).walk (FsPath.parse os path).names.dropLast

/-- The directory a path is, when a name follows it. -/
def inside (os : String) (cwd : CurrentDirs) (path : String) : Location :=
  ((FsPath.parse os path).anchor.base cwd).walk (FsPath.parse os path).names

theorem filename_plain (path : String) :
    ∀ c ∈ (filename os path).toList, isSeparator os c = false := by
  intro c hc
  unfold filename at hc
  rw [String.toList_ofList] at hc
  simpa using List.mem_rtakeWhile_imp hc

theorem enter_of_ordinary {l : Location} {n : FileName} (h : n.text ≠ ['.'])
    (h' : n.text ≠ ['.', '.']) : l.enter n = l.child n := by
  unfold Location.enter
  rw [if_neg h, if_neg h']

/-- A text that ends a path as the given name. -/
structure Named (os : String) (name : List Char) (n : FileName) : Prop where
  last : (FileName.of? name).bind (lastName os) = some n
  dot : n.text ≠ ['.']
  dots : n.text ≠ ['.', '.']

theorem named_of_fileName {path : String} {n : FileName} (h : fileName? os path = some n) :
    (splitRootName os (filename os path).toList).1 = [] ∧
      Named os (filename os path).toList n := by
  unfold fileName? at h
  split at h
  · rename_i hroot
    obtain ⟨hlast, hdots⟩ := Option.filter_eq_some_iff.mp h
    obtain ⟨hdot, hdots⟩ := of_decide_eq_true hdots
    exact ⟨hroot, hlast, hdot, hdots⟩
  · cases h

theorem FileName.of?_text (n : FileName) : FileName.of? n.text = some n :=
  dif_pos n.plain

/-- The name as the file system has it is not changed again. -/
theorem Named.settled {name : List Char} {n : FileName} (h : Named os name n) :
    Named os n.text n := by
  refine ⟨?_, h.dot, h.dots⟩
  obtain ⟨n₀, -, hlast⟩ := Option.bind_eq_some_iff.mp h.last
  rw [FileName.of?_text, Option.bind_some]
  unfold lastName at hlast ⊢
  split
  · rfl
  · rename_i hno
    split at hlast
    · cases hlast
      contradiction
    · have htext : n.text = n₀.text.rdropWhile fun c => c = '.' || c = ' ' := by
        unfold FileName.of? at hlast
        split at hlast
        · cases hlast
          rfl
        · cases hlast
      rw [htext, List.rdropWhile_idempotent, ← htext]
      exact FileName.of?_text n

/-- A name at the end of a path. -/
theorem walk_settle {l : Location} {names : List FileName} {name : List Char} {n : FileName}
    (h : Named os name n) :
    l.walk (settleNames os (names ++ (FileName.of? name).toList)) = (l.walk names).child n := by
  obtain ⟨n₀, hof, hlast⟩ := Option.bind_eq_some_iff.mp h.last
  unfold settleNames Location.walk
  rw [hof, Option.toList_some, List.getLast?_concat, List.dropLast_concat]
  dsimp only
  rw [hlast, Option.toList_some, List.foldl_append, List.foldl_cons, List.foldl_nil]
  exact enter_of_ordinary h.dot h.dots

/-- A path with a file name leads to that name in its last directory. -/
theorem place_of_fileName {cwd : CurrentDirs} {path : String} {n : FileName}
    (h : fileName? os path = some n) : place os cwd path = (folder os cwd path).child n := by
  obtain ⟨-, hnamed⟩ := named_of_fileName h
  have hnames : (FsPath.parse os path).names =
      namesOf os ((splitRootName os path.toList).2.rdropWhile (!isSeparator os ·)) ++
        (FileName.of? (filename os path).toList).toList := by
    rw [parse_eq, namesOf_eq, filename, String.toList_ofList]
  obtain ⟨n₀, hof, -⟩ := Option.bind_eq_some_iff.mp hnamed.last
  unfold place resolve folder
  rw [hnames, walk_settle hnamed, hof, Option.toList_some, List.dropLast_concat]

/-- A name appended to a path leads into it. -/
theorem resolve_append {cwd : CurrentDirs} {path : String} {name : List Char} {n : FileName}
    (h : Named os name n) :
    resolve os cwd ((FsPath.parse os path).append name) = (inside os cwd path).child n := by
  unfold resolve FsPath.append inside
  exact walk_settle h

/-- The staged path of a file leads into the staging directory. -/
theorem place_joinPath {cwd : CurrentDirs} (dir : Directory os) {path : String} {n : FileName}
    (h : fileName? os path = some n) :
    place os cwd (joinPath os dir.text (filename os path)) =
      (inside os cwd dir.text).child n := by
  obtain ⟨hroot, hnamed⟩ := named_of_fileName h
  unfold place
  rw [dir.parse_joinPath (filename_plain path) hroot]
  exact resolve_append hnamed

/-- A directory is the same place for every process, and for its own files. -/
theorem Directory.inside_eq (dir : Directory os) (cwd cwd' : CurrentDirs) :
    inside os cwd dir.text = place os cwd' dir.text := by
  have habs := dir.absolute
  unfold inside place resolve
  rw [dir.settled]
  unfold FsPath.isAbsolute at habs
  split at habs
  · rename_i root hroot
    rw [hroot]
    rfl
  · cases habs

end MinRender.TaskFormat
