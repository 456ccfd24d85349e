import MinRender.Core.PathMapping

/-!
# Which mapping translates a path

`translatePath` takes the first mapping whose prefix the path starts with as a
string. A prefix that ends inside a name, and a prefix with a trailing
separator, are where this differs from a match of whole components. Under
mappings whose prefixes tell each other apart, a Mac path comes back from its
canonical form as it was.
-/

namespace MinRender.PathTranslation

/-! ## The mapping used -/

/-- Both prefixes of the mapping are set. -/
def usable (sourceOS targetOS : String) (m : PathMapping) : Bool :=
  m.enabled && normalizePath (mappingPrefix m sourceOS) ≠ "" && mappingPrefix m targetOS ≠ ""

/-- The path starts with the mapping's prefix, as strings. -/
def startsWith (sourceOS path : String) (m : PathMapping) : Bool :=
  matchesPrefix sourceOS (normalizePath (mappingPrefix m sourceOS)) (normalizePath path)

/-- The mapping that `translatePath` rewrites a path with. -/
def mappingUsed (sourceOS targetOS path : String) (mappings : List PathMapping) :
    Option PathMapping :=
  if sourceOS = targetOS then none
  else mappings.find? fun m => usable sourceOS targetOS m && startsWith sourceOS path m

/-- A path rewritten with a mapping. -/
def rewriteWith (sourceOS targetOS path : String) (m : PathMapping) : String :=
  toNativeSeparators (rebase (mappingPrefix m targetOS)
    ((normalizePath path).toList.drop (normalizePath (mappingPrefix m sourceOS)).length)) targetOS

theorem translatePath_eq (sourceOS targetOS path : String) (mappings : List PathMapping) :
    translatePath sourceOS targetOS path mappings =
      match mappingUsed sourceOS targetOS path mappings with
      | none => toNativeSeparators path targetOS
      | some m => rewriteWith sourceOS targetOS path m := by
  unfold translatePath mappingUsed
  split
  · rfl
  · rfl

/-- The form paths are compared in: forward slashes, and lower case for a
Windows source. -/
def folded (sourceOS path : String) : List Char :=
  if sourceOS = "win" then (lowercase (normalizePath path)).toList
  else (normalizePath path).toList

/-- The path is the mapping's prefix without trailing separators, or goes on
with a separator right after it. -/
def AtBoundary (sourceOS path : String) (m : PathMapping) : Prop :=
  let stripped := (folded sourceOS (mappingPrefix m sourceOS)).rdropWhile (· = '/')
  folded sourceOS path = stripped ∨ stripped ++ ['/'] <+: folded sourceOS path

instance (sourceOS path : String) (m : PathMapping) : Decidable (AtBoundary sourceOS path m) :=
  inferInstanceAs (Decidable (_ ∨ _))

/-- A path is rewritten only at a component boundary, with the first mapping
that it continues at one. -/
structure Respects (sourceOS targetOS path : String) (mappings : List PathMapping) : Prop where
  only : ∀ m, mappingUsed sourceOS targetOS path mappings = some m → AtBoundary sourceOS path m
  first : sourceOS ≠ targetOS → mappingUsed sourceOS targetOS path mappings =
    mappings.find? fun m => usable sourceOS targetOS m && AtBoundary sourceOS path m

/-- The first usable mapping that the path matches, as a string or at a
boundary, it matches both ways. -/
def FirstMatchWhole (sourceOS targetOS path : String) (mappings : List PathMapping) : Prop :=
  sourceOS = targetOS ∨
    ∀ m, (mappings.find? fun m => usable sourceOS targetOS m &&
        (startsWith sourceOS path m || AtBoundary sourceOS path m)) = some m →
      startsWith sourceOS path m = true ∧ AtBoundary sourceOS path m

/-- Two searches agree exactly where the first element either test accepts is
one that both accept. -/
theorem find?_eq_find?_iff {α : Type*} {p q : α → Bool} {l : List α} :
    l.find? p = l.find? q ↔
      ∀ a, l.find? (fun b => p b || q b) = some a → p a = true ∧ q a = true := by
  induction l with
  | nil => simp
  | cons b l ih =>
      by_cases heither : p b = true ∨ q b = true
      · -- the first element decides
        have hfound : (b :: l).find? (fun c => p c || q c) = some b :=
          List.find?_cons_of_pos (Bool.or_eq_true _ _ ▸ heither)
        rw [hfound]
        constructor
        · intro hsame a ha
          cases ha
          rcases heither with hp | hq
          · rw [List.find?_cons_of_pos hp] at hsame
            exact ⟨hp, List.find?_some hsame.symm⟩
          · rw [List.find?_cons_of_pos hq] at hsame
            exact ⟨List.find?_some hsame, hq⟩
        · intro h
          obtain ⟨hp, hq⟩ := h b rfl
          rw [List.find?_cons_of_pos hp, List.find?_cons_of_pos hq]
      · rw [not_or] at heither
        rw [List.find?_cons_of_neg heither.1, List.find?_cons_of_neg heither.2,
          List.find?_cons_of_neg (by simpa using heither)]
        exact ih

/-- **Mappings apply at component boundaries exactly where the first match is
one.** -/
theorem respects_iff (sourceOS targetOS path : String) (mappings : List PathMapping) :
    Respects sourceOS targetOS path mappings ↔
      FirstMatchWhole sourceOS targetOS path mappings := by
  by_cases hos : sourceOS = targetOS
  · have hnone : mappingUsed sourceOS targetOS path mappings = none := if_pos hos
    refine iff_of_true ⟨fun m hm => ?_, fun hne => absurd hos hne⟩ (.inl hos)
    rw [hnone] at hm
    cases hm
  · have hused : mappingUsed sourceOS targetOS path mappings =
        mappings.find? fun m => usable sourceOS targetOS m && startsWith sourceOS path m :=
      if_neg hos
    have hagree := find?_eq_find?_iff (l := mappings)
      (p := fun m => usable sourceOS targetOS m && startsWith sourceOS path m)
      (q := fun m => usable sourceOS targetOS m && AtBoundary sourceOS path m)
    simp only [← Bool.and_or_distrib_left, Bool.and_eq_true, decide_eq_true_eq] at hagree
    constructor
    · rintro ⟨-, hfirst⟩
      refine .inr fun m hm => ?_
      obtain ⟨⟨-, hstart⟩, -, hwhole⟩ := hagree.mp (hused.symm.trans (hfirst hos)) m hm
      exact ⟨hstart, hwhole⟩
    · rintro (heq | hwhole)
      · exact absurd heq hos
      · have hsame := hagree.mpr fun m hm => by
          obtain ⟨hstart, hbound⟩ := hwhole m hm
          have huse := List.find?_some hm
          rw [Bool.and_eq_true] at huse
          exact ⟨⟨huse.1, hstart⟩, huse.1, hbound⟩
        refine ⟨fun m hm => ?_, fun _ => hused.trans hsame⟩
        rw [hused, hsame] at hm
        have hfound := List.find?_some hm
        rw [Bool.and_eq_true, decide_eq_true_eq] at hfound
        exact hfound.2

/-- A folder next to the mapped one, whose name goes on where the prefix ends. -/
theorem sibling_folder_is_redirected :
    ¬ Respects "mac" "win" "/Volumes/show2/a.blend"
        [{ win := "Z:\\show", mac := "/Volumes/show" }] ∧
      translatePath "mac" "win" "/Volumes/show2/a.blend"
        [{ win := "Z:\\show", mac := "/Volumes/show" }] = "Z:\\show\\2\\a.blend" := by
  refine ⟨fun h => ?_, by decide⟩
  exact absurd (h.only { win := "Z:\\show", mac := "/Volumes/show" } (by decide)) (by decide)

/-! ## Round trips -/

/-- The prefix is set and ends with no separator. -/
def PlainPrefix (pre : String) : Prop :=
  pre ≠ "" ∧ ∀ c, (normalizePath pre).toList.getLast? = some c → c ≠ '/'

/-- The prefixes of the enabled mappings tell each other apart on both
systems. -/
structure WellFormed (mappings : List PathMapping) : Prop where
  win_plain : ∀ m ∈ mappings, m.enabled = true → PlainPrefix m.win
  mac_plain : ∀ m ∈ mappings, m.enabled = true → PlainPrefix m.mac ∧ '\\' ∉ m.mac.toList
  mac_apart : ∀ m ∈ mappings, ∀ m' ∈ mappings, m.enabled = true → m'.enabled = true → m ≠ m' →
    ¬ m.mac.toList <+: m'.mac.toList
  win_apart : ∀ m ∈ mappings, ∀ m' ∈ mappings, m.enabled = true → m'.enabled = true → m ≠ m' →
    ¬ folded "win" m.win <+: folded "win" m'.win

/-- The prefix itself, or a path below it. -/
def Under (pre path : String) : Prop :=
  path = pre ∨ ∃ rest, rest ≠ "" ∧ path = pre ++ "/" ++ rest

/-- What may follow a prefix: nothing, or a separator and more. -/
def Tail (tail : List Char) : Prop := tail = [] ∨ ∃ rest, rest ≠ [] ∧ tail = '/' :: rest

theorem Under.tail {pre path : String} (h : Under pre path) :
    ∃ tail, Tail tail ∧ path.toList = pre.toList ++ tail := by
  rcases h with rfl | ⟨rest, hrest, rfl⟩
  · exact ⟨[], .inl rfl, (List.append_nil _).symm⟩
  · refine ⟨'/' :: rest.toList, .inr ⟨rest.toList, ?_, rfl⟩, ?_⟩
    · rwa [ne_eq, String.toList_eq_nil_iff]
    · rw [String.toList_append, String.toList_append, List.append_assoc]
      rfl

section Separators

variable {s : String}

theorem toList_replaceChar (old new : Char) (s : String) :
    (replaceChar old new s).toList = s.toList.map fun c => if c = old then new else c :=
  String.toList_ofList

/-- Without a character, nothing is replaced. -/
theorem replaceChar_of_notMem {old new : Char} (h : old ∉ s.toList) :
    replaceChar old new s = s := by
  refine String.toList_inj.mp ?_
  rw [toList_replaceChar]
  refine (List.map_congr_left fun c hc => ?_).trans (List.map_id _)
  refine if_neg ?_
  rintro rfl
  exact h hc

theorem notMem_replaceChar {old new : Char} (hne : new ≠ old) :
    old ∉ (replaceChar old new s).toList := by
  rw [toList_replaceChar]
  intro hmem
  obtain ⟨c, -, hc⟩ := List.mem_map.mp hmem
  split at hc
  · exact hne hc
  · rename_i hold
    exact hold hc

/-- Without a character, replacing by it and back changes nothing. -/
theorem replaceChar_back {old new : Char} (h : new ∉ s.toList) :
    replaceChar new old (replaceChar old new s) = s := by
  refine String.toList_inj.mp ?_
  rw [toList_replaceChar, toList_replaceChar, List.map_map]
  refine (List.map_congr_left fun c hc => ?_).trans (List.map_id _)
  rw [Function.comp_apply]
  by_cases hold : c = old
  · rw [if_pos hold, if_pos rfl, hold]
    rfl
  · have hnew : c ≠ new := fun heq => h (heq ▸ hc)
    rw [if_neg hold, if_neg hnew]
    rfl

theorem notMem_normalizePath : '\\' ∉ (normalizePath s).toList :=
  notMem_replaceChar (by decide)

/-- A text with forward slashes comes back from Windows separators. -/
theorem normalize_native (h : '\\' ∉ s.toList) :
    normalizePath (toNativeSeparators s "win") = s :=
  replaceChar_back h

theorem native_mac (h : '\\' ∉ s.toList) : toNativeSeparators s "mac" = s :=
  replaceChar_of_notMem h

end Separators

/-- A tail is put behind the target prefix as it is. -/
theorem rebase_tail {pre : String} {tail : List Char} (hpre : PlainPrefix pre) (h : Tail tail) :
    rebase pre tail = String.ofList ((normalizePath pre).toList ++ tail) := by
  have hstrip : (normalizePath pre).toList.rdropWhile (· = '/') = (normalizePath pre).toList := by
    refine List.rdropWhile_eq_self_iff.mpr fun hne hlast => ?_
    exact hpre.2 _ (List.getLast?_eq_some_getLast hne) (of_decide_eq_true hlast)
  unfold rebase
  rw [hstrip]
  rcases h with rfl | ⟨rest, hrest, rfl⟩
  · rw [List.append_nil]
    rfl
  · exact if_neg hrest

/-- Of two different mappings, at most one matches. -/
theorem mappingUsed_eq {sourceOS path : String} (targetOS : String) {mappings : List PathMapping}
    {m : PathMapping} (hos : sourceOS ≠ targetOS) (hm : m ∈ mappings)
    (huse : usable sourceOS targetOS m = true) (hstart : startsWith sourceOS path m = true)
    (hapart : ∀ m' ∈ mappings, m'.enabled = true → startsWith sourceOS path m' = true → m' = m) :
    mappingUsed sourceOS targetOS path mappings = some m := by
  refine (if_neg hos).trans ?_
  have hall : ∀ m' ∈ mappings,
      (usable sourceOS targetOS m' && startsWith sourceOS path m') = true → m' = m := by
    intro m' hm' hboth
    rw [Bool.and_eq_true] at hboth
    have henabled : m'.enabled = true := by
      have huse' := hboth.1
      unfold usable at huse'
      rw [Bool.and_eq_true, Bool.and_eq_true] at huse'
      exact huse'.1.1
    exact hapart m' hm' henabled hboth.2
  cases hfound : mappings.find? fun m => usable sourceOS targetOS m &&
      startsWith sourceOS path m with
  | none =>
      have hno := List.find?_eq_none.mp hfound m hm
      rw [huse, hstart] at hno
      exact absurd rfl hno
  | some m' =>
      have hboth := List.find?_some hfound
      rw [hall m' (List.mem_of_find?_eq_some hfound) hboth]

theorem startsWith_mac {path : String} {m : PathMapping} (hpath : '\\' ∉ path.toList)
    (hmac : '\\' ∉ m.mac.toList) :
    startsWith "mac" path m = true ↔ m.mac.toList <+: path.toList := by
  have hpre : normalizePath (mappingPrefix m "mac") = m.mac := replaceChar_of_notMem hmac
  have hnorm : normalizePath path = path := replaceChar_of_notMem hpath
  unfold startsWith
  rw [hpre, hnorm]
  exact List.isPrefixOf_iff_prefix

theorem startsWith_win {path : String} {m : PathMapping} :
    startsWith "win" path m = true ↔ folded "win" m.win <+: folded "win" path := by
  unfold startsWith matchesPrefix folded
  rw [if_pos rfl, if_pos rfl, if_pos rfl]
  exact List.isPrefixOf_iff_prefix

variable {mappings : List PathMapping} {m : PathMapping} {path : String}

theorem usable_of_wellFormed (h : WellFormed mappings) (hm : m ∈ mappings)
    (henabled : m.enabled = true) :
    usable "mac" "win" m = true ∧ usable "win" "mac" m = true := by
  have hset : ∀ s : String, s ≠ "" → normalizePath s ≠ "" := by
    intro s hs hnorm
    have hlist := congrArg String.toList hnorm
    unfold normalizePath at hlist
    rw [toList_replaceChar] at hlist
    exact hs (String.toList_eq_nil_iff.mp (List.map_eq_nil_iff.mp hlist))
  have hwin := (h.win_plain m hm henabled).1
  have hmac := (h.mac_plain m hm henabled).1.1
  unfold usable
  rw [henabled]
  refine ⟨?_, ?_⟩
  · rw [Bool.true_and, Bool.and_eq_true, decide_eq_true_eq, decide_eq_true_eq]
    exact ⟨hset _ hmac, hwin⟩
  · rw [Bool.true_and, Bool.and_eq_true, decide_eq_true_eq, decide_eq_true_eq]
    exact ⟨hset _ hwin, hmac⟩

/-- The canonical form of a path below a mapping's prefix. -/
theorem mac_to_win (h : WellFormed mappings) (hm : m ∈ mappings) (henabled : m.enabled = true)
    {tail : List Char} (htail : Tail tail) (hpath : path.toList = m.mac.toList ++ tail)
    (hslash : '\\' ∉ path.toList) :
    translatePath "mac" "win" path mappings =
      toNativeSeparators (String.ofList ((normalizePath m.win).toList ++ tail)) "win" := by
  obtain ⟨-, hmac⟩ := h.mac_plain m hm henabled
  have hstart : startsWith "mac" path m = true :=
    (startsWith_mac hslash hmac).mpr ⟨tail, hpath.symm⟩
  have hused : mappingUsed "mac" "win" path mappings = some m := by
    refine mappingUsed_eq "win" (by decide) hm (usable_of_wellFormed h hm henabled).1 hstart ?_
    intro m' hm' henabled' hstart'
    by_contra hne
    have hpre := (startsWith_mac hslash hmac).mp hstart
    have hpre' := (startsWith_mac hslash (h.mac_plain m' hm' henabled').2).mp hstart'
    rcases List.prefix_or_prefix_of_prefix hpre hpre' with hbelow | hbelow
    · exact h.mac_apart m hm m' hm' henabled henabled' (Ne.symm hne) hbelow
    · exact h.mac_apart m' hm' m hm henabled' henabled hne hbelow
  have hrest : (normalizePath path).toList.drop (normalizePath (mappingPrefix m "mac")).length =
      tail := by
    have hpre : normalizePath (mappingPrefix m "mac") = m.mac := replaceChar_of_notMem hmac
    have hnorm : normalizePath path = path := replaceChar_of_notMem hslash
    rw [hpre, hnorm, hpath, ← String.length_toList, List.drop_left]
  rw [translatePath_eq, hused]
  dsimp only
  unfold rewriteWith
  rw [hrest]
  exact congrArg (toNativeSeparators · "win") (rebase_tail (h.win_plain m hm henabled) htail)

/-- The Mac form of such a canonical form. -/
theorem win_to_mac (h : WellFormed mappings) (hm : m ∈ mappings) (henabled : m.enabled = true)
    {tail : List Char} (htail : Tail tail) (hslash : '\\' ∉ tail) :
    translatePath "win" "mac"
        (toNativeSeparators (String.ofList ((normalizePath m.win).toList ++ tail)) "win") mappings =
      String.ofList (m.mac.toList ++ tail) := by
  obtain ⟨hplain, hmac⟩ := h.mac_plain m hm henabled
  have hclean : '\\' ∉ (String.ofList ((normalizePath m.win).toList ++ tail)).toList := by
    rw [String.toList_ofList]
    exact fun hmem => (List.mem_append.mp hmem).elim notMem_normalizePath hslash
  have hnorm := normalize_native hclean
  have hfolded : folded "win" (toNativeSeparators
      (String.ofList ((normalizePath m.win).toList ++ tail)) "win") =
      folded "win" m.win ++ tail.map Char.toLower := by
    unfold folded
    rw [if_pos rfl, if_pos rfl, hnorm]
    unfold lowercase
    rw [String.toList_ofList, String.toList_ofList, String.toList_ofList, List.map_append]
  have hstart := startsWith_win.mpr (hfolded ▸ List.prefix_append _ _)
  have hused := mappingUsed_eq "mac" (by decide) hm
    (usable_of_wellFormed h hm henabled).2 hstart fun m' hm' henabled' hstart' => by
      by_contra hne
      rcases List.prefix_or_prefix_of_prefix (startsWith_win.mp hstart)
        (startsWith_win.mp hstart') with hbelow | hbelow
      · exact h.win_apart m hm m' hm' henabled henabled' (Ne.symm hne) hbelow
      · exact h.win_apart m' hm' m hm henabled' henabled hne hbelow
  rw [translatePath_eq, hused]
  dsimp only
  unfold rewriteWith
  rw [hnorm, String.toList_ofList]
  have hdrop : ((normalizePath m.win).toList ++ tail).drop
      (normalizePath (mappingPrefix m "win")).length = tail := by
    have hpre : normalizePath (mappingPrefix m "win") = normalizePath m.win := rfl
    rw [hpre, ← String.length_toList, List.drop_left]
  have hmacNorm : normalizePath m.mac = m.mac := replaceChar_of_notMem hmac
  have hpre : mappingPrefix m "mac" = m.mac := rfl
  rw [hdrop, hpre, rebase_tail hplain htail, hmacNorm, native_mac]
  rw [String.toList_ofList]
  exact fun hmem => (List.mem_append.mp hmem).elim hmac hslash

/-- **Canonicalisation round-trips**: a Mac path below an enabled mapping's
prefix comes back from its canonical form, and so does the canonical form. -/
theorem translatePath_roundTrip (h : WellFormed mappings) (hm : m ∈ mappings)
    (henabled : m.enabled = true) (hunder : Under m.mac path) (hslash : '\\' ∉ path.toList) :
    translatePath "win" "mac" (translatePath "mac" "win" path mappings) mappings = path ∧
      translatePath "mac" "win"
          (translatePath "win" "mac" (translatePath "mac" "win" path mappings) mappings) mappings =
        translatePath "mac" "win" path mappings := by
  obtain ⟨tail, htail, hpath⟩ := hunder.tail
  have hclean : '\\' ∉ tail := fun hmem => hslash (hpath ▸ List.mem_append_right _ hmem)
  have hback : translatePath "win" "mac" (translatePath "mac" "win" path mappings) mappings =
      path := by
    rw [mac_to_win h hm henabled htail hpath hslash, win_to_mac h hm henabled htail hclean,
      ← hpath, String.ofList_toList]
  exact ⟨hback, by rw [hback]⟩

/-- Two folders of one volume. -/
def showMappings : List PathMapping :=
  [{ win := "Z:\\show", mac := "/Volumes/show" }, { win := "Z:\\cache", mac := "/Volumes/cache" }]

theorem plainPrefix_of {pre : String} (hset : pre ≠ "")
    (h : (normalizePath pre).toList.getLast? ≠ some '/') : PlainPrefix pre :=
  ⟨hset, fun _ hc heq => h (heq ▸ hc)⟩

theorem showMappings_wellFormed : WellFormed showMappings where
  win_plain m hm _ := by
    rcases List.mem_cons.mp hm with rfl | hm
    · exact plainPrefix_of (by decide) (by decide)
    · rw [List.mem_singleton.mp hm]
      exact plainPrefix_of (by decide) (by decide)
  mac_plain m hm _ := by
    rcases List.mem_cons.mp hm with rfl | hm
    · exact ⟨plainPrefix_of (by decide) (by decide), by decide⟩
    · rw [List.mem_singleton.mp hm]
      exact ⟨plainPrefix_of (by decide) (by decide), by decide⟩
  mac_apart := by decide
  win_apart := by decide

theorem shot_path_comes_back :
    translatePath "win" "mac" (translatePath "mac" "win" "/Volumes/cache/a.exr" showMappings)
        showMappings = "/Volumes/cache/a.exr" ∧
      translatePath "mac" "win" (translatePath "win" "mac"
          (translatePath "mac" "win" "/Volumes/cache/a.exr" showMappings) showMappings)
          showMappings =
        translatePath "mac" "win" "/Volumes/cache/a.exr" showMappings :=
  translatePath_roundTrip showMappings_wellFormed (List.mem_cons_of_mem _ List.mem_cons_self) rfl
    (.inr ⟨"a.exr", by decide, by decide⟩) (by decide)

end MinRender.PathTranslation
