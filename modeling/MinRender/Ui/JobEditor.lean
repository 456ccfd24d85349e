import Mathlib.Data.List.Forall2
import Mathlib.Data.List.ReduceOption
import MinRender.Core.Templates

/-!
# The job editor

The editor shows a stored manifest on the flags of its template. Baking keeps
the flags in order and drops optional positionals that were left empty, so the
editor walks both lists and takes a mismatch for a dropped flag. A slot here
is a template flag with what was baked from it, if anything.
-/

namespace MinRender

namespace AppBridge

/-- One field of the editor. -/
structure EditorFlag where
  flag : String
  info : String
  help : String := ""
  editable : Bool
  required : Bool
  type : String := ""
  filter : String := ""
  id : String := ""
  value : String
deriving DecidableEq, Repr

/-- The two cursors: a template flag consumes the next entry when their names
are equal. The entries left over were not consumed. -/
def walk : List TemplateFlag → List ManifestFlag →
    List (Option ManifestFlag) × List ManifestFlag
  | [], entries => ([], entries)
  | _ :: tflags, [] =>
      let (matched, rest) := walk tflags []
      (none :: matched, rest)
  | tf :: tflags, e :: entries =>
      if e.flag = tf.flag then
        let (matched, rest) := walk tflags entries
        (some e :: matched, rest)
      else
        let (matched, rest) := walk tflags (e :: entries)
        (none :: matched, rest)

/-- The first unmatched flag of the same name gets the entry. -/
def place (e : ManifestFlag) : List TemplateFlag → List (Option ManifestFlag) →
    List (Option ManifestFlag)
  | tf :: tflags, m :: matched =>
      if m.isNone ∧ tf.flag = e.flag then some e :: matched
      else m :: place e tflags matched
  | _, matched => matched

/-- Named entries the walk did not consume are placed; positionals are not. -/
def salvage (tflags : List TemplateFlag) (rest : List ManifestFlag)
    (matched : List (Option ManifestFlag)) : List (Option ManifestFlag) :=
  rest.foldl (fun matched e => if e.flag = "" then matched else place e tflags matched) matched

def overlay (tflags : List TemplateFlag) (entries : List ManifestFlag) :
    List (Option ManifestFlag) :=
  let (matched, rest) := walk tflags entries
  salvage tflags rest matched

def templateField (display : String → String) (tf : TemplateFlag)
    (m : Option ManifestFlag) : EditorFlag where
  flag := tf.flag
  info := tf.info
  help := tf.help
  editable := tf.editable
  required := tf.required
  type := tf.type
  filter := tf.filter
  id := tf.id
  value := match m with
    | some e => display (e.value.getD "")
    | none => ""

/-- Without its template a manifest's flags are edited as they are. -/
def rawField (display : String → String) (mf : ManifestFlag) : EditorFlag where
  flag := mf.flag
  info := if mf.flag = "" then "(positional)" else mf.flag
  editable := true
  required := false
  value := display (mf.value.getD "")

/-- The fields `finishOpenJobEditor` seeds the editor with. -/
def finishOpenJobEditor (display : String → String) (tmpls : List JobTemplate)
    (manifest : JobManifest) : List EditorFlag :=
  match tmpls.find? (·.templateId = manifest.templateId) with
  | some tmpl =>
      if tmpl.valid then
        (tmpl.flags.zip (overlay tmpl.flags manifest.flags)).map fun x =>
          templateField display x.1 x.2
      else manifest.flags.map (rawField display)
  | none => manifest.flags.map (rawField display)

end AppBridge

/-! ## What was baked from each flag -/

namespace TemplateManager

/-- The entry of a flag, given the values from it on. -/
def bakeFlag (tf : TemplateFlag) (values : List String) : ManifestFlag where
  flag := tf.flag
  isOutput := tf.type = "output"
  value := match tf.editable, values with
    | true, v :: _ => some v
    | _, _ => tf.value

def optionalPositional (tf : TemplateFlag) : Bool := tf.flag = "" && tf.editable && !tf.required

/-- An optional positional that was left empty. -/
def leftEmpty (tf : TemplateFlag) (values : List String) : Bool :=
  optionalPositional tf && values.headD "" = ""

/-- A standalone flag before an optional positional that was left empty. -/
def leadsEmpty (tf next : TemplateFlag) (values : List String) : Bool :=
  tf.flag ≠ "" && tf.value.isNone && !tf.editable && optionalPositional next &&
    values.tail.headD "" = ""

/-- What is baked from each flag, in the flag's place. -/
def bakeSlots : List TemplateFlag → List String → List (Option ManifestFlag)
  | [], _ => []
  | [tf], values => if leftEmpty tf values then [none] else [some (bakeFlag tf values)]
  | tf :: next :: rest, values =>
      if leadsEmpty tf next values then none :: none :: bakeSlots rest values.tail.tail
      else if leftEmpty tf values then none :: bakeSlots (next :: rest) values.tail
      else some (bakeFlag tf values) :: bakeSlots (next :: rest) values.tail

theorem bakeFlags_cons_cons (tf next : TemplateFlag) (rest : List TemplateFlag)
    (values : List String) : bakeFlags (tf :: next :: rest) values =
      if leadsEmpty tf next values then bakeFlags rest values.tail.tail
      else if leftEmpty tf values then bakeFlags (next :: rest) values.tail
      else bakeFlag tf values :: bakeFlags (next :: rest) values.tail := rfl

theorem bakeFlags_singleton (tf : TemplateFlag) (values : List String) :
    bakeFlags [tf] values = if leftEmpty tf values then [] else [bakeFlag tf values] := rfl

/-- **Baking keeps an ordered part of the slots.** -/
theorem reduceOption_bakeSlots (flags : List TemplateFlag) (values : List String) :
    (bakeSlots flags values).reduceOption = bakeFlags flags values := by
  fun_induction bakeSlots flags values with
  | case1 => rfl
  | case2 tf values h =>
      rw [bakeFlags_singleton, if_pos h]
      rfl
  | case3 tf values h =>
      rw [bakeFlags_singleton, if_neg h]
      rfl
  | case4 tf next rest values h ih =>
      rw [bakeFlags_cons_cons, if_pos h]
      exact ih
  | case5 tf next rest values h hempty ih =>
      rw [bakeFlags_cons_cons, if_neg h, if_pos hempty]
      exact ih
  | case6 tf next rest values h hempty ih =>
      rw [bakeFlags_cons_cons, if_neg h, if_neg hempty, List.reduceOption_cons_of_some, ih]

/-- A slot's entry has the name of its flag. -/
theorem named_bakeSlots (flags : List TemplateFlag) (values : List String) :
    List.Forall₂ (fun tf slot => ∀ e, slot = some e → e.flag = tf.flag) flags
      (bakeSlots flags values) := by
  have hkept : ∀ (tf : TemplateFlag) values e, some (bakeFlag tf values) = some e →
      e.flag = tf.flag := by
    rintro tf values e ⟨⟩
    rfl
  fun_induction bakeSlots flags values with
  | case1 => exact .nil
  | case2 tf values h => exact .cons (fun e he => nomatch he) .nil
  | case3 tf values h => exact .cons (hkept tf values) .nil
  | case4 tf next rest values h ih =>
      exact .cons (fun e he => nomatch he) (.cons (fun e he => nomatch he) ih)
  | case5 tf next rest values h hempty ih => exact .cons (fun e he => nomatch he) ih
  | case6 tf next rest values h hempty ih => exact .cons (hkept tf values) ih

/-- The flag and the value that a slot belongs to. -/
theorem slot_at {P : TemplateFlag × String → Option ManifestFlag → Prop}
    {flags : List TemplateFlag} {values : List String} {slots : List (Option ManifestFlag)}
    (h : List.Forall₂ P (flags.zip values) slots) {i : Nat} {slot : Option ManifestFlag}
    (hslot : slots[i]? = some slot) :
    ∃ tf v, flags[i]? = some tf ∧ values[i]? = some v ∧ P (tf, v) slot := by
  obtain ⟨hi, hget⟩ := List.getElem?_eq_some_iff.mp hslot
  have hzip : i < (flags.zip values).length := h.length_eq ▸ hi
  have hp := (List.forall₂_iff_get.mp h).2 i hzip hi
  obtain ⟨htf, hv⟩ := List.getElem?_zip_eq_some.mp (List.getElem?_eq_getElem hzip)
  rw [List.get_eq_getElem, List.get_eq_getElem, hget] at hp
  exact ⟨_, _, htf, hv, hp⟩

/-- **What a slot holds is what was submitted**: of an editable flag with its
own value, the entry's value, and nothing where the value is empty. -/
theorem value_bakeSlots {flags : List TemplateFlag} {values : List String}
    (hlen : values.length = flags.length) :
    List.Forall₂ (fun (x : TemplateFlag × String) (slot : Option ManifestFlag) =>
        x.1.editable = true → (slot.elim "" fun e => e.value.getD "") = x.2)
      (flags.zip values) (bakeSlots flags values) := by
  have hkept : ∀ (tf : TemplateFlag) v vs, tf.editable = true →
      ((some (bakeFlag tf (v :: vs))).elim "" fun e => e.value.getD "") = v := by
    intro tf v vs hedit
    simp [bakeFlag, hedit]
  have hempty : ∀ (tf : TemplateFlag) v vs, leftEmpty tf (v :: vs) = true → "" = v := by
    intro tf v vs h
    exact (of_decide_eq_true (Bool.and_eq_true_iff.mp h).2).symm
  fun_induction bakeSlots flags values with
  | case1 => exact .nil
  | case2 tf values h =>
      obtain ⟨v, rfl⟩ := List.length_eq_one_iff.mp hlen
      exact .cons (fun _ => hempty tf v [] h) .nil
  | case3 tf values h =>
      obtain ⟨v, rfl⟩ := List.length_eq_one_iff.mp hlen
      exact .cons (hkept tf v []) .nil
  | case4 tf next rest values h ih =>
      match values, hlen with
      | v :: w :: values, hlen =>
          simp only [leadsEmpty, Bool.and_eq_true, Bool.not_eq_true'] at h
          refine .cons ?_ (.cons (fun _ => (of_decide_eq_true h.2).symm) (ih ?_))
          · intro hedit
            rw [hedit] at h
            exact absurd h.1.1.2 (by decide)
          · simpa using hlen
  | case5 tf next rest values h hleft ih =>
      match values, hlen with
      | v :: values, hlen =>
          exact .cons (fun _ => hempty tf v values hleft) (ih (by simpa using hlen))
  | case6 tf next rest values h hleft ih =>
      match values, hlen with
      | v :: values, hlen => exact .cons (hkept tf v values) (ih (by simpa using hlen))

/-- Only optional positionals are dropped, where they are empty; an empty one
that was baked is required, or fixed so. -/
theorem positional_bakeSlots {flags : List TemplateFlag} {values : List String}
    (hlen : values.length = flags.length) :
    List.Forall₂ (fun (x : TemplateFlag × String) (slot : Option ManifestFlag) =>
        x.1.flag = "" → (slot = none → x.1.editable = true ∧ x.2 = "") ∧
          ∀ e, slot = some e → e.value.getD "" = "" →
            x.1.editable = true ∧ x.1.required = true ∧ x.2 = "" ∨
              x.1.editable = false ∧ x.1.value.getD "" = "")
      (flags.zip values) (bakeSlots flags values) := by
  have hdropped : ∀ (tf : TemplateFlag) v vs, leftEmpty tf (v :: vs) = true →
      tf.editable = true ∧ v = "" := by
    intro tf v vs h
    simp only [leftEmpty, optionalPositional, Bool.and_eq_true, decide_eq_true_eq] at h
    exact ⟨h.1.1.2, h.2⟩
  have hkept : ∀ (tf : TemplateFlag) v vs, ¬ leftEmpty tf (v :: vs) = true → tf.flag = "" →
      ∀ e, some (bakeFlag tf (v :: vs)) = some e → e.value.getD "" = "" →
        tf.editable = true ∧ tf.required = true ∧ v = "" ∨
          tf.editable = false ∧ tf.value.getD "" = "" := by
    rintro tf v vs hfull hpos _ ⟨⟩ hempty
    cases hedit : tf.editable with
    | false => exact .inr ⟨rfl, by simpa [bakeFlag, hedit] using hempty⟩
    | true =>
        have hv : v = "" := by simpa [bakeFlag, hedit] using hempty
        refine .inl ⟨rfl, ?_, hv⟩
        by_contra hopt
        exact hfull (by simp [leftEmpty, optionalPositional, hpos, hedit, hopt, hv])
  fun_induction bakeSlots flags values with
  | case1 => exact .nil
  | case2 tf values h =>
      obtain ⟨v, rfl⟩ := List.length_eq_one_iff.mp hlen
      exact .cons (fun _ => ⟨fun _ => hdropped tf v [] h, fun e he => nomatch he⟩) .nil
  | case3 tf values h =>
      obtain ⟨v, rfl⟩ := List.length_eq_one_iff.mp hlen
      exact .cons (fun hpos => ⟨fun he => (nomatch he), hkept tf v [] h hpos⟩) .nil
  | case4 tf next rest values h ih =>
      obtain ⟨v, values, rfl⟩ := List.exists_cons_of_length_eq_add_one hlen
      obtain ⟨w, values, rfl⟩ := List.exists_cons_of_length_eq_add_one (Nat.succ.inj hlen)
      simp only [leadsEmpty, optionalPositional, Bool.and_eq_true, decide_eq_true_eq] at h
      refine .cons (fun hpos => absurd hpos h.1.1.1.1) (.cons ?_ (ih (by simpa using hlen)))
      exact fun _ => ⟨fun _ => ⟨h.1.2.1.2, h.2⟩, fun e he => nomatch he⟩
  | case5 tf next rest values h hleft ih =>
      obtain ⟨v, values, rfl⟩ := List.exists_cons_of_length_eq_add_one hlen
      exact .cons (fun _ => ⟨fun _ => hdropped tf v values hleft, fun e he => nomatch he⟩)
        (ih (by simpa using hlen))
  | case6 tf next rest values h hleft ih =>
      obtain ⟨v, values, rfl⟩ := List.exists_cons_of_length_eq_add_one hlen
      exact .cons (fun hpos => ⟨fun he => (nomatch he), hkept tf v values hleft hpos⟩)
        (ih (by simpa using hlen))

end TemplateManager

/-! ## When the walk finds every entry's slot -/

namespace AppBridge

theorem walk_nil (tflags : List TemplateFlag) :
    walk tflags [] = (tflags.map fun _ => none, []) := by
  induction tflags with
  | nil => rfl
  | cons tf tflags ih => simp [walk, ih]

theorem walk_match {tf : TemplateFlag} {e : ManifestFlag} (h : e.flag = tf.flag)
    (tflags : List TemplateFlag) (entries : List ManifestFlag) :
    walk (tf :: tflags) (e :: entries) =
      (some e :: (walk tflags entries).1, (walk tflags entries).2) := by
  simp [walk, h]

theorem walk_mismatch {tf : TemplateFlag} {e : ManifestFlag} (h : e.flag ≠ tf.flag)
    (tflags : List TemplateFlag) (entries : List ManifestFlag) :
    walk (tf :: tflags) (e :: entries) =
      (none :: (walk tflags (e :: entries)).1, (walk tflags (e :: entries)).2) := by
  simp [walk, h]

theorem walk_length (tflags : List TemplateFlag) (entries : List ManifestFlag) :
    (walk tflags entries).1.length = tflags.length := by
  fun_induction walk tflags entries with
  | case1 => rfl
  | _ => simp_all

theorem place_length (e : ManifestFlag) (tflags : List TemplateFlag)
    (matched : List (Option ManifestFlag)) :
    (place e tflags matched).length = matched.length := by
  fun_induction place e tflags matched <;> simp_all

/-- Placing an entry moves no other one. -/
theorem place_kept {e e' : ManifestFlag} {tflags : List TemplateFlag}
    {matched : List (Option ManifestFlag)} {i : Nat} (h : matched[i]? = some (some e)) :
    (place e' tflags matched)[i]? = some (some e) := by
  fun_induction place e' tflags matched generalizing i with
  | case1 tf tflags m matched hfree =>
      rcases i with _ | i
      · cases h
        cases hfree.1
      · exact h
  | case2 tf tflags m matched hfull ih =>
      rcases i with _ | i
      · exact h
      · exact ih h
  | case3 => exact h

/-- Salvage fills empty slots only. -/
theorem salvage_kept {tflags : List TemplateFlag} {rest : List ManifestFlag}
    {e : ManifestFlag} {i : Nat} {matched : List (Option ManifestFlag)}
    (h : matched[i]? = some (some e)) :
    (salvage tflags rest matched)[i]? = some (some e) := by
  unfold salvage
  induction rest generalizing matched with
  | nil => exact h
  | cons e' rest ih =>
      apply ih
      dsimp only
      split
      · exact h
      · exact place_kept h

theorem salvage_length (tflags : List TemplateFlag) (rest : List ManifestFlag)
    (matched : List (Option ManifestFlag)) :
    (salvage tflags rest matched).length = matched.length := by
  unfold salvage
  induction rest generalizing matched with
  | nil => rfl
  | cons e' rest ih =>
      rw [List.foldl_cons, ih]
      split
      · rfl
      · exact place_length _ _ _

theorem overlay_length (tflags : List TemplateFlag) (entries : List ManifestFlag) :
    (overlay tflags entries).length = tflags.length := by
  unfold overlay
  rw [salvage_length, walk_length]

/-- No dropped slot has the name of the next slot that was kept. -/
def NoSwallow : List TemplateFlag → List (Option ManifestFlag) → Prop
  | tf :: tflags, none :: slots =>
      slots.reduceOption.head?.map (·.flag) ≠ some tf.flag ∧ NoSwallow tflags slots
  | _ :: tflags, some _ :: slots => NoSwallow tflags slots
  | _, _ => True

instance decidableNoSwallow : ∀ (tflags : List TemplateFlag)
    (slots : List (Option ManifestFlag)), Decidable (NoSwallow tflags slots)
  | _ :: tflags, none :: slots =>
      have := decidableNoSwallow tflags slots
      inferInstanceAs (Decidable (_ ∧ _))
  | _ :: tflags, some _ :: slots => decidableNoSwallow tflags slots
  | [], _ => .isTrue trivial
  | _ :: _, [] => .isTrue trivial

/-- Every entry is named like the flag of its slot. -/
abbrev Named (tflags : List TemplateFlag) (slots : List (Option ManifestFlag)) : Prop :=
  List.Forall₂ (fun tf slot => ∀ e, slot = some e → e.flag = tf.flag) tflags slots

/-- Where no slot is swallowed, the walk gives every slot its own entry. -/
theorem walk_of_noSwallow {tflags : List TemplateFlag} {slots : List (Option ManifestFlag)}
    (hnamed : Named tflags slots) (h : NoSwallow tflags slots) :
    walk tflags slots.reduceOption = (slots, []) := by
  induction hnamed with
  | nil => rfl
  | @cons tf slot tflags slots hslot _ ih =>
      rcases slot with _ | e
      · obtain ⟨hnext, h⟩ := h
        rw [List.reduceOption_cons_of_none]
        rcases hentries : slots.reduceOption with _ | ⟨e, entries⟩
        · rw [hentries, walk_nil] at ih
          rw [walk_nil, List.map_cons]
          obtain ⟨hslots, -⟩ := Prod.mk.inj (ih h)
          rw [hslots]
        · rw [hentries] at hnext ih
          have hne : e.flag ≠ tf.flag := fun heq => hnext (congrArg some heq)
          rw [walk_mismatch hne, ih h]
      · rw [List.reduceOption_cons_of_some, walk_match (hslot e rfl), ih h]

/-- Where a slot would be swallowed, the walk puts an entry into a dropped
slot whose flag has the entry's name. -/
theorem walk_swallows {tflags : List TemplateFlag} {slots : List (Option ManifestFlag)}
    (hnamed : Named tflags slots) (h : ¬ NoSwallow tflags slots) :
    ∃ (i : Nat) (tf : TemplateFlag) (e : ManifestFlag), tflags[i]? = some tf ∧
      slots[i]? = some none ∧ some e ∈ slots ∧ e.flag = tf.flag ∧
      (walk tflags slots.reduceOption).1[i]? = some (some e) := by
  induction hnamed with
  | nil => exact absurd trivial h
  | @cons tf slot tflags slots hslot _ ih =>
      rcases slot with _ | e
      · rw [List.reduceOption_cons_of_none]
        rcases hentries : slots.reduceOption with _ | ⟨e, entries⟩
        · rw [hentries] at ih
          have hrest : ¬ NoSwallow tflags slots := by
            intro hrest
            refine h ⟨?_, hrest⟩
            rw [hentries]
            exact nofun
          obtain ⟨i, tf, e, -, -, -, -, he⟩ := ih hrest
          rw [walk_nil, List.getElem?_map] at he
          obtain ⟨_, -, he⟩ := Option.map_eq_some_iff.mp he
          cases he
        · by_cases hname : e.flag = tf.flag
          · rw [walk_match hname]
            have he : some e ∈ slots := by
              rw [← List.reduceOption_mem_iff, hentries]
              exact List.mem_cons_self
            exact ⟨0, tf, e, rfl, rfl, List.mem_cons_of_mem _ he, hname, rfl⟩
          · rw [hentries] at ih
            have hrest : ¬ NoSwallow tflags slots := by
              intro hrest
              refine h ⟨?_, hrest⟩
              rw [hentries]
              exact fun heq => hname (Option.some.inj heq)
            obtain ⟨i, tf', e', htf, hi, hmem, heq, he⟩ := ih hrest
            rw [walk_mismatch hname]
            exact ⟨i + 1, tf', e', htf, hi, List.mem_cons_of_mem _ hmem, heq, he⟩
      · rw [List.reduceOption_cons_of_some, walk_match (hslot e rfl)]
        obtain ⟨i, tf', e', htf, hi, hmem, heq, he⟩ := ih h
        exact ⟨i + 1, tf', e', htf, hi, List.mem_cons_of_mem _ hmem, heq, he⟩

/-- **The overlay finds every entry's slot** exactly where no dropped slot has
the name of the next kept one. -/
theorem overlay_eq_iff {tflags : List TemplateFlag} {slots : List (Option ManifestFlag)}
    (hnamed : Named tflags slots) :
    overlay tflags slots.reduceOption = slots ↔ NoSwallow tflags slots := by
  constructor
  · intro heq
    by_contra h
    obtain ⟨i, -, e, -, hi, -, -, he⟩ := walk_swallows hnamed h
    have hkept : (overlay tflags slots.reduceOption)[i]? = some (some e) := salvage_kept he
    rw [heq, hi] at hkept
    cases hkept
  · intro h
    unfold overlay
    rw [walk_of_noSwallow hnamed h]
    rfl

/-! ## What the editor shows -/

/-- Every editable field shows the value submitted for its flag. -/
def PrefillsShow (tmpls : List JobTemplate) (tmpl : JobTemplate) (values : List String)
    (manifest : JobManifest) : Prop :=
  ∀ (i : Nat) (tf : TemplateFlag) (v : String), tmpl.flags[i]? = some tf →
    tf.editable = true → values[i]? = some v →
    (finishOpenJobEditor id tmpls manifest)[i]?.map (fun f => f.value) = some v

/-- A template and values for which a misplaced entry can be told: switches
have names of their own, and no positional that is baked is empty. -/
structure Distinguishable (flags : List TemplateFlag) (values : List String) : Prop where
  names : flags.Pairwise fun tf tf' => tf.flag = tf'.flag → tf.flag = ""
  required : ∀ x ∈ flags.zip values, x.1.editable = true → x.1.required = true → x.2 ≠ ""
  fixed : ∀ tf ∈ flags, tf.flag = "" → tf.editable = false → tf.value.getD "" ≠ ""

/-- Then two flags of one name are positionals. -/
theorem Distinguishable.positional {flags : List TemplateFlag} {values : List String}
    (h : Distinguishable flags values) {i j : Nat} {tf tf' : TemplateFlag}
    (hi : flags[i]? = some tf) (hj : flags[j]? = some tf') (hij : i ≠ j)
    (hsame : tf.flag = tf'.flag) : tf.flag = "" := by
  obtain ⟨hi, rfl⟩ := List.getElem?_eq_some_iff.mp hi
  obtain ⟨hj, rfl⟩ := List.getElem?_eq_some_iff.mp hj
  have hnames := List.pairwise_iff_getElem.mp h.names
  rcases Nat.lt_or_gt_of_ne hij with hlt | hgt
  · exact hnames i j _ _ hlt hsame
  · rw [hsame]
    exact hnames j i _ _ hgt hsame.symm

/-- A field shows the entry that the overlay gave its slot. -/
theorem field_eq {tmpls : List JobTemplate} {tmpl : JobTemplate} {manifest : JobManifest}
    (hfound : tmpls.find? (·.templateId = manifest.templateId) = some tmpl)
    (hvalid : tmpl.valid = true) {i : Nat} {tf : TemplateFlag} {m : Option ManifestFlag}
    (htf : tmpl.flags[i]? = some tf) (hm : (overlay tmpl.flags manifest.flags)[i]? = some m) :
    (finishOpenJobEditor id tmpls manifest)[i]?.map (fun f => f.value) =
      some (m.elim "" fun e => e.value.getD "") := by
  have hzip : (tmpl.flags.zip (overlay tmpl.flags manifest.flags))[i]? = some (tf, m) :=
    List.getElem?_zip_eq_some.mpr ⟨htf, hm⟩
  unfold finishOpenJobEditor
  rw [hfound]
  simp only [hvalid, if_true]
  rw [List.getElem?_map, hzip]
  cases m <;> rfl

/-- Fields over their own slots show what was submitted. -/
theorem prefillsShow_of_overlay {tmpls : List JobTemplate} {tmpl : JobTemplate}
    {values : List String} {manifest : JobManifest}
    (hfound : tmpls.find? (·.templateId = manifest.templateId) = some tmpl)
    (hvalid : tmpl.valid = true) (hlen : values.length = tmpl.flags.length)
    (h : overlay tmpl.flags manifest.flags = TemplateManager.bakeSlots tmpl.flags values) :
    PrefillsShow tmpls tmpl values manifest := by
  intro i tf v htf hedit hv
  have hi : i < (TemplateManager.bakeSlots tmpl.flags values).length := by
    rw [← h, overlay_length]
    exact (List.getElem?_eq_some_iff.mp htf).1
  have hslot := List.getElem?_eq_getElem hi
  have hover : (overlay tmpl.flags manifest.flags)[i]? =
      some (TemplateManager.bakeSlots tmpl.flags values)[i] := by rw [h, hslot]
  obtain ⟨tf', v', htf', hv', hvalue⟩ :=
    TemplateManager.slot_at (TemplateManager.value_bakeSlots hlen) hslot
  obtain rfl := Option.some.inj (htf.symm.trans htf')
  obtain rfl := Option.some.inj (hv.symm.trans hv')
  rw [field_eq hfound hvalid htf hover]
  exact congrArg some (hvalue hedit)

/-- Where the fields show what was submitted, no slot is swallowed. -/
theorem noSwallow_of_prefillsShow {tmpls : List JobTemplate} {tmpl : JobTemplate}
    {values : List String} {manifest : JobManifest}
    (hfound : tmpls.find? (·.templateId = manifest.templateId) = some tmpl)
    (hvalid : tmpl.valid = true) (hlen : values.length = tmpl.flags.length)
    (hbaked : manifest.flags = TemplateManager.bakeFlags tmpl.flags values)
    (hdist : Distinguishable tmpl.flags values)
    (h : PrefillsShow tmpls tmpl values manifest) :
    NoSwallow tmpl.flags (TemplateManager.bakeSlots tmpl.flags values) := by
  by_contra hswallow
  obtain ⟨i, tf, e, htf, hdropped, hkept, hname, he⟩ :=
    walk_swallows (TemplateManager.named_bakeSlots tmpl.flags values) hswallow
  rw [TemplateManager.reduceOption_bakeSlots, ← hbaked] at he
  obtain ⟨j, hj⟩ := List.mem_iff_getElem?.mp hkept
  have hij : i ≠ j := by
    rintro rfl
    rw [hdropped] at hj
    cases hj
  have hslots := TemplateManager.positional_bakeSlots hlen
  obtain ⟨_, v, htfi, hv, hown⟩ := TemplateManager.slot_at hslots hdropped
  obtain rfl := Option.some.inj (htf.symm.trans htfi)
  obtain ⟨tf', v', htf', hv', hfrom⟩ := TemplateManager.slot_at hslots hj
  have hname' : e.flag = tf'.flag := by
    obtain ⟨hj', htfj⟩ := List.getElem?_eq_some_iff.mp htf'
    obtain ⟨hj'', hej⟩ := List.getElem?_eq_some_iff.mp hj
    have hnamed := (TemplateManager.named_bakeSlots tmpl.flags values).get hj' hj''
    rw [List.get_eq_getElem, List.get_eq_getElem, htfj, hej] at hnamed
    exact hnamed e rfl
  have hsame : tf.flag = tf'.flag := hname.symm.trans hname'
  have hpos : tf.flag = "" := hdist.positional htf htf' hij hsame
  -- the dropped field was submitted empty, and shows the entry
  obtain ⟨hedit, hempty⟩ := (hown hpos).1 rfl
  have hshown := h i tf v htf hedit hv
  rw [field_eq hfound hvalid htf (salvage_kept he)] at hshown
  rcases (hfrom (hsame ▸ hpos)).2 e rfl ((Option.some.inj hshown).trans hempty) with
    ⟨hedit', hreq, hv'e⟩ | ⟨hfixed, hnone⟩
  · have hmem : (tf', v') ∈ tmpl.flags.zip values :=
      List.mem_of_getElem? (List.getElem?_zip_eq_some.mpr ⟨htf', hv'⟩)
    exact hdist.required _ hmem hedit' hreq hv'e
  · exact hdist.fixed tf' (List.mem_of_getElem? htf') (hsame ▸ hpos) hfixed hnone

end AppBridge

/-- **Editing shows what was submitted** where no slot that baking drops has the
name of the next slot it keeps. Where a misplaced entry can be told, it does so
nowhere else. -/
theorem editing_shows {tmpls : List JobTemplate} {tmpl : JobTemplate}
    {values : List String} (osTag cmdForMyOS jobSlug : String)
    (frameStart frameEnd chunkSize maxRetries : Int) (timeout : Option Int)
    (nodeId os : String) (nowMs : Int)
    (hfound : tmpls.find? (·.templateId = tmpl.templateId) = some tmpl)
    (hvalid : tmpl.valid = true) (hlen : values.length = tmpl.flags.length) :
    let manifest := TemplateManager.bakeManifestStatic osTag tmpl values cmdForMyOS jobSlug
      frameStart frameEnd chunkSize maxRetries timeout nodeId os nowMs
    let noSwallow := AppBridge.NoSwallow tmpl.flags (TemplateManager.bakeSlots tmpl.flags values)
    (noSwallow → AppBridge.PrefillsShow tmpls tmpl values manifest) ∧
      (AppBridge.Distinguishable tmpl.flags values →
        AppBridge.PrefillsShow tmpls tmpl values manifest → noSwallow) := by
  intro manifest noSwallow
  constructor
  · intro h
    refine AppBridge.prefillsShow_of_overlay hfound hvalid hlen ?_
    have hover := (AppBridge.overlay_eq_iff
      (TemplateManager.named_bakeSlots tmpl.flags values)).mpr h
    rwa [TemplateManager.reduceOption_bakeSlots] at hover
  · exact fun hdist h => AppBridge.noSwallow_of_prefillsShow hfound hvalid hlen rfl hdist h

/-- A template with an optional width and height after their switch. -/
def resolutionTemplate : JobTemplate where
  templateId := "cinema4d-2026"
  name := "Cinema 4D 2026"
  cmd := { osLinux := "/opt/maxon/Commandline" }
  flags := [
    { flag := "-render" },
    { flag := "", value := some "", id := "scene_file", editable := true, required := true },
    { flag := "-oresolution" },
    { flag := "", value := some "", id := "res_width", editable := true },
    { flag := "", value := some "", id := "res_height", editable := true }]
  valid := true

/-- With both sizes given the editor shows them. -/
theorem editing_shows_resolution : AppBridge.PrefillsShow [resolutionTemplate]
    resolutionTemplate ["", "a.c4d", "", "1920", "1080"]
    (TemplateManager.bakeManifestStatic "linux" resolutionTemplate
      ["", "a.c4d", "", "1920", "1080"] "/opt/maxon/Commandline" "shot" 1 90 10 3 none "n1"
      "linux" 0) :=
  (editing_shows "linux" "/opt/maxon/Commandline" "shot" 1 90 10 3 none "n1" "linux" 0
    (by decide) rfl rfl).1 (by decide)

/-- With the width left empty the height is shown as the width. -/
theorem height_shown_as_width : ¬ AppBridge.PrefillsShow [resolutionTemplate]
    resolutionTemplate ["", "a.c4d", "", "", "1080"]
    (TemplateManager.bakeManifestStatic "linux" resolutionTemplate
      ["", "a.c4d", "", "", "1080"] "/opt/maxon/Commandline" "shot" 1 90 10 3 none "n1"
      "linux" 0) := by
  intro h
  have hwidth := h 3 { flag := "", value := some "", id := "res_width", editable := true } ""
    rfl rfl rfl
  revert hwidth
  decide

end MinRender
