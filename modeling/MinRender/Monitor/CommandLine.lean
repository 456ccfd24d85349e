import MinRender.Framework.Substitution
import MinRender.Monitor.TaskFormat
import MinRender.Ui.JobEditor

/-!
# The command line a template means

From a template's flags and what was submitted for them to the arguments the
agent gets: the manifest is baked from the flags, and the task written from the
manifest. Beside it stands the meaning the template guide gives, flag by flag.
The runtime tokens are replaced one after the other, each loop searching what
the one before has written; a frame number has no character of a token, so the
loops still come to one pass.
-/

namespace MinRender.CommandLine
open TaskFormat TemplateManager Substitution

/-! ## The documented meaning -/

/-- The runtime tokens of the template guide. -/
def runtimeTokens (chunk : ChunkRange) : List (Token Char) :=
  [⟨"\x7bframe\x7d".toList, (toString chunk.frameStart).toList⟩,
    ⟨"\x7bchunk_start\x7d".toList, (toString chunk.frameStart).toList⟩,
    ⟨"\x7bchunk_end\x7d".toList, (toString chunk.frameEnd).toList⟩]

def expandTokens (chunk : ChunkRange) (input : String) : String :=
  String.ofList (expand (runtimeTokens chunk) input.toList)

/-- A template's flag with the string submitted for it. -/
abbrev Submitted := TemplateFlag × String

/-- A non-required editable positional value that was left empty. -/
def leftOut (x : Submitted) : Bool :=
  x.1.flag = "" && x.1.editable && !x.1.required && x.2 = ""

/-- A name the user cannot edit, with no value. -/
def standalone (tf : TemplateFlag) : Bool := tf.flag ≠ "" && tf.value.isNone && !tf.editable

/-- The name of a flag and its value, where it has them. -/
def argsOf (chunk : ChunkRange) (name : String) (value : Option String) : List String :=
  (if name = "" then [] else [expandTokens chunk name]) ++ (value.map (expandTokens chunk)).toList

/-- The flags in order, without the optional positionals left empty and the
standalone flags right before them. -/
def commandLine (valueOf : Submitted → Option String) (chunk : ChunkRange) :
    List Submitted → List String
  | [] => []
  | x :: rest =>
      (if leftOut x || (standalone x.1 && rest.head?.any leftOut) then []
        else argsOf chunk x.1.flag (valueOf x)) ++ commandLine valueOf chunk rest

/-- `null` in the template is no value; otherwise an editable flag has the
submitted one. -/
def documentedValue (x : Submitted) : Option String :=
  x.1.value.map fun v => if x.1.editable then x.2 else v

def documentedArgs (chunk : ChunkRange) (xs : List Submitted) : List String :=
  commandLine documentedValue chunk xs

/-! ## One token after the other -/

/-- A number is written in digits and a sign. -/
theorem mem_toString {n : Int} {c : Char} (h : c ∈ (toString n).toList) :
    c.isDigit = true ∨ c = '-' := by
  cases n with
  | ofNat m =>
      have hdigits : c ∈ m.repr.toList := h
      rw [Nat.toList_repr] at hdigits
      exact .inl (Nat.isDigit_of_mem_toDigits (by decide) (by decide) hdigits)
  | negSucc m =>
      have hsigned : c ∈ ("-" ++ (m + 1).repr).toList := h
      rw [String.toList_append, Nat.toList_repr] at hsigned
      rcases List.mem_append.mp hsigned with hsign | hdigits
      · exact .inr (List.mem_singleton.mp hsign)
      · exact .inl (Nat.isDigit_of_mem_toDigits (by decide) (by decide) hdigits)

theorem toString_ne_nil (n : Int) : (toString n).toList ≠ [] := by
  cases n with
  | ofNat m =>
      show m.repr.toList ≠ []
      rw [Nat.toList_repr]
      exact Nat.toDigits_ne_nil
  | negSucc m =>
      show ("-" ++ (m + 1).repr).toList ≠ []
      rw [String.toList_append]
      exact List.cons_ne_nil _ _

def tokenTexts : List (List Char) :=
  ["\x7bframe\x7d".toList, "\x7bchunk_start\x7d".toList, "\x7bchunk_end\x7d".toList]

theorem mem_runtimeTokens {chunk : ChunkRange} {t : Token Char}
    (ht : t ∈ runtimeTokens chunk) :
    t.text ∈ tokenTexts ∧ ∃ n : Int, t.value = (toString n).toList := by
  simp only [runtimeTokens, List.mem_cons, List.not_mem_nil, or_false] at ht
  rcases ht with rfl | rfl | rfl
  · exact ⟨List.mem_cons_self, _, rfl⟩
  · exact ⟨List.mem_cons_of_mem _ List.mem_cons_self, _, rfl⟩
  · exact ⟨List.mem_cons_of_mem _ (List.mem_cons_of_mem _ List.mem_cons_self), _, rfl⟩

/-- No frame number has anything in common with a token. -/
theorem separate_runtimeTokens (chunk : ChunkRange) : Separate '\x7b' (runtimeTokens chunk) where
  marked := by
    intro t ht
    have hmarked : ∀ text ∈ tokenTexts,
        text = '\x7b' :: text.tail ∧ '\x7b' ∉ text.tail := by decide
    exact ⟨t.text.tail, hmarked t.text (mem_runtimeTokens ht).1⟩
  apart := by
    have htexts : tokenTexts.Pairwise fun a b => ¬ a <+: b ∧ ¬ b <+: a := by decide
    exact (List.pairwise_map (f := Token.text) (l := runtimeTokens chunk)).mp htexts
  filled := by
    intro t ht
    obtain ⟨-, n, hn⟩ := mem_runtimeTokens ht
    rw [hn]
    exact toString_ne_nil n
  foreign := by
    intro t ht u hu c hc hcu
    obtain ⟨-, n, hn⟩ := mem_runtimeTokens ht
    have hletters : tokenTexts.all (fun text => text.all fun c => !(c.isDigit || c == '-')) =
        true := by decide
    have htext := List.all_eq_true.mp hletters u.text (mem_runtimeTokens hu).1
    have hc' := List.all_eq_true.mp htext c hcu
    rw [Bool.not_eq_true', Bool.or_eq_false_iff] at hc'
    rcases mem_toString (hn ▸ hc) with hdigit | hdash
    · rw [hdigit] at hc'
      cases hc'.1
    · exact beq_eq_false_iff_ne.mp hc'.2 hdash

/-- A loop leaves what one pass for its token leaves. -/
theorem replaceAll_eq {token : String} {n : Int} (htoken : token.toList ≠ [])
    {chunk : ChunkRange} (ht : ⟨token.toList, (toString n).toList⟩ ∈ runtimeTokens chunk)
    (s : List Char) :
    replaceAll token htoken n (String.ofList s) =
      String.ofList (expand [⟨token.toList, (toString n).toList⟩] s) := by
  have hpass := replaceInPlace_eq ((separate_runtimeTokens chunk).singleton ht) htoken 0 s
  rw [List.take_zero, List.nil_append, List.drop_zero] at hpass
  unfold replaceAll
  rw [String.toList_ofList, hpass]

/-- **The tokens are replaced as if in one pass.** -/
theorem substituteTokens_eq (input : String) (chunk : ChunkRange) :
    substituteTokens input chunk = expandTokens chunk input := by
  have hfold := foldl_expand (separate_runtimeTokens chunk) input.toList
  have hframe : ⟨"\x7bframe\x7d".toList, (toString chunk.frameStart).toList⟩ ∈
      runtimeTokens chunk := List.mem_cons_self
  have hstart : ⟨"\x7bchunk_start\x7d".toList, (toString chunk.frameStart).toList⟩ ∈
      runtimeTokens chunk := List.mem_cons_of_mem _ List.mem_cons_self
  have hend : ⟨"\x7bchunk_end\x7d".toList, (toString chunk.frameEnd).toList⟩ ∈
      runtimeTokens chunk := List.mem_cons_of_mem _ (List.mem_cons_of_mem _ List.mem_cons_self)
  have hfirst := replaceAll_eq (by decide) hframe input.toList
  rw [String.ofList_toList] at hfirst
  unfold substituteTokens expandTokens
  dsimp only
  rw [← hfold, hfirst, replaceAll_eq _ hstart, replaceAll_eq _ hend]
  rfl

/-! ## No token is left, none arises -/

section

variable {chunk : ChunkRange} {t u : Token Char}

theorem no_token_left (ht : t ∈ runtimeTokens chunk) (input : String) :
    ¬ t.text <:+: (substituteTokens input chunk).toList := by
  rw [substituteTokens_eq]
  unfold expandTokens
  rw [String.toList_ofList]
  exact notInfix_expand (separate_runtimeTokens chunk) ht input.toList

/-- Whatever a number is written between, a token lies before it or behind it. -/
theorem number_aside (ht : t ∈ runtimeTokens chunk) (hu : u ∈ runtimeTokens chunk)
    {before after p q : List Char} (heq : before ++ t.value ++ after = p ++ u.text ++ q) :
    p.length + u.text.length ≤ before.length ∨ before.length + t.value.length ≤ p.length := by
  have hseparate := separate_runtimeTokens chunk
  exact aside_of_foreign (hseparate.text_ne_nil hu) (hseparate.filled t ht)
    (hseparate.foreign t ht u hu) heq

/-- **The tokens are replaced at once**: the loops end with the one-pass
reading of the input, no token is left in it, and no number they write becomes
part of a token, whatever stands around it. -/
theorem substituteTokens_simultaneous (input : String) (chunk : ChunkRange) :
    substituteTokens input chunk = expandTokens chunk input ∧
      (∀ t ∈ runtimeTokens chunk, ¬ t.text <:+: (substituteTokens input chunk).toList) ∧
      ∀ t ∈ runtimeTokens chunk, ∀ u ∈ runtimeTokens chunk, ∀ before after p q : List Char,
        before ++ t.value ++ after = p ++ u.text ++ q →
          p.length + u.text.length ≤ before.length ∨
            before.length + t.value.length ≤ p.length := by
  refine ⟨substituteTokens_eq input chunk, ?_, ?_⟩
  · intro t ht
    exact no_token_left ht input
  · intro t ht u hu before after p q heq
    exact number_aside ht hu heq

end

/-! ## What the code sends -/

/-- An editable flag has the submitted value, whatever the template says. -/
def bakedValue (x : Submitted) : Option String := if x.1.editable then some x.2 else x.1.value

theorem buildArgs_cons (nodeOS : String) (f : ManifestFlag) (flags : List ManifestFlag)
    (chunk : ChunkRange) :
    buildArgs nodeOS "" (f :: flags) chunk =
      argsOf chunk f.flag f.value ++ buildArgs nodeOS "" flags chunk := by
  obtain ⟨name, value, isOutput⟩ := f
  unfold buildArgs argsOf flagValue
  rw [List.flatMap_cons]
  simp only [ne_eq, not_true_eq_false, false_and, if_false, substituteTokens_eq]
  cases value with
  | none => rfl
  | some v => rfl

theorem leftEmpty_eq (tf : TemplateFlag) (v : String) (vs : List String) :
    leftEmpty tf (v :: vs) = leftOut (tf, v) := rfl

theorem leadsEmpty_eq (tf next : TemplateFlag) (v w : String) (vs : List String) :
    leadsEmpty tf next (v :: w :: vs) = (standalone tf && leftOut (next, w)) := by
  unfold leadsEmpty standalone leftOut optionalPositional
  simp only [List.tail_cons, List.headD_cons, Bool.and_assoc]
  rfl

/-- Looking ahead and skipping two is leaving out each by itself. -/
theorem buildArgs_bakeFlags (nodeOS : String) (chunk : ChunkRange) (flags : List TemplateFlag)
    (values : List String) (hlen : values.length = flags.length) :
    buildArgs nodeOS "" (bakeFlags flags values) chunk =
      commandLine bakedValue chunk (flags.zip values) := by
  have hbaked : ∀ (tf : TemplateFlag) v vs, (bakeFlag tf (v :: vs)).value = bakedValue (tf, v) := by
    intro tf v vs
    unfold bakeFlag bakedValue
    cases tf.editable <;> rfl
  induction hn : flags.length using Nat.strong_induction_on generalizing flags values with
  | _ n ih =>
  match flags, values with
  | [], _ => rfl
  | [tf], [v] =>
      rw [bakeFlags_singleton, leftEmpty_eq, List.zip_cons_cons, List.zip_nil_left, commandLine,
        List.head?_nil, Option.any_none, Bool.and_false, Bool.or_false]
      split
      · rfl
      · rw [buildArgs_cons, hbaked]
        rfl
  | tf :: next :: rest, v :: w :: vs =>
      have hrest := ih (next :: rest).length (by rw [← hn]; exact Nat.lt_succ_self _)
        (next :: rest) (w :: vs) (Nat.succ.inj hlen) rfl
      rw [bakeFlags_cons_cons, leftEmpty_eq, leadsEmpty_eq]
      show buildArgs nodeOS "" (if (standalone tf && leftOut (next, w)) = true then
          bakeFlags rest vs
        else if leftOut (tf, v) = true then bakeFlags (next :: rest) (w :: vs)
        else bakeFlag tf (v :: w :: vs) :: bakeFlags (next :: rest) (w :: vs)) chunk =
          (if (leftOut (tf, v) || (standalone tf && leftOut (next, w))) = true then []
            else argsOf chunk tf.flag (bakedValue (tf, v))) ++
            commandLine bakedValue chunk ((next :: rest).zip (w :: vs))
      by_cases hleads : (standalone tf && leftOut (next, w)) = true
      · have hskip := ih rest.length (by rw [← hn, List.length_cons, List.length_cons]; omega)
          rest vs (Nat.succ.inj (Nat.succ.inj hlen)) rfl
        rw [if_pos hleads, hleads, Bool.or_true, if_pos rfl, List.nil_append, List.zip_cons_cons,
          commandLine, (Bool.and_eq_true_iff.mp hleads).2, Bool.true_or, if_pos rfl,
          List.nil_append]
        exact hskip
      · rw [if_neg hleads, Bool.eq_false_iff.mpr hleads, Bool.or_false]
        by_cases hleft : leftOut (tf, v) = true
        · rw [if_pos hleft, if_pos hleft, List.nil_append]
          exact hrest
        · rw [if_neg hleft, if_neg hleft, buildArgs_cons, hbaked, hrest]
          rfl

/-! ## Where the two differ -/

/-- An editable flag the template gives no value, and which is not left out. -/
def unexpected (x : Submitted) : Bool := x.1.editable && x.1.value.isNone && !leftOut x

variable {chunk : ChunkRange} {x : Submitted} {xs : List Submitted}

theorem unexpected_eq_false_iff :
    unexpected x = false ↔ (x.1.editable = true → x.1.value = none → leftOut x = true) := by
  unfold unexpected
  cases x.1.editable <;> cases x.1.value <;> cases leftOut x <;> simp

theorem bakedValue_eq (hleft : leftOut x = false) (h : unexpected x = false) :
    bakedValue x = documentedValue x := by
  have hvalue := unexpected_eq_false_iff.mp h
  unfold bakedValue documentedValue
  cases hedit : x.1.editable with
  | false => simp
  | true =>
      cases hnone : x.1.value with
      | none =>
          rw [hvalue hedit hnone] at hleft
          cases hleft
      | some v => rfl

/-- Where a value is unexpected, the documented one is none. -/
theorem unexpected_value (h : unexpected x = true) :
    (bakedValue x).isSome = true ∧ documentedValue x = none := by
  unfold unexpected at h
  rw [Bool.and_eq_true, Bool.and_eq_true] at h
  obtain ⟨⟨hedit, hnone⟩, -⟩ := h
  unfold bakedValue documentedValue
  rw [hedit, Option.isNone_iff_eq_none.mp hnone]
  exact ⟨rfl, rfl⟩

theorem dropped_unexpected {b : Bool} (h : (leftOut x || (standalone x.1 && b)) = true) :
    unexpected x = false := by
  rw [unexpected_eq_false_iff]
  intro hedit hnone
  rcases Bool.or_eq_true_iff.mp h with hleft | hlead
  · exact hleft
  · have halone := (Bool.and_eq_true_iff.mp hlead).1
    unfold standalone at halone
    rw [hedit] at halone
    simp at halone

/-- Every unexpected value is one argument more. -/
theorem length_commandLine (chunk : ChunkRange) (xs : List Submitted) :
    (commandLine bakedValue chunk xs).length =
      (documentedArgs chunk xs).length + xs.countP unexpected := by
  unfold documentedArgs
  induction xs with
  | nil => rfl
  | cons x xs ih =>
      rw [commandLine, commandLine, List.length_append, List.length_append, ih,
        List.countP_cons]
      by_cases hdrop : (leftOut x || (standalone x.1 && xs.head?.any leftOut)) = true
      · rw [if_pos hdrop, if_pos hdrop, dropped_unexpected hdrop,
          if_neg Bool.false_ne_true, Nat.add_zero, Nat.add_assoc]
      · rw [if_neg hdrop, if_neg hdrop]
        have hleft : leftOut x = false := by
          cases hleft : leftOut x with
          | false => rfl
          | true => exact absurd (by rw [hleft, Bool.true_or]) hdrop
        cases hunexp : unexpected x with
        | false =>
            rw [bakedValue_eq hleft hunexp, if_neg Bool.false_ne_true, Nat.add_zero,
              Nat.add_assoc]
        | true =>
            obtain ⟨hsome, hnone⟩ := unexpected_value hunexp
            obtain ⟨v, hv⟩ := Option.isSome_iff_exists.mp hsome
            unfold argsOf
            rw [hv, hnone, if_pos rfl, List.length_append, List.length_append]
            simp only [Option.map_some, Option.map_none, Option.toList_some, Option.toList_none,
              List.length_singleton, List.length_nil]
            omega

theorem commandLine_eq (h : ∀ x ∈ xs, unexpected x = false) :
    commandLine bakedValue chunk xs = documentedArgs chunk xs := by
  unfold documentedArgs
  induction xs with
  | nil => rfl
  | cons x xs ih =>
      rw [commandLine, commandLine, ih fun y hy => h y (List.mem_cons_of_mem _ hy)]
      congr 1
      split
      · rfl
      · rename_i hdrop
        have hleft : leftOut x = false := by
          cases hleft : leftOut x with
          | false => rfl
          | true => exact absurd (by rw [hleft, Bool.true_or]) hdrop
        rw [bakedValue_eq hleft (h x List.mem_cons_self)]

theorem commandLine_eq_iff (chunk : ChunkRange) (xs : List Submitted) :
    commandLine bakedValue chunk xs = documentedArgs chunk xs ↔
      ∀ x ∈ xs, unexpected x = false := by
  constructor
  · intro heq x hx
    have hlen := length_commandLine chunk xs
    rw [heq] at hlen
    have hnone : xs.countP unexpected = 0 := by omega
    exact Bool.eq_false_iff.mpr (List.countP_eq_zero.mp hnone x hx)
  · exact commandLine_eq

/-! ## The task message -/

/-- The arguments in a task message. -/
def sentArgs (task : Json) : Option Json := (task.find? "command").bind (·.find? "args")

/-- A list of strings on the wire. -/
def stringArray (args : List String) : Json := .arr (args.map .str)

theorem stringArray_inj {as bs : List String} : stringArray as = stringArray bs ↔ as = bs := by
  unfold stringArray
  rw [Json.arr.injEq]
  exact List.map_inj_right fun a b h => Json.str.inj h

theorem sentArgs_buildTaskJson (nodeOS stagingDir : String) (m : JobManifest)
    (chunk : ChunkRange) :
    sentArgs (buildTaskJson nodeOS stagingDir m chunk) =
      some (stringArray (buildArgs nodeOS stagingDir m.flags chunk)) := rfl

/-- **The agent gets the documented command line exactly where the template
gives every editable flag a value**, the optional positionals left empty apart:
any other editable flag is followed by what was submitted for it, though the
template says it has no value. -/
theorem sentArgs_documented_iff (osTag : String) (tmpl : JobTemplate) (flagValues : List String)
    (cmdForMyOS jobSlug : String) (frameStart frameEnd chunkSize maxRetries : Int)
    (timeout : Option Int) (nodeId os : String) (nowMs : Int) (nodeOS : String)
    (chunk : ChunkRange) (hlen : flagValues.length = tmpl.flags.length) :
    sentArgs (buildTaskJson nodeOS "" (bakeManifestStatic osTag tmpl flagValues cmdForMyOS jobSlug
        frameStart frameEnd chunkSize maxRetries timeout nodeId os nowMs) chunk) =
      some (stringArray (documentedArgs chunk (tmpl.flags.zip flagValues))) ↔
    ∀ x ∈ tmpl.flags.zip flagValues,
      x.1.editable = true → x.1.value = none → leftOut x = true := by
  rw [sentArgs_buildTaskJson, Option.some.injEq, stringArray_inj]
  have hsent := buildArgs_bakeFlags nodeOS chunk tmpl.flags flagValues hlen
  have hiff := commandLine_eq_iff chunk (tmpl.flags.zip flagValues)
  rw [← hsent] at hiff
  refine hiff.trans (forall₂_congr fun x _ => unexpected_eq_false_iff)

/-- A switch the user may edit, without a value in the template. -/
def switchTemplate : JobTemplate :=
  { templateId := "t", name := "T", flags := [{ flag := "-x", value := none, editable := true }] }

/-- A file in a positional, and an optional positional after its name. -/
def sceneTemplate : JobTemplate :=
  { templateId := "t", name := "T",
    flags := [{ value := some "", editable := true, required := true },
      { flag := "-take" }, { value := some "", editable := true },
      { flag := "-f", value := some "\x7bframe\x7d" }] }

theorem sentArgs_scene :
    sentArgs (buildTaskJson "linux" "" (bakeManifestStatic "lin" sceneTemplate
        ["a.c4d", "", "", "\x7bframe\x7d"] "/usr/bin/c4d" "shot" 1 10 10 3 none "n1" "linux" 0)
        ⟨1, 10⟩) =
      some (stringArray (documentedArgs ⟨1, 10⟩
        (sceneTemplate.flags.zip ["a.c4d", "", "", "\x7bframe\x7d"]))) ↔
    ∀ x ∈ sceneTemplate.flags.zip ["a.c4d", "", "", "\x7bframe\x7d"],
      x.1.editable = true → x.1.value = none → leftOut x = true :=
  sentArgs_documented_iff "lin" sceneTemplate ["a.c4d", "", "", "\x7bframe\x7d"] "/usr/bin/c4d"
    "shot" 1 10 10 3 none "n1" "linux" 0 "linux" ⟨1, 10⟩ rfl

/-- **An empty argument is sent**: it follows the switch. -/
theorem switch_gets_an_argument :
    ¬ ∀ (osTag : String) (tmpl : JobTemplate) (flagValues : List String)
        (cmdForMyOS jobSlug : String) (frameStart frameEnd chunkSize maxRetries : Int)
        (timeout : Option Int) (nodeId os : String) (nowMs : Int) (nodeOS : String)
        (chunk : ChunkRange), flagValues.length = tmpl.flags.length →
      sentArgs (buildTaskJson nodeOS "" (bakeManifestStatic osTag tmpl flagValues cmdForMyOS
          jobSlug frameStart frameEnd chunkSize maxRetries timeout nodeId os nowMs) chunk) =
        some (stringArray (documentedArgs chunk (tmpl.flags.zip flagValues))) := by
  intro h
  have hsent := h "lin" switchTemplate [""] "/usr/bin/dcc" "shot" 1 10 10 3 none "n1" "linux" 0
    "linux" ⟨1, 10⟩ rfl
  rw [sentArgs_buildTaskJson, Option.some.injEq, stringArray_inj] at hsent
  have hargs : buildArgs "linux" "" (bakeFlags switchTemplate.flags [""]) ⟨1, 10⟩ =
      ["-x", ""] := by decide +kernel
  have hdoc : documentedArgs ⟨1, 10⟩ (switchTemplate.flags.zip [""]) = ["-x"] := by decide
  rw [hdoc] at hsent
  exact absurd (hargs.symm.trans hsent) (by decide)

end MinRender.CommandLine
