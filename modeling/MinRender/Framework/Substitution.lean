import Mathlib.Data.List.Basic
import Mathlib.Data.List.Infix
import Mathlib.Data.List.Pairwise

/-!
# Replacing tokens in a text

A text is read from left to right, and where a token begins its value is put
in its place. With several tokens that can be done in one pass, or one token
after the other. The two agree when the tokens are told apart by a mark that
begins each of them and occurs nowhere else, and when no value has anything in
common with a token: then no replacement makes or breaks a token.
-/

namespace MinRender.Substitution

structure Token (α : Type*) where
  text : List α
  value : List α
deriving DecidableEq, Repr

/-! ## Tokens that can be told apart -/

section

variable {α : Type*}

/-- Neither token begins the other. -/
def Apart (t u : Token α) : Prop := ¬ t.text <+: u.text ∧ ¬ u.text <+: t.text

instance : Std.Symm (@Apart α) := ⟨fun _ _ h => ⟨h.2, h.1⟩⟩

/-- The mark begins each token and is nowhere else, no token begins another,
and a value has something, but nothing of a token. -/
structure Separate (mark : α) (ts : List (Token α)) : Prop where
  marked : ∀ t ∈ ts, ∃ body, t.text = mark :: body ∧ mark ∉ body
  apart : ts.Pairwise Apart
  filled : ∀ t ∈ ts, t.value ≠ []
  foreign : ∀ t ∈ ts, ∀ u ∈ ts, ∀ x ∈ t.value, x ∉ u.text

variable {mark : α} {t u : Token α} {ts : List (Token α)} {s : List α}

theorem Separate.tail (h : Separate mark (t :: ts)) : Separate mark ts where
  marked := fun u hu => h.marked u (List.mem_cons_of_mem _ hu)
  apart := (List.pairwise_cons.mp h.apart).2
  filled := fun u hu => h.filled u (List.mem_cons_of_mem _ hu)
  foreign := fun u hu v hv => h.foreign u (List.mem_cons_of_mem _ hu) v
    (List.mem_cons_of_mem _ hv)

theorem Separate.singleton (h : Separate mark ts) (ht : t ∈ ts) : Separate mark [t] where
  marked := by
    intro u hu
    rw [List.mem_singleton.mp hu]
    exact h.marked t ht
  apart := List.pairwise_singleton _ _
  filled := by
    intro u hu
    rw [List.mem_singleton.mp hu]
    exact h.filled t ht
  foreign := by
    intro u hu v hv
    rw [List.mem_singleton.mp hu, List.mem_singleton.mp hv]
    exact h.foreign t ht t ht

/-- A value has no mark. -/
theorem Separate.mark_notMem (h : Separate mark ts) (ht : t ∈ ts) : mark ∉ t.value := by
  obtain ⟨body, hbody, -⟩ := h.marked t ht
  intro hmem
  refine h.foreign t ht t ht mark hmem ?_
  rw [hbody]
  exact List.mem_cons_self

theorem Separate.text_ne_nil (h : Separate mark ts) (ht : t ∈ ts) : t.text ≠ [] := by
  obtain ⟨body, hbody, -⟩ := h.marked t ht
  rw [hbody]
  exact List.cons_ne_nil _ _

/-- Two tokens that begin one text are the same. -/
theorem Separate.eq_of_prefix (h : Separate mark ts) (ht : t ∈ ts) (hu : u ∈ ts)
    (hts : t.text <+: s) (hus : u.text <+: s) : t = u := by
  by_contra hne
  have hapart : Apart t u := h.apart.forall ht hu hne
  rcases List.prefix_or_prefix_of_prefix hts hus with htu | hut
  · exact hapart.1 htu
  · exact hapart.2 hut

/-! ## A value beside a token -/

/-- **A value never becomes part of a token**: whatever stands before and
behind it, a token lies on one side. -/
theorem aside_of_foreign {text value before after p q : List α} (htext : text ≠ [])
    (hvalue : value ≠ []) (hforeign : ∀ x ∈ value, x ∉ text)
    (heq : before ++ value ++ after = p ++ text ++ q) :
    p.length + text.length ≤ before.length ∨ before.length + value.length ≤ p.length := by
  by_contra hover
  obtain ⟨hbefore, hafter⟩ := not_or.mp hover
  have htextPos := List.length_pos_of_ne_nil htext
  have hvaluePos := List.length_pos_of_ne_nil hvalue
  -- the first place that both cover
  have hvalueAt : max p.length before.length - before.length < value.length := by omega
  have htextAt : max p.length before.length - p.length < text.length := by omega
  have hfromValue : (before ++ value ++ after)[max p.length before.length]? =
      some value[max p.length before.length - before.length] := by
    rw [List.append_assoc, List.getElem?_append_right (Nat.le_max_right _ _),
      List.getElem?_append_left hvalueAt, List.getElem?_eq_getElem]
  have hfromText : (p ++ text ++ q)[max p.length before.length]? =
      some text[max p.length before.length - p.length] := by
    rw [List.append_assoc, List.getElem?_append_right (Nat.le_max_left _ _),
      List.getElem?_append_left htextAt, List.getElem?_eq_getElem]
  rw [heq, hfromText] at hfromValue
  refine hforeign _ (List.getElem_mem hvalueAt) ?_
  rw [← Option.some.inj hfromValue]
  exact List.getElem_mem htextAt

theorem infix_of_append {text value r : List α} (htext : text ≠ []) (hvalue : value ≠ [])
    (hforeign : ∀ x ∈ value, x ∉ text) (h : text <:+: value ++ r) : text <:+: r := by
  obtain ⟨p, q, heq⟩ := h
  have hpos := List.length_pos_of_ne_nil htext
  have hside : p.length + text.length ≤ 0 ∨ 0 + value.length ≤ p.length := by
    have hshape : [] ++ value ++ r = p ++ text ++ q := heq.symm
    exact aside_of_foreign htext hvalue hforeign hshape
  have hle : value.length ≤ p.length := by omega
  refine ⟨p.drop value.length, q, ?_⟩
  have hdrop := congrArg (List.drop value.length) heq
  rwa [List.drop_left, List.append_assoc, List.drop_append_of_le_length hle,
    ← List.append_assoc] at hdrop

end

/-! ## One pass -/

variable {α : Type*} [DecidableEq α]

/-- One pass; `skip` counts what is left of the token just replaced. -/
def expandFrom (ts : List (Token α)) : Nat → List α → List α
  | _, [] => []
  | skip + 1, _ :: rest => expandFrom ts skip rest
  | 0, x :: rest =>
      match ts.find? fun t => t.text.isPrefixOf (x :: rest) with
      | some t => t.value ++ expandFrom ts (t.text.length - 1) rest
      | none => x :: expandFrom ts 0 rest

/-- Every token of the text by its value. -/
def expand (ts : List (Token α)) (s : List α) : List α := expandFrom ts 0 s

variable {mark x : α} {t u : Token α} {ts : List (Token α)} {s r body : List α}

theorem expandFrom_eq (k : Nat) (s : List α) : expandFrom ts k s = expand ts (s.drop k) := by
  induction k generalizing s with
  | zero => rfl
  | succ k ih =>
      cases s with
      | nil => rfl
      | cons x rest => exact ih rest

/-- Where no token begins, the text stays. -/
theorem expand_cons (h : ∀ t ∈ ts, ¬ t.text <+: x :: s) :
    expand ts (x :: s) = x :: expand ts s := by
  have hnone : (ts.find? fun t => t.text.isPrefixOf (x :: s)) = none := by
    rw [List.find?_eq_none]
    intro t ht
    rw [List.isPrefixOf_iff_prefix]
    exact h t ht
  unfold expand
  rw [expandFrom, hnone]

/-- No token begins away from the mark. -/
theorem expand_cons_of_ne (h : Separate mark ts) (hx : x ≠ mark) :
    expand ts (x :: s) = x :: expand ts s := by
  refine expand_cons fun t ht hpre => ?_
  obtain ⟨body, hbody, -⟩ := h.marked t ht
  rw [hbody, List.cons_prefix_cons] at hpre
  exact hx hpre.1.symm

theorem expand_append_of_notMem (h : Separate mark ts) (hmark : mark ∉ s) :
    expand ts (s ++ r) = s ++ expand ts r := by
  induction s with
  | nil => rfl
  | cons x s ih =>
      obtain ⟨hx, hs⟩ := not_or.mp (mt List.mem_cons.mpr hmark)
      rw [List.cons_append, expand_cons_of_ne h (Ne.symm hx), ih hs, List.cons_append]

/-- Where a token begins, its value comes instead. -/
theorem expand_token (h : Separate mark ts) (ht : t ∈ ts) :
    expand ts (t.text ++ r) = t.value ++ expand ts r := by
  obtain ⟨body, hbody, -⟩ := h.marked t ht
  have hstart : t.text ++ r = mark :: (body ++ r) := by rw [hbody, List.cons_append]
  have hfind : (ts.find? fun u => u.text.isPrefixOf (mark :: (body ++ r))) = some t := by
    cases hfound : ts.find? fun u => u.text.isPrefixOf (mark :: (body ++ r)) with
    | none =>
        have hnot := List.find?_eq_none.mp hfound t ht
        rw [List.isPrefixOf_iff_prefix, ← hstart] at hnot
        exact absurd (List.prefix_append _ _) hnot
    | some u =>
        have hpre := List.find?_some hfound
        rw [List.isPrefixOf_iff_prefix, ← hstart] at hpre
        rw [h.eq_of_prefix (List.mem_of_find?_eq_some hfound) ht hpre
          (List.prefix_append _ _)]
  have hlen : t.text.length - 1 = body.length := by rw [hbody, List.length_cons, Nat.add_sub_cancel]
  rw [hstart]
  unfold expand
  rw [expandFrom, hfind]
  dsimp only
  rw [hlen, expandFrom_eq, List.drop_left]
  rfl

/-- As long as no token begins, the text stays. -/
theorem expand_append_of_none
    (h : ∀ j < s.length, ∀ u ∈ ts, ¬ u.text <+: (s ++ r).drop j) :
    expand ts (s ++ r) = s ++ expand ts r := by
  induction s with
  | nil => rfl
  | cons x s ih =>
      have hhere : ∀ u ∈ ts, ¬ u.text <+: x :: (s ++ r) := h 0 (Nat.succ_pos _)
      rw [List.cons_append, expand_cons hhere, ih fun j hj => h (j + 1) (Nat.succ_lt_succ hj),
        List.cons_append]

/-- The rest of a token in an expanded text was there before. -/
theorem prefix_of_expand (h : Separate mark ts)
    (hforeign : ∀ t ∈ ts, ∀ x ∈ t.value, x ∉ body) (hpre : body <+: expand ts s) :
    body <+: s := by
  induction body generalizing s with
  | nil => exact List.nil_prefix
  | cons y body ih =>
      cases s with
      | nil => exact hpre
      | cons x s =>
          by_cases hbegins : ∃ t ∈ ts, t.text <+: x :: s
          · -- the text begins with the value here, and that has none of the token
            obtain ⟨t, ht, r, hr⟩ := hbegins
            obtain ⟨z, value, hvalue⟩ := List.exists_cons_of_ne_nil (h.filled t ht)
            rw [← hr, expand_token h ht, hvalue, List.cons_append, List.cons_prefix_cons] at hpre
            refine absurd ?_ (hforeign t ht z (hvalue ▸ List.mem_cons_self))
            rw [hpre.1]
            exact List.mem_cons_self
          · have hnone : ∀ t ∈ ts, ¬ t.text <+: x :: s := fun t ht htext =>
              hbegins ⟨t, ht, htext⟩
            rw [expand_cons hnone, List.cons_prefix_cons] at hpre
            rw [List.cons_prefix_cons]
            refine ⟨hpre.1, ih (fun t ht z hz hmem => ?_) hpre.2⟩
            exact hforeign t ht z hz (List.mem_cons_of_mem _ hmem)

/-! ## What is left -/

/-- **No token is left.** -/
theorem notInfix_expand (h : Separate mark ts) (hu : u ∈ ts) (s : List α) :
    ¬ u.text <:+: expand ts s := by
  induction hn : s.length using Nat.strong_induction_on generalizing s with
  | _ n ih =>
  intro hinfix
  have hune := h.text_ne_nil hu
  cases s with
  | nil => exact hune (List.infix_nil.mp hinfix)
  | cons x rest =>
      by_cases hbegins : ∃ t ∈ ts, t.text <+: x :: rest
      · obtain ⟨t, ht, r, hr⟩ := hbegins
        have htpos := List.length_pos_of_ne_nil (h.text_ne_nil ht)
        have hshorter : r.length < n := by
          rw [← hn, ← hr, List.length_append]
          omega
        rw [← hr, expand_token h ht] at hinfix
        have hforeign : ∀ y ∈ t.value, y ∉ u.text := h.foreign t ht u hu
        exact ih r.length hshorter r rfl (infix_of_append hune (h.filled t ht) hforeign hinfix)
      · have hnone : ∀ t ∈ ts, ¬ t.text <+: x :: rest := fun t ht hpre => hbegins ⟨t, ht, hpre⟩
        rw [expand_cons hnone, List.infix_cons_iff] at hinfix
        rcases hinfix with hpre | hinfix
        · obtain ⟨body, hbody, -⟩ := h.marked u hu
          rw [hbody, List.cons_prefix_cons] at hpre
          have hforeign : ∀ t ∈ ts, ∀ y ∈ t.value, y ∉ body := by
            intro t ht y hy hmem
            refine h.foreign t ht u hu y hy ?_
            rw [hbody]
            exact List.mem_cons_of_mem _ hmem
          refine hnone u hu ?_
          rw [hbody, List.cons_prefix_cons]
          exact ⟨hpre.1, prefix_of_expand h hforeign hpre.2⟩
        · exact ih rest.length (by rw [← hn]; exact Nat.lt_succ_self _) rest rfl hinfix

/-! ## In place -/

/-- The first place from `pos` on where the token begins. -/
def findFrom (token s : List α) (pos : Nat) : Option Nat :=
  (List.range' pos (s.length + 1 - pos)).find? fun i => token.isPrefixOf (s.drop i)

theorem prefix_of_findFrom {token : List α} {pos i : Nat} (h : findFrom token s pos = some i) :
    token <+: s.drop i := by
  unfold findFrom at h
  rw [List.find?_range'_eq_some] at h
  exact List.isPrefixOf_iff_prefix.mp h.1

theorem le_of_findFrom {token : List α} {pos i : Nat} (h : findFrom token s pos = some i) :
    pos ≤ i ∧ i + token.length ≤ s.length := by
  have hrange := List.mem_range'_1.mp (List.mem_of_find?_eq_some h)
  have hlen := (prefix_of_findFrom h).length_le
  rw [List.length_drop] at hlen
  omega

/-- Each occurrence is overwritten where it stands, and the search goes on
behind what was written. -/
def replaceInPlace (token value : List α) (htoken : token ≠ []) (pos : Nat) (s : List α) :
    List α :=
  match _hfound : findFrom token s pos with
  | none => s
  | some i =>
      replaceInPlace token value htoken (i + value.length)
        (s.take i ++ value ++ s.drop (i + token.length))
termination_by s.length - pos
decreasing_by
  have hle := le_of_findFrom _hfound
  have hpos := List.length_pos_of_ne_nil htoken
  simp only [List.length_append, List.length_take, List.length_drop]
  omega

/-- The place found splits the text: no token begins before it. -/
theorem split_of_findFrom {token : List α} {pos i : Nat} (h : findFrom token s pos = some i) :
    ∃ between rest, s.drop pos = between ++ (token ++ rest) ∧ i = pos + between.length ∧
      ∀ j < between.length, ¬ token <+: (between ++ (token ++ rest)).drop j := by
  obtain ⟨hpos, hend⟩ := le_of_findFrom h
  obtain ⟨rest, hrest⟩ := prefix_of_findFrom h
  have hlen : ((s.drop pos).take (i - pos)).length = i - pos := by
    rw [List.length_take, List.length_drop]
    omega
  have hsplit : s.drop pos = (s.drop pos).take (i - pos) ++ (token ++ rest) := by
    conv_lhs => rw [← List.take_append_drop (i - pos) (s.drop pos)]
    rw [List.drop_drop, Nat.add_sub_cancel' hpos, hrest]
  refine ⟨(s.drop pos).take (i - pos), rest, hsplit, by omega, ?_⟩
  intro j hj hpre
  rw [← hsplit, List.drop_drop] at hpre
  rw [hlen] at hj
  unfold findFrom at h
  rw [List.find?_range'_eq_some] at h
  have hnot := h.2.2 (pos + j) (Nat.le_add_right _ _) (by omega)
  rw [Bool.not_eq_true', Bool.eq_false_iff] at hnot
  exact hnot (List.isPrefixOf_iff_prefix.mpr hpre)

theorem none_of_findFrom {token : List α} {pos : Nat} (h : findFrom token s pos = none) :
    ∀ j < (s.drop pos).length, ¬ token <+: (s.drop pos).drop j := by
  intro j hj hpre
  rw [List.length_drop] at hj
  rw [List.drop_drop] at hpre
  refine List.find?_eq_none.mp h (pos + j) ?_ (List.isPrefixOf_iff_prefix.mpr hpre)
  rw [List.mem_range'_1]
  omega

/-- **Overwriting in place is one pass** over what lies behind the position. -/
theorem replaceInPlace_eq (h : Separate mark [t]) (htoken : t.text ≠ []) (pos : Nat)
    (s : List α) :
    replaceInPlace t.text t.value htoken pos s = s.take pos ++ expand [t] (s.drop pos) := by
  induction pos, s using replaceInPlace.induct t.text t.value htoken with
  | case1 pos s hnone =>
      rw [replaceInPlace, hnone]
      have hstays : expand [t] (s.drop pos ++ []) = s.drop pos ++ expand [t] [] := by
        refine expand_append_of_none fun j hj u hu => ?_
        rw [List.append_nil, List.mem_singleton.mp hu]
        exact none_of_findFrom hnone j hj
      rw [List.append_nil] at hstays
      rw [hstays]
      exact (List.take_append_drop pos s).symm.trans (by rw [expand, expandFrom, List.append_nil])
  | case2 pos s i hfound ih =>
      obtain ⟨between, rest, hsplit, hi, hnone⟩ := split_of_findFrom hfound
      obtain ⟨hpos, hend⟩ := le_of_findFrom hfound
      have htake : s.take i = s.take pos ++ between := by
        rw [hi, List.take_add, hsplit, List.take_left]
      have hdrop : s.drop (i + t.text.length) = rest := by
        rw [hi, Nat.add_assoc, ← List.drop_drop, hsplit, ← List.drop_drop, List.drop_left,
          List.drop_left]
      have hlen : (s.take i ++ t.value).length = i + t.value.length := by
        rw [List.length_append, List.length_take]
        omega
      have hstays : expand [t] (between ++ (t.text ++ rest)) =
          between ++ (t.value ++ expand [t] rest) := by
        rw [expand_append_of_none, expand_token h List.mem_cons_self]
        intro j hj u hu
        rw [List.mem_singleton.mp hu]
        exact hnone j hj
      rw [replaceInPlace, hfound]
      dsimp only
      rw [ih, ← hlen, List.take_left, List.drop_left, hdrop, htake, hsplit, hstays]
      simp only [List.append_assoc]

/-! ## One token after the other -/

/-- Another token is left in place. -/
theorem expand_other (h : Separate mark (t :: ts)) (hu : u ∈ ts) :
    expand [t] (u.text ++ r) = u.text ++ expand [t] r := by
  obtain ⟨body, hbody, hmark⟩ := h.tail.marked u hu
  have hapart := (List.pairwise_cons.mp h.apart).1 u hu
  have hnot : ∀ v ∈ [t], ¬ v.text <+: mark :: (body ++ r) := by
    intro v hv hpre
    rw [List.mem_singleton.mp hv, ← List.cons_append, ← hbody] at hpre
    rcases List.prefix_or_prefix_of_prefix hpre (List.prefix_append _ _) with htu | hut
    · exact hapart.1 htu
    · exact hapart.2 hut
  have hsingle := h.singleton List.mem_cons_self
  rw [hbody, List.cons_append, expand_cons hnot, expand_append_of_notMem hsingle hmark,
    List.cons_append]

/-- **The first token can be replaced ahead of the others.** -/
theorem expand_cons_tokens (h : Separate mark (t :: ts)) (s : List α) :
    expand (t :: ts) s = expand ts (expand [t] s) := by
  induction hn : s.length using Nat.strong_induction_on generalizing s with
  | _ n ih =>
  cases s with
  | nil => rfl
  | cons x rest =>
      by_cases hbegins : ∃ u ∈ t :: ts, u.text <+: x :: rest
      · -- a token begins here: the first one, or one that the first pass leaves
        obtain ⟨u, hu, r, hr⟩ := hbegins
        obtain ⟨body, hbody, -⟩ := h.marked u hu
        have hshorter : r.length < n := by
          rw [← hn, ← hr, List.length_append, hbody, List.length_cons]
          omega
        rw [← hr, expand_token h hu, ih r.length hshorter r rfl]
        rcases List.mem_cons.mp hu with rfl | htail
        · rw [expand_token (h.singleton List.mem_cons_self) List.mem_cons_self]
          have hmark := h.mark_notMem hu
          rw [expand_append_of_notMem h.tail hmark]
        · rw [expand_other h htail, expand_token h.tail htail]
      · have hnone : ∀ u ∈ t :: ts, ¬ u.text <+: x :: rest := fun u hu hpre =>
          hbegins ⟨u, hu, hpre⟩
        have hfirst : ∀ u ∈ [t], ¬ u.text <+: x :: rest := by
          intro u hu
          rw [List.mem_singleton.mp hu]
          exact hnone t List.mem_cons_self
        have hrest : ∀ u ∈ ts, ¬ u.text <+: x :: expand [t] rest := by
          intro u hu hpre
          obtain ⟨body, hbody, hmark⟩ := h.tail.marked u hu
          rw [hbody, List.cons_prefix_cons] at hpre
          have hforeign : ∀ v ∈ [t], ∀ y ∈ v.value, y ∉ body := by
            intro v hv y hy hmem
            rw [List.mem_singleton.mp hv] at hy
            refine h.foreign t List.mem_cons_self u (List.mem_cons_of_mem _ hu) y hy ?_
            rw [hbody]
            exact List.mem_cons_of_mem _ hmem
          refine hnone u (List.mem_cons_of_mem _ hu) ?_
          rw [hbody, List.cons_prefix_cons]
          exact ⟨hpre.1, prefix_of_expand (h.singleton List.mem_cons_self) hforeign hpre.2⟩
        rw [expand_cons hnone, expand_cons hfirst, expand_cons hrest,
          ih rest.length (by rw [← hn]; exact Nat.lt_succ_self _) rest rfl]

/-- **Replacing one token after the other is replacing all in one pass.** -/
theorem foldl_expand (h : Separate mark ts) (s : List α) :
    ts.foldl (fun s t => expand [t] s) s = expand ts s := by
  induction ts generalizing s with
  | nil =>
      induction s with
      | nil => rfl
      | cons x s ih =>
          rw [expand_cons fun t ht => absurd ht List.not_mem_nil, ← ih]
          rfl
  | cons t ts ih => rw [List.foldl_cons, ih h.tail, expand_cons_tokens h]

end MinRender.Substitution
