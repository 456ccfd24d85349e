import Mathlib.Data.List.Infix
import MinRender.Monitor.NodeFailureTracker

/-!
# Which failures suspend a node

The tracker counts failures in windows that follow one another: a window opens
with a failure and is over once a failure comes more than five minutes after
its opening. Five failures suspend the node when they are in one window; five
that lie around the end of a window may not.
-/

namespace MinRender.NodeFailureTracker

/-! ## Counting windows -/

/-- A failure at `now` does not count to a window that opened at `first`; one
that opened at or before zero is taken for none. -/
def Expired (first now : Int) : Prop := 0 < first ∧ suspendWindowMs < now - first

instance (first now : Int) : Decidable (Expired first now) := inferInstanceAs (Decidable (_ ∧ _))

/-- The failures after those in `window`, which opened at `first`. -/
def windowsFrom (first : Int) (window : List Int) : List Int → List (List Int)
  | [] => [window]
  | now :: times =>
      if Expired first now then window :: windowsFrom now [now] times
      else windowsFrom first (window ++ [now]) times

/-- The times of failures by counting window. -/
def windows : List Int → List (List Int)
  | [] => []
  | now :: times => windowsFrom now [now] times

/-- Some five of the failures lie within the span. -/
def FiveWithin (times : List Int) : Prop :=
  ∃ five : List Int, five.Sublist times ∧ five.length = 5 ∧
    ∀ a ∈ five, ∀ b ∈ five, b - a ≤ suspendWindowMs

/-! ## Runs -/

inductive Event
  | failure (nodeId : String) (nowMs : Int)
  | clear (nodeId : String)
deriving DecidableEq, Repr

def apply (t : NodeFailureTracker) : Event → NodeFailureTracker
  | .failure nodeId nowMs => t.recordFailure nodeId nowMs
  | .clear nodeId => t.clearNode nodeId

/-- The tracker after some events. -/
def after (es : List Event) : NodeFailureTracker := es.foldl apply {}

/-- The times of a node's failures since its record was last cleared. -/
def timesSince (nodeId : String) (es : List Event) : List Int :=
  es.foldl (fun times e => match e with
    | .failure n nowMs => if n = nodeId then times ++ [nowMs] else times
    | .clear n => if n = nodeId then [] else times) []

variable {t : NodeFailureTracker} {nodeId : String} {nowMs first : Int} {window times : List Int}

theorem getRecord_clearNode_self : (t.clearNode nodeId).getRecord nodeId = none := by
  unfold getRecord clearNode
  rw [List.lookup_eq_none_iff]
  intro entry hentry
  have hne := of_decide_eq_true (List.mem_filter.mp hentry).2
  exact bne_iff_ne.mpr fun heq => hne heq.symm

theorem getRecord_clearNode_ne {other : String} (h : nodeId ≠ other) :
    (t.clearNode other).getRecord nodeId = t.getRecord nodeId := by
  unfold getRecord clearNode
  induction t.records with
  | nil => rfl
  | cons entry records ih =>
      rw [List.filter_cons]
      split
      · rw [List.lookup_cons, List.lookup_cons, ih]
      · rename_i heq
        have hentry : entry.1 = other := by simpa using heq
        rw [ih, List.lookup_cons, hentry, beq_false_of_ne h]

theorem getRecord_recordFailure_self :
    (t.recordFailure nodeId nowMs).getRecord nodeId =
      some (FailureRecord.bump ((t.getRecord nodeId).getD {}) nowMs) :=
  List.lookup_cons_self

theorem getRecord_recordFailure_ne {other : String} (h : nodeId ≠ other) :
    (t.recordFailure other nowMs).getRecord nodeId = t.getRecord nodeId := by
  rw [← @getRecord_clearNode_ne t nodeId other h]
  unfold getRecord recordFailure
  rw [List.lookup_cons, beq_false_of_ne h]

/-! ## What the record holds -/

/-- The record of the current window, after windows of which one held five
failures if `full`. -/
structure Holds (full : Prop) (first : Int) (window : List Int) (r : FailureRecord) : Prop where
  opened : r.firstFailureMs = first
  count : r.failureCount = window.length
  nonempty : window ≠ []
  suspended : r.suspended = true ↔ full ∨ 5 ≤ window.length

theorem bump_fresh : Holds False nowMs [nowMs] (FailureRecord.bump {} nowMs) where
  opened := rfl
  count := rfl
  nonempty := List.cons_ne_nil _ _
  suspended := by simp [FailureRecord.bump, suspendThreshold]

theorem Holds.bump {full : Prop} {r : FailureRecord} (h : Holds full first window r)
    (nowMs : Int) :
    if Expired first nowMs then
      Holds (full ∨ 5 ≤ window.length) nowMs [nowMs] (FailureRecord.bump r nowMs)
    else Holds full first (window ++ [nowMs]) (FailureRecord.bump r nowMs) := by
  obtain ⟨hopened, hcount, hnonempty, hsuspended⟩ := h
  have hpos : 0 < window.length := List.length_pos_iff.mpr hnonempty
  split
  · rename_i hexpired
    have hout : 0 < r.firstFailureMs ∧ suspendWindowMs < nowMs - r.firstFailureMs :=
      hopened ▸ hexpired
    unfold FailureRecord.bump
    simp only [if_pos hout]
    refine ⟨rfl, rfl, List.cons_ne_nil _ _, ?_⟩
    rw [← hsuspended]
    simp [suspendThreshold]
  · rename_i hexpired
    have hin : ¬ (0 < r.firstFailureMs ∧ suspendWindowMs < nowMs - r.firstFailureMs) :=
      hopened ▸ hexpired
    have hsome : r.failureCount ≠ 0 := by omega
    unfold FailureRecord.bump
    simp only [if_neg hin, if_neg hsome]
    have hlen : (window ++ [nowMs]).length = window.length + 1 := List.length_append
    split
    · rename_i hfull
      unfold suspendThreshold at hfull
      refine ⟨hopened, by rw [hlen]; show r.failureCount + 1 = _; omega, by simp, ?_⟩
      exact iff_of_true rfl (.inr (by omega))
    · rename_i hfull
      unfold suspendThreshold at hfull
      refine ⟨hopened, by rw [hlen]; show r.failureCount + 1 = _; omega, by simp, ?_⟩
      show r.suspended = true ↔ _
      rw [hsuspended]
      constructor
      · rintro (hearlier | hlong)
        · exact .inl hearlier
        · exact .inr (by omega)
      · rintro (hearlier | hlong)
        · exact .inl hearlier
        · omega

/-- **A record is suspended when one of its windows held five failures.** -/
theorem Holds.foldl {full : Prop} {r : FailureRecord} (h : Holds full first window r) :
    (times.foldl FailureRecord.bump r).suspended = true ↔
      full ∨ ∃ w ∈ windowsFrom first window times, 5 ≤ w.length := by
  induction times generalizing full first window r with
  | nil =>
      rw [List.foldl_nil, h.suspended]
      simp [windowsFrom]
  | cons now times ih =>
      have hnext := h.bump now
      rw [List.foldl_cons]
      unfold windowsFrom
      by_cases hexpired : Expired first now
      · rw [if_pos hexpired] at hnext ⊢
        rw [ih hnext, List.exists_mem_cons_iff, or_assoc]
      · rw [if_neg hexpired] at hnext ⊢
        exact ih hnext

/-- The record that failures at the given times leave. -/
def recordOf : List Int → Option FailureRecord
  | [] => none
  | times => some (times.foldl FailureRecord.bump {})

theorem recordOf_append (times : List Int) (now : Int) :
    recordOf (times ++ [now]) = some (FailureRecord.bump ((recordOf times).getD {}) now) := by
  cases times with
  | nil => rfl
  | cons first times =>
      show some (((first :: times) ++ [now]).foldl FailureRecord.bump {}) = _
      rw [List.foldl_append]
      rfl

/-- A node's record holds the failures since it was cleared, and no others. -/
theorem getRecord_after (nodeId : String) (es : List Event) :
    (after es).getRecord nodeId = recordOf (timesSince nodeId es) := by
  induction es using List.reverseRecOn with
  | nil => rfl
  | append_singleton es e ih =>
      unfold after timesSince at ih ⊢
      rw [List.foldl_append, List.foldl_append, List.foldl_cons, List.foldl_nil,
        List.foldl_cons, List.foldl_nil]
      cases e with
      | failure n now =>
          by_cases hn : n = nodeId
          · subst hn
            rw [apply, getRecord_recordFailure_self, ih]
            dsimp only
            rw [if_pos rfl, recordOf_append]
          · rw [apply, getRecord_recordFailure_ne (Ne.symm hn), ih]
            dsimp only
            rw [if_neg hn]
      | clear n =>
          by_cases hn : n = nodeId
          · subst hn
            rw [apply, getRecord_clearNode_self]
            dsimp only
            rw [if_pos rfl]
            rfl
          · rw [apply, getRecord_clearNode_ne (Ne.symm hn), ih]
            dsimp only
            rw [if_neg hn]

theorem isSuspended_after (nodeId : String) (es : List Event) :
    (after es).isSuspended nodeId = true ↔
      ∃ w ∈ windows (timesSince nodeId es), 5 ≤ w.length := by
  unfold isSuspended
  rw [getRecord_after]
  cases timesSince nodeId es with
  | nil =>
      refine iff_of_false Bool.false_ne_true ?_
      rintro ⟨w, hw, -⟩
      exact (nomatch hw)
  | cons now times =>
      show (times.foldl FailureRecord.bump (FailureRecord.bump {} now)).suspended = true ↔ _
      rw [bump_fresh.foldl, false_or, windows]

/-! ## Windows and spans -/

/-- A window is a stretch of the failures, within the span from its opening. -/
theorem windowsFrom_sublist {w : List Int} (h : w ∈ windowsFrom first window times) :
    w.Sublist (window ++ times) := by
  induction times generalizing first window with
  | nil =>
      rw [List.mem_singleton.mp h, List.append_nil]
  | cons now times ih =>
      unfold windowsFrom at h
      split at h
      · rcases List.mem_cons.mp h with rfl | hrest
        · exact List.sublist_append_left _ _
        · exact (ih hrest).trans (List.sublist_append_right _ _)
      · have hrest := ih h
        rw [List.append_assoc] at hrest
        exact hrest

theorem windowsFrom_span (hfirst : 0 < first)
    (hwindow : ∀ t ∈ window, first ≤ t ∧ t - first ≤ suspendWindowMs)
    (hsorted : (first :: times).Pairwise (· ≤ ·)) {w : List Int}
    (h : w ∈ windowsFrom first window times) :
    ∃ start, ∀ t ∈ w, start ≤ t ∧ t - start ≤ suspendWindowMs := by
  induction times generalizing first window with
  | nil =>
      rw [List.mem_singleton.mp h]
      exact ⟨first, hwindow⟩
  | cons now times ih =>
      obtain ⟨hafter, htimes⟩ := List.pairwise_cons.mp hsorted
      have hnow : first ≤ now := hafter now List.mem_cons_self
      unfold windowsFrom at h
      split at h
      · rcases List.mem_cons.mp h with rfl | hrest
        · exact ⟨first, hwindow⟩
        · refine ih (by omega) ?_ htimes hrest
          intro t ht
          rw [List.mem_singleton.mp ht]
          exact ⟨Int.le_refl _, by rw [Int.sub_self]; decide⟩
      · rename_i hexpired
        refine ih hfirst ?_ ?_ h
        · intro t ht
          rcases List.mem_append.mp ht with hold | hnew
          · exact hwindow t hold
          · rw [List.mem_singleton.mp hnew]
            refine ⟨hnow, ?_⟩
            by_contra hout
            exact hexpired ⟨hfirst, Int.not_le.mp hout⟩
        · refine List.pairwise_cons.mpr ⟨?_, (List.pairwise_cons.mp htimes).2⟩
          intro t ht
          exact hafter t (List.mem_cons_of_mem _ ht)

/-- Five failures of one window lie within the span. -/
theorem fiveWithin_of_window (hsorted : times.Pairwise (· ≤ ·)) (hpos : ∀ t ∈ times, 0 < t)
    {w : List Int} (hw : w ∈ windows times) (hfive : 5 ≤ w.length) : FiveWithin times := by
  cases times with
  | nil => exact (nomatch hw)
  | cons first times =>
      have hwindow : ∀ t ∈ [first], first ≤ t ∧ t - first ≤ suspendWindowMs := by
        intro t ht
        rw [List.mem_singleton.mp ht]
        exact ⟨Int.le_refl _, by rw [Int.sub_self]; decide⟩
      obtain ⟨start, hspan⟩ :=
        windowsFrom_span (hpos first List.mem_cons_self) hwindow hsorted hw
      refine ⟨w.take 5, ?_, ?_, ?_⟩
      · exact (List.take_sublist 5 w).trans (windowsFrom_sublist hw)
      · rw [List.length_take]
        omega
      · intro a ha b hb
        have hstart := hspan a (List.mem_of_mem_take ha)
        have hend := hspan b (List.mem_of_mem_take hb)
        omega

/-- **A node is suspended exactly when one counting window held five of its
failures** since its record was cleared; such five lie within the span. -/
theorem suspended_iff_window (nodeId : String) (es : List Event) :
    ((after es).isSuspended nodeId = true ↔
      ∃ w ∈ windows (timesSince nodeId es), 5 ≤ w.length) ∧
    ((timesSince nodeId es).Pairwise (· ≤ ·) → (∀ t ∈ timesSince nodeId es, 0 < t) →
      (after es).isSuspended nodeId = true → FiveWithin (timesSince nodeId es)) := by
  have hiff := isSuspended_after nodeId es
  refine ⟨hiff, fun hsorted hpos hsuspended => ?_⟩
  obtain ⟨w, hw, hfive⟩ := hiff.mp hsuspended
  exact fiveWithin_of_window hsorted hpos hw hfive

/-- Four failures of a window, and two right after it. -/
def aroundTheEnd : List Event :=
  [1000, 201000, 251000, 281000, 311000, 321000].map (.failure "n1" ·)

/-- **Five failures are not enough**: the last five lie within two minutes, and
the node is not suspended. -/
theorem five_within_not_suspended :
    ¬ ∀ (nodeId : String) (es : List Event), (timesSince nodeId es).Pairwise (· ≤ ·) →
      ((after es).isSuspended nodeId = true ↔ FiveWithin (timesSince nodeId es)) := by
  intro h
  have hfive : FiveWithin (timesSince "n1" aroundTheEnd) :=
    ⟨[201000, 251000, 281000, 311000, 321000], by decide, rfl, by decide⟩
  have hsuspended := (h "n1" aroundTheEnd (by decide)).mpr hfive
  exact absurd hsuspended (by decide)

end MinRender.NodeFailureTracker
