import MinRender.Framework.RingBuffer
import MinRender.Framework.Runs

/-!
# The application log and its panel

`MonitorLog` keeps the newest entries in a ring; `LogModel` seeds its rows from
it and then gets every new entry through a callback that posts it to the UI
thread. Both are bounded. They refine a log and a panel that keep everything:
after any run of logging threads and the UI thread each shows the last entries
of its unbounded counterpart.
-/

namespace MinRender.LogPanel

structure Entry where
  timestampMs : Int
  level : String
  category : String
  message : String
deriving DecidableEq, Repr

/-- Entries the log keeps. -/
def maxEntries : Nat := 1000

/-- Rows the panel keeps. -/
def kCapacity : Nat := 5000

instance : NeZero maxEntries := ⟨Nat.succ_ne_zero 999⟩

/-! ## The two models -/

structure State where
  buffer : Ring Entry maxEntries := .empty maxEntries
  /-- `LogModel` is the log's callback. -/
  callback : Bool := false
  /-- Entries posted to the UI thread and not yet delivered, oldest first. -/
  posted : List Entry := []
  rows : List Entry := []

inductive Event
  | append (e : Entry)
  | clearEntries
  /-- The first half of `attach`: the rows are set from the log, if it has any. -/
  | seed
  /-- Its second half, `setCallback`. Any thread may log between the two. -/
  | install
  | appendOnUiThread
  | clear
deriving DecidableEq, Repr

/-- The rows that `attach` sets. -/
def seedRows (rows existing : List Entry) : List Entry :=
  if existing = [] then rows else existing.foldl (pushTrimming kCapacity) []

def step (s : State) : Event → Option State
  | .append e => some { s with
      buffer := s.buffer.push e
      posted := if s.callback then s.posted ++ [e] else s.posted }
  | .clearEntries => some { s with buffer := .empty maxEntries }
  | .seed => some { s with rows := seedRows s.rows s.buffer.toList }
  | .install => some { s with callback := true }
  | .appendOnUiThread =>
      match s.posted with
      | [] => none
      | e :: rest => some { s with posted := rest, rows := pushDropping kCapacity s.rows e }
  | .clear => some { s with rows := [] }

def machine : Machine State Event := ⟨step⟩

/-! ## The unbounded log and panel -/

structure Full where
  /-- Every entry since the log was last cleared. -/
  logged : List Entry := []
  callback : Bool := false
  posted : List Entry := []
  /-- Every row since the panel was last set or cleared. -/
  shown : List Entry := []
deriving DecidableEq, Repr

def Full.step (s : Full) : Event → Option Full
  | .append e => some { s with
      logged := s.logged ++ [e]
      posted := if s.callback then s.posted ++ [e] else s.posted }
  | .clearEntries => some { s with logged := [] }
  | .seed => some { s with
      shown := if s.logged = [] then s.shown else lastN maxEntries s.logged }
  | .install => some { s with callback := true }
  | .appendOnUiThread =>
      match s.posted with
      | [] => none
      | e :: rest => some { s with posted := rest, shown := s.shown ++ [e] }
  | .clear => some { s with shown := [] }

def Full.machine : Machine Full Event := ⟨Full.step⟩

/-- The bounded state is the unbounded one cut to its last entries. -/
structure Refines (s : State) (full : Full) : Prop where
  buffer : s.buffer.toList = lastN maxEntries full.logged
  callback : s.callback = full.callback
  posted : s.posted = full.posted
  rows : s.rows = lastN kCapacity full.shown

theorem refines_start : Refines {} {} :=
  ⟨(lastN_nil _).symm, rfl, rfl, (lastN_nil _).symm⟩

theorem Refines.bounded {s : State} {full : Full} (h : Refines s full) :
    s.rows.length ≤ kCapacity := by
  rw [h.rows, length_lastN]
  exact Nat.min_le_left _ _

theorem seedRows_eq {rows existing : List Entry} :
    seedRows rows existing = if existing = [] then rows else lastN kCapacity existing := by
  unfold seedRows
  rw [foldl_pushTrimming (by decide) existing [] (Nat.zero_le _), List.nil_append]

theorem lastN_eq_nil {n : Nat} (hn : 0 < n) {l : List Entry} : lastN n l = [] ↔ l = [] := by
  rw [← List.length_eq_zero_iff, length_lastN, ← List.length_eq_zero_iff]
  omega

/-- **Each event keeps the two in step.** -/
theorem Refines.step {s s' : State} {full : Full} {e : Event} (h : Refines s full)
    (hstep : LogPanel.step s e = some s') :
    ∃ full', full.step e = some full' ∧ Refines s' full' := by
  cases e with
  | append e =>
      cases hstep
      refine ⟨_, rfl, ?_, h.callback, ?_, h.rows⟩
      · rw [Ring.toList_push, h.buffer, lastN_append]
      · dsimp only
        rw [h.callback, h.posted]
  | clearEntries =>
      cases hstep
      exact ⟨_, rfl, (lastN_nil _).symm, h.callback, h.posted, h.rows⟩
  | seed =>
      cases hstep
      refine ⟨_, rfl, h.buffer, h.callback, h.posted, ?_⟩
      dsimp only
      rw [seedRows_eq, h.buffer]
      simp only [lastN_eq_nil (n := maxEntries) (by decide)]
      split
      · exact h.rows
      · rfl
  | install =>
      cases hstep
      exact ⟨_, rfl, h.buffer, rfl, h.posted, h.rows⟩
  | appendOnUiThread =>
      unfold LogPanel.step at hstep
      have hposted := h.posted
      cases hs : s.posted with
      | nil => simp [hs] at hstep
      | cons e rest =>
          simp only [hs, Option.some.injEq] at hstep
          rw [hs] at hposted
          refine ⟨{ full with posted := rest, shown := full.shown ++ [e] }, ?_, ?_⟩
          · unfold Full.step
            simp only [← hposted]
          · rw [← hstep]
            refine ⟨h.buffer, h.callback, rfl, ?_⟩
            dsimp only
            rw [pushDropping_eq (by decide) h.bounded, h.rows, lastN_append]
  | clear =>
      cases hstep
      exact ⟨_, rfl, h.buffer, h.callback, h.posted, (lastN_nil _).symm⟩

theorem Refines.run {s s' : State} {full : Full} {es : List Event} (h : Refines s full)
    (hrun : machine.run s es = some s') :
    ∃ full', Full.machine.run full es = some full' ∧ Refines s' full' := by
  induction es generalizing s full with
  | nil =>
      cases hrun
      exact ⟨full, rfl, h⟩
  | cons e es ih =>
      rw [Machine.run_cons] at hrun
      obtain ⟨s₁, hstep, hrest⟩ := Option.bind_eq_some_iff.mp hrun
      obtain ⟨full₁, hfull, h₁⟩ := h.step hstep
      obtain ⟨full', hrun', h'⟩ := ih h₁ hrest
      refine ⟨full', ?_, h'⟩
      rw [Machine.run_cons]
      exact Option.bind_eq_some_iff.mpr ⟨full₁, hfull, hrun'⟩

/-! ## What the panel gets to show -/

/-- The entries a run logs. -/
def appended : List Event → List Entry
  | [] => []
  | .append e :: es => e :: appended es
  | _ :: es => appended es

/-- Nothing sets or empties the rows but what is delivered. -/
def Undisturbed (es : List Event) : Prop := ∀ e ∈ es, e ≠ .seed ∧ e ≠ .clear

theorem appended_cons (e : Event) (es : List Event) :
    appended (e :: es) = appended [e] ++ appended es := by
  cases e <;> rfl

theorem Full.delivers_step {full full' : Full} {e : Event} (hattached : full.callback = true)
    (he : e ≠ .seed ∧ e ≠ .clear) (hstep : full.step e = some full') :
    full'.callback = true ∧ full.shown <+: full'.shown ∧
      full'.shown ++ full'.posted = full.shown ++ full.posted ++ appended [e] := by
  cases e with
  | append a =>
      cases hstep
      refine ⟨hattached, List.prefix_refl _, ?_⟩
      dsimp only
      rw [if_pos hattached, ← List.append_assoc]
      rfl
  | clearEntries =>
      cases hstep
      exact ⟨hattached, List.prefix_refl _, (List.append_nil _).symm⟩
  | seed => exact absurd rfl he.1
  | install =>
      cases hstep
      exact ⟨rfl, List.prefix_refl _, (List.append_nil _).symm⟩
  | appendOnUiThread =>
      unfold Full.step at hstep
      cases hp : full.posted with
      | nil => simp [hp] at hstep
      | cons a rest =>
          simp only [hp, Option.some.injEq] at hstep
          subst hstep
          exact ⟨hattached, List.prefix_append _ _, by simp [appended]⟩
  | clear => exact absurd rfl he.2

/-- An attached panel gets every entry, once and in order: what it was shown and
what waits for it grow by what is logged. -/
theorem Full.delivers {full full' : Full} {es : List Event} (hattached : full.callback = true)
    (hes : Undisturbed es) (hrun : Full.machine.run full es = some full') :
    full.shown <+: full'.shown ∧
      full'.shown ++ full'.posted = full.shown ++ full.posted ++ appended es := by
  induction es generalizing full with
  | nil =>
      cases hrun
      exact ⟨List.prefix_refl _, (List.append_nil _).symm⟩
  | cons e es ih =>
      rw [Machine.run_cons] at hrun
      obtain ⟨full₁, hstep, hrest⟩ := Option.bind_eq_some_iff.mp hrun
      obtain ⟨he, hrestOk⟩ := List.forall_mem_cons.mp hes
      obtain ⟨hattached₁, hshown, hsame⟩ := Full.delivers_step hattached he hstep
      obtain ⟨hshown', hsame'⟩ := ih hattached₁ hrestOk hrest
      refine ⟨hshown.trans hshown', ?_⟩
      rw [hsame', hsame, List.append_assoc, ← appended_cons]

/-- **The log and its panel forget only what is old.** After every run of logging
threads and the UI thread, `getEntries` is the last entries of all that were
logged, and the rows are the last of all that were shown. From where the panel
is attached, until it is seeded again or cleared, what it was shown and what is
posted to it are what it had by then and every entry logged since, once and in
order. -/
theorem forgets_only_the_old (es : List Event) (s : State) (h : machine.run {} es = some s) :
    ∃ full, Full.machine.run {} es = some full ∧
      s.buffer.toList = lastN maxEntries full.logged ∧
      s.rows = lastN kCapacity full.shown ∧ s.posted = full.posted ∧
      ∀ before after, es = before ++ after → Undisturbed after →
        ∀ attached, Full.machine.run {} before = some attached → attached.callback = true →
          attached.shown <+: full.shown ∧
            full.shown ++ full.posted = attached.shown ++ attached.posted ++ appended after := by
  obtain ⟨full, hrun, hrefines⟩ := refines_start.run h
  refine ⟨full, hrun, hrefines.buffer, hrefines.rows, hrefines.posted, ?_⟩
  rintro before after rfl hafter attached hbefore hattached
  rw [Machine.run_append, hbefore] at hrun
  exact Full.delivers hattached hafter hrun

/-- One entry before the panel is attached, one after. -/
def attachedOnce : List Event :=
  [.append ⟨1, "INFO", "farm", "started"⟩, .seed, .install,
    .append ⟨2, "WARN", "peer", "lost"⟩, .appendOnUiThread]

theorem attachedOnce_shown :
    ∃ s, machine.run {} attachedOnce = some s ∧
      s.rows = [⟨1, "INFO", "farm", "started"⟩, ⟨2, "WARN", "peer", "lost"⟩] ∧
      ∃ full, Full.machine.run {} attachedOnce = some full ∧
        s.buffer.toList = lastN maxEntries full.logged ∧
        s.rows = lastN kCapacity full.shown ∧ s.posted = full.posted ∧
        ∀ before after, attachedOnce = before ++ after → Undisturbed after →
          ∀ attached, Full.machine.run {} before = some attached → attached.callback = true →
            attached.shown <+: full.shown ∧
              full.shown ++ full.posted = attached.shown ++ attached.posted ++ appended after := by
  have hrun : machine.run {} attachedOnce = some ((machine.run {} attachedOnce).getD {}) := rfl
  exact ⟨_, hrun, rfl, forgets_only_the_old attachedOnce _ hrun⟩

end MinRender.LogPanel
