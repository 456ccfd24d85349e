import Mathlib.Data.List.Basic

/-!
# Runs of a state machine

A deterministic machine takes events; an event it is not ready for has no
step. `Along` states a property of every step of a run, so that two
conditions can be compared run by run, and the rules below are the inductions
every run theorem uses.
-/

namespace MinRender

/-- `step s e` is the state after event `e`, `none` where `e` cannot happen. -/
structure Machine (σ ε : Type*) where
  step : σ → ε → Option σ

namespace Machine

variable {σ ε : Type*} {M : Machine σ ε}

/-- The state after a list of events, `none` if one of them cannot happen. -/
def run (M : Machine σ ε) : σ → List ε → Option σ
  | s, [] => some s
  | s, e :: es => (M.step s e).bind fun s' => run M s' es

/-- Every step of the run of `es` from `s` satisfies `P before event after`. -/
def Along (M : Machine σ ε) (P : σ → ε → σ → Prop) : σ → List ε → Prop
  | _, [] => True
  | s, e :: es => ∀ s', M.step s e = some s' → P s e s' ∧ Along M P s' es

/-- `s` is reached from `s₀` by some events. -/
def Reachable (M : Machine σ ε) (s₀ s : σ) : Prop := ∃ es, M.run s₀ es = some s

/-- A property every enabled step keeps. -/
def Keeps (M : Machine σ ε) (I : σ → Prop) : Prop :=
  ∀ s e s', I s → M.step s e = some s' → I s'

@[simp] theorem run_nil {s : σ} : M.run s [] = some s := rfl

theorem run_cons {s : σ} {e : ε} {es : List ε} :
    M.run s (e :: es) = (M.step s e).bind fun s' => M.run s' es := rfl

theorem run_append {s : σ} {es fs : List ε} :
    M.run s (es ++ fs) = (M.run s es).bind fun s' => M.run s' fs := by
  induction es generalizing s with
  | nil => rfl
  | cons e es ih =>
      rw [List.cons_append, run_cons, run_cons]
      cases M.step s e with
      | none => rfl
      | some s' => exact ih

/-- **Run rule.** An invariant kept by every step that meets `cond`, and under
which such a step is good, makes every conditioned run good. -/
theorem Along.mono {I : σ → Prop} {cond good : σ → ε → σ → Prop}
    (h : ∀ s e s', I s → M.step s e = some s' → cond s e s' →
      good s e s' ∧ I s') :
    ∀ {es : List ε} {s : σ}, I s → M.Along cond s es → M.Along good s es
  | [], _, _, _ => trivial
  | _ :: _, s, hs, hc => by
      intro s' hstep
      obtain ⟨hcond, hrest⟩ := hc s' hstep
      obtain ⟨hgood, hI⟩ := h s _ s' hs hstep hcond
      exact ⟨hgood, Along.mono h hI hrest⟩

/-- What every step from the invariant does, every run does. -/
theorem Along.always {I : σ → Prop} {good : σ → ε → σ → Prop}
    (h : ∀ s e s', I s → M.step s e = some s' → good s e s' ∧ I s') :
    ∀ {es : List ε} {s : σ}, I s → M.Along good s es
  | [], _, _ => trivial
  | _ :: _, s, hs => by
      intro s' hstep
      obtain ⟨hgood, hI⟩ := h s _ s' hs hstep
      exact ⟨hgood, Along.always h hI⟩

/-- Two step properties that agree under an unconditional invariant agree on
runs. -/
theorem Along.congr {I : σ → Prop} {cond good : σ → ε → σ → Prop}
    (hI : M.Keeps I)
    (h : ∀ s e s', I s → M.step s e = some s' → (cond s e s' ↔ good s e s'))
    {es : List ε} {s : σ} (hs : I s) :
    M.Along cond s es ↔ M.Along good s es := by
  constructor
  · exact Along.mono (fun s e s' hs hstep hc =>
      ⟨(h s e s' hs hstep).mp hc, hI s e s' hs hstep⟩) hs
  · exact Along.mono (fun s e s' hs hstep hg =>
      ⟨(h s e s' hs hstep).mpr hg, hI s e s' hs hstep⟩) hs

/-- Along a conditioned run the invariant reaches the last state. -/
theorem Along.invariant {I : σ → Prop} {cond : σ → ε → σ → Prop}
    (h : ∀ s e s', I s → M.step s e = some s' → cond s e s' → I s') :
    ∀ {es : List ε} {s t : σ}, I s → M.Along cond s es →
      M.run s es = some t → I t
  | [], s, t, hs, _, hrun => by
      cases hrun
      exact hs
  | e :: es, s, t, hs, hc, hrun => by
      rw [run_cons] at hrun
      cases hstep : M.step s e with
      | none => simp [hstep] at hrun
      | some s' =>
          rw [hstep] at hrun
          obtain ⟨hcond, hrest⟩ := hc s' hstep
          exact Along.invariant h (h s e s' hs hstep hcond) hrest hrun

/-- A run that is good along all of it is good in its last step. -/
theorem Along.last {P : σ → ε → σ → Prop} {e : ε} {t u : σ} :
    ∀ {es : List ε} {s : σ}, M.Along P s (es ++ [e]) → M.run s es = some t →
      M.step t e = some u → P t e u
  | [], s, h, hrun, hstep => by
      cases hrun
      exact (h u hstep).1
  | d :: es, s, h, hrun, hstep => by
      rw [run_cons] at hrun
      cases hd : M.step s d with
      | none => simp [hd] at hrun
      | some s' =>
          rw [hd] at hrun
          exact Along.last (h s' hd).2 hrun hstep

/-- Refuting a property of runs by computing one: the run of `es` and its last
step `e` happen, and what they end in is `bad`. -/
theorem Along.refute_run {P : σ → ε → σ → Prop} (es : List ε) (e : ε)
    (bad : σ → σ → Bool) {s : σ}
    (hbad : ∀ t u, M.run s es = some t → M.step t e = some u → bad t u = true →
      ¬ P t e u)
    (h : ((M.run s es).any fun t => (M.step t e).any fun u => bad t u) = true) :
    ¬ M.Along P s (es ++ [e]) := by
  intro halong
  rw [Option.any_eq_true] at h
  obtain ⟨t, hrun, ht⟩ := h
  rw [Option.any_eq_true] at ht
  obtain ⟨u, hstep, hu⟩ := ht
  exact hbad t u hrun hstep hu (halong.last hrun hstep)

theorem Along.refute {P : σ → ε → σ → Prop} (es : List ε) (e : ε)
    (bad : σ → σ → Bool) {s : σ} (hbad : ∀ t u, bad t u = true → ¬ P t e u)
    (h : ((M.run s es).any fun t => (M.step t e).any fun u => bad t u) = true) :
    ¬ M.Along P s (es ++ [e]) :=
  Along.refute_run es e bad (fun t u _ _ => hbad t u) h

/-- Whether every step of a run passes a test. -/
def check (M : Machine σ ε) (test : σ → ε → σ → Bool) : σ → List ε → Bool
  | _, [] => true
  | s, e :: es => (M.step s e).all fun s' => test s e s' && check M test s' es

theorem Along.of_check {P : σ → ε → σ → Prop} (test : σ → ε → σ → Bool)
    (h : ∀ s e s', test s e s' = true → P s e s') :
    ∀ {es : List ε} {s : σ}, M.check test s es = true → M.Along P s es
  | [], _, _ => trivial
  | e :: es, s, hc => by
      intro s' hstep
      rw [check, hstep, Option.all_some, Bool.and_eq_true] at hc
      exact ⟨h s e s' hc.1, Along.of_check test h hc.2⟩

theorem Keeps.reachable {I : σ → Prop} (hI : M.Keeps I) {s t : σ} (hs : I s)
    (h : M.Reachable s t) : I t := by
  obtain ⟨es, hrun⟩ := h
  have hfree : M.Along (fun _ _ _ => True) s es :=
    Along.always (I := I) (fun s e s' hs hstep => ⟨trivial, hI s e s' hs hstep⟩) hs
  exact Along.invariant (fun s e s' hs hstep _ => hI s e s' hs hstep) hs hfree hrun

end Machine

end MinRender
