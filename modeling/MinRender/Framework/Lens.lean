import Mathlib.Data.List.Induction

/-!
# Editing through a view

A value is shown as a view, and a view that was changed is put back, unless it
is refused. Where the laws hold, what is stored after any number of edits is
what the last one alone makes of it.
-/

namespace MinRender

structure Lens (S V E : Type*) where
  get : S → V
  put : S → V → Except E S

namespace Lens

variable {S V E : Type*} (L : Lens S V E) {P : S → Prop} {Q : V → Prop}

/-- The laws, between what is stored (`P`) and the views that fit it (`Q`). -/
structure Lawful (P : S → Prop) (Q : V → Prop) : Prop where
  fits : ∀ {s}, P s → Q (L.get s)
  accepts : ∀ {s v}, P s → Q v → ∃ s', L.put s v = .ok s' ∧ P s' ∧ L.get s' = v
  unchanged : ∀ {s}, P s → L.put s (L.get s) = .ok s
  forgets : ∀ {s s' v w}, P s → Q v → Q w → L.put s v = .ok s' → L.put s' w = L.put s w

/-- A view that is refused changes nothing. -/
def edit (s : S) (v : V) : S :=
  match L.put s v with
  | .ok s' => s'
  | .error _ => s

def edits (s : S) (vs : List V) : S := vs.foldl L.edit s

/-- The view is refused, whatever is stored. -/
def Refused (P : S → Prop) (v : V) : Prop := ∀ s, P s → ∃ e, L.put s v = .error e

variable {L} {s : S} {v : V}

theorem edit_ok {s' : S} (h : L.put s v = .ok s') : L.edit s v = s' := by
  unfold edit
  rw [h]

theorem edit_refused (hs : P s) (h : L.Refused P v) : L.edit s v = s := by
  obtain ⟨e, he⟩ := h s hs
  unfold edit
  rw [he]

theorem edits_concat (s : S) (vs : List V) (v : V) :
    L.edits s (vs ++ [v]) = L.edit (L.edits s vs) v := by
  unfold edits
  rw [List.foldl_append, List.foldl_cons, List.foldl_nil]

/-- **The last edit decides**: what is stored shows the last view that was not
refused, is what that edit alone makes of the start, and stays as it is when
what it shows is put back. -/
theorem Lawful.edits (h : L.Lawful P Q) (hs : P s) {vs : List V}
    (hvs : ∀ v ∈ vs, Q v ∨ L.Refused P v) :
    ∃ s' last before after, L.edits s vs = s' ∧ P s' ∧ L.get s' = last ∧
      L.get s :: vs = before ++ last :: after ∧ (∀ v ∈ after, L.Refused P v) ∧
      L.put s last = .ok s' ∧ L.put s' last = .ok s' := by
  induction vs using List.reverseRecOn with
  | nil =>
      exact ⟨s, L.get s, [], [], rfl, hs, rfl, rfl, List.forall_mem_nil _, h.unchanged hs,
        h.unchanged hs⟩
  | append_singleton vs v ih =>
      obtain ⟨s', last, before, after, heq, hs', hget, hsplit, hafter, halone, hsame⟩ :=
        ih fun w hw => hvs w (List.mem_append_left _ hw)
      rw [edits_concat, heq]
      rcases hvs v (List.mem_append_right _ List.mem_cons_self) with hv | hv
      · obtain ⟨t, hput, ht, hshown⟩ := h.accepts hs' hv
        -- the edits before it leave no trace
        have hlast : Q last := hget ▸ h.fits hs'
        have hfirst : L.put s v = .ok t := by
          rw [← h.forgets hs hlast hv halone]
          exact hput
        have hagain : L.put t v = .ok t := by
          rw [← hshown]
          exact h.unchanged ht
        exact ⟨t, v, L.get s :: vs, [], edit_ok hput, ht, hshown, rfl, List.forall_mem_nil _,
          hfirst, hagain⟩
      · refine ⟨s', last, before, after ++ [v], edit_refused hs' hv, hs', hget, ?_, ?_, halone,
          hsame⟩
        · rw [← List.cons_append, hsplit, List.append_assoc, List.cons_append]
        · intro w hw
          rcases List.mem_append.mp hw with hw | hw
          · exact hafter w hw
          · rw [List.mem_singleton.mp hw]
            exact hv

end Lens

end MinRender
