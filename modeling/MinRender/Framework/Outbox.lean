import Mathlib.Data.List.Induction
import Mathlib.Data.List.Basic

/-!
# An outbox that is emptied in flushes

Entries are filed at any time. A flush takes all that is pending, makes its
requests, and puts back in front of what was filed meanwhile whatever it has
to try again. An entry is kept with its number in the order of filing, so that
equal entries stay apart.
-/

namespace MinRender

/-- A request: the entries in it and what came of it. -/
structure Attempt (ρ θ : Type*) where
  entries : List ρ
  outcome : θ
deriving DecidableEq, Repr

/-- What a flush puts back of its batch, and the requests it made. -/
structure Flushed (ρ θ : Type*) where
  back : List ρ
  sent : List (Attempt ρ θ)
deriving DecidableEq, Repr

structure Outbox (ρ θ : Type*) where
  /-- all entries so far, in order -/
  filed : List ρ := []
  pending : List (Nat × ρ) := []
  /-- what the running flush took -/
  batch : Option (List (Nat × ρ)) := none
  sent : List (Attempt (Nat × ρ) θ) := []

namespace Outbox

inductive Event (ρ ε : Type*)
  | file (x : ρ)
  /-- A flush begins. -/
  | take
  /-- It ends; `env` is what it met. -/
  | finish (env : ε)

variable {ρ θ ε : Type*}

section

variable (flush : ε → List (Nat × ρ) → Flushed (Nat × ρ) θ)

/-- There is one flush at a time, and none of an empty list. -/
def step (o : Outbox ρ θ) : Event ρ ε → Outbox ρ θ
  | .file x =>
      { o with filed := o.filed ++ [x], pending := o.pending ++ [(o.filed.length, x)] }
  | .take =>
      if o.batch.isSome ∨ o.pending.isEmpty then o
      else { o with batch := some o.pending, pending := [] }
  | .finish env =>
      match o.batch with
      | none => o
      | some b =>
          { o with
            batch := none
            pending := (flush env b).back ++ o.pending
            sent := o.sent ++ (flush env b).sent }

def run (es : List (Event ρ ε)) : Outbox ρ θ := es.foldl (step flush) {}

end

/-- The batch of the running flush, then what is pending. -/
def waiting (o : Outbox ρ θ) : List (Nat × ρ) := o.batch.getD [] ++ o.pending

variable {flush : ε → List (Nat × ρ) → Flushed (Nat × ρ) θ} {accepted : θ → Bool}
  {o : Outbox ρ θ}

theorem waiting_of_idle (h : o.batch = none) : o.waiting = o.pending := by
  rw [waiting, h]
  rfl

theorem run_append_singleton (es : List (Event ρ ε)) (e : Event ρ ε) :
    run flush (es ++ [e]) = (run flush es).step flush e := by
  unfold run
  rw [List.foldl_append]
  rfl

theorem run_filterMap_append {ω : Type*} (event : ω → Option (Event ρ ε)) (ws : List ω)
    (w : ω) : run flush ((ws ++ [w]).filterMap event) =
      (event w).elim (run flush (ws.filterMap event))
        ((run flush (ws.filterMap event)).step flush) := by
  rw [List.filterMap_append]
  cases h : event w with
  | none => simp [h]
  | some e => simp [h, run_append_singleton]

/-- A run keeps what every event keeps. -/
theorem run_invariant {I : Outbox ρ θ → Prop} (h₀ : I {})
    (h : ∀ o e, I o → I (o.step flush e)) (es : List (Event ρ ε)) : I (run flush es) := by
  induction es using List.reverseRecOn with
  | nil => exact h₀
  | append_singleton es e ih =>
      rw [run_append_singleton]
      exact h _ e ih

/-! ## The events, on what is waiting -/

theorem waiting_file {x : ρ} : (o.step flush (.file x)).waiting =
    o.waiting ++ [(o.filed.length, x)] := (List.append_assoc ..).symm

theorem take_cases (flush : ε → List (Nat × ρ) → Flushed (Nat × ρ) θ) (o : Outbox ρ θ) :
    o.step flush .take = o ∨
    o.batch = none ∧ o.step flush .take = { o with batch := some o.pending, pending := [] } := by
  by_cases h : o.batch.isSome ∨ o.pending.isEmpty
  · exact .inl (if_pos h)
  · refine .inr ⟨?_, if_neg h⟩
    rw [← Option.not_isSome_iff_eq_none]
    exact fun hs => h (.inl hs)

@[simp] theorem waiting_take : (o.step flush .take).waiting = o.waiting := by
  rcases take_cases flush o with h | ⟨hb, h⟩
  · rw [h]
  · rw [h, waiting_of_idle hb]
    exact List.append_nil _

@[simp] theorem filed_take : (o.step flush .take).filed = o.filed := by
  rcases take_cases flush o with h | ⟨-, h⟩ <;> rw [h]

@[simp] theorem sent_take : (o.step flush .take).sent = o.sent := by
  rcases take_cases flush o with h | ⟨-, h⟩ <;> rw [h]

theorem finish_cases (flush : ε → List (Nat × ρ) → Flushed (Nat × ρ) θ) (o : Outbox ρ θ)
    (env : ε) : o.batch = none ∧ o.step flush (.finish env) = o ∨
    ∃ b, o.batch = some b ∧ o.waiting = b ++ o.pending ∧
      (o.step flush (.finish env)).waiting = (flush env b).back ++ o.pending ∧
      (o.step flush (.finish env)).sent = o.sent ++ (flush env b).sent ∧
      (o.step flush (.finish env)).filed = o.filed := by
  unfold step
  cases h : o.batch with
  | none => exact .inl ⟨rfl, rfl⟩
  | some b => exact .inr ⟨b, rfl, by rw [waiting, h]; rfl, rfl, rfl, rfl⟩

theorem pending_finish {env : ε} (h : ∀ b, (flush env b).back = []) :
    (o.step flush (.finish env)).pending = o.pending := by
  unfold step
  cases o.batch with
  | none => rfl
  | some b =>
      show (flush env b).back ++ o.pending = o.pending
      rw [h b, List.nil_append]

theorem getElem?_append_singleton {l : List ρ} {x y : ρ} {i : Nat}
    (h : (l ++ [y])[i]? = some x) : l[i]? = some x ∨ i = l.length ∧ y = x := by
  rcases Nat.lt_or_ge i l.length with hi | hi
  · rw [List.getElem?_append_left hi] at h
    exact .inl h
  · rw [List.getElem?_append_right hi] at h
    obtain ⟨hzero, hx⟩ := List.getElem?_eq_some_iff.mp h
    rw [List.length_singleton] at hzero
    refine .inr ⟨by omega, ?_⟩
    rw [← hx, List.getElem_singleton]

/-! ## Nothing is lost -/

/-- An entry was in a request that was accepted. -/
def Answered (accepted : θ → Bool) (sent : List (Attempt (Nat × ρ) θ)) (x : Nat × ρ) : Prop :=
  ∃ a ∈ sent, accepted a.outcome = true ∧ x ∈ a.entries

/-- A flush puts back whatever it did not get accepted. -/
def KeepsAll (accepted : θ → Bool) (b : List (Nat × ρ)) (f : Flushed (Nat × ρ) θ) : Prop :=
  ∀ x ∈ b, x ∈ f.back ∨ Answered accepted f.sent x

theorem Answered.append_left {sent more : List (Attempt (Nat × ρ) θ)} {x : Nat × ρ}
    (h : Answered accepted sent x) : Answered accepted (sent ++ more) x := by
  obtain ⟨a, ha, h⟩ := h
  exact ⟨a, List.mem_append_left _ ha, h⟩

theorem Answered.append_right {sent more : List (Attempt (Nat × ρ) θ)} {x : Nat × ρ}
    (h : Answered accepted more x) : Answered accepted (sent ++ more) x := by
  obtain ⟨a, ha, h⟩ := h
  exact ⟨a, List.mem_append_right _ ha, h⟩

/-- Every entry filed is waiting or was accepted. -/
def LosesNothing (accepted : θ → Bool) (o : Outbox ρ θ) : Prop :=
  ∀ i x, o.filed[i]? = some x → (i, x) ∈ o.waiting ∨ Answered accepted o.sent (i, x)

theorem losesNothing_step (hflush : ∀ env b, KeepsAll accepted b (flush env b))
    (h : o.LosesNothing accepted) (e : Event ρ ε) :
    (o.step flush e).LosesNothing accepted := by
  intro i x hx
  cases e with
  | file y =>
      rw [waiting_file]
      rcases getElem?_append_singleton hx with hold | ⟨rfl, rfl⟩
      · exact (h i x hold).imp_left (List.mem_append_left _)
      · exact .inl (List.mem_append_right _ (List.mem_singleton_self _))
  | take =>
      rw [filed_take] at hx
      rw [waiting_take, sent_take]
      exact h i x hx
  | finish env =>
      rcases finish_cases flush o env with ⟨-, hsame⟩ | ⟨b, -, hw, hw', hs, hf⟩
      · rw [hsame] at hx ⊢
        exact h i x hx
      · rw [hf] at hx
        rw [hw', hs]
        rcases h i x hx with hwait | hans
        · rw [hw, List.mem_append] at hwait
          rcases hwait with hb | hp
          · exact (hflush env b _ hb).imp (List.mem_append_left _) Answered.append_right
          · exact .inl (List.mem_append_right _ hp)
        · exact .inr hans.append_left

/-- **Nothing is lost** by flushes that put back what was not accepted. -/
theorem losesNothing_run (flush : ε → List (Nat × ρ) → Flushed (Nat × ρ) θ)
    (hflush : ∀ env b, KeepsAll accepted b (flush env b))
    (es : List (Event ρ ε)) : (run flush es).LosesNothing accepted := by
  have hempty : ({} : Outbox ρ θ).LosesNothing accepted := by
    intro i x h
    cases h
  exact run_invariant hempty (fun o e h => losesNothing_step hflush h e) es

/-! ## What the requests are -/

/-- A flush puts back and sends nothing but entries of its batch. -/
structure Own (b : List (Nat × ρ)) (f : Flushed (Nat × ρ) θ) : Prop where
  back : ∀ x ∈ f.back, x ∈ b
  sent : ∀ a ∈ f.sent, ∀ x ∈ a.entries, x ∈ b

/-- What waits and what was sent was filed. -/
structure Known (o : Outbox ρ θ) : Prop where
  waiting : ∀ x ∈ o.waiting, o.filed[x.1]? = some x.2
  sent : ∀ a ∈ o.sent, ∀ x ∈ a.entries, o.filed[x.1]? = some x.2

theorem getElem?_append_of_some {l : List ρ} {x y : ρ} {i : Nat} (h : l[i]? = some x) :
    (l ++ [y])[i]? = some x := by
  rw [List.getElem?_append_left (List.getElem?_eq_some_iff.mp h).1]
  exact h

theorem known_step (hflush : ∀ env b, Own b (flush env b)) (h : o.Known) (e : Event ρ ε) :
    (o.step flush e).Known := by
  cases e with
  | file y =>
      constructor
      · intro x hx
        rw [waiting_file, List.mem_append, List.mem_singleton] at hx
        rcases hx with hx | rfl
        · exact getElem?_append_of_some (h.waiting x hx)
        · exact List.getElem?_concat_length
      · intro a ha x hx
        exact getElem?_append_of_some (h.sent a ha x hx)
  | take =>
      constructor
      · rw [waiting_take, filed_take]
        exact h.waiting
      · rw [sent_take, filed_take]
        exact h.sent
  | finish env =>
      rcases finish_cases flush o env with ⟨-, hsame⟩ | ⟨b, -, hw, hw', hs, hf⟩
      · rw [hsame]
        exact h
      have hb : ∀ x ∈ b, o.filed[x.1]? = some x.2 := by
        intro x hx
        exact h.waiting x (hw ▸ List.mem_append_left _ hx)
      constructor
      · intro x hx
        rw [hw', List.mem_append] at hx
        rw [hf]
        rcases hx with hx | hx
        · exact hb x ((hflush env b).back x hx)
        · exact h.waiting x (hw ▸ List.mem_append_right _ hx)
      · intro a ha x hx
        rw [hs, List.mem_append] at ha
        rw [hf]
        rcases ha with ha | ha
        · exact h.sent a ha x hx
        · exact hb x ((hflush env b).sent a ha x hx)

theorem known_run (flush : ε → List (Nat × ρ) → Flushed (Nat × ρ) θ)
    (hflush : ∀ env b, Own b (flush env b)) (es : List (Event ρ ε)) :
    (run flush es).Known := by
  have hempty : ({} : Outbox ρ θ).Known := by
    constructor
    · intro x hx
      cases hx
    · intro a ha
      cases ha
  exact run_invariant hempty (fun o e h => known_step hflush h e) es

/-- Every request of a run was made by one of its flushes. -/
theorem sent_run (flush : ε → List (Nat × ρ) → Flushed (Nat × ρ) θ) (es : List (Event ρ ε))
    {a : Attempt (Nat × ρ) θ} (ha : a ∈ (run flush es).sent) :
    ∃ env b, Event.finish env ∈ es ∧ a ∈ (flush env b).sent := by
  induction es using List.reverseRecOn with
  | nil => cases ha
  | append_singleton es e ih =>
      have hbefore (ha : a ∈ (run flush es).sent) :
          ∃ env b, Event.finish env ∈ es ++ [e] ∧ a ∈ (flush env b).sent := by
        obtain ⟨env, b, henv, hb⟩ := ih ha
        exact ⟨env, b, List.mem_append_left _ henv, hb⟩
      rw [run_append_singleton] at ha
      cases e with
      | file y => exact hbefore ha
      | take =>
          rw [sent_take] at ha
          exact hbefore ha
      | finish env =>
          rcases finish_cases flush (run flush es) env with ⟨-, hsame⟩ | ⟨b, -, -, -, hs, -⟩
          · rw [hsame] at ha
            exact hbefore ha
          · rw [hs, List.mem_append] at ha
            rcases ha with ha | ha
            · exact hbefore ha
            · exact ⟨env, b, List.mem_append_right _ (List.mem_singleton_self _), ha⟩

/-! ## Order, and no entry again once it was accepted -/

/-- What one request got accepted is not in the other. -/
def Apart (accepted : θ → Bool) (a a' : Attempt (Nat × ρ) θ) : Prop :=
  accepted a.outcome = true → ∀ x ∈ a.entries, x ∉ a'.entries

/-- A flush puts back an end of its batch, sends nothing but entries of it,
and sends or puts back none of them after it was accepted. -/
structure Orderly (accepted : θ → Bool) (b : List (Nat × ρ)) (f : Flushed (Nat × ρ) θ) :
    Prop where
  back : f.back <:+ b
  own : ∀ a ∈ f.sent, ∀ x ∈ a.entries, x ∈ b
  once : f.sent.Pairwise (Apart accepted)
  settled : ∀ a ∈ f.sent, accepted a.outcome = true → ∀ x ∈ a.entries, x ∉ f.back

/-- What waits is in the order of filing, and what was accepted was not sent
again and does not wait. -/
structure InOrder (accepted : θ → Bool) (o : Outbox ρ θ) : Prop where
  sorted : o.waiting.Pairwise (·.1 < ·.1)
  known : ∀ x ∈ o.waiting, o.filed[x.1]? = some x.2
  once : o.sent.Pairwise (Apart accepted)
  settled : ∀ a ∈ o.sent, accepted a.outcome = true → ∀ x ∈ a.entries,
    x.1 < o.filed.length ∧ x ∉ o.waiting

theorem InOrder.lt_length (h : o.InOrder accepted) {x : Nat × ρ} (hx : x ∈ o.waiting) :
    x.1 < o.filed.length := (List.getElem?_eq_some_iff.mp (h.known x hx)).1

theorem inOrder_file (h : o.InOrder accepted) (x : ρ) :
    (o.step flush (.file x)).InOrder accepted := by
  have hfiled : (o.step flush (.file x)).filed = o.filed ++ [x] := rfl
  constructor
  · rw [waiting_file, List.pairwise_append]
    refine ⟨h.sorted, List.pairwise_singleton _ _, ?_⟩
    intro y hy z hz
    rw [List.mem_singleton] at hz
    rw [hz]
    exact h.lt_length hy
  · intro y hy
    rw [waiting_file, List.mem_append, List.mem_singleton] at hy
    rw [hfiled]
    rcases hy with hy | rfl
    · rw [List.getElem?_append_left (h.lt_length hy)]
      exact h.known y hy
    · exact List.getElem?_concat_length
  · exact h.once
  · intro a ha hacc y hy
    obtain ⟨hlt, hnot⟩ := h.settled a ha hacc y hy
    rw [hfiled, List.length_append]
    refine ⟨by omega, ?_⟩
    rw [waiting_file, List.mem_append, List.mem_singleton]
    rintro (hwait | rfl)
    · exact hnot hwait
    · exact absurd hlt (Nat.lt_irrefl _)

theorem inOrder_finish (hflush : ∀ env b, b.Pairwise (·.1 < ·.1) →
      Orderly accepted b (flush env b)) (h : o.InOrder accepted) (env : ε) :
    (o.step flush (.finish env)).InOrder accepted := by
  rcases finish_cases flush o env with ⟨-, hsame⟩ | ⟨b, -, hw, hw', hs, hf⟩
  · rw [hsame]
    exact h
  have hsorted : (b ++ o.pending).Pairwise (·.1 < ·.1) := hw ▸ h.sorted
  have hb : Orderly accepted b (flush env b) := hflush env b (List.pairwise_append.mp hsorted).1
  have hsub : (o.step flush (.finish env)).waiting.Sublist o.waiting := by
    rw [hw, hw']
    exact hb.back.sublist.append_right _
  have hin : ∀ x ∈ b, x ∈ o.waiting := fun x hx => hw ▸ List.mem_append_left _ hx
  constructor
  · exact h.sorted.sublist hsub
  · intro x hx
    rw [hf]
    exact h.known x (hsub.subset hx)
  · rw [hs, List.pairwise_append]
    refine ⟨h.once, hb.once, ?_⟩
    intro a ha a' ha' hacc x hx hx'
    exact (h.settled a ha hacc x hx).2 (hin x (hb.own a' ha' x hx'))
  · intro a ha hacc x hx
    rw [hs, List.mem_append] at ha
    rw [hf]
    rcases ha with ha | ha
    · obtain ⟨hlt, hnot⟩ := h.settled a ha hacc x hx
      exact ⟨hlt, fun hwait => hnot (hsub.subset hwait)⟩
    · have hxb : x ∈ b := hb.own a ha x hx
      refine ⟨h.lt_length (hin x hxb), ?_⟩
      rw [hw', List.mem_append]
      rintro (hback | hlater)
      · exact hb.settled a ha hacc x hx hback
      · exact absurd ((List.pairwise_append.mp hsorted).2.2 x hxb x hlater) (Nat.lt_irrefl _)

/-- **Order is kept and nothing accepted is sent again** by orderly flushes. -/
theorem inOrder_run (flush : ε → List (Nat × ρ) → Flushed (Nat × ρ) θ)
    (hflush : ∀ env b, b.Pairwise (·.1 < ·.1) → Orderly accepted b (flush env b))
    (es : List (Event ρ ε)) :
    (run flush es).InOrder accepted := by
  have hempty : ({} : Outbox ρ θ).InOrder accepted :=
    ⟨List.Pairwise.nil, fun _ h => (nomatch h), List.Pairwise.nil, fun _ h => (nomatch h)⟩
  refine run_invariant hempty ?_ es
  intro o e h
  cases e with
  | file x => exact inOrder_file h x
  | take =>
      constructor
      · rw [waiting_take]
        exact h.sorted
      · rw [waiting_take, filed_take]
        exact h.known
      · rw [sent_take]
        exact h.once
      · rw [waiting_take, filed_take, sent_take]
        exact h.settled
  | finish env => exact inOrder_finish hflush h env

end Outbox

end MinRender
