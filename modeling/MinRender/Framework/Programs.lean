import Mathlib.Logic.Function.Basic
import MinRender.Framework.Runs

/-!
# Programs over atomic calls, and their interleavings

A program is a tree of calls on a shared object: each call is atomic, its
reply picks the rest of the program. A pool runs several programs against one
object, one call at a time, in any order. Two rules carry the concurrency
proofs: the hand-off rule (what a call establishes for the call right after it
in the same thread, whatever the other threads do in between) and the debt
rule (a bad condition that a thread creates midway is one it repays before it
ends).
-/

namespace MinRender

/-- The calls an object accepts and what each answers. -/
structure Interface where
  Call : Type
  Reply : Call → Type

/-- A program: it ends with a value, or makes a call and goes on. -/
inductive Prog (F : Interface) (α : Type) : Type
  | done (a : α)
  | call (c : F.Call) (k : F.Reply c → Prog F α)

/-- The object: what each call answers and leaves behind. -/
def Handler (F : Interface) (σ : Type) : Type :=
  (c : F.Call) → σ → F.Reply c × σ

namespace Prog

variable {F : Interface} {α β σ : Type}

def bind : Prog F α → (α → Prog F β) → Prog F β
  | done a, f => f a
  | call c k, f => call c fun r => (k r).bind f

instance : Monad (Prog F) where
  pure := done
  bind := bind

/-- One call and its reply. -/
def ask (c : F.Call) : Prog F (F.Reply c) := call c done

/-- The program run without interruption. -/
def run (h : Handler F σ) : Prog F α → σ → α × σ
  | done a, s => (a, s)
  | call c k, s => (k (h c s).1).run h (h c s).2

@[simp] theorem pure_eq (a : α) : (pure a : Prog F α) = done a := rfl

@[simp] theorem done_bind (a : α) (f : α → Prog F β) : done a >>= f = f a := rfl

@[simp] theorem ask_bind (c : F.Call) (f : F.Reply c → Prog F β) :
    ask c >>= f = call c f := rfl

theorem run_bind (h : Handler F σ) (p : Prog F α) (f : α → Prog F β) (s : σ) :
    (p >>= f).run h s = (f (p.run h s).1).run h (p.run h s).2 := by
  induction p generalizing s with
  | done a => rfl
  | call c k ih => exact ih _ _

@[simp] theorem run_done (h : Handler F σ) (a : α) (s : σ) :
    (done a : Prog F α).run h s = (a, s) := rfl

@[simp] theorem run_call (h : Handler F σ) (c : F.Call) (k : F.Reply c → Prog F α)
    (s : σ) : (call c k).run h s = (k (h c s).1).run h (h c s).2 := rfl

/-- The calls the program makes in such a run. -/
def trace (h : Handler F σ) : Prog F α → σ → List F.Call
  | done _, _ => []
  | call c k, s => c :: (k (h c s).1).trace h (h c s).2

@[simp] theorem trace_done (h : Handler F σ) (a : α) (s : σ) :
    (done a : Prog F α).trace h s = [] := rfl

@[simp] theorem trace_call (h : Handler F σ) (c : F.Call) (k : F.Reply c → Prog F α)
    (s : σ) : (call c k).trace h s = c :: (k (h c s).1).trace h (h c s).2 := rfl

theorem trace_bind (h : Handler F σ) (p : Prog F α) (f : α → Prog F β) (s : σ) :
    (p >>= f).trace h s = p.trace h s ++ (f (p.run h s).1).trace h (p.run h s).2 := by
  induction p generalizing s with
  | done a => rfl
  | call c k ih => exact congrArg (c :: ·) (ih _ _)

/-! ## Properties of the calls a program makes -/

/-- Every call the program can make satisfies `P`. -/
def Every (P : F.Call → Prop) : Prog F α → Prop
  | done _ => True
  | call c k => P c ∧ ∀ r, (k r).Every P

/-- Whatever the replies, the program makes a call that satisfies `P`. -/
def Surely (P : F.Call → Prop) : Prog F α → Prop
  | done _ => False
  | call c k => P c ∨ ∀ r, (k r).Surely P

/-- The program's first call, if it makes one, satisfies `P`. -/
def First (P : F.Call → Prop) : Prog F α → Prop
  | done _ => True
  | call c _ => P c

/-- Every call and the one right after it are `A`-related, the first call's
reply included. -/
def Adjacent (A : (c : F.Call) → F.Reply c → F.Call → Prop) : Prog F α → Prop
  | done _ => True
  | call c k => ∀ r, (k r).First (A c r) ∧ (k r).Adjacent A

/-- After every call that may `cause` a debt the program surely `pays` it. -/
def Repays {δ : Type} (cause pays : δ → F.Call → Prop) : Prog F α → Prop
  | done _ => True
  | call c k => (∀ d, cause d c → ∀ r, (k r).Surely (pays d)) ∧
      ∀ r, (k r).Repays cause pays

theorem Every.bind {P : F.Call → Prop} {p : Prog F α} {f : α → Prog F β}
    (hp : p.Every P) (hf : ∀ a, (f a).Every P) : (p >>= f).Every P := by
  induction p with
  | done a => exact hf a
  | call c k ih => exact ⟨hp.1, fun r => ih r (hp.2 r)⟩

theorem Every.ask {P : F.Call → Prop} {c : F.Call} {f : F.Reply c → Prog F β}
    (hc : P c) (hf : ∀ r, (f r).Every P) : (Prog.ask c >>= f).Every P :=
  ⟨hc, hf⟩

theorem Every.mono {P Q : F.Call → Prop} (h : ∀ c, P c → Q c) {p : Prog F α}
    (hp : p.Every P) : p.Every Q := by
  induction p with
  | done a => exact trivial
  | call c k ih => exact ⟨h c hp.1, fun r => ih r (hp.2 r)⟩

/-- **Frame rule.** What no call of the program changes is the same after its
run. -/
theorem Every.run_keeps {γ : Type} {P : F.Call → Prop} {h : Handler F σ} {p : Prog F α}
    (hp : p.Every P) (f : σ → γ) (hf : ∀ c s, P c → f (h c s).2 = f s) (s : σ) :
    f (p.run h s).2 = f s := by
  induction p generalizing s with
  | done a => rfl
  | call c k ih => exact (ih _ (hp.2 _) _).trans (hf c s hp.1)

/-- Every call of the run meets `P` in the state it finds. -/
def Meets (h : Handler F σ) (P : F.Call → σ → Prop) : Prog F α → σ → Prop
  | done _, _ => True
  | call c k, s => P c s ∧ (k (h c s).1).Meets h P (h c s).2

/-- What follows meets `P` in the state the program leaves. -/
theorem meets_bind {h : Handler F σ} {P : F.Call → σ → Prop} (p : Prog F α)
    (f : α → Prog F β) (s : σ) :
    (p >>= f).Meets h P s ↔ p.Meets h P s ∧ (f (p.run h s).1).Meets h P (p.run h s).2 := by
  induction p generalizing s with
  | done a => exact (and_iff_right trivial).symm
  | call c k ih =>
      have hrest := ih (h c s).1 (h c s).2
      exact (and_congr_right fun _ => hrest).trans and_assoc.symm

/-- **Invariant rule.** Where the calls of a program keep `I`, and meet `P`
under it, its run meets `P` and ends in `I`. -/
theorem Every.run_invariant {P : F.Call → Prop} {h : Handler F σ} {p : Prog F α}
    {I : σ → Prop} {good : F.Call → σ → Prop} (hp : p.Every P)
    (hI : ∀ c s, P c → I s → good c s ∧ I (h c s).2) {s : σ} (hs : I s) :
    p.Meets h good s ∧ I (p.run h s).2 := by
  induction p generalizing s with
  | done a => exact ⟨trivial, hs⟩
  | call c k ih =>
      obtain ⟨hgood, hs'⟩ := hI c s hp.1 hs
      obtain ⟨hrest, hend⟩ := ih _ (hp.2 _) hs'
      exact ⟨⟨hgood, hrest⟩, hend⟩

theorem Every.forM {P : F.Call → Prop} {ι : Type} {f : ι → Prog F Unit}
    (hf : ∀ i, (f i).Every P) : ∀ xs : List ι, (xs.forM f).Every P
  | [] => trivial
  | x :: xs => Every.bind (hf x) fun _ => Every.forM hf xs

theorem Every.foldlM {P : F.Call → Prop} {ι : Type} {f : β → ι → Prog F β}
    (hf : ∀ b i, (f b i).Every P) : ∀ (xs : List ι) (b : β), (xs.foldlM f b).Every P
  | [], _ => trivial
  | x :: xs, b => Every.bind (hf b x) fun b' => Every.foldlM hf xs b'

/-- **Loop rule.** What holds before a loop and is kept by each of its turns,
in the order of the list, holds after it. -/
theorem run_foldlM {ι : Type} {f : β → ι → Prog F β} {h : Handler F σ}
    {I : List ι → β → σ → Prop}
    (hturn : ∀ past i b s, I past b s →
      I (past ++ [i]) ((f b i).run h s).1 ((f b i).run h s).2) :
    ∀ (xs past : List ι) (b : β) (s : σ), I past b s →
      I (past ++ xs) ((xs.foldlM f b).run h s).1 ((xs.foldlM f b).run h s).2
  | [], past, b, s, hI => by
      rw [List.append_nil]
      exact hI
  | x :: xs, past, b, s, hI => by
      have hrest := run_foldlM hturn xs (past ++ [x]) _ _ (hturn past x b s hI)
      rw [List.foldlM_cons, run_bind]
      rwa [List.append_assoc] at hrest

/-- The program can end with the value, whatever the object answers it. -/
inductive Ends : Prog F α → α → Prop
  | done (a : α) : Ends (.done a) a
  | call {c : F.Call} {k : F.Reply c → Prog F α} {a : α} (r : F.Reply c) (h : Ends (k r) a) :
      Ends (.call c k) a

@[simp] theorem ends_done {a b : α} : Ends (.done a : Prog F α) b ↔ b = a := by
  constructor
  · rintro ⟨⟩
    rfl
  · rintro rfl
    exact .done b

/-- What an uninterrupted run ends with. -/
theorem Ends.of_run (h : Handler F σ) (p : Prog F α) (s : σ) : Ends p (p.run h s).1 := by
  induction p generalizing s with
  | done a => exact .done a
  | call c k ih => exact .call (h c s).1 (ih _ _)

theorem Ends.reply {c : F.Call} {k : F.Reply c → Prog F α} {a : α} (h : Ends (.call c k) a) :
    ∃ r, Ends (k r) a := by
  cases h with
  | call r h => exact ⟨r, h⟩

theorem Ends.of_bind {p : Prog F α} {f : α → Prog F β} {b : β} (h : Ends (p >>= f) b) :
    ∃ a, Ends p a ∧ Ends (f a) b := by
  induction p with
  | done a => exact ⟨a, .done a, h⟩
  | call c k ih =>
      obtain ⟨r, hr⟩ := Ends.reply h
      obtain ⟨a, hp, hf⟩ := ih r hr
      exact ⟨a, .call r hp, hf⟩

/-- The program can make these calls, answered so, and end with the value. -/
inductive Answered : Prog F α → List ((c : F.Call) × F.Reply c) → α → Prop
  | done (a : α) : Answered (.done a) [] a
  | call {c : F.Call} {k : F.Reply c → Prog F α} {es : List ((c : F.Call) × F.Reply c)} {a : α}
      (r : F.Reply c) (h : Answered (k r) es a) : Answered (.call c k) (⟨c, r⟩ :: es) a

/-- Whatever it is answered, the program makes only calls it `may` make after
what it has seen, and ends as it may end after that. -/
def Watched {S : Type} (see : S → (c : F.Call) → F.Reply c → S) (may : S → F.Call → Prop)
    (mayEnd : S → α → Prop) : S → Prog F α → Prop
  | s, done a => mayEnd s a
  | s, call c k => may s c ∧ ∀ r, (k r).Watched see may mayEnd (see s c r)

section Watching

variable {S : Type} {see : S → (c : F.Call) → F.Reply c → S} {may : S → F.Call → Prop}
  {mayEnd : S → α → Prop}

/-- What has been seen after these calls. -/
def seen (see : S → (c : F.Call) → F.Reply c → S) (s : S)
    (es : List ((c : F.Call) × F.Reply c)) : S :=
  es.foldl (fun s e => see s e.1 e.2) s

/-- **Monitor rule.** What is checked of the program holds of each of its runs. -/
theorem Watched.answered {s : S} {p : Prog F α} {es : List ((c : F.Call) × F.Reply c)} {a : α}
    (hp : p.Watched see may mayEnd s) (h : Answered p es a) :
    mayEnd (seen see s es) a ∧
      ∀ before e after, es = before ++ e :: after → may (seen see s before) e.1 := by
  induction h generalizing s with
  | done a =>
      refine ⟨hp, fun before e after hsplit => ?_⟩
      simp at hsplit
  | call r h ih =>
      obtain ⟨hend, hrest⟩ := ih (hp.2 r)
      refine ⟨hend, fun before e after hsplit => ?_⟩
      cases before with
      | nil =>
          obtain ⟨rfl, -⟩ := List.cons.inj hsplit
          exact hp.1
      | cons e' before =>
          obtain ⟨rfl, htail⟩ := List.cons.inj hsplit
          exact hrest before e after htail

end Watching

/-- The loop rule where other threads may call in between: each turn keeps the
property whatever it is answered. -/
theorem ends_foldlM {ι : Type} {f : β → ι → Prog F β} {I : List ι → β → Prop}
    (hturn : ∀ past i b b', I past b → Ends (f b i) b' → I (past ++ [i]) b') :
    ∀ {xs past : List ι} {b b' : β}, I past b → Ends (xs.foldlM f b) b' → I (past ++ xs) b'
  | [], past, b, b', hI, hends => by
      rw [List.foldlM_nil, pure_eq, ends_done] at hends
      rw [List.append_nil, hends]
      exact hI
  | x :: xs, past, b, b', hI, hends => by
      rw [List.foldlM_cons] at hends
      obtain ⟨b₁, hfirst, hrest⟩ := hends.of_bind
      have hI₁ := hturn past x b b₁ hI hfirst
      have hend := ends_foldlM hturn hI₁ hrest
      rwa [List.append_assoc] at hend

theorem Every.ite {P : F.Call → Prop} {b : Prop} [Decidable b] {p q : Prog F α}
    (hp : p.Every P) (hq : q.Every P) : (if b then p else q).Every P := by
  split
  · exact hp
  · exact hq

theorem Every.first {P : F.Call → Prop} {p : Prog F α} (hp : p.Every P) :
    p.First P := by
  cases p with
  | done a => exact trivial
  | call c k => exact hp.1

theorem First.mono {P Q : F.Call → Prop} (h : ∀ c, P c → Q c) {p : Prog F α}
    (hp : p.First P) : p.First Q := by
  cases p with
  | done a => exact trivial
  | call c k => exact h c hp

theorem First.bind {P : F.Call → Prop} {p : Prog F α} {f : α → Prog F β}
    (hp : p.First P) (hf : ∀ a, (f a).First P) : (p >>= f).First P := by
  cases p with
  | done a => exact hf a
  | call c k => exact hp

/-- A program whose every call is free to follow any other. -/
theorem Adjacent.of_every {A : (c : F.Call) → F.Reply c → F.Call → Prop}
    {p : Prog F α} (hp : p.Every fun c' => ∀ c r, A c r c') : p.Adjacent A := by
  induction p with
  | done a => exact trivial
  | call c k ih =>
      intro r
      refine ⟨?_, ih r (hp.2 r)⟩
      have hr := hp.2 r
      cases hk : k r with
      | done a => exact trivial
      | call c' k' =>
          rw [hk] at hr
          exact hr.1 c r

theorem Adjacent.bind {A : (c : F.Call) → F.Reply c → F.Call → Prop}
    {p : Prog F α} {f : α → Prog F β} (hp : p.Adjacent A)
    (hf : ∀ a, (f a).Adjacent A)
    (hfirst : ∀ a, (f a).First fun c' => ∀ c r, A c r c') :
    (p >>= f).Adjacent A := by
  induction p with
  | done a => exact hf a
  | call c k ih =>
      intro r
      have hlink : (k r >>= f).First (A c r) :=
        First.bind (hp r).1 fun a => (hfirst a).mono fun c' hc' => hc' c r
      exact ⟨hlink, ih r (hp r).2⟩

theorem First.forM {P : F.Call → Prop} {ι : Type} {f : ι → Prog F Unit}
    (hf : ∀ i, (f i).First P) : ∀ xs : List ι, (xs.forM f).First P
  | [] => trivial
  | x :: xs => First.bind (hf x) fun _ => First.forM hf xs

theorem Adjacent.forM {A : (c : F.Call) → F.Reply c → F.Call → Prop} {ι : Type}
    {f : ι → Prog F Unit} (hf : ∀ i, (f i).Adjacent A)
    (hfirst : ∀ i, (f i).First fun c' => ∀ c r, A c r c') :
    ∀ xs : List ι, (xs.forM f).Adjacent A
  | [] => trivial
  | x :: xs => Adjacent.bind (hf x) (fun _ => Adjacent.forM hf hfirst xs)
      fun _ => First.forM hfirst xs

section Debts

variable {δ : Type} {cause pays : δ → F.Call → Prop}

theorem Surely.bind {P : F.Call → Prop} {p : Prog F α} {f : α → Prog F β}
    (hp : p.Surely P) : (p >>= f).Surely P := by
  induction p with
  | done a => exact hp.elim
  | call c k ih => exact hp.imp id fun h r => ih r (h r)

theorem Repays.bind {p : Prog F α} {f : α → Prog F β}
    (hp : p.Repays cause pays) (hf : ∀ a, (f a).Repays cause pays) :
    (p >>= f).Repays cause pays := by
  induction p with
  | done a => exact hf a
  | call c k ih =>
      exact ⟨fun d hd r => (hp.1 d hd r).bind, fun r => ih r (hp.2 r)⟩

/-- A call that causes no debt leaves the program's debts to what follows. -/
theorem Repays.ask {c : F.Call} {f : F.Reply c → Prog F β}
    (hc : ∀ d, ¬ cause d c) (hf : ∀ r, (f r).Repays cause pays) :
    (Prog.ask c >>= f).Repays cause pays :=
  ⟨fun d hd => absurd hd (hc d), hf⟩

theorem Repays.ite {b : Prop} [Decidable b] {p q : Prog F α}
    (hp : p.Repays cause pays) (hq : q.Repays cause pays) :
    (if b then p else q).Repays cause pays := by
  split
  · exact hp
  · exact hq

/-- A program that causes no debt repays all of them. -/
theorem Repays.of_every {p : Prog F α}
    (hp : p.Every fun c => ∀ d, ¬ cause d c) : p.Repays cause pays := by
  induction p with
  | done a => exact trivial
  | call c k ih =>
      exact ⟨fun d hd => absurd hd (hp.1 d), fun r => ih r (hp.2 r)⟩

theorem Repays.forM {ι : Type} {f : ι → Prog F Unit}
    (hf : ∀ i, (f i).Repays cause pays) :
    ∀ xs : List ι, (xs.forM f).Repays cause pays
  | [] => trivial
  | x :: xs => Repays.bind (hf x) fun _ => Repays.forM hf xs

end Debts

end Prog

/-! ## Pools -/

/-- The shared object and what is left of each thread's program. -/
structure Pool (F : Interface) (σ ι : Type) where
  shared : σ
  thread : ι → Prog F Unit

/-- One scheduling decision: an idle thread takes up a task, or a thread makes
its next call. -/
inductive Sched (ι : Type) (task : ι → Type)
  | start (i : ι) (t : task i)
  | step (i : ι)

/-- The thread a decision is about. -/
def Sched.thread {ι : Type} {task : ι → Type} : Sched ι task → ι
  | .start i _ => i
  | .step i => i

/-- The program has ended. -/
def Prog.ended {F : Interface} {α : Type} : Prog F α → Bool
  | .done _ => true
  | .call _ _ => false

namespace Pool

variable {F : Interface} {σ ι : Type} {task : ι → Type} [DecidableEq ι]

/-- No thread is midway. -/
def Quiet (w : Pool F σ ι) : Prop := ∀ i, w.thread i = .done ()

/-- The pool in which thread `i` runs task `t` as `code i t`. -/
def machine (h : Handler F σ) (code : (i : ι) → task i → Prog F Unit) :
    Machine (Pool F σ ι) (Sched ι task) where
  step w
    | .start i t =>
        match w.thread i with
        | .done () => some { w with thread := Function.update w.thread i (code i t) }
        | .call _ _ => none
    | .step i =>
        match w.thread i with
        | .done () => none
        | .call c k =>
            some { shared := (h c w.shared).2
                   thread := Function.update w.thread i (k (h c w.shared).1) }

variable {h : Handler F σ} {code : (i : ι) → task i → Prog F Unit}

/-- All a scheduling decision can do. -/
theorem step_cases {w w' : Pool F σ ι} {e : Sched ι task}
    (hstep : (machine h code).step w e = some w') :
    (∃ i t, e = .start i t ∧ w.thread i = .done () ∧
      w' = { w with thread := Function.update w.thread i (code i t) }) ∨
    (∃ i c k, e = .step i ∧ w.thread i = .call c k ∧
      w' = { shared := (h c w.shared).2
             thread := Function.update w.thread i (k (h c w.shared).1) }) := by
  cases e with
  | start i t =>
      cases hi : w.thread i with
      | done u =>
          simp only [machine, hi, Option.some.injEq] at hstep
          exact .inl ⟨i, t, rfl, hi, hstep.symm⟩
      | call c k => simp [machine, hi] at hstep
  | step i =>
      cases hi : w.thread i with
      | done u => simp [machine, hi] at hstep
      | call c k =>
          simp only [machine, hi, Option.some.injEq] at hstep
          exact .inr ⟨i, c, k, rfl, hi, hstep.symm⟩

/-- A run that only moves the threads of a list, all ended, leaves the pool
quiet. -/
theorem quiet_of_run (is : List ι) {es : List (Sched ι task)} {w u : Pool F σ ι}
    (hw : w.Quiet) (hes : ∀ e ∈ es, e.thread ∈ is)
    (hrun : (machine h code).run w es = some u)
    (hu : ∀ i ∈ is, (u.thread i).ended = true) : u.Quiet := by
  have hout : ∀ i, i ∉ is → u.thread i = .done () := by
    have hw' : ∀ i, i ∉ is → w.thread i = .done () := fun i _ => hw i
    clear hw hu
    induction es generalizing w with
    | nil =>
        cases hrun
        exact hw'
    | cons e es ih =>
        rw [Machine.run_cons] at hrun
        cases hstep : (machine h code).step w e with
        | none => simp [hstep] at hrun
        | some w' =>
            rw [hstep] at hrun
            refine ih (fun e he => hes e (List.mem_cons_of_mem _ he)) hrun ?_
            intro j hj
            have hne : j ≠ e.thread := fun heq =>
              hj (heq ▸ hes e List.mem_cons_self)
            obtain ⟨i, t, rfl, -, rfl⟩ | ⟨i, c, k, rfl, -, rfl⟩ := step_cases hstep
            · exact (Function.update_of_ne hne _ _).trans (hw' j hj)
            · exact (Function.update_of_ne hne _ _).trans (hw' j hj)
  intro i
  by_cases hi : i ∈ is
  · have := hu i hi
    cases hp : u.thread i with
    | done a => rfl
    | call c k =>
        rw [hp] at this
        cases this
  · exact hout i hi

/-- The call the next decision executes satisfies `P` in the state it meets. -/
def Calls (P : ι → F.Call → σ → Prop) (w : Pool F σ ι) : Sched ι task → Prop
  | .start _ _ => True
  | .step i =>
      match w.thread i with
      | .done () => True
      | .call c _ => P i c w.shared

/-- A property of what is left of a program that holds of every task's code
and passes from a program to what is left of it holds of every thread. -/
theorem thread_all {Q : ι → Prog F Unit → Prop} {w w' : Pool F σ ι}
    {e : Sched ι task} (hcode : ∀ i t, Q i (code i t))
    (hrest : ∀ i c k r, Q i (.call c k) → Q i (k r))
    (hstep : (machine h code).step w e = some w')
    (hw : ∀ i, Q i (w.thread i)) : ∀ i, Q i (w'.thread i) := by
  intro j
  obtain ⟨i, t, -, -, rfl⟩ | ⟨i, c, k, -, hi, rfl⟩ := step_cases hstep
  · by_cases hj : j = i
    · subst hj
      simpa using hcode j t
    · simpa [hj] using hw j
  · by_cases hj : j = i
    · subst hj
      simpa using hrest j c k _ (hi ▸ hw j)
    · simpa [hj] using hw j

/-- **Hand-off rule.** `A` names what may follow a call in its thread, and a
call so followed establishes `Pre` for its successor; if no other thread's
call breaks `Pre`, the next call of every thread meets its `Pre`. -/
theorem handoff {A : (c : F.Call) → F.Reply c → F.Call → Prop}
    {Pre : F.Call → σ → Prop} {w w' : Pool F σ ι} {e : Sched ι task}
    (hcode : ∀ i t, (code i t).First fun c => ∀ s, Pre c s)
    (hnext : ∀ c s c', A c (h c s).1 c' → Pre c' (h c s).2)
    (hstable : ∀ i j c s c' k k', w.thread i = .call c k →
      w.thread j = .call c' k' → i ≠ j → s = w.shared → Pre c' s →
      Pre c' (h c s).2)
    (hadj : ∀ i, (w.thread i).Adjacent A)
    (hstep : (machine h code).step w e = some w')
    (hw : ∀ i, (w.thread i).First fun c => Pre c w.shared) :
    ∀ i, (w'.thread i).First fun c => Pre c w'.shared := by
  intro j
  obtain ⟨i, t, -, -, rfl⟩ | ⟨i, c, k, -, hi, rfl⟩ := step_cases hstep
  · by_cases hj : j = i
    · subst hj
      -- the thread that takes a task starts at its first call
      simp only [Function.update_self]
      have hc := hcode j t
      cases hct : code j t with
      | done a => exact trivial
      | call c k =>
          rw [hct] at hc
          exact hc w.shared
    · simpa [hj] using hw j
  · by_cases hj : j = i
    · subst hj
      simp only [Function.update_self]
      -- the thread that made the call: what follows it was promised by `A`
      have ha : (k (h c w.shared).1).First (A c (h c w.shared).1) := by
        have := hadj j
        rw [hi] at this
        exact (this _).1
      cases hk : k (h c w.shared).1 with
      | done a => exact trivial
      | call c' k' =>
          rw [hk] at ha
          exact hnext c w.shared c' ha
    · simp only [Function.update_of_ne hj]
      -- any other thread: the call did not break its `Pre`
      have hwj := hw j
      cases hjt : w.thread j with
      | done a => exact trivial
      | call c' k' =>
          rw [hjt] at hwj
          exact hstable i j c w.shared c' k k' hi hjt (Ne.symm hj) rfl hwj

/-- Every debt of the shared object is one that some thread surely repays. -/
def Covered {δ : Type} (debt : δ → σ → Prop) (pays : δ → F.Call → Prop)
    (w : Pool F σ ι) : Prop :=
  ∀ d, debt d w.shared → ∃ i, (w.thread i).Surely (pays d)

/-- **Debt rule.** When a call makes a debt only by causing it, and paying
clears it, threads that repay what they cause keep every debt covered. -/
theorem covered_step {δ : Type} {debt : δ → σ → Prop}
    {cause pays : δ → F.Call → Prop} {w w' : Pool F σ ι} {e : Sched ι task}
    (hstep : (machine h code).step w e = some w')
    (hcause : ∀ i c k d, e = .step i → w.thread i = .call c k →
      debt d (h c w.shared).2 → debt d w.shared ∨ cause d c)
    (hpays : ∀ c s d, pays d c → ¬ debt d (h c s).2)
    (hrep : ∀ i, (w.thread i).Repays cause pays)
    (hw : Covered debt pays w) : Covered debt pays w' := by
  intro d hd
  obtain ⟨i, t, -, hi, rfl⟩ | ⟨i, c, k, rfl, hi, rfl⟩ := step_cases hstep
  · obtain ⟨j, hj⟩ := hw d hd
    refine ⟨j, ?_⟩
    by_cases hji : j = i
    · subst hji
      rw [hi] at hj
      exact hj.elim
    · simpa [hji] using hj
  · have hrest : debt d w.shared ∨ cause d c := hcause i c k d rfl hi hd
    have hri : (Prog.call c k).Repays cause pays := hi ▸ hrep i
    rcases hrest with hold | hnew
    · obtain ⟨j, hj⟩ := hw d hold
      by_cases hji : j = i
      · subst hji
        rw [hi] at hj
        rcases hj with hpay | hlater
        · exact absurd hd (hpays c w.shared d hpay)
        · exact ⟨j, by simpa using hlater _⟩
      · exact ⟨j, by simpa [hji] using hj⟩
    · exact ⟨i, by simpa using hri.1 d hnew _⟩

omit [DecidableEq ι] in
/-- In a quiet pool nothing is owed. -/
theorem Covered.quiet {δ : Type} {debt : δ → σ → Prop}
    {pays : δ → F.Call → Prop} {w : Pool F σ ι} (hw : Covered debt pays w)
    (hq : w.Quiet) (d : δ) : ¬ debt d w.shared := by
  intro hd
  obtain ⟨i, hi⟩ := hw d hd
  rw [hq i] at hi
  exact hi

end Pool

end MinRender
