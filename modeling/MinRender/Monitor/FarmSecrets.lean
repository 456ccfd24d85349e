import MinRender.Framework.Runs
import MinRender.Monitor.FarmInit

/-!
# One farm secret

Any number of nodes start on one farm directory, a step of one at a time. A
node that finds no secret makes one up and writes it, whatever has been written
since it looked.
-/

namespace MinRender.FarmSecrets
open FarmInit

/-- The share, what is left of each node's start (`none` before its first), and
the secret each found when it looked at `farm.json`. -/
structure World (ι : Type) where
  farm : Farm
  thread : ι → Option (FarmProg String) := fun _ => none
  found : ι → Option String := fun _ => none

variable {ι : Type}

/-- The secret a node has loaded, once it has started. -/
def World.loaded (w : World ι) (n : ι) : Option String :=
  match w.thread n with
  | some (.done s) => some s
  | _ => none

/-- The node is starting. -/
def World.midway (w : World ι) (n : ι) : Bool :=
  match w.thread n with
  | some (.call _ _) => true
  | _ => false

theorem loaded_eq_some {w : World ι} {n : ι} {s : String} :
    w.loaded n = some s ↔ w.thread n = some (.done s) := by
  unfold World.loaded
  split
  · rename_i t ht
    rw [ht]
    constructor
    · rintro ⟨⟩
      rfl
    · rintro ⟨⟩
      rfl
  · rename_i hno
    constructor
    · exact fun h => (nomatch h)
    · exact fun h => absurd h (hno s)

inductive Event (ι : Type)
  | start (n : ι) (node : FarmNode)
  | step (n : ι) (env : FarmEnv)

/-- What a node has found, once a call is answered. -/
def foundAfter (found : Option String) : (c : FarmCall) → c.Reply → Option String
  | .hasFarmJson, present => if present then found else none
  | .readFarmJson, doc => doc.bind usableSecret?
  | _, _ => found

variable [DecidableEq ι]

def step (w : World ι) : Event ι → Option (World ι)
  | .start n node =>
      if w.midway n then none
      else some { w with
        thread := Function.update w.thread n (some (startFarm node ((w.loaded n).getD ""))) }
  | .step n env =>
      match w.thread n with
      | some (.call c k) =>
          let answer := FarmCall.exec env c w.farm
          some
            { farm := answer.2
              thread := Function.update w.thread n (some (k answer.1))
              found := Function.update w.found n (foundAfter (w.found n) c answer.1) }
      | _ => none

def machine : Machine (World ι) (Event ι) := ⟨step⟩

/-- Whenever no node is starting, every node that has started holds the secret
in `farm.json`. -/
def SharesSecret (_ : World ι) (_ : Event ι) (w' : World ι) : Prop :=
  (∀ n, w'.midway n = false) → ∀ n s, w'.loaded n = some s → w'.farm.apiSecret = some s

/-- A call of node `n` that comes in time: a write while no node has loaded a
secret other than the one `n` found, and a load that finds one. -/
def CallTimely (w : World ι) (n : ι) (env : FarmEnv) : FarmCall → Prop
  | .writeFarmJson _ =>
      env.writes = true → ∀ m s, w.loaded m = some s → w.found n = some s
  | .loadSecret => env.reads = true ∧ w.farm.apiSecret.isSome = true
  | _ => True

def Timely (w : World ι) (e : Event ι) (_ : World ι) : Prop :=
  match e with
  | .start _ _ => True
  | .step n env =>
      match w.thread n with
      | some (.call c _) => CallTimely w n env c
      | _ => True

/-! ## The programs -/

/-- Whatever the replies, a secret that was found is written back. -/
def Keeps {α : Type} : FarmProg α → Option String → Prop
  | .done _, _ => True
  | .call c k, found =>
      (∀ fj s, c = .writeFarmJson fj → found = some s → usableSecret? fj = some s) ∧
        ∀ r, Keeps (k r) (foundAfter found c r)

/-- The program ends with a load, and with what that finds. -/
def LoadsLast : FarmProg String → Prop
  | .done _ => True
  | .call c k =>
      (∀ env farm s, k (FarmCall.exec env c farm).1 = .done s →
        c = .loadSecret ∧ ∀ t, env.reads = true → farm.apiSecret = some t → s = t) ∧
        ∀ r, LoadsLast (k r)

theorem Keeps.bind {α β : Type} {p : FarmProg α} {f : α → FarmProg β} {found : Option String}
    (hp : Keeps p found) (hf : ∀ a found, Keeps (f a) found) : Keeps (p >>= f) found := by
  induction p generalizing found with
  | done a => exact hf a found
  | call c k ih => exact ⟨hp.1, fun r => ih r (hp.2 r)⟩

/-- Refreshing the content finds nothing new. -/
theorem Keeps.content {α β : Type} {version : String} {p : FarmProg α} {f : α → FarmProg β}
    {found : Option String} (hp : p.Every (ContentOf version)) (hf : ∀ a, Keeps (f a) found) :
    Keeps (p >>= f) found := by
  induction p with
  | done a => exact hf a
  | call c k ih =>
      obtain ⟨hc, hk⟩ := hp
      cases c with
      | copyToFarm dest v => exact ⟨fun _ _ h => (nomatch h), fun r => ih r (hk r)⟩
      | pruneStaleJson dir expected => exact ⟨fun _ _ h => (nomatch h), fun r => ih r (hk r)⟩
      | _ => exact hc.elim

theorem keeps_createFarm (node : FarmNode) : Keeps (createFarm node) none := by
  refine ⟨fun _ _ h => (nomatch h), fun (secret : String) => ?_⟩
  show Keeps (if secret = "" then _ else _) none
  split
  · exact trivial
  · refine Keeps.content (refreshFarmContent_every node) fun copied => ?_
    exact ⟨fun _ _ _ h => (nomatch h), fun _ => trivial⟩

theorem keeps_writeBack {fj : Json} {found : Option String} (needsWrite : Bool)
    (h : ∀ s, found = some s → usableSecret? fj = some s) :
    Keeps (writeBack fj needsWrite) found := by
  cases needsWrite with
  | false => exact trivial
  | true =>
      refine ⟨?_, fun _ => trivial⟩
      rintro fj' s ⟨⟩ hs
      exact h s hs

theorem usableSecret_assign {fj fj' : Json} {v : Json}
    (h : fj.assign? "last_example_update" v = some fj') :
    usableSecret? fj' = usableSecret? fj := by
  unfold usableSecret? apiSecret?
  rw [Json.find?_assign_ne h (by decide)]

theorem keeps_updateContent (node : FarmNode) {fj : Json} {found : Option String}
    (needsWrite : Bool) (h : ∀ s, found = some s → usableSecret? fj = some s) :
    Keeps (updateContent node fj needsWrite) found := by
  unfold updateContent
  cases lastUpdate fj with
  | error e => exact trivial
  | ok last =>
      dsimp only
      split
      · refine Keeps.content (refreshFarmContent_every node) fun refreshed => ?_
        cases refreshed with
        | false => exact keeps_writeBack needsWrite h
        | true =>
            rw [if_pos rfl]
            split
            · rename_i fj' hassign
              refine keeps_writeBack true ?_
              rw [usableSecret_assign hassign]
              exact h
            · exact trivial
      · exact keeps_writeBack needsWrite h

theorem keeps_updateFarm (node : FarmNode) (found : Option String) :
    Keeps (updateFarm node) found := by
  refine ⟨fun _ _ h => (nomatch h), fun doc => ?_⟩
  cases doc with
  | none => exact trivial
  | some fj =>
      show Keeps (if (usableSecret? fj).isSome then _ else _) (usableSecret? fj)
      split
      · exact keeps_updateContent node false fun s hs => hs
      · rename_i hno
        have hnone : usableSecret? fj = none := by
          simpa [Option.isSome_iff_ne_none] using hno
        rw [hnone]
        -- from here on nothing was found
        refine ⟨fun _ _ h => (nomatch h), fun (upgraded : String) => ?_⟩
        show Keeps (if upgraded = "" then _ else _) none
        split
        · exact trivial
        · cases fj.assign? "api_secret" (.str upgraded) with
          | none => exact trivial
          | some fj' => exact keeps_updateContent node true fun s hs => (nomatch hs)

theorem keeps_startFarm (node : FarmNode) (farmSecret : String) (found : Option String) :
    Keeps (startFarm node farmSecret) found := by
  refine Keeps.bind ?_ fun _ found => ⟨fun _ _ h => (nomatch h), fun _ => trivial⟩
  refine ⟨fun _ _ h => (nomatch h), fun present => ?_⟩
  cases present with
  | true => exact keeps_updateFarm node found
  | false => exact keeps_createFarm node

/-- A program that goes on does not end. -/
theorem bind_ne_done {α β : Type} {f : α → FarmProg β} (hf : ∀ a b, f a ≠ .done b)
    (p : FarmProg α) (b : β) : p >>= f ≠ .done b := by
  cases p with
  | done a => exact hf a b
  | call c k => exact fun h => (nomatch h)

theorem load_ne_done (farmSecret : String) (_ : Result) (s : String) :
    (do
      let loaded : Option String ← FarmInit.step .loadSecret
      return loaded.getD farmSecret) ≠ Prog.done s := by
  rintro ⟨⟩

theorem loadsLast_startFarm (node : FarmNode) (farmSecret : String) :
    LoadsLast (startFarm node farmSecret) := by
  unfold startFarm
  -- whatever comes before the load ends nothing
  induction init node with
  | done result =>
      refine ⟨?_, fun _ => trivial⟩
      intro env farm s hs
      refine ⟨rfl, fun t hreads ht => ?_⟩
      simp only [FarmCall.exec, hreads, ht] at hs
      cases hs
      rfl
  | call c k ih =>
      refine ⟨?_, ih⟩
      intro env farm s hs
      exact absurd hs (bind_ne_done (load_ne_done farmSecret) _ s)

/-! ## The invariant -/

structure Inv (w : World ι) : Prop where
  keeps : ∀ n p, w.thread n = some p → Keeps p (w.found n)
  loads : ∀ n p, w.thread n = some p → LoadsLast p
  secret : ∀ n s, w.loaded n = some s → w.farm.apiSecret = some s

omit [DecidableEq ι] in
theorem inv_start (farm : Farm) : Inv (ι := ι) { farm } :=
  ⟨fun _ _ h => (nomatch h), fun _ _ h => (nomatch h), fun _ _ h => (nomatch h)⟩

variable {w w' : World ι} {e : Event ι}

theorem thread_cases {f : ι → Option (FarmProg String)} {n m : ι} {p q : FarmProg String}
    (h : Function.update f n (some p) m = some q) :
    (m = n ∧ q = p) ∨ (m ≠ n ∧ f m = some q) := by
  by_cases hmn : m = n
  · subst hmn
    rw [Function.update_self] at h
    cases h
    exact .inl ⟨rfl, rfl⟩
  · rw [Function.update_of_ne hmn] at h
    exact .inr ⟨hmn, h⟩

/-- What a call leaves of the secret. -/
theorem apiSecret_exec {env : FarmEnv} {farm : Farm} {c : FarmCall} {t : String}
    (h : farm.apiSecret = some t)
    (hwrite : ∀ fj, c = .writeFarmJson fj → env.writes = true → usableSecret? fj = some t) :
    (FarmCall.exec env c farm).2.apiSecret = some t := by
  cases c with
  | writeFarmJson fj =>
      simp only [FarmCall.exec]
      split
      · rename_i hwrites
        have husable := hwrite fj rfl hwrites
        exact (Option.filter_eq_some_iff.mp husable).1
      · exact h
  | copyToFarm dest v =>
      simp only [FarmCall.exec]
      split
      · exact h
      · exact h
  | _ => exact h

theorem inv_step (hw : Inv w) (hstep : machine.step w e = some w') (ht : Timely w e w') :
    Inv w' := by
  cases e with
  | start n node =>
      simp only [machine, step] at hstep
      split at hstep
      · cases hstep
      · cases hstep
        refine ⟨?_, ?_, ?_⟩
        · intro m p hp
          rcases thread_cases hp with ⟨-, rfl⟩ | ⟨-, hp⟩
          · exact keeps_startFarm _ _ _
          · exact hw.keeps m p hp
        · intro m p hp
          rcases thread_cases hp with ⟨-, rfl⟩ | ⟨-, hp⟩
          · exact loadsLast_startFarm _ _
          · exact hw.loads m p hp
        · intro m s hs
          rcases thread_cases (loaded_eq_some.mp hs) with ⟨-, hstart⟩ | ⟨-, hp⟩
          · cases hstart
          · exact hw.secret m s (loaded_eq_some.mpr hp)
  | step n env =>
      simp only [machine, step] at hstep
      split at hstep
      · rename_i c k hthread
        cases hstep
        simp only [Timely, hthread] at ht
        obtain ⟨hwrites, hkeeps⟩ := hw.keeps n _ hthread
        obtain ⟨hends, hloads⟩ := hw.loads n _ hthread
        refine ⟨?_, ?_, ?_⟩
        · intro m p hp
          show Keeps p (Function.update w.found n _ m)
          rcases thread_cases hp with ⟨rfl, rfl⟩ | ⟨hne, hp⟩
          · rw [Function.update_self]
            exact hkeeps _
          · rw [Function.update_of_ne hne]
            exact hw.keeps m p hp
        · intro m p hp
          rcases thread_cases hp with ⟨-, rfl⟩ | ⟨-, hp⟩
          · exact hloads _
          · exact hw.loads m p hp
        · intro m s hs
          rcases thread_cases (loaded_eq_some.mp hs) with ⟨-, hdone⟩ | ⟨-, hp⟩
          · -- the load
            obtain ⟨rfl, hload⟩ := hends env w.farm s hdone.symm
            obtain ⟨hreads, hsome⟩ := ht
            obtain ⟨t, hsecret⟩ := Option.isSome_iff_exists.mp hsome
            rw [hload t hreads hsecret]
            exact hsecret
          · refine apiSecret_exec (hw.secret m s (loaded_eq_some.mpr hp)) ?_
            rintro fj rfl hopen
            exact hwrites fj s rfl (ht hopen m s (loaded_eq_some.mpr hp))
      · cases hstep

/-- **One farm, one secret.** However the steps of any number of starting nodes
interleave, whatever `farm.json` held before: if each node's write comes while
no node has loaded a secret other than the one it found, and each load finds
a secret, all nodes that have started hold the secret in `farm.json`. -/
theorem shares_secret_of_timely (farm : Farm) (es : List (Event ι)) :
    machine.Along Timely { farm } es → machine.Along SharesSecret { farm } es := by
  refine Machine.Along.mono (I := Inv) ?_ (inv_start farm)
  intro w e w' hw hstep ht
  have hw' := inv_step hw hstep ht
  exact ⟨fun _ => hw'.secret, hw'⟩

/-! ## One node after the other -/

/-- `Timely`, computed for two nodes. -/
def timely? (w : World Bool) (e : Event Bool) (_ : World Bool) : Bool :=
  match e with
  | .start _ _ => true
  | .step n env =>
      match w.thread n with
      | some (.call (.writeFarmJson _) _) =>
          !env.writes || decide (∀ m, (w.loaded m).all fun s => w.found n == some s)
      | some (.call .loadSecret _) => env.reads && w.farm.apiSecret.isSome
      | _ => true

theorem timely_of_timely? {w w' : World Bool} {e : Event Bool} (h : timely? w e w' = true) :
    Timely w e w' := by
  cases e with
  | start n node => exact trivial
  | step n env =>
      unfold Timely
      unfold timely? at h
      dsimp only at h ⊢
      cases hthread : w.thread n with
      | none => exact trivial
      | some p =>
          cases p with
          | done s => exact trivial
          | call c k =>
              rw [hthread] at h
              cases c with
              | writeFarmJson fj =>
                  intro hwrites m s hs
                  simp only [hwrites, Bool.not_true, Bool.false_or, decide_eq_true_eq] at h
                  have hm := h m
                  rw [hs] at hm
                  exact eq_of_beq hm
              | loadSecret => exact (Bool.and_eq_true _ _).mp h
              | _ => exact trivial

/-- The second node starts when the first has. -/
def oneByOne : List (Event Bool) :=
  [.start false { appVersion := "0.5.10" }, .step false {}, .step false { secret := "a1" }] ++
    List.replicate 3 (.step false {}) ++ [.start true { appVersion := "0.5.10" }] ++
    List.replicate 3 (.step true {})

theorem oneByOne_shares : machine.Along SharesSecret ({ farm := {} } : World Bool) oneByOne :=
  shares_secret_of_timely {} oneByOne
    (Machine.Along.of_check timely? (fun _ _ _ h => timely_of_timely? h) (by decide))

/-! ## Two nodes on a new farm -/

/-- Both look before either writes. The first has written and loaded its
secret when the second writes. -/
def bothCreate : List (Event Bool) :=
  [.start false { appVersion := "0.5.10" }, .start true { appVersion := "0.5.10" },
    .step false {}, .step true {},
    .step false { secret := "a1" }, .step true { secret := "b2" }] ++
  List.replicate 3 (.step false {}) ++ List.replicate 2 (.step true {})

/-- The first node keeps a secret that no other node accepts. -/
theorem secrets_differ :
    ¬ ∀ (farm : Farm) (es : List (Event Bool)), farm.apiSecret = none →
      machine.Along SharesSecret { farm } es := by
  intro h
  refine Machine.Along.refute bothCreate (.step true {})
    (fun _ u => decide (∀ n, u.midway n = false) &&
      u.loaded false == some "a1" && u.farm.apiSecret == some "b2") ?_ (by decide) (h {} _ rfl)
  intro t u hbad hgood
  simp only [Bool.and_eq_true, decide_eq_true_eq, beq_iff_eq] at hbad
  obtain ⟨⟨hquiet, hloaded⟩, hsecret⟩ := hbad
  have hsame := hgood hquiet false "a1" hloaded
  rw [hsecret] at hsame
  exact absurd hsame (by decide)

end MinRender.FarmSecrets
