import Mathlib.Data.Int.ConditionallyCompleteOrder
import Mathlib.Order.ConditionallyCompleteLattice.Basic
import MinRender.Framework.Runs
import MinRender.Monitor.FarmInit

/-!
# The content of the farm

Nodes of any versions start on one farm, one after the other, and any of their
copies can fail. The stamp in `farm.json` follows the files only when all of
them were copied, so a refresh that failed midway leaves files newer than the
stamp, and a node of a version in between takes them for older ones.
-/

namespace MinRender.FarmContent
open FarmInit

/-- One start. -/
structure Run where
  node : FarmNode
  env : FarmEnv := {}

/-- The farm, and the version of a refresh that left no stamp. -/
structure World where
  farm : Farm := {}
  unstamped : Option String := none

/-- The version `farm.json` is stamped with. -/
def stamp? (farm : Farm) : Option String := farm.doc.bind fun fj => (lastUpdate fj).toOption

/-- What `init` finds when it comes to the version check. -/
def checked (r : Run) (farm : Farm) : Option Json :=
  if r.env.reads then
    farm.doc.bind fun fj =>
      if (usableSecret? fj).isSome then some fj
      else if r.env.secret = "" then none
      else fj.assign? "api_secret" (.str r.env.secret)
  else none

/-- The start refreshes the content: there is no `farm.json`, or it is stamped
with an older version. -/
def refreshes (r : Run) (farm : Farm) : Bool :=
  match farm.farmJson with
  | none => decide (r.env.secret ≠ "")
  | some _ => ((checked r farm).bind fun fj => (lastUpdate fj).toOption).any
      fun last => decide (0 < compareVersions r.node.appVersion last)

/-- The farm after a start. -/
def Run.after (r : Run) (farm : Farm) : Farm :=
  ((init r.node).run (FarmCall.exec r.env) farm).2

def step (w : World) (r : Run) : World :=
  { farm := r.after w.farm
    unstamped :=
      if refreshes r w.farm then
        if stamp? (r.after w.farm) = some r.node.appVersion then none
        else some r.node.appVersion
      else w.unstamped }

def machine : Machine World Run := ⟨fun w r => some (step w r)⟩

/-- A copy that succeeds lands on no file of a newer version. -/
def NotOlder (env : FarmEnv) (c : FarmCall) (farm : Farm) : Prop :=
  ∀ dest version there, c = .copyToFarm dest version → env.copies dest = true →
    farm.files dest = some there → ¬ compareVersions version there < 0

/-- No copy of the start overwrites a newer file. -/
def NeverOlder (w : World) (r : Run) (_ : World) : Prop :=
  (init r.node).Meets (FarmCall.exec r.env) (NotOlder r.env) w.farm

/-- A start that refreshes the content is of no older version than a refresh
that left no stamp. -/
def Resumes (w : World) (r : Run) (_ : World) : Prop :=
  refreshes r w.farm = true →
    ∀ version, w.unstamped = some version → ¬ compareVersions r.node.appVersion version < 0

/-! ## Starts that refresh -/

/-- No file is newer than the given version. -/
def AtMost (version : String) (farm : Farm) : Prop :=
  ∀ p u, farm.files p = some u → versionValue u ≤ versionValue version

/-- The copies are of the given version. -/
def CopiesOf (version : String) (c : FarmCall) : Prop :=
  ∀ dest v, c = .copyToFarm dest v → v = version

theorem ContentOf.copiesOf {version : String} {c : FarmCall} (h : ContentOf version c) :
    CopiesOf version c := by
  rintro dest v rfl
  exact h

theorem refresh_every (node : FarmNode) :
    (refreshFarmContent node).Every (CopiesOf node.appVersion) :=
  (refreshFarmContent_every node).mono fun _ h => ContentOf.copiesOf h

theorem writeBack_every {version : String} (fj : Json) (needsWrite : Bool) :
    (writeBack fj needsWrite).Every (CopiesOf version) := by
  cases needsWrite with
  | false => exact trivial
  | true => exact Prog.Every.ask (fun _ _ h => (nomatch h)) fun _ => trivial

theorem updateContent_every (node : FarmNode) (fj : Json) (needsWrite : Bool) :
    (updateContent node fj needsWrite).Every (CopiesOf node.appVersion) := by
  unfold updateContent
  split
  · exact trivial
  · refine Prog.Every.ite ((refresh_every node).bind fun refreshed => ?_) (writeBack_every _ _)
    refine Prog.Every.ite ?_ (writeBack_every _ _)
    split
    · exact writeBack_every _ _
    · exact trivial

theorem init_every (node : FarmNode) : (init node).Every (CopiesOf node.appVersion) := by
  refine Prog.Every.ask (fun _ _ h => (nomatch h)) fun present => Prog.Every.ite ?_ ?_
  · refine Prog.Every.ask (fun _ _ h => (nomatch h)) fun doc => ?_
    cases doc with
    | none => exact trivial
    | some fj =>
        refine Prog.Every.ite (updateContent_every _ _ _) ?_
        refine Prog.Every.ask (fun _ _ h => (nomatch h)) fun (upgraded : String) => ?_
        refine Prog.Every.ite (b := upgraded = "") trivial ?_
        split
        · exact updateContent_every _ _ _
        · exact trivial
  · refine Prog.Every.ask (fun _ _ h => (nomatch h)) fun (secret : String) => ?_
    refine Prog.Every.ite (b := secret = "") trivial ((refresh_every node).bind fun copied => ?_)
    exact Prog.Every.ask (fun _ _ h => (nomatch h)) fun _ => trivial

/-- On a farm without a newer file no copy overwrites one. -/
theorem neverOlder_call {env : FarmEnv} {version : String} {c : FarmCall} {farm : Farm}
    (hc : CopiesOf version c) (h : AtMost version farm) :
    NotOlder env c farm ∧ AtMost version (FarmCall.exec env c farm).2 := by
  constructor
  · rintro dest v there rfl - hthere
    rw [hc dest v rfl, compareVersions_lt_zero]
    exact not_lt.mpr (h dest there hthere)
  · cases c with
    | copyToFarm dest v =>
        simp only [FarmCall.exec]
        split
        · intro p u hu
          dsimp only at hu
          by_cases hp : p = dest
          · subst hp
            rw [Function.update_self, hc p v rfl] at hu
            cases hu
            exact le_rfl
          · rw [Function.update_of_ne hp] at hu
            exact h p u hu
        · exact h
    | pruneStaleJson dir expected =>
        intro p u hu
        simp only [FarmCall.exec] at hu
        split at hu
        · cases hu
        · exact h p u hu
    | writeFarmJson fj =>
        simp only [FarmCall.exec]
        split
        · exact h
        · exact h
    | _ => exact h

theorem init_atMost {r : Run} {farm : Farm} (h : AtMost r.node.appVersion farm) :
    (init r.node).Meets (FarmCall.exec r.env) (NotOlder r.env) farm ∧
      AtMost r.node.appVersion (r.after farm) :=
  (init_every r.node).run_invariant (fun _ _ hc hfarm => neverOlder_call hc hfarm) h

/-! ## Starts that do not -/

/-- The program copies nothing and leaves the stamp. -/
def Leaves {α : Type} (env : FarmEnv) (p : FarmProg α) (farm : Farm) : Prop :=
  p.Meets (FarmCall.exec env) (NotOlder env) farm ∧
    (p.run (FarmCall.exec env) farm).2.files = farm.files ∧
      stamp? (p.run (FarmCall.exec env) farm).2 = stamp? farm

theorem leaves_done {α : Type} {env : FarmEnv} {a : α} {farm : Farm} :
    Leaves env (.done a) farm := ⟨trivial, rfl, rfl⟩

/-- A call that only looks. -/
theorem Leaves.look {α : Type} {env : FarmEnv} {c : FarmCall} {a : c.Reply}
    {k : c.Reply → FarmProg α} {farm : Farm} (hcopy : ∀ dest v, c ≠ .copyToFarm dest v)
    (hexec : FarmCall.exec env c farm = (a, farm)) (h : Leaves env (k a) farm) :
    Leaves env (Prog.call (F := farmShare) c k) farm := by
  obtain ⟨hmeets, hfiles, hstamp⟩ := h
  refine ⟨⟨fun dest v _ hc => absurd hc (hcopy dest v), ?_⟩, ?_, ?_⟩
  · rw [hexec]
    exact hmeets
  · rw [Prog.run_call, hexec]
    exact hfiles
  · rw [Prog.run_call, hexec]
    exact hstamp

theorem leaves_writeBack {env : FarmEnv} {fj : Json} {farm : Farm} (needsWrite : Bool)
    (h : (lastUpdate fj).toOption = stamp? farm) : Leaves env (writeBack fj needsWrite) farm := by
  cases needsWrite with
  | false => exact leaves_done
  | true =>
      refine ⟨⟨fun _ _ _ hc => (nomatch hc), trivial⟩, ?_, ?_⟩
      · show (FarmCall.exec env (.writeFarmJson fj) farm).2.files = farm.files
        simp only [FarmCall.exec]
        split <;> rfl
      · show stamp? (FarmCall.exec env (.writeFarmJson fj) farm).2 = stamp? farm
        simp only [FarmCall.exec]
        split
        · exact h
        · rfl

theorem leaves_updateContent {env : FarmEnv} {node : FarmNode} {fj : Json} {farm : Farm}
    (needsWrite : Bool) (hstamp : (lastUpdate fj).toOption = stamp? farm)
    (hold : ((lastUpdate fj).toOption.any
      fun last => decide (0 < compareVersions node.appVersion last)) = false) :
    Leaves env (updateContent node fj needsWrite) farm := by
  unfold updateContent
  split
  · exact leaves_done
  · rename_i last hlast
    rw [hlast] at hold
    rw [if_neg (of_decide_eq_false hold)]
    exact leaves_writeBack needsWrite hstamp

theorem lastUpdate_assign {fj fj' : Json} {v : Json}
    (h : fj.assign? "api_secret" v = some fj') : lastUpdate fj' = lastUpdate fj := by
  unfold lastUpdate Json.field
  rw [Json.find?_assign_ne h (by decide)]

theorem leaves_init {r : Run} {farm : Farm} (h : refreshes r farm = false) :
    Leaves r.env (init r.node) farm := by
  unfold refreshes at h
  cases hjson : farm.farmJson with
  | none =>
      rw [hjson] at h
      have hsecret : r.env.secret = "" := by simpa using h
      have hhas : FarmCall.exec r.env .hasFarmJson farm = (false, farm) := by
        simp only [FarmCall.exec, hjson, Option.isSome_none]
      refine Leaves.look (fun _ _ hc => by cases hc) hhas ?_
      refine Leaves.look (fun _ _ hc => by cases hc) rfl ?_
      show Leaves r.env (if r.env.secret = "" then _ else _) farm
      rw [if_pos hsecret]
      exact leaves_done
  | some doc =>
      rw [hjson] at h
      dsimp only at h
      have hhas : FarmCall.exec r.env .hasFarmJson farm = (true, farm) := by
        simp only [FarmCall.exec, hjson, Option.isSome_some]
      refine Leaves.look (fun _ _ hc => by cases hc) hhas ?_
      unfold checked at h
      cases hread : (if r.env.reads then farm.doc else none) with
      | none =>
          have hexec : FarmCall.exec r.env .readFarmJson farm = (none, farm) := by
            simp only [FarmCall.exec, hread]
          refine Leaves.look (fun _ _ hc => by cases hc) hexec ?_
          exact leaves_done
      | some fj =>
          have hexec : FarmCall.exec r.env .readFarmJson farm = (some fj, farm) := by
            simp only [FarmCall.exec, hread]
          obtain ⟨hreads, hdoc⟩ : r.env.reads = true ∧ farm.doc = some fj := by
            split at hread
            · exact ⟨‹_›, hread⟩
            · cases hread
          refine Leaves.look (fun _ _ hc => by cases hc) hexec ?_
          rw [if_pos hreads, hdoc, Option.bind_some] at h
          have hstamp : stamp? farm = (lastUpdate fj).toOption := by
            unfold stamp?
            rw [hdoc]
            rfl
          show Leaves r.env
            (if (usableSecret? fj).isSome then updateContent r.node fj false else _) farm
          split
          · rename_i husable
            rw [if_pos husable] at h
            exact leaves_updateContent false hstamp.symm h
          · rename_i husable
            rw [if_neg husable] at h
            refine Leaves.look (fun _ _ hc => by cases hc) rfl ?_
            show Leaves r.env (if r.env.secret = "" then _ else _) farm
            split
            · exact leaves_done
            · rename_i hsecret
              rw [if_neg hsecret] at h
              cases hassign : fj.assign? "api_secret" (.str r.env.secret) with
              | none => exact leaves_done
              | some fj' =>
                  rw [hassign] at h
                  refine leaves_updateContent true ?_ h
                  rw [lastUpdate_assign hassign, hstamp]

/-! ## Runs -/

/-- Every file is covered by the stamp or by the refresh that left none. -/
def Covered (w : World) : Prop :=
  ∀ p u, w.farm.files p = some u →
    (∃ s, stamp? w.farm = some s ∧ versionValue u ≤ versionValue s) ∨
      ∃ v, w.unstamped = some v ∧ versionValue u ≤ versionValue v

/-- A start that refreshes is of a newer version than the stamp. -/
theorem stamp_lt_of_refreshes {r : Run} {farm : Farm} {s : String}
    (h : refreshes r farm = true) (hs : stamp? farm = some s) :
    versionValue s < versionValue r.node.appVersion := by
  obtain ⟨fj, hdoc, hfj⟩ := Option.bind_eq_some_iff.mp hs
  have hjson : farm.farmJson = some (some fj) := Option.join_eq_some_iff.mp hdoc
  unfold refreshes at h
  rw [hjson] at h
  dsimp only at h
  rw [Option.any_eq_true] at h
  obtain ⟨last, hlast, hnewer⟩ := h
  obtain ⟨fj', hchecked, hlast⟩ := Option.bind_eq_some_iff.mp hlast
  have hsame : lastUpdate fj' = lastUpdate fj := by
    unfold checked at hchecked
    split at hchecked
    · rw [hdoc, Option.bind_some] at hchecked
      split at hchecked
      · cases hchecked
        rfl
      · split at hchecked
        · cases hchecked
        · exact lastUpdate_assign hchecked
    · cases hchecked
  rw [hsame, hfj] at hlast
  cases hlast
  exact compareVersions_pos.mp (of_decide_eq_true hnewer)

theorem atMost_of_covered {w : World} {r : Run} (hw : Covered w)
    (hres : ∀ v, w.unstamped = some v → ¬ compareVersions r.node.appVersion v < 0)
    (h : refreshes r w.farm = true) : AtMost r.node.appVersion w.farm := by
  intro p u hu
  rcases hw p u hu with ⟨s, hs, hle⟩ | ⟨v, hv, hle⟩
  · exact hle.trans (stamp_lt_of_refreshes h hs).le
  · have hnot := hres v hv
    rw [compareVersions_lt_zero] at hnot
    exact hle.trans (not_lt.mp hnot)

/-- **The content never goes back** along a run in which no refresh that left
no stamp is followed by a refresh of an older version, before one of at least
its version has completed it. -/
theorem never_older_of_resumed (es : List Run) :
    machine.Along Resumes {} es → machine.Along NeverOlder {} es := by
  refine Machine.Along.mono (I := Covered) ?_ (fun _ _ h => (nomatch h))
  rintro w r w' hw ⟨⟩ hres
  cases href : refreshes r w.farm with
  | false =>
      obtain ⟨hmeets, hfiles, hstamp⟩ := leaves_init href
      refine ⟨hmeets, ?_⟩
      intro p u hu
      have hold := hw p u (by rw [← hfiles]; exact hu)
      simp only [step, href]
      rw [show stamp? (r.after w.farm) = stamp? w.farm from hstamp]
      exact hold
  | true =>
      obtain ⟨hmeets, hfiles⟩ := init_atMost (atMost_of_covered hw (hres href) href)
      refine ⟨hmeets, ?_⟩
      intro p u hu
      have hle := hfiles p u hu
      simp only [step, href, if_true]
      split
      · rename_i hstamp
        exact .inl ⟨_, hstamp, hle⟩
      · exact .inr ⟨_, rfl, hle⟩

/-! ## A copy that fails -/

def twoFiles (version : String) : FarmNode :=
  { appVersion := version
    bundle := { plugins := some (some [("blender", some ["__init__.py", "ui.py"])]) } }

/-- The first start of version 0.5.10 cannot copy its second file, so it leaves
the new farm unstamped. -/
def lockedFile : Run :=
  { node := twoFiles "0.5.10"
    env := { copies := fun p => decide (p.name ≠ "ui.py") } }

/-- The next start of that version resumes the refresh. -/
theorem retried_refresh_covers :
    machine.Along NeverOlder {} [lockedFile, { node := twoFiles "0.5.10" }] := by
  apply never_older_of_resumed
  refine Machine.Along.of_check
    (fun w r _ => w.unstamped.all fun v => decide ¬ compareVersions r.node.appVersion v < 0)
    ?_ (by decide)
  intro w r w' htest _ version hversion
  rw [hversion] at htest
  exact of_decide_eq_true htest

/-- Version 0.5.9 then copies its files over those of 0.5.10. -/
theorem older_overwrites : ¬ ∀ es, machine.Along NeverOlder {} es := by
  intro h
  have hboth := (h [lockedFile, { node := twoFiles "0.5.9" }]) _ rfl
  have hlast := (hboth.2 _ rfl).1
  -- after two looks at `farm.json` and a pruning
  exact hlast.2.2.2.1 ⟨"plugins/blender", "__init__.py"⟩ "0.5.9" "0.5.10" rfl rfl rfl (by decide)

end MinRender.FarmContent
