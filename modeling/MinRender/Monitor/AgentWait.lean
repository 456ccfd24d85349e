import Mathlib.Data.List.Basic
import MinRender.Framework.Runs
import MinRender.Monitor.RenderCoordinator

/-!
# Waiting for an agent

The first dispatch that finds no agent has one spawned and starts a clock, and
goes to the back of the queue. The clock is the coordinator's and not the
dispatch's: it runs on when that dispatch is purged, or taken by a stopped
node, and at ten seconds it fails whichever dispatch is taken next. Each queued
dispatch carries here what it has seen, so that a failure can be compared with
the spawn it should follow.
-/

namespace MinRender.AgentWait
open RenderCoordinator

/-! ## The system -/

/-- Who had an agent spawned: the coordinator, or a remote restart. -/
inductive Spawner
  | coordinator | restart
deriving DecidableEq, Repr

/-- What a queued dispatch can see. -/
inductive Entry
  | taken
  /-- `spawnAgent` was called and succeeded. -/
  | spawned (caller : Spawner) (nowMs : Int)
  | connected
deriving DecidableEq, Repr

/-- A coordinator, whether an agent is connected to its node, and what each
queued dispatch has seen, oldest first. -/
structure World where
  node : RenderCoordinator := {}
  connected : Bool := false
  seen : List (List Entry) := []

inductive Event
  | dispatch (d : PendingDispatch)
  | call (call : RenderCall)
  | abandonJob (jobId reason : String)
  | connect
  | disconnect
  /-- `POST /api/agent/restart` -/
  | restartAgent (started : Bool) (nowMs : Int)

/-- Every queued dispatch sees it. -/
def World.note (w : World) (e : Entry) : World :=
  { w with seen := w.seen.map (· ++ [e]) }

/-- What the dispatches that a purge leaves in the queue have seen. -/
def World.unpurged (w : World) (jobId : String) : List (List Entry) :=
  ((w.node.dispatchQueue.zip w.seen).filter (·.1.manifest.jobId ≠ jobId)).map (·.2)

/-- The first dispatch was taken; it is at the back again, or gone. -/
def takeFirst (seen : List (List Entry)) (again : Bool) : List (List Entry) :=
  match seen with
  | [] => []
  | h :: rest => if again then rest ++ [h ++ [.taken]] else rest

/-- The coordinator has looked at its queue, which is as long as before where
the dispatch was put back. -/
def World.look (w : World) (env : Surroundings) : World :=
  let node := (w.node.update env).1
  let again := node.dispatchQueue.length = w.node.dispatchQueue.length
  { node
    connected := env.stillConnected
    seen := if w.node.Free env then takeFirst w.seen again else w.seen }

def World.update (w : World) (env : Surroundings) : World :=
  let env := { env with connected := w.connected }
  let w' :=
    if .spawnAgent true ∈ (w.node.update env).2 then
      (w.look env).note (.spawned .coordinator env.nowMs)
    else w.look env
  -- the agent connected while the update ran
  if !w.connected && env.stillConnected then w'.note .connected else w'

def step (w : World) : Event → World
  | .dispatch d =>
      { w with
        node := w.node.queueDispatch d.manifest d.chunk d.editEpoch
        seen := w.seen ++ [[]] }
  | .call (.update env) => w.update env
  | .call (.purge jobId) =>
      { w with node := w.node.purgeJob jobId, seen := w.unpurged jobId }
  | .call call => { w with node := (call.apply w.node).1 }
  | .abandonJob jobId reason =>
      { w with
        node := (MonitorApp.abandonJobRender w.node jobId reason).1
        seen := w.unpurged jobId }
  | .connect => { w with connected := true }.note .connected
  | .disconnect => { w with connected := false }
  | .restartAgent started nowMs =>
      -- the old agent is shut down first
      if started then { w with connected := false }.note (.spawned .restart nowMs)
      else { w with connected := false }

def machine : Machine World Event := ⟨fun w e => some (step w e)⟩

/-! ## When a failure is earned -/

/-- An agent was spawned after the dispatch had been taken, and none has been
connected since. -/
def SpawnedFor (h : List Entry) (caller : Spawner) (t : Int) : Prop :=
  ∃ before after, h = before ++ .spawned caller t :: after ∧
    .taken ∈ before ∧ .connected ∉ after

/-- Ten seconds have passed since such a spawn. -/
def Earned (h : List Entry) (nowMs : Int) : Prop :=
  ∃ caller t, SpawnedFor h caller t ∧ 10 ≤ secondsBetween t nowMs

/-- All that taking the first dispatch does is report it as failed: no agent
was spawned in vain, and the node is not stopped. -/
def TimesOut (c : RenderCoordinator) (env : Surroundings) : Prop :=
  ∃ d ∈ c.dispatchQueue.head?, ((c.updatePendingDeliveries env).1.takeDispatch env).2 =
    [.completion d.manifest.jobId d.chunk .failed d.editEpoch]

/-- A dispatch that times out has earned it. -/
def FailsEarned (w : World) (e : Event) (_ : World) : Prop :=
  ∀ env, e = .call (.update env) → TimesOut w.node { env with connected := w.connected } →
    ∃ h ∈ w.seen.head?, Earned h env.nowMs

/-- No dispatch is taken for the first time while the clock that an earlier one
started runs. The earlier one may be gone: purged, or taken by a stopped node. -/
def NoneTakenAnew (w : World) (e : Event) : Prop :=
  ∀ env, e = .call (.update env) → w.connected = false → w.node.requeue.isSome = true →
    w.node.Free env → w.node.stopped = false → ∀ h ∈ w.seen.head?, .taken ∈ h

/-- An agent that connected while the clock runs is not lost before an update
has found it. -/
def ConnectionFound (w : World) (e : Event) : Prop :=
  w.connected = true → w.node.requeue.isSome = true →
    match e with
    | .disconnect => False
    | .restartAgent _ _ => False
    | .call (.update env) => env.stillConnected = false →
        w.node.Free env ∧ w.node.stopped = false ∧ w.node.dispatchQueue ≠ []
    | _ => True

/-- The clock is that of the dispatches which are compared with it. -/
def OwnClock (w : World) (e : Event) (_ : World) : Prop :=
  NoneTakenAnew w e ∧ ConnectionFound w e

/-! ## What an update does to the queue and the clock -/

section Updates

variable {c : RenderCoordinator} {env : Surroundings} {r : RenderCoordinator × List RenderEffect}

/-- All cases of an update, as far as the queue and the clock go. -/
inductive Looked (c : RenderCoordinator) (env : Surroundings)
    (r : RenderCoordinator × List RenderEffect) : Prop
  | nothing (hfree : ¬ c.Free env ∨ c.dispatchQueue = [])
      (hq : r.1.dispatchQueue = c.dispatchQueue) (ht : r.1.requeue = c.requeue)
      (hs : .spawnAgent true ∉ r.2)
  | gone (d : PendingDispatch) (hfree : c.Free env)
      (hq : c.dispatchQueue = d :: r.1.dispatchQueue)
      (ht : r.1.requeue = c.requeue ∧ (c.stopped = true ∨ env.connected = false) ∨
        r.1.requeue = none) (hs : .spawnAgent true ∉ r.2)
  | again (d : PendingDispatch) (rest : List PendingDispatch) (start last : Int)
      (hfree : c.Free env) (hgoing : c.stopped = false) (hagent : env.connected = false)
      (hq : c.dispatchQueue = d :: rest) (hq' : r.1.dispatchQueue = rest ++ [d])
      (ht : c.requeue = some (start, last)) (ht' : r.1.requeue = some (start, env.nowMs))
      (hs : .spawnAgent true ∉ r.2)
  | spawned (d : PendingDispatch) (rest : List PendingDispatch)
      (hfree : c.Free env) (hagent : env.connected = false)
      (hq : c.dispatchQueue = d :: rest) (hq' : r.1.dispatchQueue = rest ++ [d])
      (ht' : r.1.requeue = some (env.nowMs, env.nowMs)) (hs : .spawnAgent true ∈ r.2)

theorem looked_takeDispatch (c : RenderCoordinator) (env : Surroundings) :
    Looked c env (c.takeDispatch env) := by
  cases takeDispatch_taken c env with
  | nothing h hr =>
      rw [hr]
      exact .nothing h rfl rfl List.not_mem_nil
  | abandoned d rest hfree hq hstopped hr =>
      rw [hr]
      exact .gone d hfree hq (.inl ⟨rfl, .inl hstopped⟩) (by simp [report])
  | started d rest hfree hq _ _ hr =>
      rw [hr]
      exact .gone d hfree hq (.inr rfl) (by simp [startRender])
  | spawned d rest hfree hq _ hagent hr =>
      rw [hr]
      exact .spawned d rest hfree hagent hq rfl rfl List.mem_cons_self
  | unspawned d rest hfree hq _ hagent hr =>
      rw [hr]
      exact .gone d hfree hq (.inl ⟨rfl, .inr hagent⟩) (by simp [report])
  | timedOut d rest hfree hq _ _ _ _ _ _ hr =>
      rw [hr]
      exact .gone d hfree hq (.inr rfl) (by simp [report])
  | waiting d rest hfree hq hgoing hagent start last hclock hr =>
      rw [hr]
      exact .again d rest start last hfree hgoing hagent hq rfl hclock rfl List.not_mem_nil

/-- Ending the active render is not about the queue. -/
theorem failChunk_keeps (c : RenderCoordinator) :
    c.failChunk.1.dispatchQueue = c.dispatchQueue ∧ c.failChunk.1.requeue = c.requeue ∧
      .spawnAgent true ∉ c.failChunk.2 := by
  rcases failChunk_cases c with hnone | ⟨ar, -, hended⟩
  · rw [hnone]
    exact ⟨rfl, rfl, List.not_mem_nil⟩
  · rw [hended]
    exact ⟨rfl, rfl, by simp⟩

/-- Watching the pipe starts no agent, and is not about the queue. -/
theorem checkPipe_keeps (c : RenderCoordinator) (env : Surroundings) :
    (c.checkPipe env).1.dispatchQueue = c.dispatchQueue ∧
      (c.checkPipe env).1.requeue = c.requeue ∧ .spawnAgent true ∉ (c.checkPipe env).2 := by
  rcases checkPipe_cases c env with ⟨grace, hkept⟩ | hfails
  · rw [hkept]
    exact ⟨rfl, rfl, List.not_mem_nil⟩
  · rw [hfails]
    exact failChunk_keeps c

/-- Held deliveries are reported, and nothing else. -/
theorem deliveries_spawn_nothing (c : RenderCoordinator) (env : Surroundings) :
    .spawnAgent true ∉ (c.updatePendingDeliveries env).2 := by
  intro h
  obtain ⟨tried, htried, hmem⟩ := List.mem_flatMap.mp h
  obtain ⟨i, hi, rfl⟩ := List.mem_mapIdx.mp htried
  rcases mem_retryDelivery hmem with hdone | hfailed
  · cases hdone
  · cases hfailed

theorem looked_update (c : RenderCoordinator) (env : Surroundings) :
    Looked c env (c.update env) := by
  obtain ⟨hqueue, htimer, hpipe⟩ :=
    checkPipe_keeps ((c.updatePendingDeliveries env).1.takeDispatch env).1 env
  have hdelivered := deliveries_spawn_nothing c env
  have hspawn : .spawnAgent true ∈ (c.update env).2 ↔
      .spawnAgent true ∈ ((c.updatePendingDeliveries env).1.takeDispatch env).2 := by
    simp only [update_eq, List.mem_append, hdelivered, hpipe, false_or, or_false]
  cases looked_takeDispatch (c.updatePendingDeliveries env).1 env with
  | nothing hfree hq ht hs =>
      exact .nothing hfree (hqueue.trans hq) (htimer.trans ht) (mt hspawn.mp hs)
  | gone d hfree hq ht hs =>
      refine .gone d hfree ?_ ?_ (mt hspawn.mp hs)
      · exact hq.trans (congrArg (d :: ·) hqueue.symm)
      · exact ht.imp (.imp_left htimer.trans) htimer.trans
  | again d rest start last hfree hgoing hagent hq hq' ht ht' hs =>
      exact .again d rest start last hfree hgoing hagent hq (hqueue.trans hq') ht
        (htimer.trans ht') (mt hspawn.mp hs)
  | spawned d rest hfree hagent hq hq' ht' hs =>
      exact .spawned d rest hfree hagent hq (hqueue.trans hq') (htimer.trans ht')
        (hspawn.mpr hs)

/-- A dispatch times out on a clock that has run for ten seconds, on a node that
is not stopped and has no agent. -/
theorem TimesOut.clock (h : TimesOut c env) :
    c.Free env ∧ c.stopped = false ∧ env.connected = false ∧
      ∃ start last, c.requeue = some (start, last) ∧ 10 ≤ secondsBetween start env.nowMs := by
  obtain ⟨d, -, hfails⟩ := h
  cases takeDispatch_taken (c.updatePendingDeliveries env).1 env with
  | timedOut _ _ hfree _ hgoing hagent start last hclock hten _ =>
      exact ⟨hfree, hgoing, hagent, start, last, hclock, hten⟩
  | nothing _ hr | abandoned _ _ _ _ _ hr | spawned _ _ _ _ _ _ hr | unspawned _ _ _ _ _ _ hr
  | waiting _ _ _ _ _ _ _ _ _ hr | started _ _ _ _ _ _ hr =>
      rw [hr] at hfails
      simp [report, startRender] at hfails

end Updates

/-! ## The clock and the dispatches that were taken -/

theorem SpawnedFor.concat {h : List Entry} {caller : Spawner} {t : Int} {e : Entry}
    (hs : SpawnedFor h caller t) (he : e ≠ .connected) : SpawnedFor (h ++ [e]) caller t := by
  obtain ⟨before, after, rfl, htaken, hlost⟩ := hs
  refine ⟨before, after ++ [e], ?_, htaken, ?_⟩
  · rw [List.append_assoc, List.cons_append]
  · rw [List.mem_append, List.mem_singleton, not_or]
    exact ⟨hlost, he.symm⟩

/-- A spawn is for every dispatch taken before it. -/
theorem spawnedFor_concat {h : List Entry} (caller : Spawner) (t : Int) (htaken : .taken ∈ h) :
    SpawnedFor (h ++ [.spawned caller t]) caller t :=
  ⟨h, [], rfl, htaken, List.not_mem_nil⟩

/-- Every queued dispatch has its record. While the clock runs and no agent is
connected, the agent behind the clock was spawned for every dispatch that has
been taken. -/
structure Clocked (w : World) : Prop where
  paired : w.seen.length = w.node.dispatchQueue.length
  own : ∀ start last, w.node.requeue = some (start, last) → w.connected = false →
    ∀ h ∈ w.seen, .taken ∈ h → SpawnedFor h .coordinator start

namespace Clocked

variable {w : World}

theorem start : Clocked {} where
  paired := rfl
  own _ _ h := by cases h

/-- What every dispatch sees, if it is not an agent that connected. -/
theorem note (hw : Clocked w) {e : Entry} (htaken : e ≠ .taken) (hconn : e ≠ .connected) :
    Clocked (w.note e) where
  paired := (List.length_map _).trans hw.paired
  own := by
    intro start last hc hdown h hh ht
    obtain ⟨h', hh', rfl⟩ := List.mem_map.mp hh
    rcases List.mem_append.mp ht with ht | ht
    · exact (hw.own start last hc hdown h' hh' ht).concat hconn
    · exact absurd (List.mem_singleton.mp ht).symm htaken

/-- An agent is connected, or no clock runs. -/
theorem of_up {w' : World} (hpaired : w'.seen.length = w'.node.dispatchQueue.length)
    (hup : w'.connected = true ∨ w'.node.requeue = none) : Clocked w' where
  paired := hpaired
  own := by
    intro start last hc hdown
    rcases hup with hup | hnone
    · rw [hdown] at hup
      cases hup
    · rw [hnone] at hc
      cases hc

/-- A call that leaves the queue, the clock and the connection alone. -/
theorem of_eq (hw : Clocked w) {w' : World} (hseen : w'.seen = w.seen)
    (hq : w'.node.dispatchQueue = w.node.dispatchQueue)
    (ht : w'.node.requeue = w.node.requeue) (hconn : w'.connected = w.connected) :
    Clocked w' where
  paired := by rw [hseen, hq]; exact hw.paired
  own := by rw [hseen, ht, hconn]; exact hw.own

/-- A connection is lost while no clock runs, or there was none. -/
theorem down (hw : Clocked w) (hfound : w.connected = true → w.node.requeue.isSome = true → False) :
    Clocked { w with connected := false } := by
  cases hup : w.connected with
  | false => exact hw.of_eq rfl rfl rfl hup.symm
  | true =>
      refine of_up hw.paired (.inr ?_)
      exact Option.not_isSome_iff_eq_none.mp (hfound hup)

theorem dispatch (hw : Clocked w) (d : PendingDispatch) :
    Clocked (step w (.dispatch d)) where
  paired := by
    show (w.seen ++ [[]]).length = (w.node.dispatchQueue ++ [d]).length
    rw [List.length_append, List.length_append, hw.paired]
    rfl
  own := by
    intro start last hc hdown h hh ht
    rcases List.mem_append.mp hh with hold | hnew
    · exact hw.own start last hc hdown h hold ht
    · rw [List.mem_singleton.mp hnew] at ht
      cases ht

/-- A purge drops dispatches with their records. -/
theorem purge (hw : Clocked w) {w' : World} {jobId : String} (hseen : w'.seen = w.unpurged jobId)
    (hq : w'.node.dispatchQueue = w.node.dispatchQueue.filter (·.manifest.jobId ≠ jobId))
    (ht : w'.node.requeue = w.node.requeue) (hconn : w'.connected = w.connected) :
    Clocked w' where
  paired := by
    have hfst : (w.node.dispatchQueue.zip w.seen).map (·.1) = w.node.dispatchQueue :=
      List.map_fst_zip hw.paired.ge
    rw [hseen, hq, World.unpurged, List.length_map]
    nth_rewrite 2 [← hfst]
    rw [List.filter_map, List.length_map]
    rfl
  own := by
    intro start last hc hdown h hh htaken
    rw [hseen] at hh
    obtain ⟨p, hp, rfl⟩ := List.mem_map.mp hh
    have hmem := (List.of_mem_zip (List.mem_filter.mp hp).1).2
    exact hw.own start last (ht ▸ hc) (hconn ▸ hdown) p.2 hmem htaken

theorem mem_takeFirst {seen : List (List Entry)} {again : Bool} {h : List Entry}
    (hh : h ∈ takeFirst seen again) :
    h ∈ seen ∨ ∃ first ∈ seen.head?, again = true ∧ h = first ++ [.taken] := by
  unfold takeFirst at hh
  split at hh
  · cases hh
  rename_i first rest
  split at hh
  · rename_i hagain
    rcases List.mem_append.mp hh with hrest | hfirst
    · exact .inl (List.mem_cons_of_mem _ hrest)
    · exact .inr ⟨first, rfl, hagain, List.mem_singleton.mp hfirst⟩
  · exact .inl (List.mem_cons_of_mem _ hh)

theorem length_takeFirst {seen : List (List Entry)} {n : ℕ} (hseen : seen.length = n + 1)
    (again : Bool) : (takeFirst seen again).length = if again then n + 1 else n := by
  obtain ⟨first, rest, rfl⟩ := List.exists_cons_of_length_eq_add_one hseen
  have hrest : rest.length = n := Nat.succ.inj hseen
  cases again with
  | true => simp [takeFirst, hrest]
  | false => exact hrest

theorem mem_look {env : Surroundings} {h : List Entry} (hh : h ∈ (w.look env).seen) :
    h ∈ w.seen ∨ ∃ first ∈ w.seen.head?,
      (w.look env).node.dispatchQueue.length = w.node.dispatchQueue.length ∧
        h = first ++ [.taken] := by
  unfold World.look at hh
  dsimp only at hh
  split at hh
  · rcases mem_takeFirst hh with hold | ⟨first, hfirst, hagain, rfl⟩
    · exact .inl hold
    · exact .inr ⟨first, hfirst, of_decide_eq_true hagain, rfl⟩
  · exact .inl hh

theorem length_look (hw : Clocked w) {env : Surroundings} {d : PendingDispatch}
    {rest : List PendingDispatch} (hfree : w.node.Free env)
    (hq : w.node.dispatchQueue = d :: rest)
    (hq' : (w.look env).node.dispatchQueue.length = rest.length ∨
      (w.look env).node.dispatchQueue.length = rest.length + 1) :
    (w.look env).seen.length = (w.look env).node.dispatchQueue.length := by
  have hpaired : w.seen.length = rest.length + 1 := by
    rw [hw.paired, hq]
    rfl
  unfold World.look at hq' ⊢
  dsimp only at hq' ⊢
  rw [if_pos hfree, length_takeFirst hpaired, hq, List.length_cons]
  rcases hq' with hgone | hagain
  · simp [hgone]
  · simp [hagain]

/-- Nothing was taken. -/
theorem seen_look_idle (hw : Clocked w) {env : Surroundings}
    (hidle : ¬ w.node.Free env ∨ w.node.dispatchQueue = []) : (w.look env).seen = w.seen := by
  unfold World.look
  dsimp only
  split
  · rename_i hfree
    have hempty : w.seen.length = 0 := by
      rw [hw.paired, hidle.resolve_left (not_not.mpr hfree)]
      rfl
    rw [List.eq_nil_of_length_eq_zero hempty]
    rfl
  · rfl

/-- What was taken is gone. -/
theorem mem_look_gone {env : Surroundings} {d : PendingDispatch} {h : List Entry}
    (hq : w.node.dispatchQueue = d :: (w.look env).node.dispatchQueue)
    (hh : h ∈ (w.look env).seen) : h ∈ w.seen := by
  rcases mem_look hh with hold | ⟨-, -, hlength, -⟩
  · exact hold
  · rw [hq, List.length_cons] at hlength
    exact absurd hlength.symm (Nat.succ_ne_self _)

/-- **A look at the queue.** The clock that runs afterwards is the old one,
which the dispatch now at the back had seen start, or was started for it. -/
theorem look (hw : Clocked w) {env : Surroundings} (hagent : env.connected = w.connected)
    (hanew : w.connected = false → w.node.requeue.isSome = true → w.node.Free env →
      w.node.stopped = false → ∀ h ∈ w.seen.head?, .taken ∈ h)
    (hfound : w.connected = true → w.node.requeue.isSome = true → env.stillConnected = false →
      w.node.Free env ∧ w.node.stopped = false ∧ w.node.dispatchQueue ≠ []) :
    Clocked (if .spawnAgent true ∈ (w.node.update env).2 then
      (w.look env).note (.spawned .coordinator env.nowMs) else w.look env) := by
  cases looked_update w.node env with
  | nothing hfree hq ht hs =>
      rw [if_neg hs]
      have hseen := hw.seen_look_idle hfree
      refine ⟨by rw [hseen]; exact hw.paired.trans (congrArg List.length hq.symm), ?_⟩
      intro start last hc hdown
      rw [show (w.look env).node.requeue = w.node.requeue from ht] at hc
      rw [hseen]
      refine hw.own start last hc ?_
      -- a connection that is lost had been found
      by_contra hup
      obtain ⟨hfree', -, hne⟩ := hfound (eq_true_of_ne_false hup)
        (by rw [hc]; rfl) hdown
      exact hfree.elim (· hfree') hne
  | gone d hfree hq ht hs =>
      rw [if_neg hs]
      refine ⟨length_look hw hfree hq (.inl rfl), fun start last hc hdown h hh htaken => ?_⟩
      rcases ht with ⟨hsame, hwhy⟩ | hnone
      · rw [show (w.look env).node.requeue = w.node.requeue from hsame] at hc
        refine hw.own start last hc ?_ h (mem_look_gone hq hh) htaken
        by_contra hup
        obtain ⟨-, hgoing, -⟩ := hfound (eq_true_of_ne_false hup)
          (by rw [hc]; rfl) hdown
        rcases hwhy with hstopped | hlost
        · rw [hgoing] at hstopped
          cases hstopped
        · exact hup (hagent ▸ hlost)
      · rw [show (w.look env).node.requeue = none from hnone] at hc
        cases hc
  | again d rest start last hfree hgoing hlost hq hq' ht ht' hs =>
      rw [if_neg hs]
      have hlength : (w.look env).node.dispatchQueue.length = rest.length + 1 :=
        (congrArg List.length hq').trans List.length_append
      refine ⟨length_look hw hfree hq (.inr hlength), fun s l hc hdown h hh htaken => ?_⟩
      have hdown' : w.connected = false := hagent ▸ hlost
      rw [show (w.look env).node.requeue = some (start, env.nowMs) from ht'] at hc
      cases hc
      rcases mem_look hh with hold | ⟨first, hfirst, -, rfl⟩
      · exact hw.own start last ht hdown' h hold htaken
      · have hbefore : .taken ∈ first :=
          hanew hdown' (by rw [ht]; rfl) hfree hgoing first hfirst
        exact (hw.own start last ht hdown' first (List.mem_of_mem_head? hfirst) hbefore).concat
          (by simp)
  | spawned d rest hfree hlost hq hq' ht' hs =>
      rw [if_pos hs]
      have hlength : (w.look env).node.dispatchQueue.length = rest.length + 1 :=
        (congrArg List.length hq').trans List.length_append
      refine ⟨(List.length_map _).trans (length_look hw hfree hq (.inr hlength)), ?_⟩
      intro start last hc hdown h hh htaken
      obtain ⟨h', -, rfl⟩ := List.mem_map.mp hh
      rw [show ((w.look env).note _).node.requeue = some (env.nowMs, env.nowMs) from ht'] at hc
      cases hc
      refine spawnedFor_concat .coordinator env.nowMs ?_
      rcases List.mem_append.mp htaken with htaken | htaken
      · exact htaken
      · cases List.mem_singleton.mp htaken

theorem update (hw : Clocked w) {env : Surroundings}
    (hclock : OwnClock w (.call (.update env)) w') : Clocked (w.update env) := by
  let met : Surroundings := { env with connected := w.connected }
  have hagent : met.connected = w.connected := rfl
  have hlook := hw.look hagent (hclock.1 env rfl) hclock.2
  unfold World.update
  dsimp only
  split
  · refine of_up ((List.length_map _).trans hlook.paired) (.inl ?_)
    rename_i hup
    have hstill := (Bool.and_eq_true_iff.mp hup).2
    show World.connected (if _ then _ else _) = true
    split <;> exact hstill
  · exact hlook

end Clocked

/-! ## Steps and runs -/

theorem abandonCurrentRender_keeps (c : RenderCoordinator) (reason : String) :
    (c.abandonCurrentRender reason).1.dispatchQueue = c.dispatchQueue ∧
      (c.abandonCurrentRender reason).1.requeue = c.requeue := by
  unfold abandonCurrentRender
  split <;> exact ⟨rfl, rfl⟩

/-- No call but an update moves the clock, and no other but a purge the
queue. -/
theorem call_keeps (c : RenderCoordinator) {call : RenderCall}
    (hupdate : ∀ env, call ≠ .update env) (hpurge : ∀ jobId, call ≠ .purge jobId) :
    (call.apply c).1.dispatchQueue = c.dispatchQueue ∧ (call.apply c).1.requeue = c.requeue := by
  cases call with
  | update env => exact absurd rfl (hupdate env)
  | purge jobId => exact absurd rfl (hpurge jobId)
  | init | markDeleted | setStopped | setStaging => exact ⟨rfl, rfl⟩
  | abort reason =>
      show (c.abortCurrentRender reason).1.dispatchQueue = _ ∧
        (c.abortCurrentRender reason).1.requeue = _
      unfold abortCurrentRender
      split
      · exact ⟨rfl, rfl⟩
      · exact ⟨(failChunk_keeps c).1, (failChunk_keeps c).2.1⟩
  | abandon reason => exact abandonCurrentRender_keeps c reason
  | agentMessage m env =>
      show (c.handleAgentMessage env m).1.dispatchQueue = _ ∧
        (c.handleAgentMessage env m).1.requeue = _
      unfold handleAgentMessage
      split
      · exact ⟨rfl, rfl⟩
      cases m with
      | ack | pong | status | progress | stdout => exact ⟨rfl, rfl⟩
      | failed => exact ⟨(failChunk_keeps c).1, (failChunk_keeps c).2.1⟩
      | frameCompleted t frame =>
          dsimp only
          split <;> exact ⟨rfl, rfl⟩
      | completed t =>
          dsimp only [onChunkCompleted]
          split <;> exact ⟨rfl, rfl⟩

/-- Abandoning a job purges it. -/
theorem abandonJob_keeps (c : RenderCoordinator) (jobId reason : String) :
    (MonitorApp.abandonJobRender c jobId reason).1.dispatchQueue =
        c.dispatchQueue.filter (·.manifest.jobId ≠ jobId) ∧
      (MonitorApp.abandonJobRender c jobId reason).1.requeue = c.requeue := by
  obtain ⟨hq, ht⟩ := abandonCurrentRender_keeps c reason
  unfold MonitorApp.abandonJobRender
  by_cases hjob : c.activeRender.isSome = true ∧ c.currentJobId = jobId
  · rw [if_pos hjob]
    exact ⟨congrArg (List.filter _) hq, ht⟩
  · rw [if_neg hjob]
    exact ⟨rfl, rfl⟩

/-- **Step lemma.** -/
theorem clocked_step {w w' : World} (hw : Clocked w) {e : Event} (hclock : OwnClock w e w') :
    Clocked (step w e) := by
  cases e with
  | dispatch d => exact hw.dispatch d
  | call call =>
      by_cases hupdate : ∃ env, call = .update env
      · obtain ⟨env, rfl⟩ := hupdate
        exact hw.update hclock
      by_cases hpurge : ∃ jobId, call = .purge jobId
      · obtain ⟨jobId, rfl⟩ := hpurge
        exact hw.purge rfl rfl rfl rfl
      obtain ⟨hq, ht⟩ := call_keeps w.node (fun env h => hupdate ⟨env, h⟩)
        (fun jobId h => hpurge ⟨jobId, h⟩)
      have hstep : step w (.call call) = { w with node := (call.apply w.node).1 } := by
        cases call with
        | update env => exact absurd ⟨env, rfl⟩ hupdate
        | purge jobId => exact absurd ⟨jobId, rfl⟩ hpurge
        | _ => rfl
      rw [hstep]
      exact hw.of_eq rfl hq ht rfl
  | abandonJob jobId reason =>
      obtain ⟨hq, ht⟩ := abandonJob_keeps w.node jobId reason
      exact hw.purge rfl hq ht rfl
  | connect => exact Clocked.of_up ((List.length_map _).trans hw.paired) (.inl rfl)
  | disconnect => exact hw.down hclock.2
  | restartAgent started nowMs =>
      have hdown : Clocked { w with connected := false } := hw.down hclock.2
      unfold step
      dsimp only
      split
      · exact hdown.note (by simp) (by simp)
      · exact hdown

/-- **Step lemma, for failures**: the dispatch that times out has been taken
before, so the clock is its own. -/
theorem failsEarned_step {w w' : World} (hw : Clocked w) {e : Event}
    (hclock : OwnClock w e w') : FailsEarned w e w' := by
  intro env he hout
  obtain ⟨hfree, hgoing, hdown, start, last, hrun, hten⟩ := hout.clock
  obtain ⟨d, hd, -⟩ := hout
  have hlength : 0 < w.seen.length := by
    rw [hw.paired]
    exact List.length_pos_of_mem (List.mem_of_mem_head? hd)
  obtain ⟨h, rest, hseen⟩ := List.exists_cons_of_length_pos hlength
  have hfirst : h ∈ w.seen.head? := by rw [hseen]; rfl
  have htaken : .taken ∈ h := hclock.1 env he hdown (by rw [hrun]; rfl) hfree hgoing h hfirst
  exact ⟨h, hfirst, .coordinator, start,
    hw.own start last hrun hdown h (List.mem_of_mem_head? hfirst) htaken, hten⟩

/-- **A failure for want of an agent is earned** in every run in which no
dispatch is taken for the first time while the clock of an earlier one runs, and
no agent that connected meanwhile is lost before an update has found it. -/
theorem failures_earned (es : List Event) (h : machine.Along OwnClock {} es) :
    machine.Along FailsEarned {} es := by
  refine Machine.Along.mono (I := Clocked) ?_ Clocked.start h
  intro w e w' hw hstep hclock
  cases hstep
  exact ⟨failsEarned_step hw hclock, clocked_step hw hclock⟩

/-- One dispatch that no agent ever connects for. -/
def neverConnects : List Event :=
  [.dispatch { manifest := { jobId := "shot" }, chunk := ⟨1, 1⟩ },
    .call (.update { nowMs := 0, stillConnected := false }),
    .call (.update { nowMs := 10000, stillConnected := false })]

theorem neverConnects_earned : machine.Along FailsEarned {} neverConnects := by
  refine failures_earned neverConnects ?_
  rintro _ ⟨⟩
  refine ⟨⟨?_, fun hup => by cases hup⟩, ?_⟩
  · intro _ he
    cases he
  rintro _ ⟨⟩
  refine ⟨⟨?_, fun hup => by cases hup⟩, ?_⟩
  · intro _ _ _ hrun
    cases hrun
  rintro _ ⟨⟩
  refine ⟨⟨?_, fun hup => by cases hup⟩, trivial⟩
  -- the dispatch had been taken when the clock started
  rintro _ - - - - - h ⟨⟩
  decide

/-- A dispatch has an agent spawned that never connects and is purged; a minute
later another one comes. -/
def purged : List Event :=
  [.dispatch { manifest := { jobId := "shot" }, chunk := ⟨1, 1⟩ },
    .call (.update { nowMs := 0, stillConnected := false }),
    .call (.purge "shot"),
    .dispatch { manifest := { jobId := "other" }, chunk := ⟨1, 1⟩ }]

/-- The other dispatch fails at once, and no agent was spawned for it. -/
theorem purged_clock_fails_next : ¬ ∀ es, machine.Along FailsEarned {} es := by
  intro h
  refine Machine.Along.refute_run purged
    (.call (.update { nowMs := 60000, stillConnected := false })) (fun _ _ => true) ?_ ?_ (h _)
  · intro w w' hrun _ _ hearned
    cases hrun
    obtain ⟨h, hh, caller, t, ⟨before, after, hsplit, -, -⟩, -⟩ :=
      hearned _ rfl ⟨_, rfl, rfl⟩
    cases hh
    cases before with
    | nil => cases hsplit
    | cons => cases hsplit
  · rfl

end MinRender.AgentWait
