import MinRender.Framework.Runs
import MinRender.Monitor.RenderCoordinator

/-!
# Whose end a terminal message reports

The coordinator, the agent process and the two message queues between them,
under every interleaving. A sent task carries a serial number that no part of
the code reads: it tells two sendings of one chunk apart, so that "the message
is about the task now active" can be said.
-/

namespace MinRender.RenderOwnership
open RenderCoordinator

/-- A task as sent: what the wire carries, and its serial number. -/
abbrev Task := TaskMessage × Nat

/-- `connected` is the monitor's view of the pipe, `linked` the agent's end of
it; `serial` counts the tasks sent, so it numbers the active render's task. -/
structure World where
  coordinator : RenderCoordinator := {}
  connected : Bool := false
  linked : Bool := false
  agent : Option (Agent Task) := none
  toAgent : List (MonitorToAgent Task) := []
  fromAgent : List (AgentToMonitor Task) := []
  serial : Nat := 0
deriving DecidableEq

inductive Event
  | queueDispatch (d : PendingDispatch)
  | update (env : Surroundings)
  | abort (reason : String)
  | abandon (reason : String)
  | purge (jobId : String)
  | markDeleted (jobId : String)
  | setStopped (stopped : Bool)
  | setStaging (enabled : Bool)
  /-- the next message from the agent reaches the coordinator -/
  | deliver (env : Surroundings)
  | agentConnects
  | agentReads (outcome : TaskOutcome)
  | agentEmits (news : RenderNews)
  | childExits (exitCode : Int)
  | timeout (seconds : Nat)
  | agentReports
  /-- the agent dies, is killed or gives up; the monitor still reads `kept` of
  its messages -/
  | agentQuits (kept : Nat)
  | pipeBreaks (kept : Nat)
  | noticesDisconnect

namespace World

/-- Written to the pipe, or lost with it. -/
def send (w : World) (m : MonitorToAgent Task) : World :=
  if w.connected ∧ w.linked then { w with toAgent := w.toAgent ++ [m] } else w

/-- An effect of a coordinator call, as far as the agent sees it. A second
agent process exits at once. -/
def perform (w : World) : RenderEffect → World
  | .sendTask t => { w with serial := w.serial + 1 }.send (.task (t, w.serial + 1))
  | .sendAbort reason => w.send (.abort reason)
  | .spawnAgent true => { w with agent := w.agent <|> some .starting }
  | _ => w

/-- A call on the coordinator and its effects. -/
def call (w : World) (r : RenderCoordinator × List RenderEffect) : World :=
  r.2.foldl perform { w with coordinator := r.1 }

/-- What `update` reads in this world; the connection may be lost while it
runs. -/
def around (w : World) (env : Surroundings) : Surroundings :=
  { env with connected := w.connected }

/-- The agent's end of the pipe closes; what was on its way to it is lost. -/
def unlink (w : World) (agent : Option (Agent Task)) (kept : Nat) : World :=
  { w with
    agent
    linked := false
    toAgent := []
    fromAgent := w.fromAgent.take kept }

end World

open World

def step (w : World) : Event → Option World
  | .queueDispatch d => some { w with
      coordinator := w.coordinator.queueDispatch d.manifest d.chunk d.editEpoch }
  | .update env => some (w.call (w.coordinator.update (w.around env)))
  | .abort reason => some (w.call (w.coordinator.abortCurrentRender reason))
  | .abandon reason => some (w.call (w.coordinator.abandonCurrentRender reason))
  | .purge jobId => some { w with coordinator := w.coordinator.purgeJob jobId }
  | .markDeleted jobId =>
      some { w with coordinator := w.coordinator.markJobDeleted jobId }
  | .setStopped stopped =>
      some { w with coordinator := w.coordinator.setStopped stopped }
  | .setStaging enabled =>
      some { w with coordinator := w.coordinator.setStagingEnabled enabled }
  | .deliver env =>
      match w.fromAgent with
      | [] => none
      | m :: rest => some ({ w with fromAgent := rest }.call
          (w.coordinator.handleAgentMessage env m))
  | .agentConnects =>
      match w.agent with
      | some a =>
          if w.connected ∨ w.linked then none
          else some { w with
            connected := true
            linked := true
            agent := some a.connect.1
            fromAgent := w.fromAgent ++ a.connect.2 }
      | none => none
  | .agentReads outcome =>
      match w.agent, w.toAgent with
      | some a, m :: rest =>
          let (next, sent) := a.read outcome m
          let w := { w with
            agent := next
            toAgent := rest
            fromAgent := w.fromAgent ++ sent }
          some (if next.isNone then w.unlink none w.fromAgent.length else w)
      | _, _ => none
  | .agentEmits news =>
      match w.agent with
      | some a =>
          if w.linked then some { w with fromAgent := w.fromAgent ++ a.emit news }
          else none
      | none => none
  | .childExits exitCode =>
      match w.agent with
      | some (.rendering e) =>
          some { w with agent := some (.rendering (e.childExits exitCode)) }
      | _ => none
  | .timeout seconds =>
      match w.agent with
      | some (.rendering e) =>
          let killed := e.kill ("Timeout after " ++ toString seconds ++ "s")
          some { w with agent := some (.rendering killed) }
      | _ => none
  | .agentReports =>
      match w.agent.bind (·.report) with
      | some sent =>
          if w.linked then
            some { w with
              agent := none
              linked := false
              toAgent := []
              fromAgent := w.fromAgent ++ sent }
          else none
      | none => none
  | .agentQuits kept => if w.agent.isSome then some (w.unlink none kept) else none
  | .pipeBreaks kept => if w.linked then some (w.unlink w.agent kept) else none
  | .noticesDisconnect =>
      if w.connected ∧ ¬ w.linked then some { w with connected := false } else none

def machine : Machine World Event := ⟨step⟩

/-- A freshly started monitor. -/
def start : World := {}

/-! ## The tasks that end a render -/

/-- The tasks whose end can still be reported. -/
def outstanding (w : World) : List Task :=
  w.toAgent.filterMap (·.task?) ++ (w.agent.bind (·.task?)).toList ++
    w.fromAgent.filterMap (·.terminal?)

/-- The task of a render. -/
def taskOf (ar : ActiveRender) : TaskMessage := buildTaskJson ar.manifest ar.chunk

/-- A terminal message that ends the active render is about its own task:
the same job and range, and the same sending of it. -/
def EndsItsOwnTask (w : World) (e : Event) (_ : World) : Prop :=
  ∀ env m t ar, e = .deliver env → w.fromAgent.head? = some m →
    m.terminal? = some t → w.coordinator.activeRender = some ar →
    t = (taskOf ar, w.serial)

/-- An `update` that starts a render finds no earlier task outstanding. -/
def StartsAlone (w : World) (e : Event) (w' : World) : Prop :=
  ∀ env, e = .update env → w.coordinator.activeRender = none →
    w'.coordinator.activeRender.isSome = true → outstanding w = []

/-! ## One call of the coordinator -/

variable {c : RenderCoordinator} {env : Surroundings} {w w' : World} {e : Event}

/-- The tasks a list of effects sends. -/
def tasksSent (effects : List RenderEffect) : List TaskMessage :=
  effects.filterMap fun
    | .sendTask t => some t
    | _ => none

theorem tasksSent_append (xs ys : List RenderEffect) :
    tasksSent (xs ++ ys) = tasksSent xs ++ tasksSent ys := List.filterMap_append

theorem tasksSent_deliveries :
    tasksSent (c.updatePendingDeliveries env).2 = [] := by
  unfold tasksSent
  rw [List.filterMap_eq_nil_iff]
  intro x hx
  obtain ⟨y, hy, hxy⟩ := List.mem_flatMap.mp hx
  obtain ⟨i, hi, rfl⟩ := List.mem_mapIdx.mp hy
  rcases mem_retryDelivery hxy with rfl | rfl
  · rfl
  · rfl

/-- Taking a dispatch sends nothing and leaves the active render alone, or
starts a render and sends its task. -/
theorem takeDispatch_sends :
    ((c.takeDispatch env).1.activeRender = c.activeRender ∧
      tasksSent (c.takeDispatch env).2 = []) ∨
    (c.activeRender = none ∧ ∃ ar, (c.takeDispatch env).1.activeRender = some ar ∧
      tasksSent (c.takeDispatch env).2 = [taskOf ar]) := by
  cases takeDispatch_taken c env with
  | started d rest hfree _ _ _ hr =>
      rw [hr]
      refine .inr ⟨hfree.1, _, rfl, ?_⟩
      have htask : taskOf (renderOf { c with dispatchQueue := rest } d env) =
          buildTaskJson d.manifest d.chunk := by
        unfold renderOf
        split
        · split <;> rfl
        · rfl
      simp [tasksSent, startRender, htask]
  | nothing _ hr | abandoned _ _ _ _ _ hr | spawned _ _ _ _ _ _ hr | unspawned _ _ _ _ _ _ hr
  | timedOut _ _ _ _ _ _ _ _ _ _ hr | waiting _ _ _ _ _ _ _ _ _ hr =>
      rw [hr]
      exact .inl ⟨rfl, rfl⟩

/-- Watching the pipe leaves the active render alone or fails it. -/
theorem checkPipe_sends :
    tasksSent (c.checkPipe env).2 = [] ∧
      ((c.checkPipe env).1.activeRender = c.activeRender ∨
        (c.checkPipe env).1.activeRender = none) := by
  rcases checkPipe_cases c env with ⟨grace, hkept⟩ | hfails
  · rw [hkept]
    exact ⟨rfl, .inl rfl⟩
  · rw [hfails]
    rcases failChunk_cases c with hnone | ⟨ar, -, hended⟩
    · rw [hnone]
      exact ⟨rfl, .inl rfl⟩
    · rw [hended]
      exact ⟨rfl, .inr rfl⟩

/-- **What an update can do to the active render**: end it, leave it and send
nothing, or start one and send its task. -/
theorem update_cases :
    (c.update env).1.activeRender = none ∨
    ((c.update env).1.activeRender = c.activeRender ∧
      tasksSent (c.update env).2 = []) ∨
    (c.activeRender = none ∧ ∃ ar, (c.update env).1.activeRender = some ar ∧
      tasksSent (c.update env).2 = [taskOf ar]) := by
  have hsent : tasksSent (c.update env).2 = tasksSent
      ((c.updatePendingDeliveries env).1.takeDispatch env).2 := by
    simp only [update_eq, tasksSent_append, tasksSent_deliveries, checkPipe_sends.1,
      List.nil_append, List.append_nil]
  have hactive : (c.updatePendingDeliveries env).1.activeRender = c.activeRender := rfl
  have hpipe :=
    (@checkPipe_sends ((c.updatePendingDeliveries env).1.takeDispatch env).1 env).2
  rcases hpipe with hkept | hended
  · rcases @takeDispatch_sends (c.updatePendingDeliveries env).1 env with
      ⟨hsame, hnone⟩ | ⟨hidle, ar, hstarted, htask⟩
    · exact .inr (.inl ⟨(hkept.trans hsame).trans hactive, hsent.trans hnone⟩)
    · exact .inr (.inr ⟨hactive ▸ hidle, ar, hkept.trans hstarted, hsent.trans htask⟩)
  · exact .inl hended

theorem abortCurrentRender_spec (reason : String) :
    (c.abortCurrentRender reason).1.activeRender = none := by
  unfold abortCurrentRender
  split
  · assumption
  · rename_i ar h
    simp [failChunk, h, finish]

theorem abandonCurrentRender_spec (reason : String) :
    (c.abandonCurrentRender reason).1.activeRender = none := by
  unfold abandonCurrentRender
  split
  · assumption
  · rfl

/-- A message ends the active render or leaves it, up to its acknowledgement
and frames, and sends nothing. -/
theorem handleAgentMessage_spec (m : AgentToMonitor Task) :
    tasksSent (c.handleAgentMessage env m).2 = [] ∧
      ∀ ar, (c.handleAgentMessage env m).1.activeRender = some ar →
        ∃ ar₀, c.activeRender = some ar₀ ∧ taskOf ar = taskOf ar₀ := by
  cases h : c.activeRender with
  | none =>
      simp only [handleAgentMessage, h]
      exact ⟨rfl, fun ar har => by simp at har⟩
  | some ar₀ =>
      have hsame : ∀ ar, c.activeRender = some ar →
          ∃ ar₁, some ar₀ = some ar₁ ∧ taskOf ar = taskOf ar₁ := by
        intro ar har
        exact ⟨ar, h ▸ har, rfl⟩
      simp only [handleAgentMessage, h]
      cases m with
      | pong | status | progress | stdout => exact ⟨rfl, hsame⟩
      | ack t =>
          refine ⟨rfl, fun ar har => ⟨ar₀, rfl, ?_⟩⟩
          cases har
          rfl
      | frameCompleted t frame =>
          simp only []
          split
          · refine ⟨rfl, fun ar har => ⟨ar₀, rfl, ?_⟩⟩
            cases har
            rfl
          · exact ⟨rfl, hsame⟩
      | completed t =>
          simp only [onChunkCompleted]
          split
          · exact ⟨rfl, fun ar har => by cases har⟩
          · exact ⟨rfl, fun ar har => by cases har⟩
      | failed t error =>
          simp only [failChunk, h]
          exact ⟨rfl, fun ar har => by cases har⟩

/-! ## Effects -/

theorem mem_outstanding {t : Task} : t ∈ outstanding w ↔
    (∃ m ∈ w.toAgent, m.task? = some t) ∨ (∃ a, w.agent = some a ∧ a.task? = some t) ∨
      ∃ m ∈ w.fromAgent, m.terminal? = some t := by
  simp only [outstanding, List.mem_append, List.mem_filterMap, Option.mem_toList,
    Option.bind_eq_some_iff, or_assoc]

theorem outstanding_of_toAgent {m : MonitorToAgent Task} {t : Task}
    (hm : m ∈ w.toAgent) (ht : m.task? = some t) : t ∈ outstanding w :=
  mem_outstanding.mpr (.inl ⟨m, hm, ht⟩)

theorem outstanding_of_agent {a : Agent Task} {t : Task}
    (ha : w.agent = some a) (ht : a.task? = some t) : t ∈ outstanding w :=
  mem_outstanding.mpr (.inr (.inl ⟨a, ha, ht⟩))

theorem outstanding_of_fromAgent {m : AgentToMonitor Task} {t : Task}
    (hm : m ∈ w.fromAgent) (ht : m.terminal? = some t) : t ∈ outstanding w :=
  mem_outstanding.mpr (.inr (.inr ⟨m, hm, ht⟩))

theorem perform_coordinator (x : RenderEffect) :
    (w.perform x).coordinator = w.coordinator ∧ (w.perform x).fromAgent = w.fromAgent := by
  unfold perform send
  split
  · split <;> exact ⟨rfl, rfl⟩
  · split <;> exact ⟨rfl, rfl⟩
  · exact ⟨rfl, rfl⟩
  · exact ⟨rfl, rfl⟩

theorem mem_send {m : MonitorToAgent Task} {t : Task}
    (h : t ∈ outstanding (w.send m)) : t ∈ outstanding w ∨ m.task? = some t := by
  unfold send at h
  split at h
  · rw [mem_outstanding] at h ⊢
    rcases h with ⟨m', hm', ht⟩ | h | h
    · rcases List.mem_append.mp hm' with hm' | hm'
      · exact .inl (.inl ⟨m', hm', ht⟩)
      · exact .inr (List.mem_singleton.mp hm' ▸ ht)
    · exact .inl (.inr (.inl h))
    · exact .inl (.inr (.inr h))
  · exact .inl h

@[simp] theorem send_serial (m : MonitorToAgent Task) :
    (w.send m).serial = w.serial := by
  unfold send
  split <;> rfl

/-- Effects number the tasks they send and add no other task. -/
theorem foldl_perform (effects : List RenderEffect) :
    (effects.foldl perform w).coordinator = w.coordinator ∧
    (effects.foldl perform w).serial = w.serial + (tasksSent effects).length ∧
    ∀ t ∈ outstanding (effects.foldl perform w),
      t ∈ outstanding w ∨ t ∈ (tasksSent effects).zipIdx (w.serial + 1) := by
  induction effects generalizing w with
  | nil => exact ⟨rfl, rfl, fun t ht => .inl ht⟩
  | cons x xs ih =>
      obtain ⟨hc, hs, ho⟩ := ih (w := w.perform x)
      refine ⟨hc.trans (perform_coordinator x).1, ?_⟩
      cases x with
      | sendTask t =>
          -- the only effect that numbers a task
          have hserial : (w.perform (.sendTask t)).serial = w.serial + 1 := by
            simp [perform]
          have hsent : tasksSent (.sendTask t :: xs) = t :: tasksSent xs := rfl
          rw [hserial] at hs ho
          rw [hsent, List.zipIdx_cons, List.length_cons]
          refine ⟨by rw [List.foldl_cons, hs]; omega, fun u hu => ?_⟩
          rcases ho u hu with hold | hnew
          · rcases mem_send hold with hold | hu
            · exact .inl hold
            · refine .inr ?_
              cases hu
              exact List.mem_cons_self
          · exact .inr (List.mem_cons_of_mem _ hnew)
      | sendAbort reason =>
          have hserial : (w.perform (.sendAbort reason)).serial = w.serial := by
            simp [perform]
          rw [hserial] at hs ho
          refine ⟨hs, fun u hu => ?_⟩
          rcases ho u hu with hold | hnew
          · rcases mem_send hold with hold | hu
            · exact .inl hold
            · cases hu
          · exact .inr hnew
      | spawnAgent started =>
          have hserial : (w.perform (.spawnAgent started)).serial = w.serial := by
            cases started <;> rfl
          rw [hserial] at hs ho
          refine ⟨hs, fun u hu => (ho u hu).imp_left fun hold => ?_⟩
          cases started with
          | false => exact hold
          | true =>
              -- a new agent has no task
              rw [mem_outstanding] at hold ⊢
              rcases hold with h | ⟨a, ha, hu⟩ | h
              · exact .inl h
              · cases hw : w.agent with
                | none =>
                    simp [perform, hw] at ha
                    subst ha
                    cases hu
                | some b =>
                    simp [perform, hw] at ha
                    exact .inr (.inl ⟨a, by rw [ha], hu⟩)
              · exact .inr (.inr h)
      | completion | frameCompletion | clearReady | markNeedsAttention =>
          exact ⟨hs, ho⟩

/-! ## The invariant -/

/-- While a render is active, nothing but its own task is outstanding. -/
def Inv (w : World) : Prop :=
  ∀ ar, w.coordinator.activeRender = some ar →
    ∀ t ∈ outstanding w, t = (taskOf ar, w.serial)

/-- A step that starts no render and sends no task keeps the invariant if it
adds nothing outstanding. -/
theorem inv_of_subset (h : Inv w)
    (hactive : ∀ ar, w'.coordinator.activeRender = some ar →
      ∃ ar₀, w.coordinator.activeRender = some ar₀ ∧ taskOf ar = taskOf ar₀)
    (hserial : w'.serial = w.serial)
    (hout : ∀ t ∈ outstanding w', t ∈ outstanding w) : Inv w' := by
  intro ar har t ht
  obtain ⟨ar₀, har₀, htask⟩ := hactive ar har
  rw [h ar₀ har₀ t (hout t ht), htask, hserial]

/-- A call that sends no task. -/
theorem inv_call {r : RenderCoordinator × List RenderEffect} (h : Inv w)
    (hactive : ∀ ar, r.1.activeRender = some ar →
      ∃ ar₀, w.coordinator.activeRender = some ar₀ ∧ taskOf ar = taskOf ar₀)
    (hsent : tasksSent r.2 = []) : Inv (w.call r) := by
  obtain ⟨hc, hs, ho⟩ := foldl_perform (w := { w with coordinator := r.1 }) r.2
  rw [hsent] at hs ho
  refine inv_of_subset h (fun ar har => hactive ar ?_) hs fun t ht => ?_
  · rw [← har]
    exact congrArg RenderCoordinator.activeRender hc.symm
  · exact (ho t ht).elim id fun h => by cases h

theorem inv_call_ended {r : RenderCoordinator × List RenderEffect}
    (hnone : r.1.activeRender = none) : Inv (w.call r) := by
  intro ar har
  have hc := (foldl_perform (w := { w with coordinator := r.1 }) r.2).1
  have : r.1.activeRender = some ar := (congrArg _ hc.symm).trans har
  rw [hnone] at this
  cases this

/-- A step that leaves the active render alone and sends no task. -/
theorem inv_frame (h : Inv w)
    (hactive : w'.coordinator.activeRender = w.coordinator.activeRender)
    (hserial : w'.serial = w.serial)
    (hout : ∀ t ∈ outstanding w', t ∈ outstanding w) : Inv w' :=
  inv_of_subset h (fun ar har => ⟨ar, hactive ▸ har, rfl⟩) hserial hout

/-- A step of the agent: it leaves messages unread, goes on with a task that
was outstanding and reports the end of none other. -/
theorem inv_agentStep {connected linked : Bool} {agent : Option (Agent Task)}
    {toAgent : List (MonitorToAgent Task)} {sent : List (AgentToMonitor Task)}
    (h : Inv w) (hto : toAgent ⊆ w.toAgent)
    (hagent : ∀ a, agent = some a → ∀ t, a.task? = some t → t ∈ outstanding w)
    (hsent : ∀ m ∈ sent, ∀ t, m.terminal? = some t → t ∈ outstanding w) :
    Inv { w with
      connected := connected
      linked := linked
      agent := agent
      toAgent := toAgent
      fromAgent := w.fromAgent ++ sent } := by
  refine inv_frame h rfl rfl fun t ht => ?_
  rcases mem_outstanding.mp ht with ⟨m, hm, hmt⟩ | ⟨a, ha, hat⟩ | ⟨m, hm, hmt⟩
  · exact outstanding_of_toAgent (hto hm) hmt
  · exact hagent a ha t hat
  · rcases List.mem_append.mp hm with hm | hm
    · exact outstanding_of_fromAgent hm hmt
    · exact hsent m hm t hmt

/-- The child of the rendering agent ends; the task stays the agent's. -/
theorem inv_executor {e e' : RenderExecutor Task} (h : Inv w)
    (he : w.agent = some (.rendering e)) (htask : e'.task = e.task) :
    Inv { w with agent := some (.rendering e') } := by
  refine inv_frame h rfl rfl fun t ht => ?_
  simpa [outstanding, Agent.task?, he, htask] using ht

/-- The pipe breaks or the agent dies: messages are lost and none is added. -/
theorem inv_unlink {agent : Option (Agent Task)} {kept : Nat} (h : Inv w)
    (hagent : ∀ a, agent = some a → w.agent = some a) : Inv (w.unlink agent kept) := by
  refine inv_frame h rfl rfl fun t ht => ?_
  rcases mem_outstanding.mp ht with ⟨m, hm, -⟩ | ⟨a, ha, hat⟩ | ⟨m, hm, hmt⟩
  · cases hm
  · exact outstanding_of_agent (hagent a ha) hat
  · exact outstanding_of_fromAgent (List.mem_of_mem_take hm) hmt

theorem inv_update (h : Inv w)
    (hcond : StartsAlone w (.update env)
      (w.call (w.coordinator.update (w.around env)))) :
    Inv (w.call (w.coordinator.update (w.around env))) := by
  rcases @update_cases w.coordinator (w.around env) with
    hended | ⟨hsame, hsent⟩ | ⟨hidle, ar, har, hsent⟩
  · exact inv_call_ended hended
  · exact inv_call h (fun ar har => ⟨ar, hsame ▸ har, rfl⟩) hsent
  · -- a render starts: the pipes hold its task or nothing
    obtain ⟨hc, hs, ho⟩ := foldl_perform
      (w := { w with coordinator := (w.coordinator.update (w.around env)).1 })
      (w.coordinator.update (w.around env)).2
    have hactive : (w.call (w.coordinator.update
        (w.around env))).coordinator.activeRender = some ar :=
      (congrArg RenderCoordinator.activeRender hc).trans har
    have hempty : outstanding w = [] := hcond env rfl hidle (by simp [hactive])
    rw [hsent] at hs ho
    intro ar' har' t ht
    rw [hactive] at har'
    cases har'
    rcases ho t ht with hold | hnew
    · exact absurd (show t ∈ outstanding w from hold) (by simp [hempty])
    · have hserial : (w.call (w.coordinator.update (w.around env))).serial =
          w.serial + 1 := hs
      rw [hserial]
      exact List.mem_singleton.mp hnew

theorem inv_deliver {m : AgentToMonitor Task} {rest : List (AgentToMonitor Task)}
    (h : Inv w) (hm : w.fromAgent = m :: rest) :
    Inv ({ w with fromAgent := rest }.call
      (w.coordinator.handleAgentMessage env m)) := by
  have hpop : Inv { w with fromAgent := rest } := by
    refine inv_frame h rfl rfl fun t ht => ?_
    rw [mem_outstanding] at ht ⊢
    rcases ht with ht | ht | ⟨m', hm', ht⟩
    · exact .inl ht
    · exact .inr (.inl ht)
    · exact .inr (.inr ⟨m', hm ▸ List.mem_cons_of_mem _ hm', ht⟩)
  obtain ⟨hsent, hactive⟩ := @handleAgentMessage_spec w.coordinator env m
  exact inv_call hpop hactive hsent

theorem inv_reads {outcome : TaskOutcome} (h : Inv w)
    (hstep : step w (.agentReads outcome) = some w') : Inv w' := by
  simp only [step] at hstep
  split at hstep
  case h_2 => cases hstep
  case h_1 a m rest ha hto =>
  obtain ⟨hnext, hsent⟩ := Agent.read_tasks outcome a m
  have hread : ∀ t, m.task? = some t → t ∈ outstanding w := fun t ht =>
    outstanding_of_toAgent (hto ▸ List.mem_cons_self) ht
  have hrest : rest ⊆ w.toAgent := hto ▸ List.subset_cons_self m rest
  have hafter : Inv { w with
      agent := (a.read outcome m).1
      toAgent := rest
      fromAgent := w.fromAgent ++ (a.read outcome m).2 } :=
    inv_agentStep h hrest
      (fun a' ha' t ht => (hnext a' ha' t ht).elim (outstanding_of_agent ha) (hread t))
      (fun m' hm' t ht => hread t (hsent m' hm' t ht))
  cases hstep
  split
  · -- the agent exits
    exact inv_unlink hafter fun a' ha' => by cases ha'
  · exact hafter

theorem inv_connects (h : Inv w) (hstep : step w .agentConnects = some w') :
    Inv w' := by
  simp only [step] at hstep
  split at hstep
  case h_2 => cases hstep
  case h_1 a ha =>
  split at hstep
  · cases hstep
  · cases hstep
    refine inv_agentStep h (List.Subset.refl _) (fun a' ha' t ht => ?_)
      fun m hm t ht => ?_
    · cases ha'
      exact outstanding_of_agent ha (by simpa using ht)
    · rw [Agent.connect_terminal? hm] at ht
      cases ht

theorem inv_emits {news : RenderNews} (h : Inv w)
    (hstep : step w (.agentEmits news) = some w') : Inv w' := by
  simp only [step] at hstep
  split at hstep
  case h_2 => cases hstep
  case h_1 a ha =>
  split at hstep
  · cases hstep
    refine inv_agentStep h (List.Subset.refl _)
      (fun _ ha' _ ht => outstanding_of_agent ha' ht) fun m hm t ht => ?_
    rw [Agent.emit_terminal? hm] at ht
    cases ht
  · cases hstep

/-- The agent reports the end of its task and is gone. -/
theorem inv_reports (h : Inv w) (hstep : step w .agentReports = some w') :
    Inv w' := by
  simp only [step] at hstep
  split at hstep
  case h_2 => cases hstep
  case h_1 sent hsent =>
  split at hstep
  · cases hstep
    obtain ⟨a, ha, hrep⟩ := Option.bind_eq_some_iff.mp hsent
    exact inv_agentStep h (List.nil_subset _) (fun a' ha' => by cases ha')
      fun m hm t ht => outstanding_of_agent ha (Agent.report_terminal? hrep hm ht)
  · cases hstep

theorem inv_step (h : Inv w) (hstep : machine.step w e = some w')
    (hcond : StartsAlone w e w') : Inv w' := by
  cases e with
  | queueDispatch d => cases hstep; exact inv_frame h rfl rfl fun t ht => ht
  | purge jobId => cases hstep; exact inv_frame h rfl rfl fun t ht => ht
  | markDeleted jobId => cases hstep; exact inv_frame h rfl rfl fun t ht => ht
  | setStopped stopped => cases hstep; exact inv_frame h rfl rfl fun t ht => ht
  | setStaging enabled => cases hstep; exact inv_frame h rfl rfl fun t ht => ht
  | update env =>
      cases hstep
      exact inv_update h hcond
  | abort reason =>
      cases hstep
      exact inv_call_ended (abortCurrentRender_spec reason)
  | abandon reason =>
      cases hstep
      exact inv_call_ended (abandonCurrentRender_spec reason)
  | deliver env =>
      simp only [machine, step] at hstep
      split at hstep
      · cases hstep
      · rename_i m rest hm
        cases hstep
        exact inv_deliver h hm
  | agentReads outcome => exact inv_reads h hstep
  | agentConnects => exact inv_connects h hstep
  | agentEmits news => exact inv_emits h hstep
  | agentReports => exact inv_reports h hstep
  | childExits exitCode =>
      simp only [machine, step] at hstep
      split at hstep
      case h_2 => cases hstep
      case h_1 e he =>
      cases hstep
      exact inv_executor h he (by simp)
  | timeout seconds =>
      simp only [machine, step] at hstep
      split at hstep
      case h_2 => cases hstep
      case h_1 e he =>
      cases hstep
      exact inv_executor h he (by simp)
  | agentQuits kept =>
      simp only [machine, step] at hstep
      split at hstep
      · cases hstep
        exact inv_unlink h fun a ha => by cases ha
      · cases hstep
  | pipeBreaks kept =>
      simp only [machine, step] at hstep
      split at hstep
      · cases hstep
        exact inv_unlink h fun _ ha => ha
      · cases hstep
  | noticesDisconnect =>
      simp only [machine, step] at hstep
      split at hstep
      · cases hstep
        exact inv_frame h rfl rfl fun t ht => ht
      · cases hstep

/-- **A terminal message ends its own task in any run whose renders start
alone.** From a freshly started monitor and for every interleaving of the
coordinator's calls, the agent's steps, its deaths and reconnections and the
delivery of messages: while no render is started before every earlier task has
been answered or lost, each terminal message that ends the active render was
produced by the agent's run of that very task. -/
theorem ends_own_task_of_starts_alone (es : List Event) :
    machine.Along StartsAlone start es → machine.Along EndsItsOwnTask start es := by
  refine Machine.Along.mono (I := Inv) ?_ fun ar har => by cases har
  intro w e w' h hstep hcond
  refine ⟨?_, inv_step h hstep hcond⟩
  rintro env m t ar rfl hm ht har
  refine h ar har t (mem_outstanding.mpr (.inr (.inr ⟨m, ?_, ht⟩)))
  exact List.mem_of_mem_head? hm

/-- The dispatch of one frame of a job. -/
def dispatchOf (frame : Int) : PendingDispatch :=
  { manifest := { jobId := "shot" }, chunk := ⟨frame, frame⟩, editEpoch := 0 }

/-- A first frame is dispatched and its render exits cleanly. -/
def firstFrame : List Event :=
  [.queueDispatch (dispatchOf 1), .update { nowMs := 0 }, .agentConnects,
    .deliver {}, .update { nowMs := 2000 }, .agentReads .starts, .deliver {},
    .childExits 0]

/-- It is reported, and the next frame waits for the next agent. -/
def twoFrames : List Event :=
  firstFrame ++ [.agentReports, .deliver {}, .noticesDisconnect,
    .queueDispatch (dispatchOf 2), .update { nowMs := 3000 }, .agentConnects,
    .update { nowMs := 5000 }, .agentReads .starts, .childExits 1, .agentReports,
    .deliver {}, .deliver {}, .deliver {}, .deliver {}]

theorem two_frames_end_their_own_tasks :
    machine.Along EndsItsOwnTask start twoFrames := by
  refine ends_own_task_of_starts_alone twoFrames ?_
  refine Machine.Along.of_check (fun w e w' => match e with
    | .update _ => decide (w.coordinator.activeRender = none →
        w'.coordinator.activeRender.isSome = true → outstanding w = [])
    | _ => true) ?_ (by decide)
  rintro w e w' htest env rfl
  exact of_decide_eq_true htest

/-- It is aborted before the agent reports it, and the next frame is sent to
the same agent. -/
def abortedTooLate : List Event :=
  firstFrame ++ [.abort "job cancelled", .queueDispatch (dispatchOf 2),
    .update { nowMs := 2100 }, .agentReports]

/-- **A message ends another's render**: the late `completed` of an aborted
render completes the chunk that was started after it. -/
theorem late_message_completes_next_chunk :
    ¬ ∀ es, machine.Along EndsItsOwnTask start es := by
  intro h
  refine Machine.Along.refute abortedTooLate (.deliver {})
    (fun t _ => (t.fromAgent.head?.bind (·.terminal?)).any fun task =>
      t.coordinator.activeRender.any fun ar => task ≠ (taskOf ar, t.serial)) ?_ ?_ (h _)
  · intro t u hbad hgood
    rw [Option.any_eq_true] at hbad
    obtain ⟨task, htask, hany⟩ := hbad
    obtain ⟨m, hm, hterm⟩ := Option.bind_eq_some_iff.mp htask
    rw [Option.any_eq_true] at hany
    obtain ⟨ar, har, hne⟩ := hany
    exact of_decide_eq_true hne (hgood {} m task ar rfl hm hterm har)
  · decide

example : ((machine.run start abortedTooLate).map fun w =>
    ((w.coordinator.handleAgentMessage {} (w.fromAgent.headD .pong)).2)) =
    some [.completion "shot" ⟨2, 2⟩ .completed 0] := by decide

end MinRender.RenderOwnership
