import Mathlib.Data.List.Basic

/-!
# The one-shot render agent

The agent's messages and its main loop, one function a step of it. The task is
a type parameter: the agent never looks into a task, it only names it in what
it sends, so one definition serves the task as it is on the wire and the task
together with a mark that tells two sendings of it apart.
-/

namespace MinRender

/-- What a task message says about its chunk. What its command makes the child
process do shows only in how the child exits. -/
structure TaskMessage where
  jobId : String
  frameStart : Int
  frameEnd : Int
deriving DecidableEq, Repr

inductive MonitorToAgent (τ : Type)
  | ping
  | shutdown
  | task (t : τ)
  | abort (reason : String)
deriving DecidableEq, Repr

inductive AgentToMonitor (τ : Type)
  | pong
  | status (state : String)
  | ack (t : τ)
  | progress (t : τ)
  | stdout (t : τ) (lines : List String)
  | frameCompleted (t : τ) (frame : Int)
  | completed (t : τ)
  | failed (t : τ) (error : String)
deriving DecidableEq, Repr

variable {τ : Type}

/-- The task a message from the monitor carries. -/
def MonitorToAgent.task? : MonitorToAgent τ → Option τ
  | .task t => some t
  | _ => none

/-- The task whose end a message reports. -/
def AgentToMonitor.terminal? : AgentToMonitor τ → Option τ
  | .completed t => some t
  | .failed t _ => some t
  | _ => none

/-! ## The executor -/

/-- The terminal event of a render. -/
inductive Verdict
  | completed
  | failed (error : String)
deriving DecidableEq, Repr

/-- A running render: why it was killed, if it was, and the terminal event the
worker thread has put into the channel. -/
structure RenderExecutor (τ : Type) where
  task : τ
  killReason : Option String := none
  verdict : Option Verdict := none
deriving DecidableEq, Repr

namespace RenderExecutor

/-- `ProcessKiller::kill`: the first reason stands; nothing once the child has
been reaped. -/
def kill (e : RenderExecutor τ) (reason : String) : RenderExecutor τ :=
  if e.verdict.isSome ∨ e.killReason.isSome then e
  else { e with killReason := some reason }

/-- The worker thread after the child exited: a recorded kill reason wins over
the exit status. -/
def childExits (e : RenderExecutor τ) (exitCode : Int) : RenderExecutor τ :=
  if e.verdict.isSome then e
  else
    let verdict := match e.killReason with
      | some reason => .failed reason
      | none =>
          if exitCode = 0 then .completed
          else .failed ("Process exited with code " ++ toString exitCode)
    { e with verdict := some verdict }

/-- The message that reports the end of the render. -/
def terminal (e : RenderExecutor τ) : Option (AgentToMonitor τ) :=
  e.verdict.map fun
    | .completed => .completed e.task
    | .failed error => .failed e.task error

@[simp] theorem kill_task (e : RenderExecutor τ) (reason : String) :
    (e.kill reason).task = e.task := by
  unfold kill
  split <;> rfl

@[simp] theorem childExits_task (e : RenderExecutor τ) (exitCode : Int) :
    (e.childExits exitCode).task = e.task := by
  unfold childExits
  split <;> rfl

theorem terminal?_of_terminal {e : RenderExecutor τ} {m : AgentToMonitor τ}
    (h : e.terminal = some m) : m.terminal? = some e.task := by
  obtain ⟨v, -, rfl⟩ := Option.map_eq_some_iff.mp h
  cases v <;> rfl

end RenderExecutor

/-! ## The main loop -/

/-- The agent process: started but not yet connected, waiting for a task, or
rendering one. -/
inductive Agent (τ : Type)
  | starting
  | idle
  | rendering (e : RenderExecutor τ)
deriving DecidableEq, Repr

/-- How reading a task message goes: it does not decode, its process does not
start, or it runs. -/
inductive TaskOutcome
  | unreadable
  | spawnFails (error : String)
  | starts
deriving DecidableEq, Repr

/-- Progress of a render, on its way to the monitor. -/
inductive RenderNews
  | started
  | progress
  | stdout (lines : List String)
  | frameCompleted (frame : Int)
deriving DecidableEq, Repr

namespace Agent

/-- The render's task, if there is one. -/
def task? : Agent τ → Option τ
  | rendering e => some e.task
  | _ => none

/-- First connection or reconnection, with the status it announces. -/
def connect : Agent τ → Agent τ × List (AgentToMonitor τ)
  | rendering e => (.rendering e, [.status "rendering"])
  | _ => (.idle, [.status "idle"])

/-- One message read; `none` for the agent that exits. A task is ignored while
another one is rendering. -/
def read (outcome : TaskOutcome) :
    Agent τ → MonitorToAgent τ → Option (Agent τ) × List (AgentToMonitor τ)
  | a, .ping => (some a, [.pong])
  | _, .shutdown => (none, [])
  | rendering e, .task _ => (some (.rendering e), [])
  | rendering e, .abort _ => (some (.rendering (e.kill "Aborted by monitor")), [])
  | a, .task t =>
      match outcome with
      | .unreadable => (some a, [])
      | .spawnFails error =>
          (some a, [.failed t ("Failed to start render: " ++ error), .status "idle"])
      | .starts => (some (.rendering { task := t }), [.status "rendering"])
  | a, .abort _ => (some a, [])

/-- What the agent passes on while it renders. -/
def emit (news : RenderNews) : Agent τ → List (AgentToMonitor τ)
  | rendering e =>
      match news with
      | .started => [.ack e.task]
      | .progress => [.progress e.task]
      | .stdout lines => [.stdout e.task lines]
      | .frameCompleted frame => [.frameCompleted e.task frame]
  | _ => []

/-- The last messages of an agent whose render ended: the terminal message and
an idle status; then it exits. -/
def report : Agent τ → Option (List (AgentToMonitor τ))
  | rendering e => e.terminal.map fun m => [m, .status "idle"]
  | _ => none

/-! ## No step invents a task -/

@[simp] theorem connect_task? (a : Agent τ) : a.connect.1.task? = a.task? := by
  cases a <;> rfl

theorem connect_terminal? {a : Agent τ} {m : AgentToMonitor τ}
    (h : m ∈ a.connect.2) : m.terminal? = none := by
  cases a <;> cases List.mem_singleton.mp h <;> rfl

theorem emit_terminal? {a : Agent τ} {news : RenderNews} {m : AgentToMonitor τ}
    (h : m ∈ a.emit news) : m.terminal? = none := by
  cases a with
  | rendering e => cases news <;> cases List.mem_singleton.mp h <;> rfl
  | _ => cases h

/-- After reading a message the agent renders, or has reported the end of, the
task it had or the task it read. -/
theorem read_tasks (outcome : TaskOutcome) (a : Agent τ) (m : MonitorToAgent τ) :
    (∀ a', (a.read outcome m).1 = some a' → ∀ t, a'.task? = some t →
      a.task? = some t ∨ m.task? = some t) ∧
    ∀ m' ∈ (a.read outcome m).2, ∀ t, m'.terminal? = some t → m.task? = some t := by
  have hkill : ∀ (e : RenderExecutor τ) (reason : String),
      (Agent.rendering (e.kill reason)).task? = some e.task := by
    simp [task?]
  cases m <;> cases a <;> cases outcome <;>
    simp_all [read, task?, MonitorToAgent.task?, AgentToMonitor.terminal?]

theorem report_terminal? {a : Agent τ} {sent : List (AgentToMonitor τ)}
    (h : a.report = some sent) {m : AgentToMonitor τ} (hm : m ∈ sent) {t : τ}
    (ht : m.terminal? = some t) : a.task? = some t := by
  cases a with
  | rendering e =>
      obtain ⟨m', hm', rfl⟩ := Option.map_eq_some_iff.mp h
      rcases List.mem_cons.mp hm with rfl | hm
      · rw [RenderExecutor.terminal?_of_terminal hm'] at ht
        exact ht
      · cases List.mem_singleton.mp hm
        cases ht
  | _ => cases h

end Agent

end MinRender
