import Mathlib.Data.List.Basic
import MinRender.Agent.Messages
import MinRender.Framework.Runs

/-!
# The executor and its threads

A render has a worker thread that reads the child's stdout, waits for it and
sends the terminal event, a thread that reads its stderr, and a watchdog; the
main loop may kill the child at any time. They share the killer, the completion
counter, the lines of stderr and the channel, and take their steps in any order:
a reader counts a line, announces its frame and passes it on in separate steps.
What the child writes and how it exits is given with the run.
-/

namespace MinRender.Executor
open Messages

/-! ## The parsers -/

/-- The text of each group of a match. -/
abbrev Groups := Nat → Option String

/-- Regular expressions and the parsing of numbers: `compile` is `none` for a
pattern that is not one, and a compiled pattern finds its groups in a line. -/
structure Regexes where
  compile : String → Option (String → Option Groups)
  parseFloat : String → Option Float32

inductive CompiledPattern
  | fraction (find : String → Option Groups) (numGroup denGroup : Nat)
  | percentage (find : String → Option Groups) (group : Nat)

/-- `ProgressParser::new`, for one pattern. -/
def compilePattern (rx : Regexes) (d : ProgressPatternDef) : Option CompiledPattern :=
  (rx.compile d.regex).bind fun find =>
    if d.patternType = "fraction" then
      some (.fraction find d.numeratorGroup.toNat d.denominatorGroup.toNat)
    else if d.patternType = "percentage" then some (.percentage find d.group.toNat)
    else none

/-- `ProgressParser::parse_line`. Where a group is missing or not a number, the
patterns after it are not tried. -/
def parseProgress (rx : Regexes) (line : String) : List CompiledPattern → Option Float32
  | [] => none
  | .fraction find numGroup denGroup :: rest =>
      match find line with
      | none => parseProgress rx line rest
      | some groups =>
          (groups numGroup).bind rx.parseFloat |>.bind fun num =>
            (groups denGroup).bind rx.parseFloat |>.bind fun den =>
              if 0 < den then some ((num / den) * 100) else parseProgress rx line rest
  | .percentage find group :: rest =>
      match find line with
      | none => parseProgress rx line rest
      | some groups => (groups group).bind rx.parseFloat

/-- `OutputParser::new` and `parse_line`. -/
def parseOutput (rx : Regexes) (config : OutputConfig) (line : String) : Option String :=
  config.regex.bind fun pattern =>
    if pattern = "" then none
    else (rx.compile pattern).bind fun find =>
      (find line).bind fun groups => groups config.captureGroup.toNat

/-- `CompletionParser::new` and `matches`. -/
def matchesCompletion (rx : Regexes) (d : CompletionPatternDef) (line : String) : Bool :=
  d.regex ≠ "" && (rx.compile d.regex).any fun find => (find line).isSome

/-! ## The child -/

/-- One run of the child process: what it writes, line by line, with `none` for
a line that cannot be read, and what waiting for it gives. A child that a
signal ended has no exit code. -/
structure Child where
  stdout : List (Option String) := []
  stderr : List (Option String) := []
  exit : Except String (Option Int)

/-- The lines a reader gets to: it stops at the first that cannot be read. -/
def readable : List (Option String) → List String
  | some line :: rest => line :: readable rest
  | _ => []

/-! ## The render -/

inductive RenderEvent
  | started
  | stdout (lines : List String)
  | progress (pct : Float32) (elapsedMs : Nat)
  | frameCompleted (frame : UInt32)
  | completed (elapsedMs : Nat) (exitCode : Int) (outputFile : Option String)
  | failed (exitCode : Int) (error : String)

def RenderEvent.isTerminal : RenderEvent → Bool
  | .completed _ _ _ => true
  | .failed _ _ => true
  | _ => false

def RenderEvent.isCompleted : RenderEvent → Bool
  | .completed _ _ _ => true
  | _ => false

/-- Where the worker thread is: it has read a line that is still to be counted,
has counted it, has put it into its buffer; it is about to send the buffer, before
the rest or, at the end of stdout, for the last time. `reaped` is between
`mark_finished` and the look at the kill reason. -/
inductive Worker
  | spawned
  | reading (rest : List (Option String))
  | counting (line : String) (rest : List (Option String))
  | announcing (line : String) (count : Option UInt32) (rest : List (Option String))
  | kept (rest : List (Option String))
  | flushing (rest : Option (List (Option String)))
  | waiting
  | reaped (code : Option Int)
  | ended
deriving DecidableEq

/-- Where the stderr thread is: it has counted a line, or announced its frame. -/
inductive StderrReader
  | reading (rest : List (Option String))
  | announcing (line : String) (count : Option UInt32) (rest : List (Option String))
  | keeping (line : String) (rest : List (Option String))
deriving DecidableEq

structure State where
  task : Messages.TaskMessage
  child : Child
  killReason : Option String := none
  finished : Bool := false
  worker : Worker := .spawned
  stderr : StderrReader
  stderrLines : List String := []
  stdoutBuf : List String := []
  outputFile : Option String := none
  completionCounter : UInt32 := 0
  sent : List RenderEvent := []

/-- A render whose child was spawned. Its stdout is piped, so there is one to read. -/
def start (task : Messages.TaskMessage) (child : Child) : State :=
  { task := task, child := child, stderr := .reading child.stderr }

/-- Who moves: the worker, at some time after the start and perhaps due to
flush; the stderr thread; or one of the three that may kill the child. -/
inductive Event
  | worker (elapsedMs : Nat) (flushDue : Bool)
  | stderr
  | abort
  | timeout
  | drop

/-- Events that kill the child, if it is still there. -/
def Event.kills : Event → Bool
  | .abort | .timeout | .drop => true
  | _ => false

def State.send (s : State) (e : RenderEvent) : State := { s with sent := s.sent ++ [e] }

/-- `ProcessKiller::kill`. The first reason stands; a caller that records its
reason only after the worker looked came after the child was reaped. -/
def State.kill (s : State) (reason : String) : State :=
  if s.finished ∨ s.killReason.isSome then s else { s with killReason := some reason }

def stdoutFlushLines : Nat := 50

/-- How a line of stderr is passed on. -/
def tagged (line : String) : String := "[stderr] " ++ line

/-- `flush_stdout` up to the send: the lines of stderr go behind those of stdout. -/
def State.drain (s : State) : State :=
  { s with stdoutBuf := s.stdoutBuf ++ s.stderrLines.map tagged, stderrLines := [] }

def State.flush (s : State) : State :=
  if s.stdoutBuf = [] then s else { s.send (.stdout s.stdoutBuf) with stdoutBuf := [] }

/-- The line completes a frame. -/
def completes (rx : Regexes) (task : Messages.TaskMessage) (line : String) : Bool :=
  (task.progress.bind (·.completionPattern)).any (matchesCompletion rx · line)

/-- Both readers count completion lines with `fetch_add`, which wraps around. -/
def State.countLine (rx : Regexes) (s : State) (line : String) : State :=
  if completes rx s.task line then { s with completionCounter := s.completionCounter + 1 } else s

/-- What `fetch_add` gave. -/
def State.fetched (rx : Regexes) (s : State) (line : String) : Option UInt32 :=
  if completes rx s.task line then some s.completionCounter else none

/-- The frame of a count, if the chunk goes so far; the sum wraps around. -/
def frameOf (task : Messages.TaskMessage) (count : UInt32) : Option UInt32 :=
  let frame := task.frameStart + count
  if frame ≤ task.frameEnd then some frame else none

def State.announce (s : State) (count : Option UInt32) : State :=
  match count.bind (frameOf s.task) with
  | some frame => s.send (.frameCompleted frame)
  | none => s

def State.reportProgress (rx : Regexes) (s : State) (line : String) (elapsedMs : Nat) : State :=
  match s.task.progress.bind fun spec =>
      parseProgress rx line (spec.patterns.filterMap (compilePattern rx)) with
  | some pct => s.send (.progress pct elapsedMs)
  | none => s

/-- The path a line tells, if the task says how to find it. -/
def outputOf (rx : Regexes) (task : Messages.TaskMessage) (line : String) : Option String :=
  task.outputDetection.bind fun config => parseOutput rx config line

def State.detectOutput (rx : Regexes) (s : State) (line : String) : State :=
  match outputOf rx s.task line with
  | some path => { s with outputFile := some path }
  | none => s

/-- A recorded kill reason wins over the exit status. -/
def verdict (killReason : Option String) (code : Option Int) (outputFile : Option String)
    (elapsedMs : Nat) : RenderEvent :=
  let exitCode := code.getD (-1)
  match killReason with
  | some reason => .failed exitCode reason
  | none =>
      if code = some 0 then .completed elapsedMs exitCode outputFile
      else .failed exitCode ("Process exited with code " ++ toString exitCode)

/-- `worker_func`, from one use of what the threads share to the next. -/
def State.work (rx : Regexes) (s : State) (elapsedMs : Nat) (flushDue : Bool) : Option State :=
  match s.worker with
  | .spawned => some { s.send .started with worker := .reading s.child.stdout }
  | .reading (some line :: rest) =>
      some { (s.reportProgress rx line elapsedMs).detectOutput rx line with
        worker := .counting line rest }
  | .reading _ => some { s.drain with worker := .flushing none }
  | .counting line rest =>
      some { s.countLine rx line with worker := .announcing line (s.fetched rx line) rest }
  | .announcing line count rest =>
      some { s.announce count with stdoutBuf := s.stdoutBuf ++ [line], worker := .kept rest }
  | .kept rest =>
      if stdoutFlushLines ≤ s.stdoutBuf.length ∨ flushDue then
        some { s.drain with worker := .flushing (some rest) }
      else some { s with worker := .reading rest }
  | .flushing (some rest) => some { s.flush with worker := .reading rest }
  | .flushing none => some { s.flush with worker := .waiting }
  | .waiting =>
      match s.child.exit with
      | .ok code => some { s with finished := true, worker := .reaped code }
      | .error e =>
          some { s.send (.failed (-1) ("Failed to wait for process: " ++ e)) with
            finished := true, worker := .ended }
  | .reaped code =>
      some { s.send (verdict s.killReason code s.outputFile elapsedMs) with worker := .ended }
  | .ended => none

/-- The stderr thread, likewise. -/
def State.readStderr (rx : Regexes) (s : State) : Option State :=
  match s.stderr with
  | .reading (some line :: rest) =>
      some { s.countLine rx line with stderr := .announcing line (s.fetched rx line) rest }
  | .reading (none :: _) => some { s with stderr := .reading [] }
  | .reading [] => none
  | .announcing line count rest => some { s.announce count with stderr := .keeping line rest }
  | .keeping line rest =>
      some { s with stderrLines := s.stderrLines ++ [line], stderr := .reading rest }

def step (rx : Regexes) (s : State) : Event → Option State
  | .worker elapsedMs flushDue => s.work rx elapsedMs flushDue
  | .stderr => s.readStderr rx
  | .abort => some (s.kill "Aborted by monitor")
  | .timeout =>
      s.task.timeoutSeconds.map fun t => s.kill ("Timeout after " ++ toString t.toNat ++ "s")
  | .drop => some (s.kill "Agent shutting down")

def machine (rx : Regexes) : Machine State Event := ⟨step rx⟩

/-! ## What a step leaves alone -/

def terminals (sent : List RenderEvent) : List RenderEvent := sent.filter (·.isTerminal)

theorem terminals_concat (sent : List RenderEvent) (e : RenderEvent) :
    terminals (sent ++ [e]) = terminals sent ++ if e.isTerminal then [e] else [] := by
  unfold terminals
  rw [List.filter_append, List.filter_singleton]
  cases e.isTerminal <;> rfl

/-- The same render, as far as its end goes: only buffers, counters and
messages about its progress may differ. -/
structure Alike (s s' : State) : Prop where
  task : s'.task = s.task
  child : s'.child = s.child
  killReason : s'.killReason = s.killReason
  finished : s'.finished = s.finished
  worker : s'.worker = s.worker
  outputFile : s'.outputFile = s.outputFile
  terminals : terminals s'.sent = terminals s.sent

variable {rx : Regexes} {s s' s'' : State} {line : String}

theorem Alike.rfl : Alike s s := ⟨.refl _, .refl _, .refl _, .refl _, .refl _, .refl _, .refl _⟩

theorem Alike.trans (h : Alike s s') (h' : Alike s' s'') : Alike s s'' where
  task := h'.task.trans h.task
  child := h'.child.trans h.child
  killReason := h'.killReason.trans h.killReason
  finished := h'.finished.trans h.finished
  worker := h'.worker.trans h.worker
  outputFile := h'.outputFile.trans h.outputFile
  terminals := h'.terminals.trans h.terminals

theorem alike_send {e : RenderEvent} (h : e.isTerminal = false) : Alike s (s.send e) := by
  refine ⟨.refl _, .refl _, .refl _, .refl _, .refl _, .refl _, ?_⟩
  unfold State.send
  rw [terminals_concat, h, if_neg Bool.false_ne_true, List.append_nil]

theorem alike_drain (s : State) : Alike s s.drain :=
  ⟨.refl _, .refl _, .refl _, .refl _, .refl _, .refl _, .refl _⟩

theorem alike_flush (s : State) : Alike s s.flush := by
  unfold State.flush
  split
  · exact .rfl
  · have hsent : Alike s (s.send (.stdout s.stdoutBuf)) := alike_send (.refl _)
    exact ⟨.refl _, .refl _, .refl _, .refl _, .refl _, .refl _, hsent.terminals⟩

theorem alike_countLine (rx : Regexes) (s : State) (line : String) :
    Alike s (s.countLine rx line) := by
  unfold State.countLine
  split
  · exact ⟨.refl _, .refl _, .refl _, .refl _, .refl _, .refl _, .refl _⟩
  · exact .rfl

theorem alike_announce (s : State) (count : Option UInt32) : Alike s (s.announce count) := by
  unfold State.announce
  split
  · exact alike_send (.refl _)
  · exact .rfl

theorem alike_reportProgress (rx : Regexes) (s : State) (line : String) (elapsedMs : Nat) :
    Alike s (s.reportProgress rx line elapsedMs) := by
  unfold State.reportProgress
  split
  · exact alike_send rfl
  · exact .rfl

theorem Alike.withWorker (h : Alike s s') (worker : Worker) :
    Alike { s with worker := worker } { s' with worker := worker } :=
  ⟨h.task, h.child, h.killReason, h.finished, .refl _, h.outputFile, h.terminals⟩

theorem alike_detectOutput (rx : Regexes) (h : Alike s s') (line : String) :
    Alike { s with outputFile := (outputOf rx s.task line).or s.outputFile }
      (s'.detectOutput rx line) := by
  have hsame : outputOf rx s'.task line = outputOf rx s.task line := by rw [h.task]
  unfold State.detectOutput
  rw [hsame]
  cases outputOf rx s.task line with
  | none => exact ⟨h.task, h.child, h.killReason, h.finished, h.worker, h.outputFile, h.terminals⟩
  | some path => exact ⟨h.task, h.child, h.killReason, h.finished, h.worker, .refl _, h.terminals⟩

theorem alike_readStderr (h : s.readStderr rx = some s') : Alike s s' := by
  unfold State.readStderr at h
  split at h
  · rename_i line rest hreading
    cases h
    have hcount := alike_countLine rx s line
    exact ⟨hcount.task, hcount.child, hcount.killReason, hcount.finished, hcount.worker,
      hcount.outputFile, hcount.terminals⟩
  · cases h
    exact ⟨.refl _, .refl _, .refl _, .refl _, .refl _, .refl _, .refl _⟩
  · cases h
  · rename_i line count rest hcounted
    cases h
    have hframe := alike_announce s count
    exact ⟨hframe.task, hframe.child, hframe.killReason, hframe.finished, hframe.worker,
      hframe.outputFile, hframe.terminals⟩
  · cases h
    exact ⟨.refl _, .refl _, .refl _, .refl _, .refl _, .refl _, .refl _⟩

/-! ## The end of a render -/

/-- The last path that lines tell. -/
def lastPath (rx : Regexes) (task : Messages.TaskMessage) (lines : List String) : Option String :=
  (lines.filterMap (outputOf rx task)).getLast?

/-- The output file of a render: the last one its stdout names. -/
def detectedFile (rx : Regexes) (task : Messages.TaskMessage) (child : Child) : Option String :=
  lastPath rx task (readable child.stdout)

theorem lastPath_cons (task : Messages.TaskMessage) (line : String) (lines : List String) :
    lastPath rx task (line :: lines) =
      (lastPath rx task lines).or (outputOf rx task line) := by
  unfold lastPath
  rw [List.filterMap_cons]
  cases outputOf rx task line with
  | none => rw [Option.or_none]
  | some path =>
      rw [List.getLast?_cons]
      cases (lines.filterMap (outputOf rx task)).getLast? <;> rfl

/-- The terminal event of a render, once the worker has ended. -/
def lastEvent (rx : Regexes) (s : State) (elapsedMs : Nat) : RenderEvent :=
  match s.child.exit with
  | .ok code => verdict s.killReason code (detectedFile rx s.task s.child) elapsedMs
  | .error e => .failed (-1) ("Failed to wait for process: " ++ e)

/-- All that a step of the worker can do. -/
inductive Worked (rx : Regexes) (s : State) : State → Prop
  | started (h : s.worker = .spawned) :
      Worked rx s { s.send .started with worker := .reading s.child.stdout }
  | line {line : String} {rest : List (Option String)} (elapsedMs : Nat)
      (h : s.worker = .reading (some line :: rest)) :
      Worked rx s { (s.reportProgress rx line elapsedMs).detectOutput rx line with
        worker := .counting line rest }
  | counted {line : String} {rest : List (Option String)} (h : s.worker = .counting line rest) :
      Worked rx s { s.countLine rx line with worker := .announcing line (s.fetched rx line) rest }
  | announced {line : String} {count : Option UInt32} {rest : List (Option String)}
      (h : s.worker = .announcing line count rest) :
      Worked rx s { s.announce count with
        stdoutBuf := s.stdoutBuf ++ [line], worker := .kept rest }
  | spared {rest : List (Option String)} (h : s.worker = .kept rest) :
      Worked rx s { s with worker := .reading rest }
  | drained {rest : List (Option String)} (h : s.worker = .kept rest) :
      Worked rx s { s.drain with worker := .flushing (some rest) }
  | flushed {rest : List (Option String)} (h : s.worker = .flushing (some rest)) :
      Worked rx s { s.flush with worker := .reading rest }
  | closed {rest : List (Option String)} (h : s.worker = .reading rest)
      (hrest : readable rest = []) : Worked rx s { s.drain with worker := .flushing none }
  | lastFlush (h : s.worker = .flushing none) : Worked rx s { s.flush with worker := .waiting }
  | reaped {code : Option Int} (h : s.worker = .waiting) (hexit : s.child.exit = .ok code) :
      Worked rx s { s with finished := true, worker := .reaped code }
  | lost {e : String} (h : s.worker = .waiting) (hexit : s.child.exit = .error e) :
      Worked rx s { s.send (.failed (-1) ("Failed to wait for process: " ++ e)) with
        finished := true, worker := .ended }
  | ended {code : Option Int} (elapsedMs : Nat) (h : s.worker = .reaped code) :
      Worked rx s { s.send (verdict s.killReason code s.outputFile elapsedMs) with
        worker := .ended }

theorem worked {elapsedMs : Nat} {flushDue : Bool} (h : s.work rx elapsedMs flushDue = some s') :
    Worked rx s s' := by
  unfold State.work at h
  cases hworker : s.worker with
  | spawned =>
      rw [hworker] at h
      cases h
      exact .started hworker
  | reading rest =>
      rw [hworker] at h
      match rest with
      | some line :: rest =>
          cases h
          exact .line elapsedMs hworker
      | none :: rest =>
          cases h
          exact .closed hworker rfl
      | [] =>
          cases h
          exact .closed hworker rfl
  | counting line rest =>
      rw [hworker] at h
      cases h
      exact .counted hworker
  | announcing line count rest =>
      rw [hworker] at h
      cases h
      exact .announced hworker
  | kept rest =>
      rw [hworker] at h
      dsimp only at h
      split at h
      · cases h
        exact .drained hworker
      · cases h
        exact .spared hworker
  | flushing rest =>
      rw [hworker] at h
      cases rest with
      | some rest =>
          cases h
          exact .flushed hworker
      | none =>
          cases h
          exact .lastFlush hworker
  | waiting =>
      rw [hworker] at h
      cases hexit : s.child.exit with
      | ok code =>
          simp only [hexit, Option.some.injEq] at h
          subst h
          exact .reaped hworker hexit
      | error e =>
          simp only [hexit, Option.some.injEq] at h
          subst h
          exact .lost hworker hexit
  | reaped code =>
      rw [hworker] at h
      cases h
      exact .ended elapsedMs hworker
  | ended =>
      rw [hworker] at h
      cases h

/-- No terminal event yet, and the output file is the last among those told and
those in the lines left to read. -/
structure Open (rx : Regexes) (s : State) (left : List (Option String)) : Prop where
  unfinished : s.finished = false
  silent : terminals s.sent = []
  file : detectedFile rx s.task s.child = (lastPath rx s.task (readable left)).or s.outputFile

/-- What the place of the worker tells: no terminal event before its end, and
what the event will be made of. -/
def Inv (rx : Regexes) (s : State) : Prop :=
  match s.worker with
  | .spawned => s.finished = false ∧ terminals s.sent = [] ∧ s.outputFile = none
  | .reading rest => Open rx s rest
  | .counting _ rest => Open rx s rest
  | .announcing _ _ rest => Open rx s rest
  | .kept rest => Open rx s rest
  | .flushing (some rest) => Open rx s rest
  | .flushing none => Open rx s []
  | .waiting => Open rx s []
  | .reaped code => s.finished = true ∧ terminals s.sent = [] ∧
      s.outputFile = detectedFile rx s.task s.child ∧ s.child.exit = .ok code
  | .ended => s.finished = true ∧ ∃ elapsedMs, terminals s.sent = [lastEvent rx s elapsedMs]

theorem Open.of_alike {left : List (Option String)} (h : Open rx s left) (ha : Alike s s') :
    Open rx s' left where
  unfinished := ha.finished.trans h.unfinished
  silent := ha.terminals.trans h.silent
  file := by
    rw [ha.task, ha.child, ha.outputFile]
    exact h.file

theorem Open.withWorker {left : List (Option String)} (h : Open rx s left) (worker : Worker) :
    Open rx { s with worker := worker } left := ⟨h.unfinished, h.silent, h.file⟩

theorem Inv.of_alike (h : Inv rx s) (ha : Alike s s') : Inv rx s' := by
  unfold Inv at h ⊢
  rw [ha.worker]
  cases hworker : s.worker with
  | spawned =>
      rw [hworker] at h
      dsimp only at h ⊢
      rw [ha.finished, ha.terminals, ha.outputFile]
      exact h
  | flushing rest =>
      rw [hworker] at h
      cases rest with
      | some rest => exact Open.of_alike h ha
      | none => exact Open.of_alike h ha
  | reaped code =>
      rw [hworker] at h
      dsimp only at h ⊢
      rw [ha.finished, ha.terminals, ha.outputFile, ha.task, ha.child]
      exact h
  | ended =>
      rw [hworker] at h
      unfold lastEvent at h ⊢
      dsimp only at h ⊢
      rw [ha.finished, ha.terminals, ha.task, ha.child, ha.killReason]
      exact h
  | _ =>
      rw [hworker] at h
      exact Open.of_alike h ha

theorem inv_start (rx : Regexes) (task : Messages.TaskMessage) (child : Child) :
    Inv rx (start task child) := ⟨rfl, rfl, rfl⟩

/-- A kill after the child was reaped leaves no trace, and an earlier one only its reason. -/
theorem Inv.kill (h : Inv rx s) (reason : String) : Inv rx (s.kill reason) := by
  unfold State.kill
  split
  · exact h
  · rename_i hnot
    have hopen : s.finished = false := Bool.eq_false_iff.mpr (not_or.mp hnot).1
    unfold Inv at h ⊢
    dsimp only at h ⊢
    cases hworker : s.worker with
    | spawned =>
        rw [hworker] at h
        exact h
    | flushing rest =>
        rw [hworker] at h
        cases rest with
        | some rest => exact ⟨h.unfinished, h.silent, h.file⟩
        | none => exact ⟨h.unfinished, h.silent, h.file⟩
    | reaped code =>
        rw [hworker] at h
        exact h
    | ended =>
        rw [hworker] at h
        rw [h.1] at hopen
        cases hopen
    | _ =>
        rw [hworker] at h
        exact ⟨h.unfinished, h.silent, h.file⟩

theorem verdict_isTerminal (killReason : Option String) (code : Option Int)
    (outputFile : Option String) (elapsedMs : Nat) :
    (verdict killReason code outputFile elapsedMs).isTerminal = true := by
  unfold verdict
  dsimp only
  split
  · rfl
  · split <;> rfl

theorem Inv.work (h : Inv rx s) (hstep : Worked rx s s') : Inv rx s' := by
  unfold Inv at h
  cases hstep with
  | started hworker =>
      rw [hworker] at h
      obtain ⟨hopen, hnone, hfile⟩ := h
      have hsent := (alike_send (s := s) (e := .started) rfl).terminals
      refine ⟨hopen, hsent.trans hnone, ?_⟩
      show detectedFile rx s.task s.child =
        (lastPath rx s.task (readable s.child.stdout)).or s.outputFile
      rw [hfile, Option.or_none]
      rfl
  | @line line rest elapsedMs hworker =>
      rw [hworker] at h
      have halike := alike_detectOutput rx (alike_reportProgress rx s line elapsedMs) line
      have hread : readable (some line :: rest) = line :: readable rest := rfl
      have hfile := h.file
      rw [hread, lastPath_cons, Option.or_assoc] at hfile
      have hopen :
          Open rx { s with outputFile := (outputOf rx s.task line).or s.outputFile } rest :=
        ⟨h.unfinished, h.silent, hfile⟩
      exact (hopen.of_alike halike).withWorker _
  | counted hworker =>
      rw [hworker] at h
      exact (h.of_alike (alike_countLine rx s _)).withWorker _
  | @announced line count rest hworker =>
      rw [hworker] at h
      have hopen := h.of_alike (alike_announce s count)
      exact ⟨hopen.unfinished, hopen.silent, hopen.file⟩
  | spared hworker =>
      rw [hworker] at h
      exact h.withWorker _
  | drained hworker =>
      rw [hworker] at h
      exact (h.of_alike (alike_drain s)).withWorker _
  | flushed hworker =>
      rw [hworker] at h
      exact (h.of_alike (alike_flush s)).withWorker _
  | closed hworker hrest =>
      rw [hworker] at h
      have hfile := h.file
      rw [hrest] at hfile
      have hopen : Open rx s [] := ⟨h.unfinished, h.silent, hfile⟩
      exact (hopen.of_alike (alike_drain s)).withWorker _
  | lastFlush hworker =>
      rw [hworker] at h
      exact (h.of_alike (alike_flush s)).withWorker _
  | reaped hworker hexit =>
      rw [hworker] at h
      exact ⟨rfl, h.silent, h.file.symm, hexit⟩
  | lost hworker hexit =>
      rw [hworker] at h
      refine ⟨rfl, 0, ?_⟩
      unfold State.send lastEvent
      rw [terminals_concat, h.silent]
      simp only [hexit]
      rfl
  | ended elapsedMs hworker =>
      rw [hworker] at h
      obtain ⟨hfinished, hnone, hfile, hexit⟩ := h
      refine ⟨hfinished, elapsedMs, ?_⟩
      unfold State.send lastEvent
      dsimp only
      rw [terminals_concat, hnone, verdict_isTerminal, hexit, ← hfile]
      rfl

theorem inv_keeps (rx : Regexes) : (machine rx).Keeps (Inv rx) := by
  intro s e s' h hstep
  have hmove : step rx s e = some s' := hstep
  cases e with
  | worker elapsedMs flushDue => exact h.work (worked hmove)
  | stderr => exact h.of_alike (alike_readStderr hmove)
  | abort =>
      cases hmove
      exact h.kill _
  | timeout =>
      obtain ⟨t, -, ht⟩ := Option.map_eq_some_iff.mp hmove
      rw [← ht]
      exact h.kill _
  | drop =>
      cases hmove
      exact h.kill _

/-! ## Whole runs -/

@[simp] theorem kill_task (s : State) (reason : String) : (s.kill reason).task = s.task := by
  unfold State.kill
  split <;> rfl

@[simp] theorem kill_child (s : State) (reason : String) : (s.kill reason).child = s.child := by
  unfold State.kill
  split <;> rfl

/-- What a step of the worker can do to the flag and what it cannot touch. -/
theorem Worked.keeps (h : Worked rx s s') :
    s'.task = s.task ∧ s'.child = s.child ∧ s'.killReason = s.killReason ∧
      (s'.finished = s.finished ∨ s.worker = .waiting ∧ s'.finished = true) := by
  cases h with
  | started => exact ⟨rfl, rfl, rfl, .inl rfl⟩
  | @line line rest elapsedMs =>
      have hline := alike_detectOutput rx (alike_reportProgress rx s line elapsedMs) line
      exact ⟨hline.task, hline.child, hline.killReason, .inl hline.finished⟩
  | @counted line =>
      have hcount := alike_countLine rx s line
      exact ⟨hcount.task, hcount.child, hcount.killReason, .inl hcount.finished⟩
  | @announced line count =>
      have hframe := alike_announce s count
      exact ⟨hframe.task, hframe.child, hframe.killReason, .inl hframe.finished⟩
  | spared => exact ⟨rfl, rfl, rfl, .inl rfl⟩
  | drained => exact ⟨rfl, rfl, rfl, .inl rfl⟩
  | closed => exact ⟨rfl, rfl, rfl, .inl rfl⟩
  | flushed =>
      have hflush := alike_flush s
      exact ⟨hflush.task, hflush.child, hflush.killReason, .inl hflush.finished⟩
  | lastFlush =>
      have hflush := alike_flush s
      exact ⟨hflush.task, hflush.child, hflush.killReason, .inl hflush.finished⟩
  | reaped hworker => exact ⟨rfl, rfl, rfl, .inr ⟨hworker, rfl⟩⟩
  | lost hworker => exact ⟨rfl, rfl, rfl, .inr ⟨hworker, rfl⟩⟩
  | ended => exact ⟨rfl, rfl, rfl, .inl rfl⟩

theorem step_task_child {e : Event} (h : step rx s e = some s') :
    s'.task = s.task ∧ s'.child = s.child := by
  cases e with
  | worker elapsedMs flushDue =>
      obtain ⟨htask, hchild, -⟩ := (worked h).keeps
      exact ⟨htask, hchild⟩
  | stderr =>
      have ha := alike_readStderr h
      exact ⟨ha.task, ha.child⟩
  | abort =>
      cases h
      exact ⟨kill_task s _, kill_child s _⟩
  | timeout =>
      obtain ⟨t, -, ht⟩ := Option.map_eq_some_iff.mp h
      rw [← ht]
      exact ⟨kill_task s _, kill_child s _⟩
  | drop =>
      cases h
      exact ⟨kill_task s _, kill_child s _⟩

variable {task : Messages.TaskMessage} {child : Child} {es : List Event}

theorem run_task_child (hrun : (machine rx).run (start task child) es = some s) :
    s.task = task ∧ s.child = child := by
  have hkeeps : (machine rx).Keeps fun t => t.task = task ∧ t.child = child := by
    intro t e t' ht hstep
    obtain ⟨htask, hchild⟩ := step_task_child hstep
    exact ⟨htask.trans ht.1, hchild.trans ht.2⟩
  exact hkeeps.reachable ⟨rfl, rfl⟩ ⟨es, hrun⟩

/-- A kill leaves its reason unless the child was reaped, or another killed it. -/
theorem kill_reason_none {reason : String} :
    (s.kill reason).killReason = none ↔ s.killReason = none ∧ s.finished = true := by
  unfold State.kill
  split
  · rename_i hlate
    constructor
    · intro hnone
      refine ⟨hnone, hlate.resolve_right ?_⟩
      rw [hnone]
      exact Bool.false_ne_true
    · exact And.left
  · rename_i hnot
    constructor
    · intro h
      cases h
    · rintro ⟨-, hfinished⟩
      exact absurd (.inl hfinished) hnot

/-- The step is no kill, or comes when the child was reaped. -/
def Late (s : State) (e : Event) (_ : State) : Prop := e.kills = true → s.finished = true

theorem step_killReason {e : Event} (h : step rx s e = some s') :
    s'.killReason = none ↔ s.killReason = none ∧ Late s e s' := by
  have hother (hkills : e.kills = false) (hsame : s'.killReason = s.killReason) :
      s'.killReason = none ↔ s.killReason = none ∧ Late s e s' := by
    rw [hsame]
    refine (and_iff_left ?_).symm
    intro hk
    rw [hkills] at hk
    cases hk
  have hkill {reason : String} (hkills : e.kills = true) (hs' : s.kill reason = s') :
      s'.killReason = none ↔ s.killReason = none ∧ Late s e s' := by
    rw [← hs', kill_reason_none]
    exact and_congr_right fun _ => (imp_iff_right hkills).symm
  cases e with
  | worker elapsedMs flushDue => exact hother rfl (worked h).keeps.2.2.1
  | stderr => exact hother rfl (alike_readStderr h).killReason
  | abort => exact hkill rfl (Option.some.inj h)
  | timeout =>
      obtain ⟨t, -, ht⟩ := Option.map_eq_some_iff.mp h
      exact hkill rfl ht
  | drop => exact hkill rfl (Option.some.inj h)

/-- **A render has a kill reason** unless every kill of its run came too late. -/
theorem killReason_iff (hrun : (machine rx).run s es = some s') :
    s'.killReason = none ↔ s.killReason = none ∧ (machine rx).Along Late s es := by
  induction es generalizing s with
  | nil =>
      cases hrun
      exact (and_iff_left trivial).symm
  | cons e es ih =>
      rw [Machine.run_cons] at hrun
      obtain ⟨t, hstep, hrest⟩ := Option.bind_eq_some_iff.mp hrun
      rw [ih hrest, step_killReason hstep, and_assoc]
      refine and_congr_right fun _ => ⟨?_, fun h => h t hstep⟩
      rintro ⟨hlate, halong⟩ u hu
      have hut : u = t := Option.some.inj (hu.symm.trans hstep)
      rw [hut]
      exact ⟨hlate, halong⟩

/-- Before the worker ends there is no terminal event. -/
theorem terminals_open (hrun : (machine rx).run (start task child) es = some s)
    (hopen : s.worker ≠ .ended) : terminals s.sent = [] := by
  have hinv : Inv rx s := (inv_keeps rx).reachable (inv_start rx task child) ⟨es, hrun⟩
  unfold Inv at hinv
  cases hworker : s.worker with
  | ended => exact absurd hworker hopen
  | spawned =>
      rw [hworker] at hinv
      exact hinv.2.1
  | reaped code =>
      rw [hworker] at hinv
      exact hinv.2.1
  | flushing rest =>
      rw [hworker] at hinv
      cases rest with
      | some rest => exact hinv.silent
      | none => exact hinv.silent
  | _ =>
      rw [hworker] at hinv
      exact hinv.silent

/-- **The verdict**: when the worker has ended there is one terminal event, and
it follows from the kill reason and the exit alone. -/
theorem terminals_ended (hrun : (machine rx).run (start task child) es = some s)
    (hended : s.worker = .ended) :
    ∃ e, terminals s.sent = [e] ∧
      (e.isCompleted = true ↔ s.killReason = none ∧ child.exit = .ok (some 0)) := by
  have hinv : Inv rx s := (inv_keeps rx).reachable (inv_start rx task child) ⟨es, hrun⟩
  unfold Inv at hinv
  rw [hended] at hinv
  obtain ⟨-, elapsedMs, hsent⟩ := hinv
  refine ⟨_, hsent, ?_⟩
  rw [← (run_task_child hrun).2]
  unfold lastEvent
  cases hexit : s.child.exit with
  | error e => simp [RenderEvent.isCompleted]
  | ok code =>
      dsimp only
      unfold verdict
      cases hkill : s.killReason with
      | some reason => simp [RenderEvent.isCompleted]
      | none =>
          by_cases hcode : code = some 0
          · simp [hcode, RenderEvent.isCompleted]
          · simp [hcode, RenderEvent.isCompleted]

/-! ## The worker ends -/

/-- Steps of the worker alone bring it to its end. -/
def Ends (rx : Regexes) (s : State) : Prop :=
  ∃ es s', (machine rx).run s es = some s' ∧ s'.worker = .ended

theorem ends_of_work (s' : State) (hstep : s.work rx 0 false = some s') (h : Ends rx s') :
    Ends rx s := by
  obtain ⟨es, t, hrun, hended⟩ := h
  have hmove : (machine rx).step s (.worker 0 false) = some s' := hstep
  refine ⟨.worker 0 false :: es, t, ?_, hended⟩
  rw [Machine.run_cons, hmove]
  exact hrun

theorem ends_ended (h : s.worker = .ended) : Ends rx s := ⟨[], s, rfl, h⟩

theorem ends_reaped {code : Option Int} (h : s.worker = .reaped code) : Ends rx s := by
  refine ends_of_work { s.send (verdict s.killReason code s.outputFile 0) with
    worker := .ended } ?_ (ends_ended rfl)
  unfold State.work
  rw [h]

theorem ends_waiting (h : s.worker = .waiting) : Ends rx s := by
  cases hexit : s.child.exit with
  | ok code =>
      refine ends_of_work { s with finished := true, worker := .reaped code } ?_
        (ends_reaped rfl)
      unfold State.work
      rw [h]
      simp only [hexit]
  | error e =>
      refine ends_of_work { s.send (.failed (-1)
        ("Failed to wait for process: " ++ e)) with finished := true, worker := .ended } ?_
        (ends_ended rfl)
      unfold State.work
      rw [h]
      simp only [hexit]

theorem ends_lastFlush (h : s.worker = .flushing none) : Ends rx s := by
  refine ends_of_work { s.flush with worker := .waiting } ?_ (ends_waiting rfl)
  unfold State.work
  rw [h]

section Line

variable {rest : List (Option String)}
  (hnext : ∀ t : State, t.worker = .reading rest → Ends rx t)

include hnext

theorem ends_flushing (h : s.worker = .flushing (some rest)) : Ends rx s := by
  refine ends_of_work { s.flush with worker := .reading rest } ?_ (hnext _ rfl)
  unfold State.work
  rw [h]

theorem ends_kept (h : s.worker = .kept rest) : Ends rx s := by
  by_cases hdue : stdoutFlushLines ≤ s.stdoutBuf.length
  · refine ends_of_work { s.drain with worker := .flushing (some rest) } ?_
      (ends_flushing hnext rfl)
    unfold State.work
    rw [h]
    exact if_pos (.inl hdue)
  · refine ends_of_work { s with worker := .reading rest } ?_ (hnext _ rfl)
    unfold State.work
    rw [h]
    refine if_neg (not_or.mpr ⟨hdue, Bool.false_ne_true⟩)

theorem ends_announcing {count : Option UInt32} (h : s.worker = .announcing line count rest) :
    Ends rx s := by
  refine ends_of_work { s.announce count with
    stdoutBuf := s.stdoutBuf ++ [line], worker := .kept rest } ?_ (ends_kept hnext rfl)
  unfold State.work
  rw [h]

theorem ends_counting (h : s.worker = .counting line rest) : Ends rx s := by
  refine ends_of_work { s.countLine rx line with
    worker := .announcing line (s.fetched rx line) rest } ?_ (ends_announcing hnext rfl)
  unfold State.work
  rw [h]

end Line

theorem ends_reading {rest : List (Option String)} (h : s.worker = .reading rest) :
    Ends rx s := by
  induction rest generalizing s with
  | nil =>
      refine ends_of_work { s.drain with worker := .flushing none } ?_ (ends_lastFlush rfl)
      unfold State.work
      rw [h]
  | cons head rest ih =>
      cases head with
      | none =>
          refine ends_of_work { s.drain with worker := .flushing none } ?_ (ends_lastFlush rfl)
          unfold State.work
          rw [h]
      | some line =>
          refine ends_of_work { (s.reportProgress rx line 0).detectOutput rx line with
            worker := .counting line rest } ?_ (ends_counting (fun t ht => ih ht) rfl)
          unfold State.work
          rw [h]

/-- **Nothing but the child keeps a worker from its end.** -/
theorem worker_ends (rx : Regexes) (s : State) : Ends rx s := by
  cases hworker : s.worker with
  | spawned =>
      refine ends_of_work
        { s.send .started with worker := .reading s.child.stdout } ?_ (ends_reading rfl)
      unfold State.work
      rw [hworker]
  | reading rest => exact ends_reading hworker
  | counting line rest => exact ends_counting (fun t ht => ends_reading ht) hworker
  | announcing line count rest => exact ends_announcing (fun t ht => ends_reading ht) hworker
  | kept rest => exact ends_kept (fun t ht => ends_reading ht) hworker
  | flushing rest =>
      cases rest with
      | some rest => exact ends_flushing (fun t ht => ends_reading ht) hworker
      | none => exact ends_lastFlush hworker
  | waiting => exact ends_waiting hworker
  | reaped code => exact ends_reaped hworker
  | ended => exact ends_ended hworker

/-! ## As the main loop sees it -/

def RenderEvent.verdict? : RenderEvent → Option Verdict
  | .completed _ _ _ => some .completed
  | .failed _ error => some (.failed error)
  | _ => none

/-- The render without its threads. -/
def State.toRender (rx : Regexes) (s : State) : RenderExecutor Messages.TaskMessage where
  task := s.task
  killReason := s.killReason
  verdict := if s.finished then (lastEvent rx s 0).verdict? else none

theorem toRender_kill (rx : Regexes) (s : State) (reason : String) :
    (s.kill reason).toRender rx = (s.toRender rx).kill reason := by
  unfold State.kill RenderExecutor.kill
  have hverdict : (s.toRender rx).verdict.isSome = s.finished := by
    unfold State.toRender lastEvent verdict
    cases s.finished with
    | false => rfl
    | true =>
        dsimp only
        rw [if_pos rfl]
        split
        · split
          · rfl
          · split <;> rfl
        · rfl
  rw [hverdict]
  by_cases hlate : s.finished = true ∨ s.killReason.isSome = true
  · rw [if_pos hlate]
    exact (if_pos hlate).symm
  · rw [if_neg hlate]
    refine Eq.trans ?_ (if_neg hlate).symm
    have hopen : s.finished = false := Bool.eq_false_iff.mpr (not_or.mp hlate).1
    unfold State.toRender
    dsimp only
    rw [hopen]
    rfl

theorem toRender_of_eq (htask : s'.task = s.task) (hchild : s'.child = s.child)
    (hkill : s'.killReason = s.killReason) (hfinished : s'.finished = s.finished) :
    s'.toRender rx = s.toRender rx := by
  unfold State.toRender lastEvent
  rw [htask, hchild, hkill, hfinished]

/-- **The threads refine the render of the main loop**: each step is none of
it, a kill, or the exit of the child. -/
theorem toRender_step {e : Event} {code : Option Int} (hexit : s.child.exit = .ok code)
    (hopen : s.worker = .waiting → s.finished = false) (h : step rx s e = some s') :
    s'.toRender rx = s.toRender rx ∨
      (∃ reason, s'.toRender rx = (s.toRender rx).kill reason) ∨
      s'.toRender rx = (s.toRender rx).childExits (code.getD (-1)) := by
  cases e with
  | worker elapsedMs flushDue =>
      obtain ⟨htask, hchild, hkill, hfinished⟩ := (worked h).keeps
      rcases hfinished with hfinished | ⟨hwaiting, hfinished⟩
      · exact .inl (toRender_of_eq htask hchild hkill hfinished)
      · refine .inr (.inr ?_)
        have hcode : code.getD (-1) = 0 ↔ code = some 0 := by
          cases code with
          | none => decide
          | some n => simp
        unfold State.toRender lastEvent RenderExecutor.childExits
        rw [htask, hchild, hkill, hfinished, hopen hwaiting, hexit]
        unfold verdict
        cases s.killReason with
        | some reason => rfl
        | none =>
            by_cases hzero : code = some 0
            · simp [hzero, RenderEvent.verdict?]
            · simp [hcode, hzero, RenderEvent.verdict?]
  | stderr =>
      have ha := alike_readStderr h
      exact .inl (toRender_of_eq ha.task ha.child ha.killReason ha.finished)
  | abort =>
      cases h
      exact .inr (.inl ⟨_, toRender_kill rx s _⟩)
  | timeout =>
      obtain ⟨t, -, ht⟩ := Option.map_eq_some_iff.mp h
      rw [← ht]
      exact .inr (.inl ⟨_, toRender_kill rx s _⟩)
  | drop =>
      cases h
      exact .inr (.inl ⟨_, toRender_kill rx s _⟩)

end MinRender.Executor
