import MinRender.Agent.Executor
import MinRender.Monitor.TaskFormat

/-!
# When a template calls a chunk rendered

By the template guide a chunk fails when a line matches one of the error
patterns, and with the validation `exists_nonzero` also when the output file is
missing or empty. The agent's verdict knows of neither: the error patterns are
sent to it and never matched, and the validation is not sent at all.
-/

namespace MinRender.TemplateRules
open Executor TaskFormat

/-! ## The rules -/

/-- What lies outside the agent: regular expressions, and whether a path leads
to a file that is not empty. -/
structure World extends Regexes where
  nonEmpty : String → Bool

/-- A line on stdout or stderr matches an error pattern of the manifest. -/
def ErrorPrinted (w : World) (m : JobManifest) (child : Child) : Prop :=
  ∃ line, some line ∈ child.stdout ++ child.stderr ∧
    ∃ p ∈ m.progress.errorPatterns,
      ((w.compile p.regex).any fun find => (find line).isSome) = true

/-- The file passes the validation of the manifest. -/
def Validated (w : World) (m : JobManifest) (file : Option String) : Prop :=
  m.outputDetection.validation = "exists_nonzero" →
    ∃ path, file = some path ∧ w.nonEmpty path = true

/-- The rules for a render that has ended. -/
structure Rendered (w : World) (m : JobManifest) (s : State) : Prop where
  notKilled : s.killReason = none
  exited : s.child.exit = .ok (some 0)
  noError : ¬ ErrorPrinted w m s.child
  validated : Validated w m (detectedFile w.toRegexes s.task s.child)

/-- One terminal event when the worker has ended, by the rules, and none before. -/
def Follows (w : World) (m : JobManifest) (s : State) : Prop :=
  if s.worker = .ended then
    ∃ e, terminals s.sent = [e] ∧ (e.isCompleted = true ↔ Rendered w m s)
  else terminals s.sent = []

/-! ## The output file of a manifest -/

/-- The path a line tells, as the manifest has it found. -/
def manifestPath (rx : Regexes) (o : OutputDetection) (line : String) : Option String :=
  o.stdoutRegex.bind fun pattern =>
    if pattern = "" then none
    else (rx.compile pattern).bind fun find =>
      (find line).bind fun groups => groups o.pathGroup.toNat

def manifestFile (rx : Regexes) (m : JobManifest) (child : Child) : Option String :=
  ((readable child.stdout).filterMap (manifestPath rx m.outputDetection)).getLast?

/-- How to find the file survives the task message. -/
theorem detectedFile_eq {rx : Regexes} {m : JobManifest} {task : Messages.TaskMessage}
    (h : SameOutput m.outputDetection task.outputDetection) (child : Child) :
    detectedFile rx task child = manifestFile rx m child := by
  have hpath : outputOf rx task = manifestPath rx m.outputDetection := by
    funext line
    unfold outputOf manifestPath parseOutput
    cases hconfig : task.outputDetection with
    | none =>
        rw [hconfig] at h
        rw [show m.outputDetection.stdoutRegex = none from h]
        rfl
    | some config =>
        rw [hconfig] at h
        obtain ⟨-, hregex, hgroup⟩ := h
        have hnat : m.outputDetection.pathGroup.toNat = config.captureGroup.toNat := by omega
        rw [Option.bind_some, hregex, hnat]
  unfold detectedFile lastPath manifestFile
  rw [hpath]

/-! ## What the agent does -/

variable {w : World} {m : JobManifest} {task : Messages.TaskMessage} {child : Child}
  {es : List Event} {s : State}

/-- A render that was not killed and exited successfully is completed, so the
rules have to hold of it. -/
theorem rendered_of_follows (hrun : (machine w.toRegexes).run (start task child) es = some s)
    (hended : s.worker = .ended) (hkill : s.killReason = none)
    (hexit : child.exit = .ok (some 0)) (h : Follows w m s) : Rendered w m s := by
  unfold Follows at h
  rw [if_pos hended] at h
  obtain ⟨e, hsent, hrules⟩ := h
  obtain ⟨e', hsent', hverdict⟩ := terminals_ended hrun hended
  have he : e' = e := by
    rw [hsent] at hsent'
    exact (List.singleton_inj.mp hsent').symm
  rw [he] at hverdict
  exact hrules.mp (hverdict.mpr ⟨hkill, hexit⟩)

/-- **The verdict follows the template exactly where the template asks nothing
more**: of a render that no kill reached and that exited successfully no line
may match an error pattern, and its file must pass the validation. Every render
can be brought to its one verdict by its worker alone. -/
theorem follows_iff (w : World) (nodeOS stagingDir : String) (m : JobManifest)
    (chunk : ChunkRange) (task : Messages.TaskMessage)
    (hread : Messages.read (buildTaskJson nodeOS stagingDir m chunk) = some (.task task))
    (child : Child) (es : List Event) (s : State)
    (hrun : (machine w.toRegexes).run (start task child) es = some s) :
    (Follows w m s ↔
      (s.worker = .ended → (machine w.toRegexes).Along Late (start task child) es →
        child.exit = .ok (some 0) →
          ¬ ErrorPrinted w m child ∧ Validated w m (manifestFile w.toRegexes m child))) ∧
    Ends w.toRegexes s := by
  obtain ⟨htask, hchild⟩ := run_task_child hrun
  have hfile : detectedFile w.toRegexes s.task s.child = manifestFile w.toRegexes m child := by
    rw [htask, hchild]
    exact detectedFile_eq (read_task.mp hread).output child
  have hkilled : s.killReason = none ↔
      (machine w.toRegexes).Along Late (start task child) es :=
    (killReason_iff hrun).trans (and_iff_right rfl)
  refine ⟨?_, worker_ends w.toRegexes s⟩
  constructor
  · intro h hended hlate hexit
    have hrendered := rendered_of_follows hrun hended (hkilled.mpr hlate) hexit h
    rw [← hfile, ← hchild]
    exact ⟨hrendered.noError, hrendered.validated⟩
  · intro h
    unfold Follows
    by_cases hended : s.worker = .ended
    · rw [if_pos hended]
      obtain ⟨e, hsent, hverdict⟩ := terminals_ended hrun hended
      refine ⟨e, hsent, hverdict.trans ⟨?_, ?_⟩⟩
      · rintro ⟨hkill, hexit⟩
        obtain ⟨hnoError, hvalidated⟩ := h hended (hkilled.mp hkill) hexit
        rw [← hchild] at hexit hnoError
        rw [← hfile] at hvalidated
        exact ⟨hkill, hexit, hnoError, hvalidated⟩
      · intro hrendered
        rw [← hchild]
        exact ⟨hrendered.notKilled, hrendered.exited⟩
    · rw [if_neg hended]
      exact terminals_open hrun hended

/-! ## A line "Error" -/

/-- Patterns that match themselves, and no file anywhere. -/
def literal : World where
  compile pattern := some fun line => if line = pattern then some fun _ => some line else none
  parseFloat _ := none
  nonEmpty _ := false

/-- A job whose template knows a line for a frame and one for an error. -/
def shot : JobManifest where
  jobId := "shot"
  frameEnd := 1
  progress := {
    completionPattern := some { regex := "Saved" }
    errorPatterns := [{ regex := "Error" }] }

def shotTask : Messages.TaskMessage where
  jobId := "shot"
  frameStart := 1
  frameEnd := 1
  command := ⟨"", []⟩
  progress := some {
    completionPattern := some { regex := "Saved" }
    errorPatterns := [{ regex := "Error" }] }
  outputDetection := none
  timeoutSeconds := none

theorem read_shot :
    Messages.read (buildTaskJson "linux" "" shot ⟨1, 1⟩) = some (.task shotTask) :=
  read_task.mpr {
    jobId := rfl
    frameStart := rfl
    frameEnd := rfl
    executable := rfl
    args := rfl
    workingDir := rfl
    environment := rfl
    progress := ⟨rfl, .nil, .some ⟨rfl, rfl⟩, .cons ⟨rfl, rfl⟩ .nil⟩
    output := rfl
    timeout := rfl }

/-- A child that writes one line and exits with 0. -/
def prints (line : String) : Child := { stdout := [some line], stderr := [], exit := .ok (some 0) }

/-- The worker on its own, up to the verdict on such a child. -/
def alone : List Event := List.replicate 9 (.worker 0 false)

theorem saved_follows :
    ∃ s, (machine literal.toRegexes).run (start shotTask (prints "Saved")) alone = some s ∧
      s.worker = .ended ∧ Follows literal shot s := by
  refine ⟨_, rfl, rfl, ?_⟩
  refine (follows_iff literal "linux" "" shot ⟨1, 1⟩ shotTask read_shot (prints "Saved") alone _
    rfl).1.mpr ?_
  intro _ _ _
  refine ⟨?_, fun h => ?_⟩
  · rintro ⟨line, hline, p, hp, hfound⟩
    cases List.mem_singleton.mp hline
    cases List.mem_singleton.mp hp
    exact absurd hfound (by decide)
  · exact absurd h (by decide)

/-- **An error is completed**: the child writes it and exits with 0. -/
theorem error_completed :
    ¬ ∀ (w : World) (nodeOS stagingDir : String) (m : JobManifest) (chunk : ChunkRange)
      (task : Messages.TaskMessage),
      Messages.read (buildTaskJson nodeOS stagingDir m chunk) = some (.task task) →
      ∀ (child : Child) (es : List Event) (s : State),
        (machine w.toRegexes).run (start task child) es = some s → Follows w m s := by
  intro h
  obtain ⟨s, hrun, hended, hkill⟩ : ∃ s,
      (machine literal.toRegexes).run (start shotTask (prints "Error")) alone = some s ∧
        s.worker = .ended ∧ s.killReason = none := ⟨_, rfl, rfl, rfl⟩
  have hfollows := h literal "linux" "" shot ⟨1, 1⟩ shotTask read_shot (prints "Error") alone s hrun
  have hrendered := rendered_of_follows hrun hended hkill rfl hfollows
  have hprinted : ErrorPrinted literal shot s.child := by
    rw [(run_task_child hrun).2]
    exact ⟨"Error", List.mem_singleton.mpr rfl, { regex := "Error" },
      List.mem_singleton.mpr rfl, by decide⟩
  exact hrendered.noError hprinted

end MinRender.TemplateRules
