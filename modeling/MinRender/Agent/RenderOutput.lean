import MinRender.Agent.Executor
import MinRender.Framework.Shuffle

/-!
# What a render tells of its child

The worker reads the child's stdout, another thread its stderr; both count the
lines that complete a frame, and the worker passes on what both have read. In
whatever order the threads run, stdout is passed on whole and in order before
the end of the render, and the frames announced are the first of the chunk. Each
thread announces its frames in order, but a frame counted first may be announced
second, as the threads count and announce in separate steps.
-/

namespace MinRender.Executor

variable {rx : Regexes} {s s' : State} {out err : List String}

/-! ## What is told -/

def RenderEvent.lines : RenderEvent → List String
  | .stdout lines => lines
  | _ => []

/-- The lines passed on, in order. -/
def told (sent : List RenderEvent) : List String := sent.flatMap (·.lines)

def RenderEvent.frame? : RenderEvent → Option UInt32
  | .frameCompleted frame => some frame
  | _ => none

/-- The frames announced, in order. -/
def announced (sent : List RenderEvent) : List UInt32 := sent.filterMap (·.frame?)

/-- Lines that complete a frame, among those read. -/
def completions (rx : Regexes) (task : Messages.TaskMessage) (lines : List String) : Nat :=
  lines.countP (completes rx task)

/-- The first `n` frames of the task, as far as it goes. -/
def firstFrames (task : Messages.TaskMessage) (n : Nat) : List Nat :=
  (List.range' task.frameStart.toNat n).filter (· ≤ task.frameEnd.toNat)

theorem told_concat (sent : List RenderEvent) (e : RenderEvent) :
    told (sent ++ [e]) = told sent ++ e.lines := by
  simp [told]

theorem announced_concat (sent : List RenderEvent) (e : RenderEvent) :
    announced (sent ++ [e]) = announced sent ++ e.frame?.toList := by
  unfold announced
  rw [List.filterMap_append]
  cases h : e.frame? <;> simp [h]

theorem readable_of_append (lines : List String) {rest : List (Option String)}
    (hrest : readable rest = []) : readable (lines.map some ++ rest) = lines := by
  induction lines with
  | nil => exact hrest
  | cons line lines ih => exact congrArg (line :: ·) ih

/-! ## The two readers -/

/-- The child's stdout has been put into the buffer up to `out`. -/
def ReadOut (s : State) (out : List String) : Prop :=
  match s.worker with
  | .spawned => out = []
  | .reading rest => s.child.stdout = out.map some ++ rest
  | .counting line rest => s.child.stdout = (out ++ [line]).map some ++ rest
  | .announcing line _ rest => s.child.stdout = (out ++ [line]).map some ++ rest
  | .kept rest => s.child.stdout = out.map some ++ rest
  | .flushing (some rest) => s.child.stdout = out.map some ++ rest
  | .flushing none => out = readable s.child.stdout
  | _ => out = readable s.child.stdout ∧ s.stdoutBuf = []

/-- The child's stderr has been kept up to `err`. -/
def ReadErr (s : State) (err : List String) : Prop :=
  match s.stderr with
  | .reading rest =>
      s.child.stderr = err.map some ++ rest ∨ err = readable s.child.stderr ∧ rest = []
  | .announcing line _ rest => s.child.stderr = (err ++ [line]).map some ++ rest
  | .keeping line rest => s.child.stderr = (err ++ [line]).map some ++ rest

/-- A line that is counted already, but not in a buffer. -/
def Worker.counted : Worker → List String
  | .announcing line _ _ => [line]
  | _ => []

def Worker.announces : Worker → Bool
  | .announcing _ _ _ => true
  | _ => false

def StderrReader.counted : StderrReader → List String
  | .announcing line _ _ => [line]
  | .keeping line _ => [line]
  | .reading _ => []

/-- The frame of a count that is still to be announced. -/
def dueFrame (task : Messages.TaskMessage) (count : Option UInt32) : List Nat :=
  (count.bind (frameOf task)).toList.map UInt32.toNat

def Worker.due (task : Messages.TaskMessage) : Worker → List Nat
  | .announcing _ count _ => dueFrame task count
  | _ => []

def StderrReader.due (task : Messages.TaskMessage) : StderrReader → List Nat
  | .announcing _ count _ => dueFrame task count
  | _ => []

/-- The lines of both readers are in what was passed on and what waits for it. -/
def Forwards (s : State) (out err : List String) : Prop :=
  ∃ errTold, err = errTold ++ s.stderrLines ∧
    Shuffle out (errTold.map tagged) (told s.sent ++ s.stdoutBuf)

/-- Two writers have the numbers of `all` between them, each its own in order. -/
structure Dealt (t u all : List Nat) : Prop where
  left : t.Pairwise (· < ·)
  right : u.Pairwise (· < ·)
  perm : (t ++ u).Perm all

/-- The counter, the frames announced and the frames due are those of `n` completions. -/
structure Counts (task : Messages.TaskMessage) (counter : UInt32) (told outDue errDue : List Nat)
    (n : Nat) : Prop where
  counter : counter = UInt32.ofNat n
  frames : task.frameStart.toNat + n ≤ 2 ^ 32 → ∃ byOut byErr, Shuffle byOut byErr told ∧
    Dealt (byOut ++ outDue) (byErr ++ errDue) (firstFrames task n)

/-- The frames announced, as numbers. -/
def announcedFrames (s : State) : List Nat := (announced s.sent).map UInt32.toNat

def State.Counts (rx : Regexes) (s : State) (out err : List String) : Prop :=
  Executor.Counts s.task s.completionCounter (announcedFrames s) (s.worker.due s.task)
    (s.stderr.due s.task)
    (completions rx s.task (out ++ s.worker.counted ++ (err ++ s.stderr.counted)))

/-- After the end of the render only frames of stderr are announced. -/
def EndsWith (sent : List RenderEvent) : Prop :=
  ∃ before e after, sent = before ++ e :: after ∧ e.isTerminal = true ∧
    ∀ x ∈ after, x.frame?.isSome = true

structure Outputs (rx : Regexes) (s : State) (out err : List String) : Prop where
  stdout : ReadOut s out
  stderr : ReadErr s err
  forwards : Forwards s out err
  counts : s.Counts rx out err
  ends : s.worker = .ended → EndsWith s.sent

/-! ## What the parts of a step do -/

/-- The same lines read and passed on. -/
structure SameText (s s' : State) : Prop where
  task : s'.task = s.task
  child : s'.child = s.child
  stdoutBuf : s'.stdoutBuf = s.stdoutBuf
  stderrLines : s'.stderrLines = s.stderrLines
  stderr : s'.stderr = s.stderr
  told : told s'.sent = told s.sent

/-- Neither counted nor announced anything. -/
structure SameFrames (s s' : State) : Prop where
  task : s'.task = s.task
  counter : s'.completionCounter = s.completionCounter
  announced : announced s'.sent = announced s.sent

theorem SameText.trans {s'' : State} (h : SameText s s') (h' : SameText s' s'') :
    SameText s s'' where
  task := h'.task.trans h.task
  child := h'.child.trans h.child
  stdoutBuf := h'.stdoutBuf.trans h.stdoutBuf
  stderrLines := h'.stderrLines.trans h.stderrLines
  stderr := h'.stderr.trans h.stderr
  told := h'.told.trans h.told

theorem SameFrames.trans {s'' : State} (h : SameFrames s s') (h' : SameFrames s' s'') :
    SameFrames s s'' where
  task := h'.task.trans h.task
  counter := h'.counter.trans h.counter
  announced := h'.announced.trans h.announced

theorem lines_of_frame {e : RenderEvent} (h : e.frame?.isSome = true) : e.lines = [] := by
  cases e with
  | frameCompleted frame => rfl
  | _ => cases h

theorem send_text {e : RenderEvent} (h : e.lines = []) : SameText s (s.send e) := by
  refine ⟨rfl, rfl, rfl, rfl, rfl, ?_⟩
  exact (told_concat s.sent e).trans (by rw [h, List.append_nil])

theorem send_frames {e : RenderEvent} (h : e.frame? = none) : SameFrames s (s.send e) := by
  refine ⟨rfl, rfl, ?_⟩
  exact (announced_concat s.sent e).trans (by rw [h]; exact List.append_nil _)

theorem announce_text (s : State) (count : Option UInt32) : SameText s (s.announce count) := by
  unfold State.announce
  split
  · exact send_text rfl
  · exact ⟨rfl, rfl, rfl, rfl, rfl, rfl⟩

theorem countLine_text (rx : Regexes) (s : State) (line : String) :
    SameText s (s.countLine rx line) := by
  unfold State.countLine
  split
  · exact ⟨rfl, rfl, rfl, rfl, rfl, rfl⟩
  · exact ⟨rfl, rfl, rfl, rfl, rfl, rfl⟩

/-- What a line of stdout tells of the progress and the output file. -/
theorem parse_same (rx : Regexes) (s : State) (line : String) (elapsedMs : Nat) :
    SameText s ((s.reportProgress rx line elapsedMs).detectOutput rx line) ∧
      SameFrames s ((s.reportProgress rx line elapsedMs).detectOutput rx line) := by
  have hprogress : SameText s (s.reportProgress rx line elapsedMs) ∧
      SameFrames s (s.reportProgress rx line elapsedMs) := by
    unfold State.reportProgress
    split
    · exact ⟨send_text rfl, send_frames rfl⟩
    · exact ⟨⟨rfl, rfl, rfl, rfl, rfl, rfl⟩, ⟨rfl, rfl, rfl⟩⟩
  have houtput (t : State) : SameText t (t.detectOutput rx line) ∧
      SameFrames t (t.detectOutput rx line) := by
    unfold State.detectOutput
    split
    · exact ⟨⟨rfl, rfl, rfl, rfl, rfl, rfl⟩, ⟨rfl, rfl, rfl⟩⟩
    · exact ⟨⟨rfl, rfl, rfl, rfl, rfl, rfl⟩, ⟨rfl, rfl, rfl⟩⟩
  exact ⟨hprogress.1.trans (houtput _).1, hprogress.2.trans (houtput _).2⟩

theorem flush_frames (s : State) : SameFrames s s.flush := by
  unfold State.flush
  split
  · exact ⟨rfl, rfl, rfl⟩
  · have hsent : SameFrames s (s.send (.stdout s.stdoutBuf)) := send_frames rfl
    exact ⟨rfl, rfl, hsent.announced⟩

theorem Forwards.of_same (h : Forwards s out err) (hlines : s'.stderrLines = s.stderrLines)
    (htold : told s'.sent = told s.sent) (hbuf : s'.stdoutBuf = s.stdoutBuf) :
    Forwards s' out err := by
  unfold Forwards
  rw [hlines, htold, hbuf]
  exact h

theorem Forwards.push (h : Forwards s out err) {line : String}
    (hlines : s'.stderrLines = s.stderrLines) (htold : told s'.sent = told s.sent)
    (hbuf : s'.stdoutBuf = s.stdoutBuf ++ [line]) : Forwards s' (out ++ [line]) err := by
  obtain ⟨errTold, herr, hshuffle⟩ := h
  have hmore := hshuffle.append_left [line]
  refine ⟨errTold, by rw [hlines, herr], ?_⟩
  rw [htold, hbuf, ← List.append_assoc]
  exact hmore

/-- The lines of stderr wait behind those of stdout. -/
theorem Forwards.drain (h : Forwards s out err) : Forwards s.drain out err := by
  obtain ⟨errTold, herr, hshuffle⟩ := h
  have hmore := hshuffle.append_right (s.stderrLines.map tagged)
  rw [← List.map_append, ← herr, List.append_assoc] at hmore
  exact ⟨err, (List.append_nil _).symm, hmore⟩

theorem flush_stdoutBuf (s : State) : s.flush.stdoutBuf = [] := by
  unfold State.flush
  split
  · assumption
  · rfl

theorem flush_stderr (s : State) :
    s.flush.stderr = s.stderr ∧ s.flush.stderrLines = s.stderrLines := by
  unfold State.flush
  split
  · exact ⟨rfl, rfl⟩
  · exact ⟨rfl, rfl⟩

/-- What a flush sends is what was in the buffer. -/
theorem flush_told (s : State) : told s.flush.sent = told s.sent ++ s.stdoutBuf := by
  unfold State.flush
  split
  · rename_i hempty
    rw [hempty, List.append_nil]
  · exact told_concat s.sent _

theorem Forwards.flush (h : Forwards s out err) : Forwards s.flush out err := by
  unfold Forwards
  rw [flush_told, flush_stdoutBuf, (flush_stderr s).2, List.append_nil]
  exact h

theorem Forwards.keep (h : Forwards s out err) {line : String}
    (hlines : s'.stderrLines = s.stderrLines ++ [line]) (htold : told s'.sent = told s.sent)
    (hbuf : s'.stdoutBuf = s.stdoutBuf) : Forwards s' out (err ++ [line]) := by
  obtain ⟨errTold, herr, hshuffle⟩ := h
  refine ⟨errTold, by rw [hlines, herr, List.append_assoc], ?_⟩
  rw [htold, hbuf]
  exact hshuffle

/-! ## Counting -/

theorem firstFrames_succ (task : Messages.TaskMessage) (n : Nat) :
    firstFrames task (n + 1) = firstFrames task n ++
      if task.frameStart.toNat + n ≤ task.frameEnd.toNat then [task.frameStart.toNat + n]
      else [] := by
  unfold firstFrames
  rw [List.range'_concat, List.filter_append, Nat.one_mul]
  congr 1
  by_cases h : task.frameStart.toNat + n ≤ task.frameEnd.toNat
  · rw [if_pos h, List.filter_cons_of_pos (by simpa using h)]
    rfl
  · rw [if_neg h, List.filter_cons_of_neg (by simpa using h)]
    rfl

theorem lt_of_mem_firstFrames {task : Messages.TaskMessage} {n frame : Nat}
    (h : frame ∈ firstFrames task n) : frame < task.frameStart.toNat + n := by
  obtain ⟨i, hi, rfl⟩ := List.mem_range'.mp (List.mem_filter.mp h).1
  omega

/-- The count `n` is due as the frame after the first `n`. -/
theorem dueFrame_ofNat {task : Messages.TaskMessage} {n : Nat}
    (hfit : task.frameStart.toNat + (n + 1) ≤ 2 ^ 32) :
    dueFrame task (some (UInt32.ofNat n)) =
      if task.frameStart.toNat + n ≤ task.frameEnd.toNat then [task.frameStart.toNat + n]
      else [] := by
  have hframe : (task.frameStart + UInt32.ofNat n).toNat = task.frameStart.toNat + n := by
    rw [UInt32.toNat_add, UInt32.toNat_ofNat']
    omega
  unfold dueFrame frameOf
  dsimp only [Option.bind_some]
  by_cases hlast : task.frameStart + UInt32.ofNat n ≤ task.frameEnd
  · rw [if_pos hlast, if_pos (hframe ▸ UInt32.le_iff_toNat_le.mp hlast)]
    exact congrArg ([·]) hframe
  · rw [if_neg hlast, if_neg fun hle => hlast (UInt32.le_iff_toNat_le.mpr (hframe ▸ hle))]
    rfl

namespace Dealt

variable {t u all : List Nat}

theorem swap (h : Dealt t u all) : Dealt u t all :=
  ⟨h.right, h.left, List.perm_append_comm.trans h.perm⟩

/-- The first writer gets the next numbers. -/
theorem deal {more : List Nat} (h : Dealt t u all) (hmore : more.Pairwise (· < ·))
    (hnext : ∀ x ∈ all, ∀ y ∈ more, x < y) : Dealt (t ++ more) u (all ++ more) where
  left := List.pairwise_append.mpr ⟨h.left, hmore, fun x hx y hy =>
    hnext x (h.perm.subset (List.mem_append_left _ hx)) y hy⟩
  right := h.right
  perm := by
    rw [List.append_assoc]
    refine (List.perm_append_comm.append_left t).trans ?_
    rw [← List.append_assoc]
    exact h.perm.append_right more

end Dealt

section Counting

variable {task : Messages.TaskMessage} {counter : UInt32} {told outDue errDue : List Nat} {n : Nat}

theorem Counts.swap (h : Counts task counter told outDue errDue n) :
    Counts task counter told errDue outDue n where
  counter := h.counter
  frames hfit := by
    obtain ⟨byOut, byErr, hshuffle, hdealt⟩ := h.frames hfit
    exact ⟨byErr, byOut, hshuffle.symm, hdealt.swap⟩

/-- A completion takes the next frame. -/
theorem Counts.fetch (h : Counts task counter told [] errDue n) :
    Counts task (counter + 1) told (dueFrame task (some counter)) errDue (n + 1) where
  counter := by
    rw [h.counter, UInt32.ofNat_add]
    rfl
  frames hfit := by
    obtain ⟨byOut, byErr, hshuffle, hdealt⟩ := h.frames (by omega)
    rw [List.append_nil] at hdealt
    refine ⟨byOut, byErr, hshuffle, ?_⟩
    rw [h.counter, dueFrame_ofNat hfit, firstFrames_succ]
    refine hdealt.deal ?_ ?_
    · split
      · exact List.pairwise_singleton _ _
      · exact List.Pairwise.nil
    · intro x hx y hy
      split at hy
      · rw [List.mem_singleton.mp hy]
        exact lt_of_mem_firstFrames hx
      · cases hy

theorem Counts.announce (h : Counts task counter told outDue errDue n) :
    Counts task counter (told ++ outDue) [] errDue n where
  counter := h.counter
  frames hfit := by
    obtain ⟨byOut, byErr, hshuffle, hdealt⟩ := h.frames hfit
    refine ⟨byOut ++ outDue, byErr, hshuffle.append_left outDue, ?_⟩
    rw [List.append_nil]
    exact hdealt

/-- Counting a line takes a frame where the line completes one. -/
theorem Counts.countLine (rx : Regexes) (line : String)
    (h : Counts s.task s.completionCounter told [] errDue n) :
    Counts s.task (s.countLine rx line).completionCounter told
      (dueFrame s.task (s.fetched rx line)) errDue
      (n + if completes rx s.task line then 1 else 0) := by
  unfold State.countLine State.fetched
  split
  · exact h.fetch
  · exact h

theorem announcedFrames_announce (s : State) (count : Option UInt32) :
    announcedFrames (s.announce count) = announcedFrames s ++ dueFrame s.task count := by
  unfold State.announce announcedFrames dueFrame
  split
  · rename_i frame hframe
    rw [hframe]
    show (announced (s.sent ++ [_])).map UInt32.toNat = _
    rw [announced_concat, List.map_append]
    rfl
  · rename_i hnone
    rw [hnone]
    exact (List.append_nil _).symm

theorem countLine_worker (rx : Regexes) (s : State) (line : String) :
    (s.countLine rx line).worker = s.worker := (alike_countLine rx s line).worker

theorem countLine_sent (rx : Regexes) (s : State) (line : String) :
    (s.countLine rx line).sent = s.sent := by
  unfold State.countLine
  split <;> rfl

theorem announcedFrames_countLine (rx : Regexes) (s : State) (line : String) :
    announcedFrames (s.countLine rx line) = announcedFrames s := by
  unfold announcedFrames
  rw [countLine_sent]

theorem announce_worker (s : State) (count : Option UInt32) :
    (s.announce count).worker = s.worker := (alike_announce s count).worker

theorem announce_counter (s : State) (count : Option UInt32) :
    (s.announce count).completionCounter = s.completionCounter := by
  unfold State.announce
  split <;> rfl

end Counting

theorem quiet_worker {w : Worker} (h : w.announces = false) (task : Messages.TaskMessage) :
    w.counted = [] ∧ w.due task = [] := by
  cases w with
  | announcing line count rest => cases h
  | _ => exact ⟨rfl, rfl⟩

/-- What neither counts nor announces leaves the account as it is. -/
theorem State.Counts.of_same (h : s.Counts rx out err) (hsame : SameFrames s s')
    (hbefore : s.worker.announces = false) (hafter : s'.worker.announces = false)
    (hstderr : s'.stderr = s.stderr) : s'.Counts rx out err := by
  obtain ⟨hcounted, hdue⟩ := quiet_worker hbefore s.task
  obtain ⟨hcounted', hdue'⟩ := quiet_worker hafter s.task
  unfold State.Counts at h
  rw [hcounted, hdue] at h
  unfold State.Counts announcedFrames
  rw [hsame.task, hsame.counter, hsame.announced, hcounted', hdue', hstderr]
  exact h

theorem completions_out (task : Messages.TaskMessage) (out err : List String) (line : String) :
    completions rx task (out ++ [line] ++ err) =
      completions rx task (out ++ err) + if completes rx task line then 1 else 0 := by
  unfold completions
  rw [List.countP_append, List.countP_append, List.countP_append, List.countP_singleton]
  omega

theorem completions_err (task : Messages.TaskMessage) (out err : List String) (line : String) :
    completions rx task (out ++ (err ++ [line])) =
      completions rx task (out ++ err) + if completes rx task line then 1 else 0 := by
  unfold completions
  rw [← List.append_assoc, List.countP_append, List.countP_singleton]

/-! ## The steps -/

theorem outputs_start (rx : Regexes) (task : Messages.TaskMessage) (child : Child) :
    Outputs rx (start task child) [] [] where
  stdout := rfl
  stderr := .inl rfl
  forwards := ⟨[], rfl, .nil⟩
  counts := ⟨rfl, fun _ => ⟨[], [], .nil, .nil, .nil, .refl _⟩⟩
  ends h := by cases h

theorem ReadErr.of_same (h : ReadErr s err) (hstderr : s'.stderr = s.stderr)
    (hchild : s'.child = s.child) : ReadErr s' err := by
  unfold ReadErr
  rw [hstderr, hchild]
  exact h

/-- A line read of stdout is counted, then announced and put into the buffer. -/
theorem Outputs.line (h : Outputs rx s out err) {line : String} {rest : List (Option String)}
    (elapsedMs : Nat) (hworker : s.worker = .reading (some line :: rest)) :
    Outputs rx { (s.reportProgress rx line elapsedMs).detectOutput rx line with
      worker := .counting line rest } out err := by
  obtain ⟨hout, herr, hforwards, hcounts, -⟩ := h
  unfold ReadOut at hout
  rw [hworker] at hout
  obtain ⟨htext, hframes⟩ := parse_same rx s line elapsedMs
  refine ⟨?_, herr.of_same htext.stderr htext.child,
    hforwards.of_same htext.stderrLines htext.told htext.stdoutBuf, ?_,
    fun hended => by cases hended⟩
  · unfold ReadOut
    dsimp only
    rw [htext.child, hout, List.map_append, List.append_assoc]
    rfl
  · refine hcounts.of_same ⟨hframes.task, hframes.counter, hframes.announced⟩ ?_ rfl htext.stderr
    rw [hworker]
    rfl

theorem Outputs.counted (h : Outputs rx s out err) {line : String} {rest : List (Option String)}
    (hworker : s.worker = .counting line rest) :
    Outputs rx { s.countLine rx line with worker := .announcing line (s.fetched rx line) rest }
      out err := by
  obtain ⟨hout, herr, hforwards, hcounts, -⟩ := h
  unfold ReadOut at hout
  unfold State.Counts at hcounts
  rw [hworker] at hout hcounts
  have htext := countLine_text rx s line
  refine ⟨?_, herr.of_same htext.stderr htext.child,
    hforwards.of_same htext.stderrLines htext.told htext.stdoutBuf, ?_,
    fun hended => by cases hended⟩
  · show (s.countLine rx line).child.stdout = (out ++ [line]).map some ++ rest
    rw [htext.child]
    exact hout
  · have hcount := Counts.countLine rx line hcounts
    have hempty : (Worker.counting line rest).counted = [] := rfl
    rw [hempty, List.append_nil, ← completions_out] at hcount
    unfold State.Counts
    dsimp only
    rw [htext.task, htext.stderr]
    show Counts _ _ (announcedFrames (s.countLine rx line)) _ _ _
    rw [announcedFrames_countLine]
    exact hcount

theorem Outputs.announced (h : Outputs rx s out err) {line : String} {count : Option UInt32}
    {rest : List (Option String)} (hworker : s.worker = .announcing line count rest) :
    Outputs rx { s.announce count with
      stdoutBuf := s.stdoutBuf ++ [line], worker := .kept rest } (out ++ [line]) err := by
  obtain ⟨hout, herr, hforwards, hcounts, -⟩ := h
  unfold ReadOut at hout
  unfold State.Counts at hcounts
  rw [hworker] at hout hcounts
  have htext := announce_text s count
  refine ⟨?_, herr.of_same htext.stderr htext.child, ?_, ?_, fun hended => by cases hended⟩
  · show (s.announce count).child.stdout = (out ++ [line]).map some ++ rest
    rw [htext.child]
    exact hout
  · exact hforwards.push htext.stderrLines htext.told rfl
  · have hannounced := hcounts.announce
    unfold State.Counts
    dsimp only
    rw [htext.task, htext.stderr, announce_counter]
    show Counts _ _ (announcedFrames (s.announce count)) _ _ _
    rw [announcedFrames_announce]
    have hempty : (Worker.kept rest).counted = [] := rfl
    rw [hempty, List.append_nil]
    exact hannounced

/-- The buffers are joined and sent, and the worker goes on. -/
theorem Outputs.drained (h : Outputs rx s out err) {worker : Worker}
    (hstdout : ReadOut { s.drain with worker := worker } out)
    (hbefore : s.worker.announces = false) (hafter : worker.announces = false)
    (hopen : worker ≠ .ended) :
    Outputs rx { s.drain with worker := worker } out err where
  stdout := hstdout
  stderr := h.stderr.of_same rfl rfl
  forwards := h.forwards.drain
  counts := h.counts.of_same ⟨rfl, rfl, rfl⟩ hbefore hafter rfl
  ends hended := absurd hended hopen

theorem Outputs.flushed (h : Outputs rx s out err) {worker : Worker}
    (hstdout : ReadOut { s.flush with worker := worker } out)
    (hbefore : s.worker.announces = false) (hafter : worker.announces = false)
    (hopen : worker ≠ .ended) :
    Outputs rx { s.flush with worker := worker } out err where
  stdout := hstdout
  stderr := h.stderr.of_same (flush_stderr s).1 (alike_flush s).child
  forwards := h.forwards.flush
  counts := by
    have hsame := flush_frames s
    exact h.counts.of_same ⟨hsame.task, hsame.counter, hsame.announced⟩ hbefore hafter
      (flush_stderr s).1
  ends hended := absurd hended hopen

theorem silent_of_terminal {e : RenderEvent} (h : e.isTerminal = true) :
    e.lines = [] ∧ e.frame? = none := by
  cases e with
  | completed => exact ⟨rfl, rfl⟩
  | failed => exact ⟨rfl, rfl⟩
  | _ => cases h

/-- The last event says nothing of the output. -/
theorem Outputs.sent (h : Outputs rx s out err) {e : RenderEvent} {finished : Bool}
    (hterminal : e.isTerminal = true)
    (hstdout : ReadOut { s.send e with finished := finished, worker := .ended } out)
    (hbefore : s.worker.announces = false) :
    Outputs rx { s.send e with finished := finished, worker := .ended } out err := by
  obtain ⟨hlines, hframe⟩ := silent_of_terminal hterminal
  have htext : SameText s (s.send e) := send_text hlines
  have hsame : SameFrames s (s.send e) := send_frames hframe
  refine ⟨hstdout, h.stderr.of_same rfl rfl, h.forwards.of_same rfl htext.told rfl, ?_,
    fun _ => ⟨s.sent, e, [], rfl, hterminal, List.forall_mem_nil _⟩⟩
  exact h.counts.of_same ⟨rfl, rfl, hsame.announced⟩ hbefore rfl rfl

/-- What the worker's step adds to what was read of stdout. -/
theorem Outputs.worked (h : Outputs rx s out err) (hstep : Worked rx s s') :
    ∃ out', Outputs rx s' out' err := by
  have hout := h.stdout
  unfold ReadOut at hout
  cases hstep with
  | started hworker =>
      rw [hworker] at hout
      have htext : SameText s (s.send .started) := send_text rfl
      refine ⟨out, ?_, h.stderr.of_same rfl rfl, h.forwards.of_same rfl htext.told rfl, ?_,
        fun hended => by cases hended⟩
      · show s.child.stdout = out.map some ++ s.child.stdout
        rw [hout]
        rfl
      · have hsame : SameFrames s (s.send .started) := send_frames rfl
        refine h.counts.of_same ⟨rfl, rfl, hsame.announced⟩ ?_ rfl rfl
        rw [hworker]
        rfl
  | line elapsedMs hworker => exact ⟨out, h.line elapsedMs hworker⟩
  | counted hworker => exact ⟨out, h.counted hworker⟩
  | announced hworker => exact ⟨_, h.announced hworker⟩
  | spared hworker =>
      rw [hworker] at hout
      refine ⟨out, hout, h.stderr.of_same rfl rfl, h.forwards, ?_, fun hended => by cases hended⟩
      refine h.counts.of_same ⟨rfl, rfl, rfl⟩ ?_ rfl rfl
      rw [hworker]
      rfl
  | drained hworker =>
      rw [hworker] at hout
      refine ⟨out, h.drained hout ?_ rfl (by simp)⟩
      rw [hworker]
      rfl
  | flushed hworker =>
      rw [hworker] at hout
      refine ⟨out, h.flushed ?_ ?_ rfl (by simp)⟩
      · unfold ReadOut
        dsimp only
        rw [(alike_flush s).child]
        exact hout
      · rw [hworker]
        rfl
  | closed hworker hrest =>
      rw [hworker] at hout
      refine ⟨out, h.drained ?_ ?_ rfl (by simp)⟩
      · show out = readable s.child.stdout
        rw [hout, readable_of_append out hrest]
      · rw [hworker]
        rfl
  | lastFlush hworker =>
      rw [hworker] at hout
      refine ⟨out, h.flushed ⟨?_, flush_stdoutBuf s⟩ ?_ rfl (by simp)⟩
      · show out = readable s.flush.child.stdout
        rw [(alike_flush s).child]
        exact hout
      · rw [hworker]
        rfl
  | reaped hworker hexit =>
      rw [hworker] at hout
      refine ⟨out, hout, h.stderr.of_same rfl rfl, h.forwards, ?_, fun hended => by cases hended⟩
      refine h.counts.of_same ⟨rfl, rfl, rfl⟩ ?_ rfl rfl
      rw [hworker]
      rfl
  | lost hworker hexit =>
      rw [hworker] at hout
      refine ⟨out, h.sent rfl hout ?_⟩
      rw [hworker]
      rfl
  | ended elapsedMs hworker =>
      rw [hworker] at hout
      refine ⟨out, h.sent (verdict_isTerminal _ _ _ elapsedMs) hout ?_⟩
      rw [hworker]
      rfl

theorem EndsWith.append {sent frames : List RenderEvent} (h : EndsWith sent)
    (hframes : ∀ x ∈ frames, x.frame?.isSome = true) : EndsWith (sent ++ frames) := by
  obtain ⟨before, e, after, rfl, hterminal, hafter⟩ := h
  refine ⟨before, e, after ++ frames, by simp, hterminal, ?_⟩
  intro x hx
  rcases List.mem_append.mp hx with hold | hnew
  · exact hafter x hold
  · exact hframes x hnew

theorem EndsWith.announce (h : EndsWith s.sent) (count : Option UInt32) :
    EndsWith (s.announce count).sent := by
  unfold State.announce
  split
  · exact h.append (List.forall_mem_singleton.mpr rfl)
  · exact h

theorem ReadOut.of_same (h : ReadOut s out) (hworker : s'.worker = s.worker)
    (hchild : s'.child = s.child) (hbuf : s'.stdoutBuf = s.stdoutBuf) : ReadOut s' out := by
  unfold ReadOut
  rw [hworker, hchild, hbuf]
  exact h

/-- The stderr thread counts a line before it announces its frame. -/
theorem Outputs.countedErr (h : Outputs rx s out err) {line : String}
    {rest : List (Option String)} (hstderr : s.stderr = .reading (some line :: rest)) :
    Outputs rx { s.countLine rx line with stderr := .announcing line (s.fetched rx line) rest }
      out err := by
  obtain ⟨hout, herr, hforwards, hcounts, hends⟩ := h
  unfold ReadErr at herr
  unfold State.Counts at hcounts
  rw [hstderr] at herr hcounts
  have halike := alike_countLine rx s line
  have htext := countLine_text rx s line
  -- only the first of the two accounts of stderr leaves lines to read
  have hread : s.child.stderr = err.map some ++ some line :: rest :=
    herr.resolve_right fun hdone => by cases hdone.2
  refine ⟨hout.of_same halike.worker htext.child htext.stdoutBuf, ?_,
    hforwards.of_same htext.stderrLines htext.told htext.stdoutBuf, ?_, ?_⟩
  · unfold ReadErr
    dsimp only
    rw [htext.child, hread, List.map_append, List.append_assoc]
    rfl
  · have hcount := (Counts.countLine rx line hcounts.swap).swap
    have hempty : (StderrReader.reading (some line :: rest)).counted = [] := rfl
    rw [hempty, List.append_nil, ← completions_err] at hcount
    unfold State.Counts
    dsimp only
    rw [htext.task, countLine_worker]
    show Counts _ _ (announcedFrames (s.countLine rx line)) _ _ _
    rw [announcedFrames_countLine]
    exact hcount
  · intro hended
    show EndsWith (s.countLine rx line).sent
    rw [countLine_sent]
    exact hends (halike.worker.symm.trans hended)

theorem Outputs.announcedErr (h : Outputs rx s out err) {line : String} {count : Option UInt32}
    {rest : List (Option String)} (hstderr : s.stderr = .announcing line count rest) :
    Outputs rx { s.announce count with stderr := .keeping line rest } out err := by
  obtain ⟨hout, herr, hforwards, hcounts, hends⟩ := h
  unfold ReadErr at herr
  unfold State.Counts at hcounts
  rw [hstderr] at herr hcounts
  have halike := alike_announce s count
  have htext := announce_text s count
  refine ⟨hout.of_same halike.worker htext.child htext.stdoutBuf, ?_,
    hforwards.of_same htext.stderrLines htext.told htext.stdoutBuf, ?_, ?_⟩
  · unfold ReadErr
    dsimp only
    rw [htext.child]
    exact herr
  · have hannounced := hcounts.swap.announce.swap
    unfold State.Counts
    dsimp only
    rw [htext.task, announce_counter, announce_worker]
    show Counts _ _ (announcedFrames (s.announce count)) _ _ _
    rw [announcedFrames_announce]
    exact hannounced
  · exact fun hended => (hends (halike.worker.symm.trans hended)).announce count

/-- The line waits for the worker. -/
theorem Outputs.keptErr (h : Outputs rx s out err) {line : String} {rest : List (Option String)}
    (hstderr : s.stderr = .keeping line rest) :
    Outputs rx { s with stderrLines := s.stderrLines ++ [line], stderr := .reading rest }
      out (err ++ [line]) := by
  obtain ⟨hout, herr, hforwards, hcounts, hends⟩ := h
  unfold ReadErr at herr
  unfold State.Counts at hcounts
  rw [hstderr] at herr hcounts
  refine ⟨hout, .inl herr, hforwards.keep rfl rfl rfl, ?_, hends⟩
  unfold State.Counts
  have hempty : (StderrReader.reading rest).counted = [] := rfl
  dsimp only
  rw [hempty, List.append_nil]
  exact hcounts

/-- A line that cannot be read ends the reading of stderr. -/
theorem Outputs.closedErr (h : Outputs rx s out err) {rest : List (Option String)}
    (hstderr : s.stderr = .reading (none :: rest)) :
    Outputs rx { s with stderr := .reading [] } out err := by
  obtain ⟨hout, herr, hforwards, hcounts, hends⟩ := h
  unfold ReadErr at herr
  unfold State.Counts at hcounts
  rw [hstderr] at herr hcounts
  refine ⟨hout, .inr ⟨?_, rfl⟩, hforwards, hcounts, hends⟩
  have hread : s.child.stderr = err.map some ++ none :: rest :=
    herr.resolve_right fun hdone => by cases hdone.2
  show err = readable s.child.stderr
  rw [hread, readable_of_append err rfl]

/-- What a step of the stderr thread adds to what was read of stderr. -/
theorem Outputs.readStderr (h : Outputs rx s out err) (hstep : s.readStderr rx = some s') :
    ∃ err', Outputs rx s' out err' := by
  unfold State.readStderr at hstep
  split at hstep
  · rename_i line rest hstderr
    cases hstep
    exact ⟨err, h.countedErr hstderr⟩
  · rename_i rest hstderr
    cases hstep
    exact ⟨err, h.closedErr hstderr⟩
  · cases hstep
  · rename_i line count rest hstderr
    cases hstep
    exact ⟨err, h.announcedErr hstderr⟩
  · rename_i line rest hstderr
    cases hstep
    exact ⟨err ++ [line], h.keptErr hstderr⟩

theorem Outputs.kill (h : Outputs rx s out err) (reason : String) :
    Outputs rx (s.kill reason) out err := by
  unfold State.kill
  split
  · exact h
  · exact ⟨h.stdout, h.stderr, h.forwards, h.counts, h.ends⟩

theorem outputs_keeps (rx : Regexes) :
    (machine rx).Keeps fun s => ∃ out err, Outputs rx s out err := by
  rintro s e s' ⟨out, err, h⟩ hstep
  have hmove : step rx s e = some s' := hstep
  cases e with
  | worker elapsedMs flushDue =>
      obtain ⟨out', h'⟩ := h.worked (worked hmove)
      exact ⟨out', err, h'⟩
  | stderr =>
      obtain ⟨err', h'⟩ := h.readStderr hmove
      exact ⟨out, err', h'⟩
  | abort =>
      cases hmove
      exact ⟨out, err, h.kill _⟩
  | timeout =>
      obtain ⟨t, -, ht⟩ := Option.map_eq_some_iff.mp hmove
      rw [← ht]
      exact ⟨out, err, h.kill _⟩
  | drop =>
      cases hmove
      exact ⟨out, err, h.kill _⟩

theorem prefix_readable (lines : List String) (rest : List (Option String)) :
    lines <+: readable (lines.map some ++ rest) := by
  induction lines with
  | nil => exact List.nil_prefix
  | cons line lines ih => exact List.cons_prefix_cons.mpr ⟨rfl, ih⟩

/-- The lines counted are the first that can be read. -/
theorem ReadErr.isPrefix (h : ReadErr s err) :
    err ++ s.stderr.counted <+: readable s.child.stderr := by
  unfold ReadErr at h
  cases hstderr : s.stderr with
  | reading rest =>
      rw [hstderr] at h
      have hempty : (StderrReader.reading rest).counted = [] := rfl
      rw [hempty, List.append_nil]
      rcases h with hread | ⟨rfl, -⟩
      · rw [hread]
        exact prefix_readable err rest
      · exact List.prefix_refl _
  | announcing line count rest =>
      rw [hstderr] at h
      rw [h]
      exact prefix_readable _ rest
  | keeping line rest =>
      rw [hstderr] at h
      rw [h]
      exact prefix_readable _ rest

/-! ## The whole render -/

/-- A chunk of two frames, whose renderer says when a frame is saved. -/
def twoFrames : Messages.TaskMessage where
  jobId := "shot"
  frameStart := 1
  frameEnd := 2
  command := { executable := "render", args := [] }
  progress := some { completionPattern := some { regex := "Saved" } }
  outputDetection := none
  timeoutSeconds := none

def savedLine : Regexes where
  compile _ := some fun line => if line = "Saved" then some fun _ => none else none
  parseFloat _ := none

/-- It says so once on each of its outputs. -/
def savesTwice : Child where
  stdout := [some "Saved"]
  stderr := [some "Saved", some "closing"]
  exit := .ok (some 0)

/-- The stderr thread counts its line first and announces its frame second; the
last line of stderr comes after the last flush. -/
def savesTwiceRun : List Event :=
  [.worker 0 false, .stderr, .worker 5 false, .worker 5 false, .worker 5 false, .stderr,
    .stderr, .worker 5 false, .worker 6 false, .worker 6 false, .stderr, .worker 7 false,
    .worker 7 false, .stderr, .stderr]

end MinRender.Executor
