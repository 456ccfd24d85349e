import MinRender.Monitor.DispatchManager
import MinRender.Monitor.RowSteps

/-!
# When a job is found finished

The verdict on a job is an aggregate over its chunks, and over none at all it
is `completed`. A submission, a resubmission or an edit with an inverted range
stores such a job: nothing on the leader checks the range.
-/

namespace MinRender.CompletionVerdicts
open DatabaseManager DispatchManager Table

/-! ## The property -/

/-- The chunks bear out the state the job gets. -/
structure Justified (db : Db) (jobId : String) (s : JobState) : Prop where
  completed : s = .completed → chunksOf db jobId ≠ [] ∧
    ∀ c ∈ chunksOf db jobId, c.state = .completed ∨ c.state = .stopped
  failed : s = .failed → (∃ c ∈ chunksOf db jobId, c.state = .failed) ∧
    ∀ c ∈ chunksOf db jobId, c.state ≠ .pending ∧ c.state ≠ .assigned

/-- A state is written only where the chunks bear it out. -/
def Justifies (c : DbCall) (db : Db) : Prop :=
  ∀ jobId s, c = .updateJobState jobId s → Justified db jobId s

/-- Every active job has a chunk. -/
def NoneEmpty (db : Db) : Prop :=
  ∀ j ∈ db.jobs, j.currentState = .active → chunksOf db j.jobId ≠ []

/-! ## The main thread among others -/

/-- The main thread, or any other. -/
abbrev Thread := Option Nat

/-- The main thread takes up a round of completion checks, the others whatever
they like. -/
@[reducible] def Task : Thread → Type
  | none => Unit
  | some _ => DbProg Unit

def code : (t : Thread) → Task t → DbProg Unit
  | none, () => checkJobCompletions
  | some _, p => p

abbrev World := Pool database Db Thread

def machine (T : JsonText) : Machine World (Sched Thread Task) :=
  Pool.machine (DbCall.exec T) code

/-- Any database, and idle threads. -/
def start (db : Db) : World := { shared := db, thread := fun _ => .done () }

/-- Every state the main thread writes is borne out where it is written. -/
def WritesJustified (w : World) (e : Sched Thread Task) (_ : World) : Prop :=
  w.Calls (fun t (c : DbCall) db => t = none → Justifies c db) e

/-- While the main thread is about to write a job's state, the call leaves the
job's chunks as they are. -/
def LeavesVerdict (T : JsonText) (main : DbProg Unit) (c : DbCall) (db : Db) : Prop :=
  main.First fun (next : DbCall) => ∀ jobId s, next = .updateJobState jobId s →
    chunksOf (c.after T db) jobId = chunksOf db jobId

/-- The main thread looks at jobs with chunks, and no other thread overtakes
its verdict. -/
def Careful (T : JsonText) (w : World) (e : Sched Thread Task) (_ : World) : Prop :=
  w.Calls (fun t (c : DbCall) db =>
    (t = none → ∀ jobId, c = .getJobCompletionState jobId → chunksOf db jobId ≠ []) ∧
    (t ≠ none → LeavesVerdict T (w.thread none) c db)) e

variable {T : JsonText} {db : Db} {jobId : String} {s : JobState}

/-! ## The verdict -/

theorem verdict_none (h : getJobCompletionState db jobId = none) : chunksOf db jobId ≠ [] := by
  intro hnil
  unfold getJobCompletionState at h
  rw [hnil] at h
  cases h

/-- **A verdict is right but for a job without chunks.** -/
theorem verdict_justified_iff (h : getJobCompletionState db jobId = some s) :
    Justified db jobId s ↔ chunksOf db jobId ≠ [] := by
  unfold getJobCompletionState at h
  dsimp only at h
  split at h
  · cases h
  · rename_i hopen
    have hclosed : ∀ c ∈ chunksOf db jobId,
        c.state = .completed ∨ c.state = .failed ∨ c.state = .stopped := by
      intro c hc
      by_contra hnot
      rw [not_or, not_or] at hnot
      exact hopen (hits_pos.mpr ⟨c, hc, decide_eq_true hnot⟩)
    split at h
    · rename_i hfailed
      obtain rfl := (Option.some.inj h).symm
      obtain ⟨c, hc, hcs⟩ := hits_pos.mp hfailed
      refine iff_of_true ⟨fun hs => (nomatch hs), fun _ => ⟨⟨c, hc, of_decide_eq_true hcs⟩, ?_⟩⟩
        (List.ne_nil_of_mem hc)
      intro d hd
      rcases hclosed d hd with hs | hs | hs
      · simp [hs]
      · simp [hs]
      · simp [hs]
    · rename_i hnone
      obtain rfl := (Option.some.inj h).symm
      constructor
      · exact fun hjust => (hjust.completed rfl).1
      · refine fun hne => ⟨fun _ => ⟨hne, fun c hc => ?_⟩, fun hs => (nomatch hs)⟩
        rcases hclosed c hc with hs | hs | hs
        · exact .inl hs
        · exact absurd (hits_pos.mpr ⟨c, hc, decide_eq_true hs⟩) hnone
        · exact .inr hs

theorem Justified.congr {db' : Db} (h : Justified db jobId s)
    (hchunks : chunksOf db' jobId = chunksOf db jobId) : Justified db' jobId s where
  completed := hchunks ▸ h.completed
  failed := hchunks ▸ h.failed

/-! ## A round by itself -/

/-- The verdict becomes the job's state. -/
def writeVerdict (jobId : String) : Option JobState → DbProg Unit
  | none => return ()
  | some s => do
      let _ ← query (.updateJobState jobId s)
      return ()

/-- What a round does about one job of the list. -/
def checkJob (js : JobSummary) : DbProg Unit :=
  if js.job.currentState ≠ .active then return ()
  else query (.getJobCompletionState js.job.jobId) >>= writeVerdict js.job.jobId

theorem checkJobCompletions_eq :
    checkJobCompletions = query .getAllJobs >>= fun jobs => jobs.forM checkJob := by
  unfold checkJobCompletions
  congr 1
  funext jobs
  congr 1
  funext js
  unfold checkJob
  split
  · rfl
  · congr 1
    funext verdict
    cases verdict <;> rfl

theorem justifies_of_ne {c : DbCall} (h : ∀ jobId s, c ≠ .updateJobState jobId s) :
    Justifies c db := fun jobId s hc => absurd hc (h jobId s)

theorem checkJob_meets (js : JobSummary) (db : Db) :
    (checkJob js).Meets (DbCall.exec T) Justifies db ↔
      (js.job.currentState = .active → chunksOf db js.job.jobId ≠ []) := by
  unfold checkJob
  by_cases hactive : js.job.currentState = .active
  · rw [if_neg (not_not.mpr hactive)]
    have hread : Justifies (.getJobCompletionState js.job.jobId) db :=
      justifies_of_ne fun _ _ h => nomatch h
    refine (and_iff_right hread).trans ?_
    show (writeVerdict js.job.jobId (getJobCompletionState db js.job.jobId)).Meets _ _ db ↔ _
    cases hverdict : getJobCompletionState db js.job.jobId with
    | none => exact iff_of_true trivial fun _ => verdict_none hverdict
    | some s =>
        have hwrite : Justifies (.updateJobState js.job.jobId s) db ↔
            Justified db js.job.jobId s := by
          constructor
          · exact fun h => h _ _ rfl
          · intro h i t heq
            cases heq
            exact h
        refine (and_iff_left trivial).trans (hwrite.trans ?_)
        rw [verdict_justified_iff hverdict]
        exact ⟨fun h _ => h, fun h => h hactive⟩
  · rw [if_pos hactive]
    exact iff_of_true trivial fun h => absurd h hactive

/-- A round only writes states. -/
theorem checkJob_chunks (js : JobSummary) (db : Db) :
    ((checkJob js).run (DbCall.exec T) db).2.chunks = db.chunks := by
  have hcalls : (checkJob js).Every fun c => ∀ db : Db, (c.after T db).chunks = db.chunks := by
    refine .ite trivial (.ask (fun _ => rfl) fun verdict => ?_)
    cases verdict with
    | none => exact trivial
    | some s => exact .ask (fun _ => rfl) fun _ => trivial
  exact hcalls.run_keeps (·.chunks) (fun c db hc => hc db) db

theorem forM_meets (jobs : List JobSummary) (db : Db) :
    (jobs.forM checkJob).Meets (DbCall.exec T) Justifies db ↔
      ∀ js ∈ jobs, js.job.currentState = .active → chunksOf db js.job.jobId ≠ [] := by
  induction jobs generalizing db with
  | nil => exact iff_of_true trivial fun js hjs => nomatch hjs
  | cons js jobs ih =>
      refine (Prog.meets_bind (checkJob js) (fun _ => jobs.forM checkJob) db).trans ?_
      rw [checkJob_meets, ih, List.forall_mem_cons]
      refine and_congr_right fun _ => forall₂_congr fun js' _ => ?_
      rw [chunksOf_congr (checkJob_chunks js db)]

/-- **Every state a round writes is borne out exactly where every active job
has a chunk.** -/
theorem round_justified_iff (db : Db) :
    checkJobCompletions.Meets (DbCall.exec T) Justifies db ↔ NoneEmpty db := by
  have hread : Justifies .getAllJobs db := justifies_of_ne fun _ _ h => nomatch h
  rw [checkJobCompletions_eq]
  refine (and_iff_right hread).trans ((forM_meets (getAllJobs db) db).trans ?_)
  unfold getAllJobs jobsInOrder
  rw [List.forall_mem_map]
  exact forall_congr' fun j => imp_congr (List.mem_insertionSort _) Iff.rfl

/-! ## A round among other threads -/

/-- The call whose reply is the state written next. -/
def Answers (jobId : String) (s : JobState) : (c : DbCall) → c.Reply → Prop
  | .getJobCompletionState j, r => j = jobId ∧ r = some s
  | _, _ => False

/-- A state is written right after the verdict. -/
def AfterVerdict (c : DbCall) (r : c.Reply) (next : DbCall) : Prop :=
  ∀ jobId s, next = .updateJobState jobId s → Answers jobId s c r

theorem afterVerdict_of_ne {next : DbCall} (h : ∀ jobId s, next ≠ .updateJobState jobId s)
    (c : DbCall) (r : c.Reply) : AfterVerdict c r next := fun jobId s hn => absurd hn (h jobId s)

theorem checkJob_first (js : JobSummary) :
    (checkJob js).First fun next => ∀ c r, AfterVerdict c r next := by
  unfold checkJob
  split
  · trivial
  · exact afterVerdict_of_ne fun _ _ h => nomatch h

theorem checkJob_adjacent (js : JobSummary) : (checkJob js).Adjacent AfterVerdict := by
  unfold checkJob
  split
  · trivial
  · intro verdict
    cases verdict with
    | none => exact ⟨trivial, trivial⟩
    | some s =>
        refine ⟨?_, fun _ => ⟨trivial, trivial⟩⟩
        intro jobId t heq
        cases heq
        exact ⟨rfl, rfl⟩

theorem round_adjacent : checkJobCompletions.Adjacent AfterVerdict := by
  rw [checkJobCompletions_eq]
  intro jobs
  have hfirst := Prog.First.forM checkJob_first jobs
  exact ⟨hfirst.mono fun next h => h .getAllJobs jobs,
    Prog.Adjacent.forM checkJob_adjacent checkJob_first jobs⟩

/-- The main thread writes only verdicts it just read, and what it is about to
write is borne out. -/
structure Inv (w : World) : Prop where
  adjacent : (w.thread none).Adjacent AfterVerdict
  next : (w.thread none).First fun c => Justifies c w.shared

theorem Inv.of_thread {f : Thread → DbProg Unit} {p : DbProg Unit} (hp : f none = p)
    (hadjacent : p.Adjacent AfterVerdict) (hnext : p.First fun c => Justifies c db) :
    Inv { shared := db, thread := f } := by
  subst hp
  exact ⟨hadjacent, hnext⟩

/-- The verdict on a job with chunks is borne out. -/
theorem justifies_next {c next : DbCall} (h : AfterVerdict c (c.exec T db).1 next)
    (hread : ∀ jobId, c = .getJobCompletionState jobId → chunksOf db jobId ≠ []) :
    Justifies next (c.exec T db).2 := by
  intro jobId s hnext
  have hanswer := h jobId s hnext
  cases c with
  | getJobCompletionState i =>
      obtain ⟨rfl, hverdict⟩ := hanswer
      exact (verdict_justified_iff hverdict).mpr (hread i rfl)
  | _ => exact hanswer.elim

theorem inv_step {w w' : World} {e : Sched Thread Task} (hw : Inv w)
    (hstep : (machine T).step w e = some w') (hcareful : Careful T w e w') :
    WritesJustified w e w' ∧ Inv w' := by
  obtain ⟨i, t, rfl, -, rfl⟩ | ⟨i, c, k, rfl, hi, rfl⟩ := Pool.step_cases hstep
  · refine ⟨trivial, ?_⟩
    cases i with
    | none =>
        refine .of_thread (Function.update_self ..) round_adjacent ?_
        exact justifies_of_ne fun _ _ h => nomatch h
    | some n =>
        exact .of_thread (Function.update_of_ne (Option.some_ne_none n).symm ..)
          hw.adjacent hw.next
  · unfold Careful Pool.Calls at hcareful
    unfold WritesJustified Pool.Calls
    dsimp only at hcareful ⊢
    rw [hi] at hcareful ⊢
    obtain ⟨hread, hleave⟩ := hcareful
    cases i with
    | none =>
        have hnext := hw.next
        have hadjacent := hw.adjacent
        rw [hi] at hnext hadjacent
        refine ⟨fun _ => hnext, .of_thread (Function.update_self ..) (hadjacent _).2 ?_⟩
        exact (hadjacent _).1.mono fun next h => justifies_next h (hread rfl)
    | some n =>
        refine ⟨fun h => (nomatch h), .of_thread
          (Function.update_of_ne (Option.some_ne_none n).symm ..) hw.adjacent ?_⟩
        have hnext := hw.next
        have hsame := hleave (by simp)
        unfold LeavesVerdict at hsame
        cases hp : w.thread none with
        | done a => trivial
        | call c' k' =>
            rw [hp] at hnext hsame
            intro jobId s heq
            exact (hnext jobId s heq).congr (hsame jobId s heq)

/-- **A job is found finished only on finished work exactly where no active job
is without chunks**: a round by itself writes a state that the chunks do not
bear out exactly where there is such a job; and among other threads, from any
database, every state written is borne out in every run in which the jobs
looked at have chunks and no verdict is overtaken. -/
theorem verdicts_justified (T : JsonText) :
    (∀ db, checkJobCompletions.Meets (DbCall.exec T) Justifies db ↔ NoneEmpty db) ∧
    ∀ db es, (machine T).Along (Careful T) (start db) es →
      (machine T).Along WritesJustified (start db) es := by
  refine ⟨round_justified_iff, fun db es => ?_⟩
  refine Machine.Along.mono (I := Inv) ?_ ⟨trivial, trivial⟩
  intro w e w' hw hstep hcareful
  exact inv_step hw hstep hcareful

/-- A job of the frames from 10 to 1. -/
def invertedShot : JobManifest := { jobId := "shot", frameStart := 10, frameEnd := 1 }

/-- What its submission stores. -/
def invertedDb : Db := ((submitJob shotText invertedShot 50).run (DbCall.exec shotText) .empty).2

/-- **A job without chunks is found completed**: its range is inverted. -/
theorem inverted_range_completes :
    ¬ ∀ T db, checkJobCompletions.Meets (DbCall.exec T) Justifies db := by
  intro h
  obtain ⟨-, -, hwrite, -⟩ := h shotText invertedDb
  have hjustified := (hwrite "shot" .completed rfl).completed rfl
  exact hjustified.1 rfl

end MinRender.CompletionVerdicts
