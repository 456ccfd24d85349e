import MinRender.Monitor.DispatchManager
import MinRender.Monitor.JobControls
import MinRender.Monitor.RowSteps

/-!
# A dispatch step against job edits

The main thread finds a chunk with its job's manifest, reads the job's epoch,
and assigns the chunk: three database calls, between which HTTP threads edit,
pause or cancel the job. The main thread's position is an explicit phase that
holds what it read, and keeps which calls came in between.
-/

namespace MinRender.DispatchRace
open DatabaseManager DispatchManager MonitorApp

/-- What an HTTP thread may run against the dispatch step. -/
inductive Rival
  | edit (jobId manifestJson mode : String) (priority : Int)
  | pause (jobId : String)
  | cancel (jobId : String)
deriving DecidableEq, Repr

def Rival.code (T : JsonText) : Rival → DbProg Unit
  | .edit jobId manifestJson mode priority => do
      let _ ← applyEditLocally T true jobId manifestJson mode priority
      return ()
  | .pause jobId => pauseJob jobId
  | .cancel jobId => cancelJob jobId

/-- Where the dispatch step is, and what it holds. `since` lists the calls of
other threads since the chunk was found, `sinceEpoch` those since the epoch
was read. -/
inductive Phase
  | idle
  | seeking (peer : PeerInfo)
  | found (peer : PeerInfo) (chunk : ChunkRow) (manifestJson : String)
      (since : List DbCall)
  | stamped (peer : PeerInfo) (chunk : ChunkRow) (manifestJson : String)
      (editEpoch : Int) (since sinceEpoch : List DbCall)
  | assigned (a : Assignment)

structure World where
  db : Db
  main : Phase := .idle
  http : Nat → DbProg Unit := fun _ => .done ()

inductive Event
  /-- The dispatcher turns to a peer. -/
  | offer (peer : PeerInfo)
  /-- The main thread's next call. -/
  | main (nowMs : Int)
  /-- An idle HTTP thread takes up a request. -/
  | request (i : Nat) (r : Rival)
  /-- An HTTP thread's next call. -/
  | http (i : Nat)

/-- A call of another thread, remembered by the phase. -/
def Phase.note (c : DbCall) : Phase → Phase
  | .found peer chunk manifestJson since =>
      .found peer chunk manifestJson (since ++ [c])
  | .stamped peer chunk manifestJson editEpoch since sinceEpoch =>
      .stamped peer chunk manifestJson editEpoch (since ++ [c]) (sinceEpoch ++ [c])
  | phase => phase

/-- The next call of the dispatch step. -/
def mainStep (T : JsonText) (nowMs : Int) (db : Db) : Phase → Option (Db × Phase)
  | .idle => none
  | .seeking peer =>
      match findNextPendingChunkForNode T db peer.tags peer.nodeId with
      | none => some (db, .idle)
      | some (chunk, manifestJson) => some (db, .found peer chunk manifestJson [])
  | .found peer chunk manifestJson since =>
      some (db, .stamped peer chunk manifestJson (getJobEditEpoch db chunk.jobId)
        since [])
  | .stamped peer chunk manifestJson editEpoch _ _ =>
      let r := assignChunk db chunk.id peer.nodeId nowMs editEpoch
      some (r.2, if r.1 then .assigned { peer, manifestJson, chunk, editEpoch }
        else .idle)
  | .assigned a => some (((handOver T nowMs {} a).run (DbCall.exec T) db).2, .idle)

def step (T : JsonText) (w : World) : Event → Option World
  | .offer peer =>
      match w.main with
      | .idle => some { w with main := .seeking peer }
      | _ => none
  | .main nowMs =>
      (mainStep T nowMs w.db w.main).map fun (db, main) => { w with db, main }
  | .request i r =>
      match w.http i with
      | .done () => some { w with http := Function.update w.http i (r.code T) }
      | .call _ _ => none
  | .http i =>
      match w.http i with
      | .done () => none
      | .call c k => some {
          db := c.after T w.db
          main := w.main.note c
          http := Function.update w.http i (k (c.exec T w.db).1) }

def machine (T : JsonText) : Machine World Event := ⟨step T⟩

/-- An idle world over a database. -/
def World.idle (db : Db) : World := { db }

/-! ## The phases are the program -/

/-! ## What the interleaved calls leave of the job -/

/-- The state a call leaves a job in. -/
def stateAfter (jobId : String) (s : JobState) : DbCall → JobState
  | .updateJobState i t => if i = jobId then t else s
  | _ => s

/-- The manifest a call leaves a job with. -/
def manifestAfter (jobId : String) (m : String) : DbCall → String
  | .updateJobManifest i m' => if i = jobId then m' else m
  | _ => m

/-- Whether a call bumps the job's epoch. -/
def bumps (jobId : String) (c : DbCall) : Bool := c = .bumpEditEpoch jobId

/-- The calls an edit, a pause or a cancellation makes. -/
def RivalCall : DbCall → Prop
  | .getJob _ | .updateJobPriority .. | .updateJobManifest .. | .getAssignedNodes _
  | .bumpEditEpoch _ | .resetAssignedChunks _ | .rebuildChunks ..
  | .updateJobState .. => True
  | _ => False

variable {T : JsonText}

/-- The job row after a rival's call. -/
theorem job_afterRival {c : DbCall} (hc : RivalCall c) {db : Db} {jobId : String}
    {j : JobRecord} (hj : db.job? jobId = some j) :
    ∃ j', (c.after T db).job? jobId = some j' ∧
      j'.currentState = stateAfter jobId j.currentState c ∧
      j'.manifestJson = manifestAfter jobId j.manifestJson c ∧
      j'.editEpoch = j.editEpoch + if bumps jobId c then 1 else 0 := by
  have hid := (Db.job?_eq_some.mp hj).2
  cases c with
  | getJob | getAssignedNodes | resetAssignedChunks =>
      exact ⟨j, hj, rfl, rfl, by simp [bumps]⟩
  | rebuildChunks i ranges =>
      refine ⟨j, ?_, rfl, rfl, by simp [bumps]⟩
      exact (job?_congr (insertChunks_spec ..).1 jobId).trans hj
  | updateJobPriority i p =>
      simp only [DbCall.after, DbCall.exec, updateJobPriority, Db.job?_updateJobs, hj]
      refine ⟨_, rfl, ?_⟩
      by_cases hi : jobId = i
      · simp [hid, hi, stateAfter, manifestAfter, bumps]
      · simp [hid, hi, stateAfter, manifestAfter, bumps]
  | updateJobManifest i m =>
      simp only [DbCall.after, DbCall.exec, updateJobManifest, Db.job?_updateJobs, hj]
      refine ⟨_, rfl, ?_⟩
      by_cases hi : jobId = i
      · simp [hid, hi, stateAfter, manifestAfter, bumps]
      · simp [hid, hi, Ne.symm hi, stateAfter, manifestAfter, bumps]
  | bumpEditEpoch i =>
      simp only [DbCall.after, DbCall.exec, bumpEditEpoch, Db.job?_updateJobs, hj]
      refine ⟨_, rfl, ?_⟩
      by_cases hi : jobId = i
      · simp [hid, hi, stateAfter, manifestAfter, bumps]
      · simp [hid, hi, Ne.symm hi, stateAfter, manifestAfter, bumps]
  | updateJobState i s =>
      simp only [DbCall.after, DbCall.exec, updateJobState, Db.job?_updateJobs, hj]
      refine ⟨_, rfl, ?_⟩
      by_cases hi : jobId = i
      · simp [hid, hi, stateAfter, manifestAfter, bumps]
      · simp [hid, hi, Ne.symm hi, stateAfter, manifestAfter, bumps]
  | _ => exact hc.elim

/-- Every call of a rival is a `RivalCall`. -/
theorem rival_calls (r : Rival) : (r.code T).Every RivalCall := by
  cases r with
  | pause jobId => exact Prog.Every.ask trivial fun _ => trivial
  | cancel jobId => exact Prog.Every.ask trivial fun _ => trivial
  | edit jobId manifestJson mode priority =>
      refine Prog.Every.bind ?_ fun _ => trivial
      simp only [applyEditLocally, Bool.not_true, Bool.false_eq_true, if_false]
      split
      · exact trivial
      · refine Prog.Every.ask trivial fun job => ?_
        split
        · exact trivial
        · refine Prog.Every.ask trivial fun _ => Prog.Every.ask trivial fun _ => ?_
          split
          · refine Prog.Every.ask trivial fun _ => Prog.Every.ask trivial fun _ => ?_
            refine Prog.Every.bind ?_ fun reset => ?_
            · unfold resetForEdit
              split
              · exact Prog.Every.ask trivial fun _ => trivial
              · split
                · exact Prog.Every.ask trivial fun _ => trivial
                · exact trivial
            · split
              · exact trivial
              · exact Prog.Every.ask trivial fun _ => trivial
          · exact trivial

/-! ## The two properties -/

/-- When `assignChunk` succeeds, the chunk's job is active, the manifest held
is the stored one, and the epoch held is the job's. -/
def SendsOneGeneration (w : World) (e : Event) (_ : World) : Prop :=
  ∀ nowMs peer chunk manifestJson editEpoch since sinceEpoch, e = .main nowMs →
    w.main = .stamped peer chunk manifestJson editEpoch since sinceEpoch →
    (assignChunk w.db chunk.id peer.nodeId nowMs editEpoch).1 = true →
    ∃ j, w.db.job? chunk.jobId = some j ∧ j.currentState = .active ∧
      j.manifestJson = manifestJson ∧ j.editEpoch = editEpoch

/-- When `assignChunk` succeeds, the calls that came in since the chunk was
found left its job active, if they set its state, and left it the manifest
found, if they stored one; and none since the epoch was read bumped it. -/
def LeftAlone (w : World) (e : Event) (_ : World) : Prop :=
  ∀ nowMs peer chunk manifestJson editEpoch since sinceEpoch, e = .main nowMs →
    w.main = .stamped peer chunk manifestJson editEpoch since sinceEpoch →
    (assignChunk w.db chunk.id peer.nodeId nowMs editEpoch).1 = true →
    since.foldl (stateAfter chunk.jobId) .active = .active ∧
      since.foldl (manifestAfter chunk.jobId) manifestJson = manifestJson ∧
      ∀ c ∈ sinceEpoch, bumps chunk.jobId c = false

/-! ## The invariant -/

/-- The job a phase works on is what was read of it plus what the interleaved
calls did. -/
def Held (db : Db) : Phase → Prop
  | .found _ chunk manifestJson since =>
      ∃ j, db.job? chunk.jobId = some j ∧
        j.currentState = since.foldl (stateAfter chunk.jobId) .active ∧
        j.manifestJson = since.foldl (manifestAfter chunk.jobId) manifestJson
  | .stamped _ chunk manifestJson editEpoch since sinceEpoch =>
      ∃ j, db.job? chunk.jobId = some j ∧
        j.currentState = since.foldl (stateAfter chunk.jobId) .active ∧
        j.manifestJson = since.foldl (manifestAfter chunk.jobId) manifestJson ∧
        j.editEpoch = editEpoch + sinceEpoch.countP (bumps chunk.jobId)
  | _ => True

structure Inv (w : World) : Prop where
  held : Held w.db w.main
  rivals : ∀ i, (w.http i).Every RivalCall

/-- A found chunk's job is active and has the manifest returned with it. -/
theorem find_spec {db : Db} {tags : List String} {node : String} {chunk : ChunkRow}
    {manifestJson : String}
    (h : findNextPendingChunkForNode T db tags node = some (chunk, manifestJson)) :
    ∃ j, db.job? chunk.jobId = some j ∧ j.currentState = .active ∧
      j.manifestJson = manifestJson := by
  obtain ⟨j, hj, hfound⟩ := List.exists_of_findSome?_eq_some h
  obtain ⟨hmem, hactive⟩ := List.mem_filter.mp hj
  have hjobs : j ∈ db.jobs := (List.mem_insertionSort _).mp hmem
  split at hfound
  case isFalse => cases hfound
  case isTrue =>
    obtain ⟨c, hc, heq⟩ := Option.map_eq_some_iff.mp hfound
    cases heq
    have hrow : c ∈ pendingOf db j.jobId :=
      (List.mem_insertionSort _).mp (List.mem_of_find?_eq_some hc)
    have hjob : c.jobId = j.jobId := by
      simpa using (List.mem_filter.mp (List.mem_filter.mp hrow).1).2
    exact ⟨j, Db.job?_eq_some.mpr ⟨hjobs, hjob.symm⟩, (of_decide_eq_true hactive).1, rfl⟩

/-- A rival's call keeps the invariant, remembered by the phase. -/
theorem held_note {db : Db} {c : DbCall} (hc : RivalCall c) {phase : Phase}
    (h : Held db phase) : Held (c.after T db) (phase.note c) := by
  cases phase with
  | found peer chunk m since =>
      obtain ⟨j, hj, hs, hm⟩ := h
      obtain ⟨j', hj', hs', hm', -⟩ := job_afterRival (T := T) hc hj
      refine ⟨j', hj', ?_, ?_⟩
      · rw [hs', hs, List.foldl_append]
        rfl
      · rw [hm', hm, List.foldl_append]
        rfl
  | stamped peer chunk m epoch since sinceEpoch =>
      obtain ⟨j, hj, hs, hm, he⟩ := h
      obtain ⟨j', hj', hs', hm', he'⟩ := job_afterRival (T := T) hc hj
      refine ⟨j', hj', ?_, ?_, ?_⟩
      · rw [hs', hs, List.foldl_append]
        rfl
      · rw [hm', hm, List.foldl_append]
        rfl
      · rw [he', he, List.countP_append, List.countP_singleton]
        split <;> push_cast <;> omega
  | idle | seeking | assigned => exact trivial

theorem inv_keeps (T : JsonText) : (machine T).Keeps Inv := by
  rintro w e w' ⟨hheld, hrivals⟩ hstep
  cases e with
  | offer peer =>
      simp only [machine, step] at hstep
      split at hstep <;> cases hstep
      exact ⟨trivial, hrivals⟩
  | main nowMs =>
      obtain ⟨⟨db', phase'⟩, hmain, rfl⟩ := Option.map_eq_some_iff.mp hstep
      refine ⟨?_, hrivals⟩
      show Held db' phase'
      cases hphase : w.main with
      | idle => simp [hphase, mainStep] at hmain
      | seeking peer =>
          simp only [hphase, mainStep] at hmain
          split at hmain
          · cases hmain
            exact trivial
          · rename_i chunk m hfind
            cases hmain
            exact find_spec hfind
      -- the epoch read is the stored one: nothing has come after it yet
      | found peer chunk m since =>
          rw [hphase] at hheld hmain
          cases hmain
          obtain ⟨j, hj, hs, hm⟩ := hheld
          exact ⟨j, hj, hs, hm, by simp [getJobEditEpoch, hj]⟩
      | stamped peer chunk m epoch since sinceEpoch =>
          simp only [hphase, mainStep, Option.some.injEq, Prod.mk.injEq] at hmain
          obtain ⟨-, rfl⟩ := hmain
          split <;> exact trivial
      | assigned a =>
          simp only [hphase, mainStep, Option.some.injEq, Prod.mk.injEq] at hmain
          obtain ⟨-, rfl⟩ := hmain
          exact trivial
  | request i r =>
      simp only [machine, step] at hstep
      split at hstep
      · cases hstep
        refine ⟨hheld, fun k => ?_⟩
        by_cases hk : k = i
        · subst hk
          simpa using rival_calls r
        · simpa [hk] using hrivals k
      · cases hstep
  | http i =>
      simp only [machine, step] at hstep
      split at hstep
      · cases hstep
      · rename_i c k hi
        cases hstep
        have hcall : (Prog.call (F := database) c k).Every RivalCall := hi ▸ hrivals i
        -- a rival's call is noted in the phase it falls into
        refine ⟨held_note hcall.1 hheld, fun n => ?_⟩
        by_cases hn : n = i
        · subst hn
          simpa using hcall.2 _
        · simpa [hn] using hrivals n

/-- **A dispatch mixes no two generations of a job exactly when no rival's
call came in between that still shows.** From any database and for every order
of the dispatch step's three calls with those of any number of edits, pauses
and cancellations. -/
theorem dispatch_iff_left_alone (T : JsonText) (db : Db) (es : List Event) :
    (machine T).Along LeftAlone (.idle db) es ↔
      (machine T).Along SendsOneGeneration (.idle db) es := by
  refine Machine.Along.congr (inv_keeps T) (fun w e w' hw _ => ?_)
    ⟨trivial, fun _ => trivial⟩
  unfold LeftAlone SendsOneGeneration
  refine forall_congr' fun nowMs => forall_congr' fun peer => ?_
  refine forall_congr' fun chunk => forall_congr' fun m => ?_
  refine forall_congr' fun epoch => forall_congr' fun since => ?_
  refine forall_congr' fun sinceEpoch => forall_congr' fun he => ?_
  refine forall_congr' fun hphase => forall_congr' fun _ => ?_
  have hheld := hw.held
  rw [hphase] at hheld
  obtain ⟨j, hj, hs, hm, hepoch⟩ := hheld
  rw [← hs, ← hm]
  have hcount : (∀ c ∈ sinceEpoch, bumps chunk.jobId c = false) ↔
      j.editEpoch = epoch := by
    rw [hepoch]
    have := List.countP_eq_zero (p := bumps chunk.jobId) (l := sinceEpoch)
    simp only [Bool.not_eq_true] at this
    rw [← this]
    omega
  rw [hcount]
  constructor
  · rintro ⟨hactive, hmanifest, hcur⟩
    exact ⟨j, hj, hactive, hmanifest, hcur⟩
  · rintro ⟨j', hj', hactive, hmanifest, hcur⟩
    rw [hj] at hj'
    cases hj'
    exact ⟨hactive, hmanifest, hcur⟩

/-! ## An edit between the find and the epoch -/

/-- A database with one job of one pending chunk. -/
def oneChunk : Db :=
  (DbCall.insertChunks "shot" [⟨1, 10⟩]).after shotText
    ((DbCall.insertJob { jobId := "shot", manifestJson := shotManifest }).after
      shotText .empty)

/-- The main thread finds the chunk; a restart edit with another manifest runs
through; the main thread reads the new epoch and assigns. -/
def editInBetween : List Event :=
  [.offer { nodeId := "w1" }, .main 1000,
   .request 0 (.edit "shot" longerManifest "restart" 50),
   .http 0, .http 0, .http 0, .http 0, .http 0, .http 0, .http 0, .main 1000]

/-- The old manifest goes out under the new epoch. -/
theorem old_manifest_new_epoch :
    ¬ ∀ db es, (machine shotText).Along SendsOneGeneration (.idle db) es := by
  intro h
  refine Machine.Along.refute editInBetween (.main 1000)
    (fun t _ => match t.main with
      | .stamped peer chunk m epoch _ _ =>
          (assignChunk t.db chunk.id peer.nodeId 1000 epoch).1 &&
            (t.db.job? chunk.jobId).all fun j => j.manifestJson ≠ m
      | _ => false) ?_ ?_ (h oneChunk _)
  · intro t u hbad hgood
    split at hbad
    · rename_i peer chunk m epoch since sinceEpoch hmain
      obtain ⟨hok, hne⟩ := Bool.and_eq_true_iff.mp hbad
      obtain ⟨j, hj, -, hm, -⟩ := hgood 1000 peer chunk m epoch since sinceEpoch rfl
        hmain hok
      rw [hj] at hne
      exact of_decide_eq_true hne hm
    · cases hbad
  · decide

end MinRender.DispatchRace
