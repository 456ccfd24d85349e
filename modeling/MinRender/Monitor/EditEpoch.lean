import MinRender.Monitor.JobControls
import MinRender.Monitor.TableInvariants

/-!
# The edit-epoch fence

A restart or startover edit bumps its job's epoch; the dispatcher stamps the
epoch on each chunk it assigns, and a report passes only if it carries the
stamp of the row it reports on. The state machine here runs every operation on
the chunk table against that fence, keeping each dispatched render with
whether its job was edited since.
-/

namespace MinRender.EditEpoch
open DatabaseManager Table MonitorApp

/-- A render as its worker reports it, and whether a restart or startover edit
of its job came after its dispatch. -/
structure Render where
  jobId : String
  frameStart : Int
  frameEnd : Int
  nodeId : String
  editEpoch : Int
  edited : Bool := false
deriving DecidableEq, Repr

structure Farm where
  db : Db
  renders : List Render := []

/-- The calls other than the dispatcher's assignment, the parts of an edit,
and the deletion of a job. -/
def outsideEdits : DbCall → Bool
  | .assignChunk .. | .bumpEditEpoch .. | .rebuildChunks .. | .deleteJob .. => false
  | _ => true

inductive Event
  /-- One operation; chunks are inserted once, for a job that has none. -/
  | call (c : DbCall)
  /-- `assignChunk` under the job's current epoch, and its dispatch. -/
  | assign (chunkId : Int) (nodeId : String) (nowMs : Int)
  /-- A job edit, as one step. -/
  | edit (jobId manifestJson mode : String) (priority : Int)

instance (db : Db) (c : DbCall) : Decidable (c.InsertsOnce db) := by
  unfold DbCall.InsertsOnce
  split <;> infer_instance

/-- The render an assignment dispatches. -/
def Render.ofRow (c : ChunkRecord) (nodeId : String) (editEpoch : Int) : Render :=
  { jobId := c.jobId, frameStart := c.frameStart, frameEnd := c.frameEnd,
    nodeId, editEpoch }

/-- What a report of the render carries. -/
def Render.unmarked (r : Render) : Render := { r with edited := false }

/-- The render after an edit of a job. -/
def Render.afterEdit (jobId : String) (r : Render) : Render :=
  if r.jobId = jobId then { r with edited := true } else r

def step (T : JsonText) (s : Farm) : Event → Option Farm
  | .call c =>
      if outsideEdits c = true ∧ c.InsertsOnce s.db then
        some { s with db := c.after T s.db }
      else none
  | .assign chunkId nodeId nowMs =>
      match s.db.chunk? chunkId with
      | none => none
      | some c =>
          let epoch := getJobEditEpoch s.db c.jobId
          let call := DbCall.assignChunk chunkId nodeId nowMs epoch
          let assigned : Bool := (call.exec T s.db).1
          some {
            db := call.after T s.db
            renders := if assigned then .ofRow c nodeId epoch :: s.renders
              else s.renders }
  | .edit jobId manifestJson mode priority =>
      match (applyEditLocally T true jobId manifestJson mode priority).run
          (DbCall.exec T) s.db with
      | (none, _) => none
      | (some o, db) => some {
          db
          renders := if o.reset then s.renders.map (.afterEdit jobId)
            else s.renders }

def machine (T : JsonText) : Machine Farm Event := ⟨step T⟩

def start : Farm := { db := Db.empty }

/-! ## The fence -/

/-- The chunk, if assigned, carries its job's current epoch. -/
def Current (db : Db) (c : ChunkRecord) : Prop :=
  c.state = .assigned → c.editEpoch = getJobEditEpoch db c.jobId

def Fenced (db : Db) : Prop := ∀ c ∈ db.chunks, Current db c

/-- The report of a render: a completion or a failure that names a node and
carries an epoch. -/
def Reports (e : Event) (r : Render) : Prop :=
  r.nodeId ≠ "" ∧ 0 ≤ r.editEpoch ∧
    ((∃ nowMs, e = .call (.completeChunk r.jobId r.frameStart r.frameEnd nowMs
        r.nodeId r.editEpoch)) ∨
      ∃ maxRetries, e = .call (.failChunk r.jobId r.frameStart r.frameEnd maxRetries
        r.nodeId r.editEpoch))

/-- A report changes only chunks assigned to its node, and none if a render it
may come from was dispatched before an edit. -/
def ReportsFenced (s : Farm) (e : Event) (s' : Farm) : Prop :=
  ∀ r, Reports e r → ∀ c c', Changed s.db.chunks s'.db.chunks c c' →
    c.state = .assigned ∧ c.assignedTo = some r.nodeId ∧
      ∀ d ∈ s.renders, d.unmarked = r.unmarked → d.edited = false

/-- The step leaves every assigned chunk current and lets no stale report
through. -/
def KeepsFence (s : Farm) (e : Event) (s' : Farm) : Prop :=
  Fenced s'.db ∧ ReportsFenced s e s'

/-- A chunk is reassigned to a named node only while its stamp, from its last
dispatch, is still its job's epoch. -/
def StampCurrent (s : Farm) (e : Event) (_ : Farm) : Prop :=
  ∀ id node nowMs, e = .call (.reassignChunk id node nowMs) → node ≠ "" →
    ∀ c ∈ s.db.chunks, reassignable id c = true →
      c.editEpoch = getJobEditEpoch s.db c.jobId

/-! ## What each kind of step does to the fence -/

variable {T : JsonText} {db : Db} {call : DbCall}

/-- A call that moves no epoch keeps the fence if what it assigns is stamped
with the job's epoch. -/
theorem fenced_after (h : Fenced db)
    (hepoch : ∀ jobId, getJobEditEpoch (call.after T db) jobId =
      getJobEditEpoch db jobId)
    (hassign : ∀ id node nowMs epoch, call = .assignChunk id node nowMs epoch →
      ∀ c ∈ db.chunks, c.id = id → epoch = getJobEditEpoch db c.jobId)
    (hreassign : ∀ id node nowMs, call = .reassignChunk id node nowMs → node ≠ "" →
      ∀ c ∈ db.chunks, reassignable id c = true →
        c.editEpoch = getJobEditEpoch db c.jobId) :
    Fenced (call.after T db) := by
  intro c' hc' hs
  obtain ⟨c, hc, -, hstep, hby⟩ := assigned_after hc' hs
  rw [hepoch, hstep.jobId_eq]
  cases hby with
  | before hcs hto hep => rw [hep, h c hc hcs]
  | dispatch hid hp => exact hassign _ _ _ _ rfl c hc hid
  | reassign hn hr => exact hreassign _ _ _ rfl hn c hc hr

/-- After a bump every assigned chunk of another job is current. -/
theorem current_bump (jobId : String) (h : Fenced db) :
    ∀ c ∈ ((DbCall.bumpEditEpoch jobId).after T db).chunks, c.jobId ≠ jobId →
      Current ((DbCall.bumpEditEpoch jobId).after T db) c := by
  intro c hc hne hs
  rw [getJobEditEpoch_bump, if_neg fun hj => hne hj.1]
  exact h c hc hs

theorem epoch_reset {jobId : String} (h : IsReset jobId call)
    (other : String) :
    getJobEditEpoch (call.after T db) other = getJobEditEpoch db other := by
  rcases h with rfl | ⟨ranges, -, rfl⟩ <;>
    exact getJobEditEpoch_after (by simp) (by simp)

/-- A reset leaves no assigned chunk of the job. -/
theorem reset_clears {jobId : String} (h : IsReset jobId call) :
    ∀ c ∈ (call.after T db).chunks, c.state = .assigned → c.jobId ≠ jobId := by
  intro c hc hs
  rcases h with rfl | ⟨ranges, -, rfl⟩
  · obtain ⟨d, hd, rfl⟩ := mem_update.mp hc
    split at hs
    · cases hs
    · rename_i hnot
      rw [if_neg hnot]
      intro hj
      exact hnot (decide_eq_true ⟨hj, hs⟩)
  · obtain ⟨d, hd, hk, hstep, -⟩ := assigned_after hc hs
    rw [hstep.jobId_eq]
    simpa [DbCall.keepsRow] using hk

theorem fenced_reset {jobId : String} (hreset : IsReset jobId call)
    (h : ∀ c ∈ db.chunks, c.jobId ≠ jobId → Current db c) :
    Fenced (call.after T db) := by
  intro c' hc' hs
  have hne := reset_clears hreset c' hc' hs
  obtain ⟨c, hc, -, hstep, hby⟩ := assigned_after hc' hs
  rw [epoch_reset hreset, hstep.jobId_eq]
  rw [hstep.jobId_eq] at hne
  cases hby with
  | before hcs hto hep => rw [hep, h c hc hne hcs]
  | dispatch | reassign => rcases hreset with hr | ⟨_, -, hr⟩ <;> cases hr

/-- Calls that touch neither epochs nor assignments. -/
theorem fenced_quiet (h : Fenced db) (hq : ∃ jobId, (∃ s, call = .updateJobState jobId s) ∨
    (∃ p, call = .updateJobPriority jobId p) ∨ ∃ m, call = .updateJobManifest jobId m) :
    Fenced (call.after T db) := by
  obtain ⟨jobId, ⟨s, rfl⟩ | ⟨p, rfl⟩ | ⟨m, rfl⟩⟩ := hq <;>
    exact fenced_after h
      (fun _ => getJobEditEpoch_after (by simp) (by simp)) (by simp) (by simp)

theorem fenced_stored {jobId manifestJson : String} {priority : Int}
    (h : Fenced db) : Fenced (stored T jobId manifestJson priority db) :=
  fenced_quiet (fenced_quiet h ⟨jobId, .inr (.inl ⟨priority, rfl⟩)⟩)
    ⟨jobId, .inr (.inr ⟨manifestJson, rfl⟩)⟩

/-! ## The invariant -/

/-- The fence, one chunk for a range, and renders that an edit left behind. -/
structure Inv (s : Farm) : Prop where
  fenced : Fenced s.db
  ranges : s.db.RangesUnique
  notAhead : ∀ r ∈ s.renders, r.editEpoch ≤ getJobEditEpoch s.db r.jobId
  behind : ∀ r ∈ s.renders, r.edited = true →
    r.editEpoch < getJobEditEpoch s.db r.jobId

/-- What a step does to the database: one call outside edits, the assignment
under the current epoch, or an edit. -/
theorem step_call {s s' : Farm} {c : DbCall} (h : step T s (.call c) = some s') :
    outsideEdits c = true ∧ c.InsertsOnce s.db ∧
      s' = { s with db := c.after T s.db } := by
  simp only [step] at h
  split at h
  · rename_i hc
    exact ⟨hc.1, hc.2, (Option.some.inj h).symm⟩
  · cases h

theorem epoch_outside (h : outsideEdits call = true) (jobId : String) :
    getJobEditEpoch (call.after T db) jobId = getJobEditEpoch db jobId := by
  refine getJobEditEpoch_after ?_ ?_ <;>
  · rintro rfl
    cases h

theorem inv_call {s s' : Farm} {c : DbCall} (hs : Inv s)
    (h : step T s (.call c) = some s') (hf : Fenced s'.db) : Inv s' := by
  obtain ⟨hout, honce, rfl⟩ := step_call h
  refine ⟨hf, rangesUnique_after hs.ranges honce, fun r hr => ?_, fun r hr he => ?_⟩
  · rw [epoch_outside hout]
    exact hs.notAhead r hr
  · rw [epoch_outside hout]
    exact hs.behind r hr he

theorem inv_assign {s s' : Farm} {chunkId : Int} {nodeId : String} {nowMs : Int}
    (hs : Inv s) (h : step T s (.assign chunkId nodeId nowMs) = some s') : Inv s' := by
  simp only [step] at h
  split at h
  · cases h
  · rename_i c hc
    cases h
    obtain ⟨hmem, hid⟩ := Db.chunk?_eq_some.mp hc
    have hepoch (jobId : String) : getJobEditEpoch ((DbCall.assignChunk chunkId nodeId
        nowMs (getJobEditEpoch s.db c.jobId)).after T s.db) jobId =
        getJobEditEpoch s.db jobId := getJobEditEpoch_after (by simp) (by simp)
    refine ⟨fenced_after hs.fenced hepoch ?_ (by simp),
      rangesUnique_after hs.ranges trivial, ?_, ?_⟩
    · rintro id node now epoch ⟨⟩ d hd hdid
      rw [s.db.chunk_ext hd hmem (hdid.trans hid.symm)]
    · intro r hr
      rw [hepoch]
      split at hr
      · rcases List.mem_cons.mp hr with rfl | hr
        · exact Int.le_refl _
        · exact hs.notAhead r hr
      · exact hs.notAhead r hr
    · intro r hr he
      rw [hepoch]
      split at hr
      · rcases List.mem_cons.mp hr with rfl | hr
        · cases he
        · exact hs.behind r hr he
      · exact hs.behind r hr he

/-- An edit that resets nothing keeps the invariant. -/
theorem inv_stored {s : Farm} {jobId manifestJson : String} {priority : Int}
    (hs : Inv s) :
    Inv { s with db := stored T jobId manifestJson priority s.db } := by
  have hepoch (other : String) :
      getJobEditEpoch (stored T jobId manifestJson priority s.db) other =
        getJobEditEpoch s.db other := by
    unfold stored
    rw [getJobEditEpoch_after (by simp) (by simp),
      getJobEditEpoch_after (by simp) (by simp)]
  refine ⟨fenced_stored hs.fenced,
    rangesUnique_after (rangesUnique_after hs.ranges trivial) trivial, ?_, ?_⟩
  · intro r hr
    rw [hepoch]
    exact hs.notAhead r hr
  · intro r hr he
    rw [hepoch]
    exact hs.behind r hr he

theorem stored_isSome {jobId manifestJson : String} {priority : Int} :
    ((stored T jobId manifestJson priority db).job? jobId).isSome =
      (db.job? jobId).isSome := by
  simp [stored, DbCall.after, DbCall.exec, updateJobManifest, updateJobPriority,
    Db.job?_updateJobs]

theorem inv_reset {s : Farm} {jobId : String} {reset : DbCall}
    (hreset : IsReset jobId reset) (hjob : (s.db.job? jobId).isSome) (hs : Inv s) :
    Inv { db := (DbCall.updateJobState jobId .active).after T
            (reset.after T ((DbCall.bumpEditEpoch jobId).after T s.db))
          renders := s.renders.map (.afterEdit jobId) } := by
  have hepoch (other : String) : getJobEditEpoch ((DbCall.updateJobState jobId
      .active).after T (reset.after T ((DbCall.bumpEditEpoch jobId).after T s.db)))
        other = if other = jobId then getJobEditEpoch s.db other + 1
          else getJobEditEpoch s.db other := by
    rw [getJobEditEpoch_after (by simp) (by simp), epoch_reset hreset,
      getJobEditEpoch_bump]
    simp [hjob]
  have hranges : (reset.after T ((DbCall.bumpEditEpoch jobId).after T
      s.db)).RangesUnique := by
    refine rangesUnique_after (rangesUnique_after hs.ranges trivial) ?_
    rcases hreset with rfl | ⟨ranges, hnodup, rfl⟩
    · exact trivial
    · exact hnodup
  refine ⟨fenced_quiet (fenced_reset hreset (current_bump jobId hs.fenced))
    ⟨jobId, .inl ⟨_, rfl⟩⟩, rangesUnique_after hranges trivial, ?_, ?_⟩
  · intro r hr
    obtain ⟨d, hd, rfl⟩ := List.mem_map.mp hr
    have hle := hs.notAhead d hd
    unfold Render.afterEdit
    split <;> rename_i hdj
    · simp only [hepoch, hdj, if_true]
      rw [hdj] at hle
      omega
    · simp only [hepoch, hdj, if_false]
      exact hle
  · intro r hr he
    obtain ⟨d, hd, rfl⟩ := List.mem_map.mp hr
    have hle := hs.notAhead d hd
    unfold Render.afterEdit at he ⊢
    split <;> rename_i hdj
    · simp only [hepoch, hdj, if_true]
      rw [hdj] at hle
      omega
    · rw [if_neg hdj] at he
      simp only [hepoch, hdj, if_false]
      exact hs.behind d hd he

theorem inv_edit {s s' : Farm} {jobId manifestJson mode : String} {priority : Int}
    (hs : Inv s) (h : step T s (.edit jobId manifestJson mode priority) = some s') :
    Inv s' := by
  simp only [step] at h
  split at h
  · cases h
  · rename_i o db' hrun
    cases h
    rcases applyEditLocally_run hrun with ⟨hno, rfl | rfl⟩ | ⟨hyes, hjob, reset,
      hreset, rfl⟩
    · rw [if_neg (by simp [hno])]
      exact hs
    · rw [if_neg (by simp [hno])]
      exact inv_stored hs
    · rw [if_pos hyes]
      have hstored := @inv_stored T s jobId manifestJson priority hs
      have hkept : ((stored T jobId manifestJson priority s.db).job? jobId).isSome := by
        rw [stored_isSome]
        exact hjob
      have hfin := inv_reset (T := T) hreset hkept hstored
      exact hfin

/-! ## Reports -/

/-- A failure changes only the chunk its fence lets through. -/
theorem failChunk_changed {jobId : String} {fs fe maxRetries : Int} {node : String}
    {epoch : Int} {c c' : ChunkRecord} (hranges : db.RangesUnique)
    (h : Changed db.chunks (failChunk db jobId fs fe maxRetries node epoch).2.chunks
      c c') : fence jobId fs fe node epoch c = true := by
  by_cases hcur : isChunkCurrent db jobId fs fe node epoch = true
  · obtain ⟨d, hd, hfence⟩ := List.any_eq_true.mp hcur
    have hdr : inRange jobId fs fe d = true := (of_decide_eq_true hfence).1
    obtain ⟨hc, hstep⟩ := h.step
      (failChunk_evolves db jobId fs fe maxRetries node epoch)
    have hcr : inRange jobId fs fe c = true := by
      cases hstep with
      | same => exact absurd rfl h.2
      | blacklist l hr => exact hr
      | fail l hr hcs => exact hr
    rwa [hranges.eq_of_inRange hc hd hcr hdr]
  · unfold failChunk at h
    rw [if_neg hcur] at h
    exact absurd h not_changed_self

/-- What passes the fence of a render's report is its own assignment, and the
render was not edited away. -/
theorem fence_unedited {s : Farm} {r : Render} {c : ChunkRecord} (hs : Inv s)
    (hc : c ∈ s.db.chunks) (hnode : r.nodeId ≠ "") (hepoch : 0 ≤ r.editEpoch)
    (hf : fence r.jobId r.frameStart r.frameEnd r.nodeId r.editEpoch c = true) :
    c.state = .assigned ∧ c.assignedTo = some r.nodeId ∧
      ∀ d ∈ s.renders, d.unmarked = r.unmarked → d.edited = false := by
  obtain ⟨hrange, hstate, hto, hstamp⟩ := of_decide_eq_true hf
  have hjob : c.jobId = r.jobId := (of_decide_eq_true hrange).1
  have hstamp : c.editEpoch = r.editEpoch := hstamp.resolve_left (by omega)
  refine ⟨hstate, hto.resolve_left hnode, fun d hd hsame => ?_⟩
  have hdjob : d.jobId = r.jobId := by
    simpa [Render.unmarked] using congrArg Render.jobId hsame
  have hdepoch : d.editEpoch = r.editEpoch := by
    simpa [Render.unmarked] using congrArg Render.editEpoch hsame
  by_contra hedited
  have hlt := hs.behind d hd (by simpa using hedited)
  have hcur := hs.fenced c hc hstate
  rw [hdjob, hdepoch, ← hstamp, hcur, hjob] at hlt
  exact absurd hlt (by omega)

theorem reportsFenced_step {s s' : Farm} {e : Event} (hs : Inv s)
    (h : step T s e = some s') : ReportsFenced s e s' := by
  rintro r ⟨hnode, hepoch, ⟨nowMs, rfl⟩ | ⟨maxRetries, rfl⟩⟩ c c' hchange
  · obtain ⟨-, -, rfl⟩ := step_call h
    obtain ⟨hc, hf, -⟩ := changed_update.mp hchange
    exact fence_unedited hs hc hnode hepoch hf
  · obtain ⟨-, -, rfl⟩ := step_call h
    have hc := (hchange.step (failChunk_evolves ..)).1
    exact fence_unedited hs hc hnode hepoch (failChunk_changed hs.ranges hchange)

/-! ## The condition -/

/-- A step keeps the fence exactly when it reassigns no chunk with an outdated
stamp. -/
theorem fenced_step_iff {s s' : Farm} {e : Event} (hs : Inv s)
    (h : step T s e = some s') : Fenced s'.db ↔ StampCurrent s e s' := by
  cases e with
  | call c =>
      obtain ⟨hout, -, rfl⟩ := step_call h
      constructor
      · rintro hf id node nowMs ⟨⟩ hn d hd hr
        -- the reassigned row, with the stamp it had
        have hd' : assignedRow d node nowMs d.editEpoch ∈
            ((DbCall.reassignChunk id node nowMs).after T s.db).chunks := by
          simp only [DbCall.after, DbCall.exec, DatabaseManager.reassignChunk, if_neg hn]
          exact mem_update.mpr ⟨d, hd, by rw [if_pos hr]; rfl⟩
        have hcur := hf _ hd' rfl
        rwa [epoch_outside hout] at hcur
      · intro hstamp
        refine fenced_after hs.fenced (epoch_outside hout) ?_ ?_
        · rintro id node nowMs epoch rfl
          cases hout
        · rintro id node nowMs rfl hn
          exact hstamp id node nowMs rfl hn
  | assign chunkId nodeId nowMs =>
      exact iff_of_true (inv_assign hs h).fenced (by rintro _ _ _ ⟨⟩)
  | edit jobId manifestJson mode priority =>
      exact iff_of_true (inv_edit hs h).fenced (by rintro _ _ _ ⟨⟩)

theorem inv_step {s s' : Farm} {e : Event} (hs : Inv s)
    (h : step T s e = some s') (hf : Fenced s'.db) : Inv s' := by
  cases e with
  | call c => exact inv_call hs h hf
  | assign chunkId nodeId nowMs => exact inv_assign hs h
  | edit jobId manifestJson mode priority => exact inv_edit hs h

theorem inv_start : Inv start where
  fenced := by simp [Fenced, start, Db.empty]
  ranges := List.nodup_nil
  notAhead := by simp [start]
  behind := by simp [start]

/-- **The edit-epoch fence holds exactly while no chunk is reassigned to a
named node with an outdated stamp.** Over every sequence of operations, every
step leaves each assigned chunk under its job's epoch and lets through only
reports of renders that no edit came after, if and only if each reassignment
to a named node finds the chunk's stamp current. -/
theorem fence_iff_stamps_current (T : JsonText) (es : List Event) :
    (machine T).Along StampCurrent start es ↔
      (machine T).Along KeepsFence start es := by
  constructor
  · refine Machine.Along.mono (fun s e s' hs hstep hstamp => ?_) inv_start
    have hf := (fenced_step_iff hs hstep).mpr hstamp
    exact ⟨⟨hf, reportsFenced_step hs hstep⟩, inv_step hs hstep hf⟩
  · refine Machine.Along.mono (fun s e s' hs hstep hgood => ?_) inv_start
    exact ⟨(fenced_step_iff hs hstep).mp hgood.1, inv_step hs hstep hgood.1⟩

/-! ## A stopped chunk sent to a named node after an edit -/

/-- Chunk 1 is dispatched and stopped, the job is restarted, and the chunk is
then reassigned to `w2` with the stamp of its first dispatch. -/
def staleReassignment : List Event :=
  [.call (.insertJob { jobId := "shot", manifestJson := shotManifest }),
   .call (.insertChunks "shot" [⟨1, 10⟩]),
   .assign 1 "w1" 1000,
   .call (.stopChunk 1),
   .edit "shot" shotManifest "restart" 50,
   .call (.reassignChunk 1 "w2" 2000)]

/-- The chunk is assigned under epoch 0 while the job is at epoch 1. -/
theorem reassign_keeps_old_stamp :
    ¬ ∀ es, (machine shotText).Along KeepsFence start es := by
  intro h
  refine Machine.Along.refute staleReassignment.dropLast
    (.call (.reassignChunk 1 "w2" 2000)) (fun _ u => u.db.chunks.any fun c =>
      c.state = .assigned ∧ c.editEpoch ≠ getJobEditEpoch u.db c.jobId) ?_ ?_
    (h staleReassignment)
  · intro t u hbad hgood
    obtain ⟨c, hc, hcc⟩ := List.any_eq_true.mp hbad
    obtain ⟨hs, hne⟩ := of_decide_eq_true hcc
    exact hne (hgood.1 c hc hs)
  · decide

end MinRender.EditEpoch
