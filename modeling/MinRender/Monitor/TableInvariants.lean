import MinRender.Monitor.RowSteps

/-!
# Invariants of the chunk table

Facts about chunk rows that every database call keeps, each by one case
analysis on the row steps.
-/

namespace MinRender
open DatabaseManager Table

variable {T : JsonText} {db : Db} {call : DbCall}

/-- A pending or stopped chunk names no node and no assignment time. -/
def Unassigned (c : ChunkRecord) : Prop :=
  c.state = .pending ∨ c.state = .stopped →
    c.assignedTo = none ∧ c.assignedAtMs = none

/-- An assigned chunk names its node and its assignment time. -/
def Attributed (c : ChunkRecord) : Prop :=
  c.state = .assigned → c.assignedTo.isSome ∧ c.assignedAtMs.isSome

theorem unassigned_step {c c' : ChunkRecord} (h : RowStep call c c')
    (hc : Unassigned c) : Unassigned c' := by
  cases h with
  | same | blacklist | frame | frames => exact hc
  | assign | reassign | complete | markCompleted => simp [Unassigned]
  | fail l hr hs =>
      intro hstate
      simp only [failRow] at hstate ⊢
      split at hstate
      · rename_i hlt
        simp [hlt]
      · simp at hstate
  | revert | reclaim | stop | resetAll | resetAssigned | retry | requeue =>
      simp [Unassigned, toPending]

theorem attributed_step {c c' : ChunkRecord} (h : RowStep call c c')
    (hc : Attributed c) : Attributed c' := by
  cases h with
  | same | blacklist | frame | frames => exact hc
  | assign | reassign | complete | markCompleted => simp [Attributed]
  | fail l hr hs =>
      intro hstate
      simp only [failRow] at hstate
      split at hstate <;> simp at hstate
  | revert | reclaim | stop | resetAll | resetAssigned | retry | requeue =>
      simp [Attributed, toPending]

theorem unassigned_after (h : ∀ c ∈ db.chunks, Unassigned c) :
    ∀ c ∈ (call.after T db).chunks, Unassigned c := by
  refine (chunks_evolve T call db).forall_mem h (fun c c' => unassigned_step) ?_
  rintro c ⟨jobId, ranges, -, id, r, -, rfl⟩
  exact fun _ => ⟨rfl, rfl⟩

theorem attributed_after (h : ∀ c ∈ db.chunks, Attributed c) :
    ∀ c ∈ (call.after T db).chunks, Attributed c := by
  refine (chunks_evolve T call db).forall_mem h (fun c c' => attributed_step) ?_
  rintro c ⟨jobId, ranges, -, id, r, -, rfl⟩
  simp [Attributed, ChunkRecord.fresh]

/-! ## How a chunk comes to be assigned -/

/-- The row `assignChunk` leaves. -/
def assignedRow (c : ChunkRecord) (nodeId : String) (nowMs editEpoch : Int) :
    ChunkRecord :=
  { c with
    state := .assigned
    assignedTo := some nodeId
    assignedAtMs := some nowMs
    editEpoch := editEpoch }

/-- How a row that is assigned after a call came to be: it was assigned to the
same node under the same epoch, or the call assigned it. A reassignment to a
named node leaves the epoch as it was. -/
inductive AssignedBy : DbCall → ChunkRecord → ChunkRecord → Prop
  | before {call c c'} (hs : c.state = .assigned)
      (hto : c'.assignedTo = c.assignedTo) (hep : c'.editEpoch = c.editEpoch) :
      AssignedBy call c c'
  | dispatch {c id node nowMs epoch} (hid : c.id = id) (hp : c.state = .pending) :
      AssignedBy (.assignChunk id node nowMs epoch) c
        (assignedRow c node nowMs epoch)
  | reassign {c id node nowMs} (hn : node ≠ "") (hr : reassignable id c = true) :
      AssignedBy (.reassignChunk id node nowMs) c
        (assignedRow c node nowMs c.editEpoch)

theorem RowStep.assignedBy {c c' : ChunkRecord} (h : RowStep call c c')
    (hs : c'.state = .assigned) : AssignedBy call c c' := by
  cases h with
  | same | blacklist | frame | frames => exact .before hs rfl rfl
  | assign hid hp => exact .dispatch hid hp
  | reassign hn hr => exact .reassign hn hr
  | fail l hr hcs =>
      simp only [failRow] at hs
      split at hs <;> cases hs
  | _ => cases hs

theorem assigned_after {c' : ChunkRecord} (hc' : c' ∈ (call.after T db).chunks)
    (hs : c'.state = .assigned) :
    ∃ c ∈ db.chunks, call.keepsRow c = true ∧ RowStep call c c' ∧
      AssignedBy call c c' := by
  rcases (chunks_evolve T call db).mem hc' with hnew | ⟨c, hc, hk, hstep⟩
  · obtain ⟨jobId, ranges, -, id, r, -, rfl⟩ := hnew
    cases hs
  · exact ⟨c, hc, hk, hstep, hstep.assignedBy hs⟩

/-! ## One chunk for a range -/

/-- No job has two chunks of one range. -/
def Db.RangesUnique (db : Db) : Prop := (db.chunks.map (·.key)).Nodup

/-- How the code inserts chunks: pairwise different ranges, for a job that has
no chunks or after they were deleted. -/
def DbCall.InsertsOnce (db : Db) : DbCall → Prop
  | .insertChunks jobId ranges => ranges.Nodup ∧ ∀ c ∈ db.chunks, c.jobId ≠ jobId
  | .rebuildChunks _ ranges => ranges.Nodup
  | _ => True

private theorem nodup_insert {db : Db} {jobId : String} {ranges : List ChunkRange}
    {new : List ChunkRecord} (h : db.RangesUnique) (hranges : ranges.Nodup)
    (hjob : ∀ c ∈ db.chunks, c.jobId ≠ jobId)
    (hnew : new = [] ∨ new.map (·.key) = ranges.map (jobId, ·)) :
    ((db.chunks ++ new).map (·.key)).Nodup := by
  rcases hnew with rfl | hnew
  · rwa [List.append_nil]
  · rw [List.map_append, hnew]
    refine List.nodup_append.mpr ⟨h, hranges.map (Prod.mk_right_injective _), ?_⟩
    intro a ha b hb hab
    obtain ⟨c, hc, rfl⟩ := List.mem_map.mp ha
    obtain ⟨r, -, rfl⟩ := List.mem_map.mp hb
    exact hjob c hc (congrArg Prod.fst hab)

/-- A call that inserts nothing leaves the keys it does not delete. -/
theorem keys_sublist_after (hnew : ∀ c, ¬ NewRow call c) :
    ((call.after T db).chunks.map (·.key)).Sublist (db.chunks.map (·.key)) := by
  obtain ⟨rows, new, hrows, hchunks, hN⟩ := chunks_evolve T call db
  have hnil : new = [] :=
    List.eq_nil_iff_forall_not_mem.mpr fun c hc => hnew c (hN c hc)
  have hkeys := map_eq_of_forall₂ (·.key) (fun _ _ h => h.key_eq) hrows
  rw [hchunks, hnil, List.append_nil, hkeys]
  exact List.filter_sublist.map _

theorem rangesUnique_after (h : db.RangesUnique) (hcall : call.InsertsOnce db) :
    (call.after T db).RangesUnique := by
  have hother (hnew : ∀ c, ¬ NewRow call c) : (call.after T db).RangesUnique :=
    h.sublist (keys_sublist_after hnew)
  cases call with
  | insertChunks jobId ranges =>
      obtain ⟨-, new, hchunks, hkeys, -⟩ := insertChunks_spec db jobId ranges
      unfold Db.RangesUnique
      simp only [DbCall.after, DbCall.exec, hchunks]
      exact nodup_insert h hcall.1 hcall.2 hkeys
  | rebuildChunks jobId ranges =>
      obtain ⟨-, new, hchunks, hkeys, -⟩ :=
        insertChunks_spec (db.deleteChunkRows jobId) jobId ranges
      unfold Db.RangesUnique
      simp only [DbCall.after, DbCall.exec, rebuildChunks, hchunks]
      refine nodup_insert (h.sublist (List.filter_sublist.map _)) hcall ?_ hkeys
      intro c hc
      simpa [Db.deleteChunkRows] using (List.mem_filter.mp hc).2
  | _ =>
      refine hother ?_
      rintro c ⟨jobId, ranges, hcall' | hcall', -⟩ <;> cases hcall'

/-- Under unique ranges a range determines the chunk. -/
theorem Db.RangesUnique.eq_of_inRange (h : db.RangesUnique) {jobId : String}
    {fs fe : Int} {c d : ChunkRecord} (hc : c ∈ db.chunks) (hd : d ∈ db.chunks)
    (hcr : inRange jobId fs fe c = true) (hdr : inRange jobId fs fe d = true) :
    c = d := by
  refine List.inj_on_of_nodup_map h hc hd ?_
  obtain ⟨hcj, hcs, hce⟩ := of_decide_eq_true hcr
  obtain ⟨hdj, hds, hde⟩ := of_decide_eq_true hdr
  simp only [ChunkRecord.key, hcj, hcs, hce, hdj, hds, hde]

end MinRender
