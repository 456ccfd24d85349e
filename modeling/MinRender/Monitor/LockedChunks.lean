import MinRender.Framework.Runs
import MinRender.Monitor.DispatchManager
import MinRender.Monitor.JobOrder
import MinRender.Monitor.RetryBudget

/-!
# Pending chunks that no node can get

A failed chunk goes back to pending with the node on its list of failed nodes,
and no node on the list gets it again. How often it goes back is bounded by
`max_retries`, how long the list can be by the number of nodes; nothing relates
the two.
-/

namespace MinRender.LockedChunks
open DatabaseManager Table StableSort JobOrder

section

variable (T : JsonText) (farm : List PeerInfo)

/-! ## The farm -/

/-- The node carries the tags the manifest requires. -/
def carries (manifestJson : String) (p : PeerInfo) : Bool := tagsEligible T p.tags manifestJson

/-- Of the nodes that carry the tags, if there are any, one is not on the list. -/
def NodeLeft (manifestJson : String) (failedOn : List String) : Prop :=
  (∃ p ∈ farm, carries T manifestJson p = true) →
    ∃ p ∈ farm, carries T manifestJson p = true ∧ (p.nodeId = "" ∨ p.nodeId ∉ failedOn)

/-- The same for a chunk, with such a list of failed nodes. -/
def LeftFor (db : Db) (c : ChunkRecord) (failedOn : List String) : Prop :=
  ∀ j, db.job? c.jobId = some j → NodeLeft T farm j.manifestJson failedOn

/-- An edit leaves the farm's nodes that carry a job's tags as they are. -/
def keepsTags (db : Db) : DbCall → Bool
  | .updateJobManifest jobId manifestJson =>
      (db.job? jobId).all fun j =>
        farm.all fun p => carries T manifestJson p == carries T j.manifestJson p
  | _ => true

/-- Any calls, with a fixed farm. -/
def machine : Machine Db DbCall where
  step db c := if keepsTags T farm db c then some (c.after T db) else none

/-! ## The property -/

/-- The other pending chunks are taken. -/
def othersTaken (db : Db) (c : ChunkRecord) : Db :=
  db.updateChunks (fun d => d.id ≠ c.id ∧ d.state = .pending) fun d =>
    { d with state := .assigned }

/-- Every pending chunk of an active job with nodes to its tags is returned to
one of them once the others are taken. -/
def Dispatchable (_ : Db) (_ : DbCall) (db : Db) : Prop :=
  ∀ c ∈ db.chunks, c.state = .pending → ∀ j, db.job? c.jobId = some j →
    j.currentState = .active → (∃ p ∈ farm, carries T j.manifestJson p = true) →
    ∃ p ∈ farm, carries T j.manifestJson p = true ∧
      findNextPendingChunkForNode T (othersTaken db c) p.tags p.nodeId =
        some (ChunkRow.toDispatch c, j.manifestJson)

/-! ## The condition -/

/-- The list after a failure on behalf of a node. -/
def blamed (nodeId : String) (failedOn : List String) : List String :=
  if nodeId = "" then failedOn else failedOn ++ [nodeId]

/-- The rows a call returns to pending, and leaves their lists. -/
def Reopens : DbCall → ChunkRecord → Prop
  | .revertChunkToPending jobId fs fe, c => inRange jobId fs fe c = true
  | .reassignDeadWorkerChunks nodeId, c => c.assignedTo = some nodeId ∧ c.state = .assigned
  | .resetAssignedChunks jobId, c => c.jobId = jobId ∧ c.state = .assigned
  | .retryFailedChunks jobId, c => c.jobId = jobId ∧ c.state = .failed
  | .reassignChunk id target _, c => target = "" ∧ reassignable id c = true
  | _, _ => False

/-- What returns a chunk to pending leaves a node for it: an accepted failure
with retries left beside the node that failed, any other call beside those on
the list. -/
def LeavesNode (db : Db) (call : DbCall) (_ : Db) : Prop :=
  match call with
  | .failChunk jobId fs fe maxRetries nodeId epoch =>
      isChunkCurrent db jobId fs fe nodeId epoch = true → ∀ c ∈ db.chunks,
        inRange jobId fs fe c = true → c.state = .pending ∨ c.retryCount + 1 < maxRetries →
        LeftFor T farm db c (blamed nodeId c.failedOn)
  | call => ∀ c ∈ db.chunks, Reopens call c → LeftFor T farm db c c.failedOn

/-- No pending chunk is locked out. -/
def NoneLocked (db : Db) : Prop :=
  ∀ c ∈ db.chunks, c.state = .pending → LeftFor T farm db c c.failedOn

end

variable {T : JsonText} {farm : List PeerInfo} {db : Db} {call : DbCall} {c c' : ChunkRecord}

/-! ## What the query returns -/

theorem filter_eq_singleton {α : Type} {p : α → Bool} {l : List α} {a : α} (hl : l.Nodup)
    (ha : a ∈ l) (h : ∀ x ∈ l, p x = true ↔ x = a) : l.filter p = [a] := by
  have hperm : (l.filter p).Perm [a] := by
    refine (List.perm_ext_iff_of_nodup (hl.filter _) (List.nodup_singleton a)).mpr fun x => ?_
    rw [List.mem_filter, List.mem_singleton]
    constructor
    · rintro ⟨hx, hp⟩
      exact (h x hx).mp hp
    · rintro rfl
      exact ⟨ha, (h x ha).mpr rfl⟩
  exact List.perm_singleton.mp hperm

/-- The chunk is the only pending one. -/
theorem pendingOf_othersTaken (hc : c ∈ db.chunks) (hs : c.state = .pending) (jobId : String) :
    pendingOf (othersTaken db c) jobId = if c.jobId = jobId then [c] else [] := by
  have hrow : ∀ d ∈ (othersTaken db c).chunks, d.state = .pending → d = c := by
    intro d hd hds
    obtain ⟨e, he, rfl⟩ := mem_update.mp hd
    split at hds
    · cases hds
    · rename_i hnot
      rw [if_neg hnot]
      by_contra hne
      refine hnot (decide_eq_true ⟨fun hid => hne (db.chunk_ext he hc hid), hds⟩)
  have hmem : c ∈ (othersTaken db c).chunks := by
    refine mem_update.mpr ⟨c, hc, if_neg ?_⟩
    simp
  have hnodup : (othersTaken db c).chunks.Nodup := (othersTaken db c).chunkKey.of_map _
  unfold pendingOf chunksOf
  rw [List.filter_filter]
  split
  · rename_i hjob
    refine filter_eq_singleton hnodup hmem fun d hd => ?_
    rw [Bool.and_eq_true, decide_eq_true_eq, decide_eq_true_eq]
    constructor
    · exact fun h => hrow d hd h.1
    · rintro rfl
      exact ⟨hs, hjob⟩
  · rename_i hjob
    refine List.filter_eq_nil_iff.mpr fun d hd h => ?_
    rw [Bool.and_eq_true, decide_eq_true_eq, decide_eq_true_eq] at h
    exact hjob (hrow d hd h.1 ▸ h.2)

theorem dispatchableJobs_othersTaken {j : JobRecord} (hc : c ∈ db.chunks)
    (hs : c.state = .pending) (hj : db.job? c.jobId = some j) (hactive : j.currentState = .active) :
    dispatchableJobs (othersTaken db c) = [j] := by
  obtain ⟨hjm, hjid⟩ := Db.job?_eq_some.mp hj
  unfold dispatchableJobs jobsInOrder
  rw [filter_insertionSort]
  have hone : (othersTaken db c).jobs.filter (fun j =>
      j.currentState = .active ∧ pendingOf (othersTaken db c) j.jobId ≠ []) = [j] := by
    refine filter_eq_singleton (db.jobKey.of_map _) hjm fun i hi => ?_
    rw [decide_eq_true_eq, pendingOf_othersTaken hc hs]
    constructor
    · rintro ⟨-, hne⟩
      have hid : c.jobId = i.jobId := by
        by_contra hother
        exact hne (if_neg hother)
      exact List.inj_on_of_nodup_map db.jobKey hi hjm (hid.symm.trans hjid.symm)
    · rintro rfl
      rw [if_pos hjid.symm]
      exact ⟨hactive, List.cons_ne_nil _ _⟩
  rw [hone]
  rfl

/-- **The only pending chunk is returned to the nodes that carry its tags and
are not on its list.** -/
theorem findNext_othersTaken {j : JobRecord} (hc : c ∈ db.chunks) (hs : c.state = .pending)
    (hj : db.job? c.jobId = some j) (hactive : j.currentState = .active) {p : PeerInfo}
    (hcarries : carries T j.manifestJson p = true)
    (hfree : p.nodeId = "" ∨ p.nodeId ∉ c.failedOn) :
    findNextPendingChunkForNode T (othersTaken db c) p.tags p.nodeId =
      some (ChunkRow.toDispatch c, j.manifestJson) := by
  have hjid := (Db.job?_eq_some.mp hj).2
  unfold findNextPendingChunkForNode
  unfold carries at hcarries
  rw [dispatchableJobs_othersTaken hc hs hj hactive, List.findSome?_cons, if_pos hcarries,
    pendingOf_othersTaken hc hs, if_pos hjid.symm]
  have hsorted : byFrame [c] = [c] := rfl
  have hfind : [c].find? (fun c => decide (p.nodeId = "" ∨ p.nodeId ∉ c.failedOn)) = some c :=
    List.find?_cons_of_pos (decide_eq_true hfree)
  rw [hsorted, hfind]
  rfl

theorem dispatchable_of_noneLocked {db' : Db} (h : NoneLocked T farm db') :
    Dispatchable T farm db call db' := by
  intro c hc hs j hj hactive hany
  obtain ⟨p, hp, hcarries, hfree⟩ := h c hc hs j hj hany
  exact ⟨p, hp, hcarries, findNext_othersTaken hc hs hj hactive hcarries hfree⟩

/-! ## Lists and nodes -/

theorem NodeLeft.mono {m : String} {l l' : List String} (h : NodeLeft T farm m l)
    (hsub : l' ⊆ l) : NodeLeft T farm m l' := by
  intro hany
  obtain ⟨p, hp, hcarries, hfree⟩ := h hany
  exact ⟨p, hp, hcarries, hfree.imp_right fun hnot hmem => hnot (hsub hmem)⟩

theorem nodeLeft_nil (m : String) : NodeLeft T farm m [] := by
  rintro ⟨p, hp, hcarries⟩
  exact ⟨p, hp, hcarries, .inr List.not_mem_nil⟩

theorem NodeLeft.congr {m m' : String} {l : List String} (h : NodeLeft T farm m l)
    (hsame : ∀ p ∈ farm, carries T m' p = carries T m p) : NodeLeft T farm m' l := by
  rintro ⟨p, hp, hcarries⟩
  obtain ⟨q, hq, hqc, hfree⟩ := h ⟨p, hp, (hsame p hp) ▸ hcarries⟩
  exact ⟨q, hq, (hsame q hq).trans hqc, hfree⟩

/-! ## What a failure does to the lists -/

theorem blacklist_rows {jobId nodeId : String} {fs fe : Int} {b : ChunkRecord}
    (hb : b ∈ (blacklist db jobId fs fe nodeId).chunks) :
    ∃ c ∈ db.chunks, b = { c with failedOn := b.failedOn } ∧
      (b = c ∨ inRange jobId fs fe c = true ∧ b.failedOn ⊆ blamed nodeId c.failedOn) := by
  have hsame : b ∈ db.chunks → ∃ c ∈ db.chunks, b = { c with failedOn := b.failedOn } ∧
      (b = c ∨ inRange jobId fs fe c = true ∧ b.failedOn ⊆ blamed nodeId c.failedOn) :=
    fun hb => ⟨b, hb, rfl, .inl rfl⟩
  unfold blacklist at hb
  split at hb
  · exact hsame hb
  · rename_i hnode
    split at hb
    · exact hsame hb
    · rename_i row hrow
      split at hb
      · exact hsame hb
      · obtain ⟨c, hc, rfl⟩ := mem_update.mp hb
        by_cases hid : c.id = row.id
        · have heq : c = row := db.chunk_ext hc (List.mem_of_find?_eq_some hrow) hid
          subst heq
          rw [if_pos (decide_eq_true rfl)]
          refine ⟨c, hc, rfl, .inr ⟨List.find?_some hrow, ?_⟩⟩
          unfold blamed
          rw [if_neg hnode]
          exact List.Subset.refl _
        · rw [if_neg (by simpa using hid)]
          exact ⟨c, hc, rfl, .inl rfl⟩

/-- A row that is pending after a failure was so before, or the failure was
accepted and had retries left. -/
theorem failChunk_pending {jobId nodeId : String} {fs fe maxRetries epoch : Int}
    (hc' : c' ∈ (failChunk db jobId fs fe maxRetries nodeId epoch).2.chunks)
    (hp : c'.state = .pending) :
    ∃ c ∈ db.chunks, c'.jobId = c.jobId ∧ (c' = c ∨
      isChunkCurrent db jobId fs fe nodeId epoch = true ∧ inRange jobId fs fe c = true ∧
        (c.state = .pending ∨ c.retryCount + 1 < maxRetries) ∧
        c'.failedOn ⊆ blamed nodeId c.failedOn) := by
  unfold failChunk at hc'
  split at hc'
  · rename_i hcurrent
    obtain ⟨b, hb, rfl⟩ := mem_update.mp hc'
    obtain ⟨c, hc, hrow, hlist⟩ := blacklist_rows hb
    have hsub : b.failedOn ⊆ blamed nodeId c.failedOn := by
      rcases hlist with rfl | ⟨-, hsub⟩
      · unfold blamed
        split
        · exact List.Subset.refl _
        · exact List.subset_append_left _ _
      · exact hsub
    split at hp
    · rename_i hhit
      obtain ⟨hrange, -⟩ := of_decide_eq_true hhit
      rw [if_pos hhit]
      rw [hrow] at hrange
      refine ⟨c, hc, ?_, .inr ⟨hcurrent, hrange, .inr ?_, hsub⟩⟩
      · rw [hrow]
        rfl
      · by_contra hlast
        rw [hrow] at hp
        unfold failRow at hp
        dsimp only at hp
        rw [if_neg hlast] at hp
        cases hp
    · rename_i hmiss
      rw [if_neg hmiss]
      rcases hlist with rfl | ⟨hrange, -⟩
      · exact ⟨b, hc, rfl, .inl rfl⟩
      · refine ⟨c, hc, ?_, .inr ⟨hcurrent, hrange, .inl ?_, hsub⟩⟩
        · rw [hrow]
        · rw [hrow] at hp
          exact hp
  · exact ⟨c', hc', rfl, .inl rfl⟩

/-! ## What a call does to the lists -/

/-- The nodes for a job stay those they were. -/
theorem nodeLeft_step {j j' : JobRecord} {l : List String} (h : NodeLeft T farm j.manifestJson l)
    (hj : db.job? j.jobId = some j) (hkeeps : keepsTags T farm db call = true)
    (hstep : JobStep call j j') : NodeLeft T farm j'.manifestJson l := by
  cases hstep with
  | manifest hid =>
      unfold keepsTags at hkeeps
      dsimp only at hkeeps
      rw [← hid, hj, Option.all_some, List.all_eq_true] at hkeeps
      exact h.congr fun p hp => of_decide_eq_true (hkeeps p hp)
  | _ => exact h

/-- A chunk that is kept has its job, and the nodes for it. -/
theorem leftFor_after {l : List String} (hc : c ∈ db.chunks) (hkept : call.keepsRow c = true)
    (hkeeps : keepsTags T farm db call = true) (h : LeftFor T farm db c l)
    (hjob : c'.jobId = c.jobId) : LeftFor T farm (call.after T db) c' l := by
  intro j' hj'
  obtain ⟨j, hj⟩ := db.job_of_chunk hc
  have hid := (Db.job?_eq_some.mp hj).2
  rw [hjob] at hj'
  rcases @job?_after_some T call _ _ _ hj with rfl | ⟨i, hi, hstep⟩
  · exact absurd rfl (of_decide_eq_true hkept)
  · rw [hi] at hj'
    cases hj'
    exact nodeLeft_step (h j hj) (hid ▸ hj) hkeeps hstep

/-- A row a call leaves pending was so with the same list, was returned, or was
reset. -/
theorem pending_cases (h : RowStep call c c') (hfails : RetryBudget.isFailure call = false)
    (hp : c'.state = .pending) :
    (c.state = .pending ∨ Reopens call c) ∧ c'.failedOn = c.failedOn ∨ c'.failedOn = [] := by
  cases h with
  | same => exact .inl ⟨.inl hp, rfl⟩
  | frame | frames => exact .inl ⟨.inl hp, rfl⟩
  | assign | complete | stop | reassign | markCompleted => cases hp
  | blacklist | fail => cases hfails
  | revert hr => exact .inl ⟨.inr hr, rfl⟩
  | reclaim ha hs => exact .inl ⟨.inr ⟨ha, hs⟩, rfl⟩
  | resetAssigned hj hs => exact .inl ⟨.inr ⟨hj, hs⟩, rfl⟩
  | retry hj hs => exact .inl ⟨.inr ⟨hj, hs⟩, rfl⟩
  | requeue hr => exact .inl ⟨.inr ⟨rfl, hr⟩, rfl⟩
  | resetAll => exact .inr rfl

theorem leavesNode_of_not_failure (hfails : RetryBudget.isFailure call = false) {db' : Db}
    (h : LeavesNode T farm db call db') :
    ∀ c ∈ db.chunks, Reopens call c → LeftFor T farm db c c.failedOn := by
  cases call with
  | failChunk => cases hfails
  | _ => exact h

theorem noneLocked_after (h : NoneLocked T farm db) (hkeeps : keepsTags T farm db call = true)
    {db' : Db} (hleaves : LeavesNode T farm db call db') :
    NoneLocked T farm (call.after T db) := by
  intro c' hc' hp
  by_cases hfails : RetryBudget.isFailure call = false
  · rcases (chunks_evolve T call db).mem hc' with ⟨jobId, ranges, -, id, r, -, rfl⟩ | hold
    · exact fun j _ => nodeLeft_nil _
    · obtain ⟨c, hc, hkept, hstep⟩ := hold
      rcases pending_cases hstep hfails hp with ⟨hwas, hlist⟩ | hnil
      · rw [hlist]
        refine leftFor_after hc hkept hkeeps ?_ hstep.jobId_eq
        rcases hwas with hpending | hreopens
        · exact h c hc hpending
        · exact leavesNode_of_not_failure hfails hleaves c hc hreopens
      · rw [hnil]
        exact fun j _ => nodeLeft_nil _
  · cases call with
    | failChunk jobId fs fe maxRetries nodeId epoch =>
        obtain ⟨c, hc, hjob, hcase⟩ := failChunk_pending hc' hp
        refine leftFor_after hc rfl hkeeps ?_ hjob
        rcases hcase with rfl | ⟨hcurrent, hrange, hopen, hsub⟩
        · exact h c' hc hp
        · intro j hj
          exact (hleaves hcurrent c hc hrange hopen j hj).mono hsub
    | _ => exact absurd rfl hfails

/-! ## Runs -/

/-- **No pending chunk is locked out along the runs whose calls leave a node for
every chunk they return to pending.** From an empty database, for any calls and
any fixed farm. -/
theorem dispatchable_of_leavesNode (T : JsonText) (farm : List PeerInfo) (es : List DbCall) :
    (machine T farm).Along (LeavesNode T farm) .empty es →
      (machine T farm).Along (Dispatchable T farm) .empty es := by
  refine Machine.Along.mono (I := NoneLocked T farm) ?_ fun c hc => nomatch hc
  intro db call db' hnone hstep hleaves
  have hif : (if keepsTags T farm db call then some (call.after T db) else none) = some db' := hstep
  split at hif
  · rename_i hkeeps
    cases hif
    have hafter := noneLocked_after hnone hkeeps hleaves
    exact ⟨dispatchable_of_noneLocked hafter, hafter⟩
  · cases hif

/-- A job with one chunk, which the only node fails. -/
def failsOnce : List DbCall :=
  [.insertJob { jobId := "shot", manifestJson := shotManifest }, .insertChunks "shot" [⟨1, 10⟩],
    .assignChunk 1 "n1" 1000 0]

/-- A call that returns nothing to pending, or a failure after which each job
has a node to its tags beside the lists. -/
def leavesNode? (T : JsonText) (farm : List PeerInfo) (db : Db) : DbCall → Db → Bool
  | .failChunk _ _ _ _ nodeId _, _ =>
      db.chunks.all fun c => (db.job? c.jobId).all fun j => farm.any fun p =>
        carries T j.manifestJson p && decide (p.nodeId ∉ blamed nodeId c.failedOn)
  | .insertJob _, _ | .insertChunks .., _ | .assignChunk .., _ => true
  | _, _ => false

theorem leavesNode_of_leavesNode? {db' : Db} (h : leavesNode? T farm db call db' = true) :
    LeavesNode T farm db call db' := by
  cases call with
  | failChunk jobId fs fe maxRetries nodeId epoch =>
      intro _ c hc _ _ j hj _
      have hall := List.all_eq_true.mp h c hc
      rw [hj, Option.all_some, List.any_eq_true] at hall
      obtain ⟨p, hp, hboth⟩ := hall
      rw [Bool.and_eq_true] at hboth
      exact ⟨p, hp, hboth.1, .inr (of_decide_eq_true hboth.2)⟩
  | insertJob | insertChunks | assignChunk => exact fun _ _ h => h.elim
  | _ => cases h

/-- With a second node the failed chunk is left to it. -/
theorem dispatchable_second_node :
    (machine shotText [{ nodeId := "n1" }, { nodeId := "n2" }]).Along
      (Dispatchable shotText [{ nodeId := "n1" }, { nodeId := "n2" }]) .empty
      (failsOnce ++ [.failChunk "shot" 1 10 3 "n1" 0]) :=
  dispatchable_of_leavesNode _ _ _
    (Machine.Along.of_check (leavesNode? shotText [{ nodeId := "n1" }, { nodeId := "n2" }])
      (fun _ _ _ h => leavesNode_of_leavesNode? h) (by decide))

/-- **The only node is locked out**: with retries left the chunk is pending
again, and the node may not have it. -/
theorem only_node_is_locked_out :
    ¬ ∀ T farm es, (machine T farm).Along (Dispatchable T farm) .empty es := by
  intro h
  refine Machine.Along.refute failsOnce (.failChunk "shot" 1 10 3 "n1" 0)
    (fun _ db => (db.chunks.head?.any fun c => decide (c.state = .pending) &&
      ((db.job? c.jobId).any fun j => decide (j.currentState = .active) &&
        carries shotText j.manifestJson { nodeId := "n1" }) &&
      (findNextPendingChunkForNode shotText (othersTaken db c) [] "n1").isNone)) ?_ ?_
    (h shotText [{ nodeId := "n1" }] _)
  · intro t u hbad hgood
    rw [Option.any_eq_true] at hbad
    obtain ⟨c, hc, hbad⟩ := hbad
    rw [Bool.and_eq_true, Bool.and_eq_true, Option.any_eq_true] at hbad
    obtain ⟨⟨hpending, j, hj, hjob⟩, hnone⟩ := hbad
    rw [Bool.and_eq_true] at hjob
    obtain ⟨p, hp, -, hfound⟩ := hgood c (List.mem_of_head? hc) (of_decide_eq_true hpending) j hj
      (of_decide_eq_true hjob.1) ⟨_, List.mem_singleton_self _, hjob.2⟩
    rw [List.mem_singleton.mp hp] at hfound
    rw [hfound] at hnone
    cases hnone
  · decide

end MinRender.LockedChunks
