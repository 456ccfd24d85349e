import MinRender.Monitor.ChunkTable
import MinRender.Monitor.DispatchManager
import MinRender.Monitor.NextChunk

/-!
# One assignment pass

`assignWork` offers every peer in turn the first chunk it can render. A pass
that no other thread cuts into hands out distinct chunks to distinct peers,
touches no other row but the epoch of those it had to take back, and is
maximal: a peer that could work and got nothing has nothing left to render, or
refused what it was offered.
-/

namespace MinRender.AssignmentPass
open DatabaseManager DispatchManager NextChunk Table

variable (T : JsonText) (nowMs : Int)

/-! ## What a pass does -/

/-- An eligible chunk, for a peer. -/
abbrev CanRender (db : Db) (peer : PeerInfo) (j : JobRow) (c : ChunkRecord) : Prop :=
  Eligible T db peer.tags (fun failedOn => peer.nodeId = "" ∨ peer.nodeId ∉ failedOn) j c

/-- The hand-over goes through: the peer has an address, or it is this node and
the manifest can be read. -/
def accepts (peer : PeerInfo) (manifestJson : String) : Bool :=
  if peer.isLocal then (T.manifest? manifestJson).isSome
  else (parseEndpoint peer.endpoint).1 ≠ ""

/-- What a pass makes of a row. One that was handed out and taken back keeps the
epoch it was stamped with. -/
inductive PassRow (db : Db) (assignments : List Assignment) : ChunkRecord → ChunkRecord → Prop
  | given {c a} (ha : a ∈ assignments) (hid : a.chunk.id = c.id) (hs : c.state = .pending) :
      PassRow db assignments c (assignedRow c a.peer.nodeId nowMs a.editEpoch)
  | left {c} (hnone : ∀ a ∈ assignments, a.chunk.id ≠ c.id) : PassRow db assignments c c
  | returned {c} (hnone : ∀ a ∈ assignments, a.chunk.id ≠ c.id) (hs : c.state = .pending) :
      PassRow db assignments c { c with editEpoch := getJobEditEpoch db c.jobId }

/-- An assignment that the database before the pass bears out. -/
structure Sound (db : Db) (a : Assignment) : Prop where
  accepted : accepts T a.peer a.manifestJson = true
  epoch : a.editEpoch = getJobEditEpoch db a.chunk.jobId
  chunk : ∃ j c, CanRender T db a.peer j c ∧ a.chunk = ChunkRow.toDispatch c ∧
    a.manifestJson = j.manifestJson

/-- Nothing the assignment's node could render comes before its chunk: no chunk
of a job listed earlier, and none of its own job that starts earlier. -/
def NothingBefore (db : Db) (a : Assignment) : Prop :=
  ∃ front j back, jobRows db = front ++ j :: back ∧ j.jobId = a.chunk.jobId ∧
    (∀ j' ∈ front, ∀ c, ¬ CanRender T db a.peer j' c) ∧
    ∀ c, CanRender T db a.peer j c → a.chunk.frameStart ≤ c.frameStart

/-- What became of a peer that could take work. -/
inductive Served (db db' : Db) (assignments : List Assignment) (peer : PeerInfo) : Prop
  | given (a : Assignment) (ha : a ∈ assignments) (hnode : a.peer.nodeId = peer.nodeId)
  | nothingLeft (hnone : ∀ j ∈ jobRows db', ∀ c, ¬ CanRender T db' peer j c)
  | refused (j : JobRow) (c : ChunkRecord) (hcan : CanRender T db peer j c)
      (hrefuses : accepts T peer j.manifestJson = false)

/-- The pass from `db` to `db'` over `peers`, with the nodes in `dispatched`
passed over. -/
structure Pass (tracker : NodeFailureTracker) (dispatched : DispatchedNodes) (db : Db)
    (peers : List PeerInfo) (s : AssignState) (db' : Db) : Prop where
  jobs : db'.jobs = db.jobs
  rows : List.Forall₂ (PassRow nowMs db s.assignments) db.chunks db'.chunks
  table : ChunkTable db'
  nodes : (s.assignments.map (·.peer.nodeId)).Nodup
  chunks : (s.assignments.map (·.chunk.id)).Nodup
  guarded : ∀ a ∈ s.assignments, a.peer ∈ peers ∧
    canTakeWork tracker nowMs dispatched a.peer = true
  sound : ∀ a ∈ s.assignments, Sound T db a
  ordered : ∀ a ∈ s.assignments, NothingBefore T db' a
  served : ∀ peer ∈ peers, canTakeWork tracker nowMs dispatched peer = true →
    Served T db db' s.assignments peer
  memory : ∀ nodeId, (∃ e ∈ s.dispatched, e.1 = nodeId) ↔
    (∃ e ∈ dispatched, e.1 = nodeId) ∨ ∃ a ∈ s.assignments, a.peer.nodeId = nodeId

/-! ## One turn -/

variable {T nowMs}

/-- A peer's turn, by what came of it. -/
inductive Turn (T : JsonText) (nowMs : Int) (db : Db) (peer : PeerInfo) (s : AssignState) :
    AssignState → Db → Prop
  | idle (hnone : ∀ j ∈ jobRows db, ∀ c, ¬ CanRender T db peer j c) : Turn T nowMs db peer s s db
  | refused (j : JobRow) (c : ChunkRecord)
      (hfirst : First T db peer.tags
        (fun failedOn => peer.nodeId = "" ∨ peer.nodeId ∉ failedOn) j c)
      (hrefuses : accepts T peer j.manifestJson = false) :
      Turn T nowMs db peer s s ((DbCall.revertChunkToPending c.jobId c.frameStart c.frameEnd).after
        T ((DbCall.assignChunk c.id peer.nodeId nowMs (getJobEditEpoch db c.jobId)).after T db))
  | given (j : JobRow) (c : ChunkRecord)
      (hfirst : First T db peer.tags
        (fun failedOn => peer.nodeId = "" ∨ peer.nodeId ∉ failedOn) j c)
      (haccepts : accepts T peer j.manifestJson = true) :
      Turn T nowMs db peer s
        { dispatched := (peer.nodeId, nowMs) :: s.dispatched.filter (·.1 ≠ peer.nodeId)
          assignments := s.assignments ++ [{
            peer, manifestJson := j.manifestJson, chunk := ChunkRow.toDispatch c
            editEpoch := getJobEditEpoch db c.jobId }] }
        ((DbCall.assignChunk c.id peer.nodeId nowMs (getJobEditEpoch db c.jobId)).after T db)

/-- The chunk that was found is pending, so the assignment succeeds. -/
theorem assignChunk_hits {db : Db} {c : ChunkRecord} (hc : c ∈ db.chunks)
    (hs : c.state = .pending) (nodeId : String) (nowMs epoch : Int) :
    (assignChunk db c.id nodeId nowMs epoch).1 = true := by
  unfold assignChunk
  exact decide_eq_true (hits_pos.mpr ⟨c, hc, decide_eq_true ⟨rfl, hs⟩⟩)

theorem finds_first (T : JsonText) (db : Db) (peer : PeerInfo) :
    PicksFirst T db peer.tags (fun failedOn => peer.nodeId = "" ∨ peer.nodeId ∉ failedOn)
      (findNextPendingChunkForNode T db peer.tags peer.nodeId) :=
  (findNext_eq peer.nodeId).symm ▸ findSome?_offer

theorem handOver_eq (s : AssignState) (a : Assignment) :
    handOver T nowMs s a =
      if accepts T a.peer a.manifestJson then
        pure { s with
          dispatched := (a.peer.nodeId, nowMs) :: s.dispatched.filter (·.1 ≠ a.peer.nodeId)
          assignments := s.assignments ++ [a] }
      else do
        let _ ← query (.revertChunkToPending a.chunk.jobId a.chunk.frameStart a.chunk.frameEnd)
        return s := rfl

theorem turn_of_dispatchTo (db : Db) (peer : PeerInfo) (s : AssignState) :
    Turn T nowMs db peer s ((dispatchTo T nowMs s peer).run (DbCall.exec T) db).1
      ((dispatchTo T nowMs s peer).run (DbCall.exec T) db).2 := by
  obtain ⟨hnothing, hpick⟩ := finds_first T db peer
  unfold dispatchTo
  rw [Prog.ask_bind, Prog.run_call]
  have hreply : DbCall.exec T (.findNextPendingChunkForNode peer.tags peer.nodeId) db =
      (findNextPendingChunkForNode T db peer.tags peer.nodeId, db) := rfl
  rw [hreply]
  dsimp only
  cases hfound : findNextPendingChunkForNode T db peer.tags peer.nodeId with
  | none => exact .idle (hnothing.mp hfound)
  | some found =>
      obtain ⟨j, c, hfirst, rfl⟩ := hpick found hfound
      have hhits := assignChunk_hits hfirst.eligible.stored hfirst.eligible.pending peer.nodeId
        nowMs (getJobEditEpoch db c.jobId)
      have hepoch : DbCall.exec T (.getJobEditEpoch (ChunkRow.toDispatch c).jobId) db =
          (getJobEditEpoch db c.jobId, db) := rfl
      dsimp only
      rw [Prog.ask_bind, Prog.run_call, hepoch, Prog.ask_bind, Prog.run_call]
      dsimp only
      split
      case isFalse hfails => exact absurd hhits hfails
      case isTrue =>
        rw [handOver_eq]
        cases haccepts : accepts T peer j.manifestJson with
        | true => exact .given j c hfirst haccepts
        | false => exact .refused j c hfirst haccepts

/-! ## The rows of a turn -/

theorem rangesUnique_of_table {db : Db} (h : ChunkTable db) : db.RangesUnique := by
  have hself : ∀ k ∈ db.chunks.map (·.key), k.2.frameStart ≤ k.2.frameEnd := by
    intro k hk
    obtain ⟨c, hc, rfl⟩ := List.mem_map.mp hk
    exact (h.rows c hc).range
  refine h.apart.imp_of_mem ?_
  rintro k k' hk - hapart rfl
  have hrange := hself k hk
  rcases hapart rfl with hbefore | hbefore
  · exact absurd hrange (not_le.mpr hbefore)
  · exact absurd hrange (not_le.mpr hbefore)

/-- The row of a chunk's range is the chunk's own. -/
theorem inRange_iff {db : Db} (h : ChunkTable db) {c d : ChunkRecord} (hc : c ∈ db.chunks)
    (hd : d ∈ db.chunks) : inRange c.jobId c.frameStart c.frameEnd d = true ↔ d.id = c.id := by
  have hself : inRange c.jobId c.frameStart c.frameEnd c = true := by simp [inRange]
  constructor
  · intro hin
    rw [(rangesUnique_of_table h).eq_of_inRange hc hd hself hin]
  · intro hid
    rwa [db.chunk_ext hd hc hid]

/-- A given chunk's row is the one that changes. -/
theorem rows_of_given {db : Db} {c : ChunkRecord} (hc : c ∈ db.chunks) (hs : c.state = .pending)
    (a : Assignment) (hid : a.chunk.id = c.id) :
    List.Forall₂ (PassRow nowMs db [a]) db.chunks
      ((DbCall.assignChunk c.id a.peer.nodeId nowMs a.editEpoch).after T db).chunks := by
  show List.Forall₂ _ db.chunks (Table.update _ _ db.chunks)
  unfold Table.update
  rw [List.forall₂_map_right_iff, List.forall₂_same]
  intro d hd
  by_cases hdc : d.id = c.id
  · rw [db.chunk_ext hd hc hdc, if_pos (decide_eq_true ⟨rfl, hs⟩)]
    exact .given List.mem_cons_self hid hs
  · rw [if_neg fun hhit => hdc (of_decide_eq_true hhit).1]
    refine .left fun a' ha' => ?_
    rw [List.mem_singleton.mp ha', hid]
    exact Ne.symm hdc

/-- A chunk that was taken back keeps the epoch, and nothing else of its row changes. -/
theorem rows_of_refused {db : Db} (h : ChunkTable db) {c : ChunkRecord} (hc : c ∈ db.chunks)
    (hs : c.state = .pending) (nodeId : String) :
    List.Forall₂ (PassRow nowMs db []) db.chunks
      ((DbCall.revertChunkToPending c.jobId c.frameStart c.frameEnd).after T
        ((DbCall.assignChunk c.id nodeId nowMs (getJobEditEpoch db c.jobId)).after T
          db)).chunks := by
  show List.Forall₂ _ db.chunks (Table.update _ _ (Table.update _ _ db.chunks))
  unfold Table.update
  rw [List.map_map, List.forall₂_map_right_iff, List.forall₂_same]
  intro d hd
  simp only [Function.comp_apply]
  by_cases hdc : d.id = c.id
  · rw [db.chunk_ext hd hc hdc, if_pos (decide_eq_true ⟨rfl, hs⟩),
      if_pos (show inRange c.jobId c.frameStart c.frameEnd _ = true by simp [inRange])]
    obtain ⟨hto, hat⟩ := (h.rows c hc).unassigned (.inl hs)
    have hback : toPending { c with
        state := .assigned, assignedTo := some nodeId, assignedAtMs := some nowMs
        editEpoch := getJobEditEpoch db c.jobId } =
        { c with editEpoch := getJobEditEpoch db c.jobId } := by
      simp only [toPending, ← hto, ← hat, ← hs]
    rw [hback]
    exact .returned (fun a ha => absurd ha List.not_mem_nil) hs
  · have hmiss := mt (inRange_iff h hc hd).mp hdc
    have hother : ¬ decide (d.id = c.id ∧ d.state = .pending) = true :=
      fun hhit => hdc (of_decide_eq_true hhit).1
    rw [if_neg hother, if_neg hmiss]
    exact .left fun a ha => absurd ha List.not_mem_nil

/-! ## Two turns after one another -/

/-- A row that is pending afterwards was, reads the same for a peer that looks
for work, and was given to none. -/
structure PassRow.Pending (assignments : List Assignment) (c c' : ChunkRecord) : Prop where
  state : c.state = .pending
  reads : ChunkRow.toDispatch c' = ChunkRow.toDispatch c
  failedOn : c'.failedOn = c.failedOn
  free : ∀ a ∈ assignments, a.chunk.id ≠ c.id

theorem PassRow.pending {db : Db} {assignments : List Assignment} {c c' : ChunkRecord}
    (h : PassRow nowMs db assignments c c') (hs : c'.state = .pending) :
    PassRow.Pending assignments c c' := by
  cases h with
  | given => cases hs
  | left hnone => exact ⟨hs, rfl, rfl, hnone⟩
  | returned hnone hp => exact ⟨hp, rfl, rfl, hnone⟩

/-- Where a pending row of the later table comes from. -/
theorem pending_before {db db' : Db} {assignments : List Assignment}
    (hrows : List.Forall₂ (PassRow nowMs db assignments) db.chunks db'.chunks)
    {c' : ChunkRecord} (hc' : c' ∈ db'.chunks) (hs : c'.state = .pending) :
    ∃ c ∈ db.chunks, PassRow.Pending assignments c c' := by
  have hevolves : Evolves (fun _ => true) _ (fun _ => False) db.chunks db'.chunks :=
    Evolves.of_forall₂ hrows
  rcases hevolves.mem hc' with hnew | ⟨c, hc, -, hrow⟩
  · exact hnew.elim
  · exact ⟨c, hc, hrow.pending hs⟩

theorem getJobEditEpoch_of_jobs {db db' : Db} (hjobs : db'.jobs = db.jobs) (jobId : String) :
    getJobEditEpoch db' jobId = getJobEditEpoch db jobId := by
  unfold getJobEditEpoch Db.job?
  rw [hjobs]

/-- The turns of a pass make one step of a row together. -/
theorem PassRow.trans {db db' : Db} (hjobs : db'.jobs = db.jobs) {past turn : List Assignment}
    {c c' c'' : ChunkRecord} (h : PassRow nowMs db past c c')
    (h' : PassRow nowMs db' turn c' c'') : PassRow nowMs db (past ++ turn) c c'' := by
  have hnone : (∀ a ∈ past, a.chunk.id ≠ c.id) → (∀ a ∈ turn, a.chunk.id ≠ c.id) →
      ∀ a ∈ past ++ turn, a.chunk.id ≠ c.id := by
    intro hpast hturn a ha
    rcases List.mem_append.mp ha with ha | ha
    · exact hpast a ha
    · exact hturn a ha
  have hepoch := getJobEditEpoch_of_jobs hjobs c.jobId
  cases h with
  | given ha hid hs =>
      -- the row is assigned by now, and no turn touches it again
      cases h' with
      | given _ _ hs' => cases hs'
      | left => exact .given (List.mem_append_left _ ha) hid hs
      | returned _ hs' => cases hs'
  | left hpast =>
      cases h' with
      | given ha hid hs => exact .given (List.mem_append_right _ ha) hid hs
      | left hturn => exact .left (hnone hpast hturn)
      | returned hturn hs =>
          rw [hepoch]
          exact .returned (hnone hpast hturn) hs
  | returned hpast hs =>
      cases h' with
      | given ha hid _ => exact .given (List.mem_append_right _ ha) hid hs
      | left hturn => exact .returned (hnone hpast hturn) hs
      | returned hturn _ =>
          dsimp only
          rw [hepoch]
          exact .returned (hnone hpast hturn) hs

/-- A turn changes no job, keeps the table, and steps its rows. -/
theorem Turn.step {db db' : Db} {peer : PeerInfo} {s s' : AssignState}
    (h : Turn T nowMs db peer s s' db') (htable : ChunkTable db) :
    db'.jobs = db.jobs ∧ ChunkTable db' ∧ ∃ turn, s'.assignments = s.assignments ++ turn ∧
      List.Forall₂ (PassRow nowMs db turn) db.chunks db'.chunks := by
  have hnone : ∀ c ∈ db.chunks, PassRow nowMs db [] c c :=
    fun c _ => .left fun a ha => absurd ha List.not_mem_nil
  have hkeep : ∀ {db : Db} {call : DbCall}, ChunkTable db →
      (∀ jobId ranges, call ≠ .insertChunks jobId ranges ∧ call ≠ .rebuildChunks jobId ranges) →
      ChunkTable (call.after T db) := chunkTable_after
  cases h with
  | idle => exact ⟨rfl, htable, [], (List.append_nil _).symm, List.forall₂_same.mpr hnone⟩
  | refused j c hfirst hrefuses =>
      refine ⟨rfl, hkeep (hkeep htable ?_) ?_, [], (List.append_nil _).symm,
        rows_of_refused htable hfirst.eligible.stored hfirst.eligible.pending peer.nodeId⟩
      · exact fun _ _ => ⟨nofun, nofun⟩
      · exact fun _ _ => ⟨nofun, nofun⟩
  | given j c hfirst haccepts =>
      refine ⟨rfl, hkeep htable ?_, _, rfl, ?_⟩
      · exact fun _ _ => ⟨nofun, nofun⟩
      · exact rows_of_given hfirst.eligible.stored hfirst.eligible.pending
          { peer, manifestJson := j.manifestJson, chunk := ChunkRow.toDispatch c
            editEpoch := getJobEditEpoch db c.jobId } rfl

/-! ## What is left to render -/

/-- What a peer can render after some turns, it could render before them. -/
theorem canRender_before {db db' : Db} {assignments : List Assignment} {peer : PeerInfo}
    (hrows : List.Forall₂ (PassRow nowMs db assignments) db.chunks db'.chunks)
    {j : JobRow} {c' : ChunkRecord} (h : CanRender T db' peer j c') :
    ∃ c, CanRender T db peer j c ∧ ChunkRow.toDispatch c' = ChunkRow.toDispatch c := by
  obtain ⟨c, hc, hrow⟩ := pending_before hrows h.stored h.pending
  refine ⟨c, ⟨h.active, h.carries, hc, ?_, hrow.state, hrow.failedOn ▸ h.free⟩, hrow.reads⟩
  have hjob : c'.jobId = c.jobId := congrArg (·.jobId) hrow.reads
  exact hjob.symm.trans h.owned

theorem jobRows_of_jobs {db db' : Db} (hjobs : db'.jobs = db.jobs) :
    jobRows db' = jobRows db := by
  unfold jobRows getAllJobs jobsInOrder
  rw [hjobs, List.map_map, List.map_map]
  rfl

theorem NothingBefore.after {db db' : Db} {a : Assignment} {assignments : List Assignment}
    (hjobs : db'.jobs = db.jobs)
    (hrows : List.Forall₂ (PassRow nowMs db assignments) db.chunks db'.chunks)
    (h : NothingBefore T db a) : NothingBefore T db' a := by
  obtain ⟨front, j, back, hsplit, hjob, hfront, hleast⟩ := h
  refine ⟨front, j, back, (jobRows_of_jobs hjobs).trans hsplit, hjob, ?_, ?_⟩
  · intro j' hj' c' hc'
    obtain ⟨c, hc, -⟩ := canRender_before hrows hc'
    exact hfront j' hj' c hc
  · intro c' hc'
    obtain ⟨c, hc, hreads⟩ := canRender_before hrows hc'
    have hstart : c'.frameStart = c.frameStart := congrArg (·.frameStart) hreads
    rw [hstart]
    exact hleast c hc

theorem nothingLeft_after {db db' : Db} {peer : PeerInfo} {assignments : List Assignment}
    (hjobs : db'.jobs = db.jobs)
    (hrows : List.Forall₂ (PassRow nowMs db assignments) db.chunks db'.chunks)
    (h : ∀ j ∈ jobRows db, ∀ c, ¬ CanRender T db peer j c) :
    ∀ j ∈ jobRows db', ∀ c, ¬ CanRender T db' peer j c := by
  intro j hj c' hc'
  obtain ⟨c, hc, -⟩ := canRender_before hrows hc'
  exact h j (jobRows_of_jobs hjobs ▸ hj) c hc

/-! ## The pass -/

section Pass

variable {tracker : NodeFailureTracker} {dispatched : DispatchedNodes} {db db₁ db₂ : Db}
  {peers : List PeerInfo} {peer : PeerInfo} {s₁ s₂ : AssignState}

theorem pass_start (htable : ChunkTable db) :
    Pass T nowMs tracker dispatched db [] { dispatched } db where
  jobs := rfl
  rows := List.forall₂_same.mpr fun _ _ => .left fun _ ha => nomatch ha
  table := htable
  nodes := .nil
  chunks := .nil
  guarded _ ha := nomatch ha
  sound _ ha := nomatch ha
  ordered _ ha := nomatch ha
  served _ hp := nomatch hp
  memory _ := ⟨.inl, fun h => h.elim id fun ⟨_, ha, _⟩ => nomatch ha⟩

/-- The nodes a pass passes over are those it started with and those it gave work. -/
theorem Pass.canTakeWork_iff (h : Pass T nowMs tracker dispatched db peers s₁ db₁) :
    canTakeWork tracker nowMs s₁.dispatched peer = true ↔
      canTakeWork tracker nowMs dispatched peer = true ∧
        ∀ a ∈ s₁.assignments, a.peer.nodeId ≠ peer.nodeId := by
  have hany : ∀ d : DispatchedNodes,
      d.any (·.1 = peer.nodeId) = true ↔ ∃ e ∈ d, e.1 = peer.nodeId := by
    intro d
    simp only [List.any_eq_true, decide_eq_true_eq]
  have hmem := h.memory peer.nodeId
  unfold canTakeWork
  simp only [Bool.and_eq_true, Bool.not_eq_true', ← Bool.not_eq_true, hany, hmem]
  constructor
  · rintro ⟨⟨⟨⟨⟨hfirst, hnone⟩, hsuspended⟩, hcooldown⟩, hhealth⟩, hready⟩
    refine ⟨⟨⟨⟨⟨⟨hfirst, fun hold => hnone (.inl hold)⟩, hsuspended⟩, hcooldown⟩, hhealth⟩,
      hready⟩, fun a ha hid => hnone (.inr ⟨a, ha, hid⟩)⟩
  · rintro ⟨⟨⟨⟨⟨⟨hfirst, hold⟩, hsuspended⟩, hcooldown⟩, hhealth⟩, hready⟩, hnew⟩
    refine ⟨⟨⟨⟨⟨hfirst, ?_⟩, hsuspended⟩, hcooldown⟩, hhealth⟩, hready⟩
    rintro (h' | ⟨a, ha, hid⟩)
    · exact hold h'
    · exact hnew a ha hid

/-- What a turn leaves of the pass so far. -/
theorem Pass.rows_after (h : Pass T nowMs tracker dispatched db peers s₁ db₁)
    {turn : List Assignment}
    (hturn : List.Forall₂ (PassRow nowMs db₁ turn) db₁.chunks db₂.chunks) :
    List.Forall₂ (PassRow nowMs db (s₁.assignments ++ turn)) db.chunks db₂.chunks :=
  forall₂_trans (R := PassRow nowMs db s₁.assignments) (S := PassRow nowMs db₁ turn)
    (fun _ _ _ hpast hrow => PassRow.trans h.jobs hpast hrow) h.rows hturn

theorem Pass.ordered_after (h : Pass T nowMs tracker dispatched db peers s₁ db₁)
    {turn : List Assignment} (hjobs : db₂.jobs = db₁.jobs)
    (hturn : List.Forall₂ (PassRow nowMs db₁ turn) db₁.chunks db₂.chunks) :
    ∀ a ∈ s₁.assignments, NothingBefore T db₂ a :=
  fun a ha => (h.ordered a ha).after hjobs hturn

theorem Pass.served_after (h : Pass T nowMs tracker dispatched db peers s₁ db₁)
    {turn : List Assignment} (hjobs : db₂.jobs = db₁.jobs)
    (hturn : List.Forall₂ (PassRow nowMs db₁ turn) db₁.chunks db₂.chunks) :
    ∀ p ∈ peers, canTakeWork tracker nowMs dispatched p = true →
      Served T db db₂ (s₁.assignments ++ turn) p := by
  intro p hp hcan
  cases h.served p hp hcan with
  | given a ha hnode => exact .given a (List.mem_append_left _ ha) hnode
  | nothingLeft hnone => exact .nothingLeft (nothingLeft_after hjobs hturn hnone)
  | refused j c hcanRender hrefuses => exact .refused j c hcanRender hrefuses

/-- A chunk that is still pending was given to nobody. -/
theorem Pass.not_given (h : Pass T nowMs tracker dispatched db peers s₁ db₁) {c : ChunkRecord}
    (hc : c ∈ db₁.chunks) (hs : c.state = .pending) :
    ∀ a ∈ s₁.assignments, a.chunk.id ≠ c.id := by
  intro a ha hid
  obtain ⟨c₀, -, hrow⟩ := pending_before h.rows hc hs
  have hsame : c.id = c₀.id := congrArg (·.id) hrow.reads
  exact hrow.free a ha (hid.trans hsame)

/-- A node that is remembered replaces its own entry. -/
theorem mem_remember (d : DispatchedNodes) (nodeId other : String) :
    (∃ e ∈ (nodeId, nowMs) :: d.filter (·.1 ≠ nodeId), e.1 = other) ↔
      other = nodeId ∨ ∃ e ∈ d, e.1 = other := by
  constructor
  · rintro ⟨e, he, rfl⟩
    rcases List.mem_cons.mp he with rfl | he
    · exact .inl rfl
    · exact .inr ⟨e, (List.mem_filter.mp he).1, rfl⟩
  · rintro (rfl | ⟨e, he, rfl⟩)
    · exact ⟨_, List.mem_cons_self, rfl⟩
    · by_cases hsame : e.1 = nodeId
      · exact ⟨_, List.mem_cons_self, hsame.symm⟩
      · exact ⟨e, List.mem_cons_of_mem _ (List.mem_filter.mpr ⟨he, decide_eq_true hsame⟩), rfl⟩

/-- A peer that is passed over. -/
theorem Pass.skip (h : Pass T nowMs tracker dispatched db peers s₁ db₁)
    (hskip : canTakeWork tracker nowMs s₁.dispatched peer = false) :
    Pass T nowMs tracker dispatched db (peers ++ [peer]) s₁ db₁ where
  jobs := h.jobs
  rows := h.rows
  table := h.table
  nodes := h.nodes
  chunks := h.chunks
  guarded a ha := ⟨List.mem_append_left _ (h.guarded a ha).1, (h.guarded a ha).2⟩
  sound := h.sound
  ordered := h.ordered
  memory := h.memory
  served p hp hcan := by
    rcases List.mem_append.mp hp with hp | hp
    · exact h.served p hp hcan
    · -- it could take work when the pass began, so it was given some
      obtain rfl := List.mem_singleton.mp hp
      by_contra hnot
      refine Bool.eq_false_iff.mp hskip (h.canTakeWork_iff.mpr ⟨hcan, fun a ha hnode => ?_⟩)
      exact hnot (.given a ha hnode)

/-- A peer that gets no chunk. -/
theorem Pass.unserved (h : Pass T nowMs tracker dispatched db peers s₁ db₁)
    (hjobs : db₂.jobs = db₁.jobs) (htable : ChunkTable db₂)
    (hturn : List.Forall₂ (PassRow nowMs db₁ []) db₁.chunks db₂.chunks)
    (hserved : Served T db db₂ s₁.assignments peer) :
    Pass T nowMs tracker dispatched db (peers ++ [peer]) s₁ db₂ where
  jobs := hjobs.trans h.jobs
  rows := by simpa using h.rows_after hturn
  table := htable
  nodes := h.nodes
  chunks := h.chunks
  guarded a ha := ⟨List.mem_append_left _ (h.guarded a ha).1, (h.guarded a ha).2⟩
  sound := h.sound
  ordered := h.ordered_after hjobs hturn
  memory := h.memory
  served p hp hcan := by
    rcases List.mem_append.mp hp with hp | hp
    · simpa using h.served_after hjobs hturn p hp hcan
    · exact List.mem_singleton.mp hp ▸ hserved

/-- A peer that gets a chunk. -/
theorem Pass.give (h : Pass T nowMs tracker dispatched db peers s₁ db₁)
    (hcan : canTakeWork tracker nowMs s₁.dispatched peer = true) {j : JobRow} {c : ChunkRecord}
    (hfirst : First T db₁ peer.tags
      (fun failedOn => peer.nodeId = "" ∨ peer.nodeId ∉ failedOn) j c) {a : Assignment}
    (haccepts : accepts T peer j.manifestJson = true)
    (ha : a = { peer, manifestJson := j.manifestJson, chunk := ChunkRow.toDispatch c
                editEpoch := getJobEditEpoch db₁ c.jobId })
    (hjobs : db₂.jobs = db₁.jobs) (htable : ChunkTable db₂)
    (hturn : List.Forall₂ (PassRow nowMs db₁ [a]) db₁.chunks db₂.chunks) :
    Pass T nowMs tracker dispatched db (peers ++ [peer])
      { dispatched := (peer.nodeId, nowMs) :: s₁.dispatched.filter (·.1 ≠ peer.nodeId)
        assignments := s₁.assignments ++ [a] } db₂ := by
  obtain ⟨hcan, hfresh⟩ := h.canTakeWork_iff.mp hcan
  have hnode : a.peer = peer := by rw [ha]
  obtain ⟨front, back, hsplit, hfront⟩ := hfirst.first
  refine {
    jobs := hjobs.trans h.jobs
    rows := h.rows_after hturn
    table := htable
    nodes := ?_
    chunks := ?_
    guarded := ?_
    sound := ?_
    ordered := ?_
    served := ?_
    memory := ?_ }
  · rw [List.map_append]
    refine h.nodes.append (List.nodup_singleton _) (List.disjoint_singleton.mpr ?_)
    intro hmem
    obtain ⟨a', ha', hid⟩ := List.mem_map.mp hmem
    exact hfresh a' ha' (hid.trans (congrArg _ hnode))
  · rw [List.map_append]
    refine h.chunks.append (List.nodup_singleton _) (List.disjoint_singleton.mpr ?_)
    intro hmem
    obtain ⟨a', ha', hid⟩ := List.mem_map.mp hmem
    have hchunk : a.chunk.id = c.id := by rw [ha]; rfl
    exact h.not_given hfirst.eligible.stored hfirst.eligible.pending a' ha' (hid.trans hchunk)
  · intro a' ha'
    rcases List.mem_append.mp ha' with ha' | ha'
    · exact ⟨List.mem_append_left _ (h.guarded a' ha').1, (h.guarded a' ha').2⟩
    · rw [List.mem_singleton.mp ha', hnode]
      exact ⟨List.mem_append_right _ List.mem_cons_self, hcan⟩
  · intro a' ha'
    rcases List.mem_append.mp ha' with ha' | ha'
    · exact h.sound a' ha'
    · obtain ⟨c₀, hc₀, hreads⟩ := canRender_before h.rows hfirst.eligible
      rw [List.mem_singleton.mp ha', ha]
      exact ⟨haccepts, getJobEditEpoch_of_jobs h.jobs _, j, c₀, hc₀, hreads, rfl⟩
  · intro a' ha'
    rcases List.mem_append.mp ha' with ha' | ha'
    · exact h.ordered_after hjobs hturn a' ha'
    · rw [List.mem_singleton.mp ha', ha]
      refine NothingBefore.after hjobs hturn ⟨front, j, back, hsplit, ?_, hfront, hfirst.least⟩
      exact hfirst.eligible.owned.symm
  · intro p hp hp'
    rcases List.mem_append.mp hp with hp | hp
    · exact h.served_after hjobs hturn p hp hp'
    · rw [List.mem_singleton.mp hp]
      exact .given a (List.mem_append_right _ List.mem_cons_self) (congrArg _ hnode)
  · intro nodeId
    rw [mem_remember, h.memory nodeId]
    simp only [List.mem_append, List.mem_singleton, or_and_right, exists_or, exists_eq_left, hnode]
    rw [or_comm, or_assoc, eq_comm]

/-- **A turn extends the pass by its peer.** -/
theorem Pass.turn (h : Pass T nowMs tracker dispatched db peers s₁ db₁)
    (hcan : canTakeWork tracker nowMs s₁.dispatched peer = true)
    (hturn : Turn T nowMs db₁ peer s₁ s₂ db₂) :
    Pass T nowMs tracker dispatched db (peers ++ [peer]) s₂ db₂ := by
  have hstep := hturn.step h.table
  cases hturn with
  | idle hnone =>
      have hsame : List.Forall₂ (PassRow nowMs db₁ []) db₁.chunks db₁.chunks :=
        List.forall₂_same.mpr fun c _ => .left fun a ha => absurd ha List.not_mem_nil
      exact h.unserved rfl h.table hsame (.nothingLeft hnone)
  | refused j c hfirst hrefuses =>
      obtain ⟨hjobs, htable, turn, hassign, hrows⟩ := hstep
      obtain rfl : turn = [] := by simpa using hassign
      obtain ⟨c₀, hcan₀, -⟩ := canRender_before h.rows hfirst.eligible
      exact h.unserved hjobs htable hrows (.refused j c₀ hcan₀ hrefuses)
  | given j c hfirst haccepts =>
      obtain ⟨hjobs, htable, turn, hassign, hrows⟩ := hstep
      rw [← List.append_cancel_left hassign] at hrows
      exact h.give hcan hfirst haccepts rfl hjobs htable hrows

end Pass

/-- One job of two chunks, which two workers share. -/
def twoChunks : Db where
  jobs := [{ jobId := "shot", manifestJson := "\x7b\x7d", submittedAtMs := 0 }]
  chunks := [.fresh 1 "shot" 1 10, .fresh 2 "shot" 11 20]
  nextChunkId := 3
  jobKey := List.nodup_singleton _
  chunkKey := by decide
  autoincrement := by decide
  foreignKey := by decide

def worker (nodeId : String) : PeerInfo where
  nodeId := nodeId
  endpoint := "10.0.0.5:8420"

theorem twoChunks_table : ChunkTable twoChunks where
  job := twoChunks.foreignKey
  rows := by
    have hfresh : ∀ id fs fe, fs ≤ fe → RowOk (.fresh id "shot" fs fe) := fun id fs fe hle =>
      ⟨hle, fun _ => ⟨rfl, rfl⟩, fun hs => (nomatch hs), ⟨.nil, fun _ hf => (nomatch hf)⟩, .nil⟩
    intro c hc
    rcases List.mem_cons.mp hc with rfl | hc
    · exact hfresh 1 1 10 (by decide)
    · rw [List.mem_singleton.mp hc]
      exact hfresh 2 11 20 (by decide)
  apart := by decide

end MinRender.AssignmentPass
