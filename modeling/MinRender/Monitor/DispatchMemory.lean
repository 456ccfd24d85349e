import MinRender.Monitor.AssignmentPass

/-!
# The memory of dispatched nodes

Between a dispatch and the first heartbeat that shows the node rendering, only
the dispatcher's own memory keeps it from sending the node a second chunk. Over
any number of cycles, and whatever other threads do to the database in between,
a node gets its next chunk only after a snapshot showed it rendering or gone, or
after the entry outlived its time.
-/

namespace MinRender.DispatchMemory
open DispatchManager Prog

variable {T : JsonText}

/-! ## Runs of cycles -/

/-- What one cycle read and handed out. -/
structure CycleRecord where
  input : CycleInput
  assignments : List Assignment
deriving DecidableEq, Repr

/-- Cycles one after another, each with any answers from the database. -/
inductive Cycles (T : JsonText) : CycleMemory → List CycleRecord → CycleMemory → Prop
  | nil {m} : Cycles T m [] m
  | cons {m m' m'' : CycleMemory} {input : CycleInput} {assignments : List Assignment}
      {log : List CycleRecord} (hcycle : (update T m input).Ends (m', assignments))
      (hrest : Cycles T m' log m'') : Cycles T m (⟨input, assignments⟩ :: log) m''

/-- The peers a cycle's assignment looks at, the node itself last. -/
def snapshot (input : CycleInput) : List PeerInfo := input.peers ++ [input.localInfo]

/-- The snapshot shows the node rendering or gone. -/
def SeenTaken (input : CycleInput) (nodeId : String) : Prop :=
  ∃ p, (snapshot input).find? (·.nodeId = nodeId) = some p ∧
    (p.renderState = "rendering" ∨ p.isAlive = false)

/-- What the dispatcher reads off a peer before it looks for work. -/
structure Idle (p : PeerInfo) : Prop where
  alive : p.isAlive = true
  notStopped : p.nodeState ≠ "stopped"
  notRendering : p.renderState ≠ "rendering"
  agent : p.agentHealth = "ok"
  ready : p.readyForWork = true

/-! ## One pass -/

/-- The pass over `past` kept the entries it began with, gave their nodes nothing, and
remembers the nodes it gave work. -/
structure Remembers (nowMs : Int) (before : DispatchedNodes) (past : List PeerInfo)
    (s : AssignState) : Prop where
  kept : ∀ e ∈ before, e ∈ s.dispatched ∧ ∀ a ∈ s.assignments, a.peer.nodeId ≠ e.1
  added : ∀ a ∈ s.assignments, (a.peer.nodeId, nowMs) ∈ s.dispatched
  idle : ∀ a ∈ s.assignments, a.peer ∈ past ∧ Idle a.peer
  nodes : (s.assignments.map (·.peer.nodeId)).Nodup

theorem canTakeWork_idle {tracker : NodeFailureTracker} {nowMs : Int} {d : DispatchedNodes}
    {peer : PeerInfo} (h : canTakeWork tracker nowMs d peer = true) :
    Idle peer ∧ ∀ e ∈ d, e.1 ≠ peer.nodeId := by
  unfold canTakeWork at h
  simp only [Bool.and_eq_true, Bool.not_eq_true', List.any_eq_false, decide_eq_true_eq] at h
  obtain ⟨⟨⟨⟨⟨⟨⟨halive, hstate⟩, hrender⟩, hnone⟩, -⟩, -⟩, hhealth⟩, hready⟩ := h
  exact ⟨⟨halive, hstate, hrender, hhealth, hready⟩, hnone⟩

/-- Whatever it is answered, a turn leaves the memory or adds its peer to it. -/
theorem dispatchTo_ends {nowMs : Int} {s s' : AssignState} {peer : PeerInfo}
    (h : (dispatchTo T nowMs s peer).Ends s') :
    s' = s ∨ ∃ a, a.peer = peer ∧ s' = {
      dispatched := (peer.nodeId, nowMs) :: s.dispatched.filter (·.1 ≠ peer.nodeId)
      assignments := s.assignments ++ [a] } := by
  unfold dispatchTo at h
  obtain ⟨found, -, h⟩ := h.of_bind
  cases found with
  | none => exact .inl (ends_done.mp h)
  | some cm =>
      obtain ⟨editEpoch, -, h⟩ := h.of_bind
      obtain ⟨assigned, -, h⟩ := h.of_bind
      cases assigned with
      | false => exact .inl (ends_done.mp h)
      | true =>
          replace h : (handOver T nowMs s ⟨peer, cm.2, cm.1, editEpoch⟩).Ends s' := h
          rw [AssignmentPass.handOver_eq] at h
          split at h
          · exact .inr ⟨⟨peer, cm.2, cm.1, editEpoch⟩, rfl, ends_done.mp h⟩
          · obtain ⟨-, -, h⟩ := h.of_bind
            exact .inl (ends_done.mp h)

theorem Remembers.skip {nowMs : Int} {before : DispatchedNodes} {past : List PeerInfo}
    {s : AssignState} (h : Remembers nowMs before past s) (peer : PeerInfo) :
    Remembers nowMs before (past ++ [peer]) s where
  kept := h.kept
  added := h.added
  idle a ha := ⟨List.mem_append_left _ (h.idle a ha).1, (h.idle a ha).2⟩
  nodes := h.nodes

theorem Remembers.give {nowMs : Int} {before : DispatchedNodes} {past : List PeerInfo}
    {s : AssignState} (h : Remembers nowMs before past s) {tracker : NodeFailureTracker}
    {peer : PeerInfo} (hcan : canTakeWork tracker nowMs s.dispatched peer = true)
    {a : Assignment} (ha : a.peer = peer) :
    Remembers nowMs before (past ++ [peer]) {
      dispatched := (peer.nodeId, nowMs) :: s.dispatched.filter (·.1 ≠ peer.nodeId)
      assignments := s.assignments ++ [a] } := by
  obtain ⟨hidle, hnone⟩ := canTakeWork_idle hcan
  -- an entry of another node is not replaced
  have hstays : ∀ e ∈ s.dispatched,
      e ∈ (peer.nodeId, nowMs) :: s.dispatched.filter (·.1 ≠ peer.nodeId) := fun e he =>
    List.mem_cons_of_mem _ (List.mem_filter.mpr ⟨he, decide_eq_true (hnone e he)⟩)
  refine ⟨?_, ?_, ?_, ?_⟩
  · intro e he
    obtain ⟨hin, hothers⟩ := h.kept e he
    refine ⟨hstays e hin, fun a' ha' => ?_⟩
    rcases List.mem_append.mp ha' with ha' | ha'
    · exact hothers a' ha'
    · rw [List.mem_singleton.mp ha', ha]
      exact (hnone e hin).symm
  · intro a' ha'
    rcases List.mem_append.mp ha' with ha' | ha'
    · exact hstays _ (h.added a' ha')
    · rw [List.mem_singleton.mp ha', ha]
      exact List.mem_cons_self
  · intro a' ha'
    rcases List.mem_append.mp ha' with ha' | ha'
    · exact ⟨List.mem_append_left _ (h.idle a' ha').1, (h.idle a' ha').2⟩
    · rw [List.mem_singleton.mp ha', ha]
      exact ⟨List.mem_append_right _ List.mem_cons_self, hidle⟩
  · rw [List.map_append]
    refine h.nodes.append (List.nodup_singleton _) (List.disjoint_singleton.mpr ?_)
    intro hmem
    obtain ⟨a', ha', hid⟩ := List.mem_map.mp hmem
    exact hnone _ (h.added a' ha') (hid.trans (congrArg (·.nodeId) ha))

theorem assignWork_remembers {nowMs : Int} {tracker : NodeFailureTracker}
    {peers : List PeerInfo} {localInfo : PeerInfo} {dispatched : DispatchedNodes}
    {s : AssignState} (h : (assignWork T nowMs tracker peers localInfo dispatched).Ends s) :
    Remembers nowMs (expireDispatched (peers ++ [localInfo]) nowMs dispatched)
      (peers ++ [localInfo]) s := by
  have hstart : Remembers nowMs (expireDispatched (peers ++ [localInfo]) nowMs dispatched) []
      { dispatched := expireDispatched (peers ++ [localInfo]) nowMs dispatched } :=
    ⟨fun e he => ⟨he, fun a ha => nomatch ha⟩, fun a ha => (nomatch ha),
      fun a ha => (nomatch ha), .nil⟩
  have hend : Remembers nowMs (expireDispatched (peers ++ [localInfo]) nowMs dispatched)
      ([] ++ (peers ++ [localInfo])) s := by
    refine ends_foldlM (fun past peer s s' h hends => ?_) hstart h
    split at hends
    · rename_i hcan
      rcases dispatchTo_ends hends with rfl | ⟨a, ha, rfl⟩
      · exact h.skip peer
      · exact h.give hcan ha
    · rw [ends_done.mp hends]
      exact h.skip peer
  exact hend

/-! ## One cycle -/

theorem update_remembers {m m' : CycleMemory} {input : CycleInput}
    {assignments : List Assignment} (h : (update T m input).Ends (m', assignments)) :
    Remembers input.nowMs (expireDispatched (snapshot input) input.nowMs m.dispatched)
      (snapshot input) { dispatched := m'.dispatched, assignments } := by
  unfold update at h
  obtain ⟨-, -, h⟩ := h.of_bind
  obtain ⟨tracker, -, h⟩ := h.of_bind
  obtain ⟨-, -, h⟩ := h.of_bind
  obtain ⟨-, -, h⟩ := h.of_bind
  obtain ⟨s, hassign, h⟩ := h.of_bind
  obtain ⟨rfl, rfl⟩ := Prod.mk.inj (ends_done.mp h)
  exact assignWork_remembers hassign

/-- An entry goes with the snapshot that shows its node taken, or with its time. -/
theorem mem_expireDispatched {input : CycleInput} {d : DispatchedNodes} {e : String × Int}
    (he : e ∈ d) (hseen : ¬ SeenTaken input e.1)
    (htime : input.nowMs ≤ e.2 + dispatchedEntryTtlMs) :
    e ∈ expireDispatched (snapshot input) input.nowMs d := by
  refine List.mem_filter.mpr ⟨he, ?_⟩
  have hfresh : ¬ e.2 < input.nowMs - dispatchedEntryTtlMs := by omega
  cases hfind : (snapshot input).find? (·.nodeId = e.1) with
  | none => simp [hfresh]
  | some p =>
      have hfree : ¬ (p.renderState = "rendering" ∨ p.isAlive = false) :=
        fun htaken => hseen ⟨p, hfind, htaken⟩
      obtain ⟨hrender, halive⟩ := not_or.mp hfree
      simp [hfresh, hrender, halive]

/-- The peers of a snapshot that has every node once: a node that is given work
was not seen taken. -/
theorem Idle.not_seenTaken {input : CycleInput} {p : PeerInfo} (h : Idle p)
    (hp : p ∈ snapshot input) (hids : ((snapshot input).map (·.nodeId)).Nodup) :
    ¬ SeenTaken input p.nodeId := by
  rintro ⟨q, hfind, htaken⟩
  have hnode : q.nodeId = p.nodeId := by simpa using List.find?_some hfind
  have hsame : q = p := List.inj_on_of_nodup_map hids (List.mem_of_find?_eq_some hfind) hp hnode
  rw [hsame] at htaken
  rcases htaken with hrender | hdead
  · exact h.notRendering hrender
  · exact Bool.false_ne_true (hdead.symm.trans h.alive)

/-! ## Runs -/

theorem Cycles.split {m m' : CycleMemory} {front back : List CycleRecord}
    (h : Cycles T m (front ++ back) m') : ∃ m₁, Cycles T m front m₁ ∧ Cycles T m₁ back m' := by
  induction front generalizing m with
  | nil => exact ⟨m, .nil, h⟩
  | cons r front ih =>
      cases h with
      | cons hcycle hrest =>
          obtain ⟨m₁, hfront, hback⟩ := ih hrest
          exact ⟨m₁, .cons hcycle hfront, hback⟩

theorem Cycles.assigned_idle {m m' : CycleMemory} {log : List CycleRecord}
    (h : Cycles T m log m') : ∀ r ∈ log, (r.assignments.map (·.peer.nodeId)).Nodup ∧
      ∀ a ∈ r.assignments, a.peer ∈ snapshot r.input ∧ Idle a.peer := by
  induction h with
  | nil => exact fun r hr => nomatch hr
  | cons hcycle hrest ih =>
      have hpass := update_remembers hcycle
      exact List.forall_mem_cons.mpr ⟨⟨hpass.nodes, hpass.idle⟩, ih⟩

/-- An entry that no snapshot confirms and no clock expires keeps its node from
being given work. -/
theorem Cycles.entry_stays {m m' : CycleMemory} {log : List CycleRecord} (h : Cycles T m log m')
    {e : String × Int} (he : e ∈ m.dispatched)
    (hlog : ∀ r ∈ log, ¬ SeenTaken r.input e.1 ∧ r.input.nowMs ≤ e.2 + dispatchedEntryTtlMs) :
    ∀ r ∈ log, ∀ a ∈ r.assignments, a.peer.nodeId ≠ e.1 := by
  induction h with
  | nil => exact fun r hr => nomatch hr
  | cons hcycle hrest ih =>
      obtain ⟨⟨hseen, htime⟩, hlog⟩ := List.forall_mem_cons.mp hlog
      have hin := mem_expireDispatched he hseen htime
      obtain ⟨hkept, hothers⟩ := (update_remembers hcycle).kept e hin
      exact List.forall_mem_cons.mpr ⟨hothers, ih hkept hlog⟩

/-- **No second chunk in the dark.** In every run of cycles on a clock that does
not go back, with each node once in a snapshot, and whatever the database
answers: a cycle gives a node at most one chunk, and only one its snapshot shows
alive, idle, healthy and ready; and between two chunks for one node either more
than the entry's time passed or the snapshot of a cycle in between showed the
node rendering or gone. -/
theorem dispatch_is_confirmed (T : JsonText) (m m' : CycleMemory) (log : List CycleRecord)
    (h : Cycles T m log m')
    (hclock : log.Pairwise fun r r' => r.input.nowMs ≤ r'.input.nowMs)
    (hids : ∀ r ∈ log, ((snapshot r.input).map (·.nodeId)).Nodup) :
    (∀ r ∈ log, (r.assignments.map (·.peer.nodeId)).Nodup ∧
      ∀ a ∈ r.assignments, a.peer ∈ snapshot r.input ∧ Idle a.peer) ∧
    ∀ front r between r' back, log = front ++ r :: (between ++ r' :: back) →
      ∀ a ∈ r.assignments, ∀ a' ∈ r'.assignments, a'.peer.nodeId = a.peer.nodeId →
        r.input.nowMs + dispatchedEntryTtlMs < r'.input.nowMs ∨
          ∃ q ∈ between, SeenTaken q.input a.peer.nodeId := by
  have hidle := h.assigned_idle
  refine ⟨hidle, ?_⟩
  rintro front r between r' back rfl a ha a' ha' hnode
  by_contra hnot
  obtain ⟨htime, hunseen⟩ := not_or.mp hnot
  have hmem : r' ∈ front ++ r :: (between ++ r' :: back) := by simp
  obtain ⟨hin, hidle'⟩ := (hidle r' hmem).2 a' ha'
  obtain ⟨m₁, -, hrest⟩ := h.split
  cases hrest with
  | cons hcycle hrest =>
      have hadded := (update_remembers hcycle).added a ha
      obtain ⟨m₂, hbetween, -⟩ := (show Cycles T _ ((between ++ [r']) ++ back) m' by
        simpa using hrest).split
      have hlog := (List.pairwise_append.mp hclock).2.1
      have hlog' := (List.pairwise_append.mp (List.pairwise_cons.mp hlog).2).2.2
      refine hbetween.entry_stays hadded (fun q hq => ?_) r' (by simp) a' ha' hnode
      rcases List.mem_append.mp hq with hq | hq
      · refine ⟨fun hseen => hunseen ⟨q, hq, hseen⟩, ?_⟩
        exact (hlog' q hq r' List.mem_cons_self).trans (not_lt.mp htime)
      · rw [List.mem_singleton.mp hq]
        exact ⟨hnode ▸ hidle'.not_seenTaken hin (hids r' hmem), not_lt.mp htime⟩

/-- A worker that never heartbeats gets the first chunk, and the second once the
entry is too old. -/
def silentWorker (nowMs : Int) : CycleInput where
  nowMs := nowMs
  peers := [AssignmentPass.worker "left"]
  localInfo := { nodeState := "stopped" }

def silentCycle (m : CycleMemory) (nowMs : Int) (db : Db) :
    (CycleMemory × List Assignment) × Db :=
  (update NextChunk.emptyObject m (silentWorker nowMs)).run (DbCall.exec NextChunk.emptyObject) db

def firstSilent : (CycleMemory × List Assignment) × Db :=
  silentCycle {} 1000 AssignmentPass.twoChunks

def secondSilent : (CycleMemory × List Assignment) × Db :=
  silentCycle firstSilent.1.1 17000 firstSilent.2

def silentLog : List CycleRecord :=
  [⟨silentWorker 1000, firstSilent.1.2⟩, ⟨silentWorker 17000, secondSilent.1.2⟩]

theorem silentLog_cycles : Cycles NextChunk.emptyObject {} silentLog secondSilent.1.1 :=
  .cons (Ends.of_run _ _ AssignmentPass.twoChunks) (.cons (Ends.of_run _ _ firstSilent.2) .nil)

theorem silentLog_confirmed :
    silentLog.map (fun r => r.assignments.map (·.chunk.id)) = [[1], [2]] ∧
    (∀ r ∈ silentLog, (r.assignments.map (·.peer.nodeId)).Nodup ∧
      ∀ a ∈ r.assignments, a.peer ∈ snapshot r.input ∧ Idle a.peer) ∧
    ∀ front r between r' back, silentLog = front ++ r :: (between ++ r' :: back) →
      ∀ a ∈ r.assignments, ∀ a' ∈ r'.assignments, a'.peer.nodeId = a.peer.nodeId →
        r.input.nowMs + dispatchedEntryTtlMs < r'.input.nowMs ∨
          ∃ q ∈ between, SeenTaken q.input a.peer.nodeId :=
  ⟨by decide, dispatch_is_confirmed NextChunk.emptyObject {} _ silentLog silentLog_cycles
    (by simp [silentLog, silentWorker])
    (by simp [silentLog, silentWorker, snapshot, AssignmentPass.worker])⟩

end MinRender.DispatchMemory
