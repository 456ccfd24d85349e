import Mathlib.Logic.Function.Basic
import MinRender.Framework.Runs
import MinRender.Monitor.JobControls
import MinRender.Monitor.RenderCoordinator
import MinRender.Monitor.TableInvariants

/-!
# What an abort push kills

The leader's database and the coordinators of all nodes, with the assignment
POSTs and the abort pushes between them in flight, delivered in any order or
lost. An edit's database calls are taken as one step: a dispatch between them
could as well come before or after the edit. What nodes report reaches the
database as calls of their own.
-/

namespace MinRender.AbortPushes
open DatabaseManager MonitorApp

structure Farm where
  leader : String
  db : Db := Db.empty
  nodes : String → RenderCoordinator := fun _ => {}
  posts : List (String × PendingDispatch) := []
  pushes : List AbortPush := []

inductive Event
  /-- a call of another phase or thread -/
  | call (c : DbCall)
  /-- `assignChunk` by the dispatcher; where it hits, the dispatch goes out -/
  | assign (chunkId : Int) (nodeId : String) (nowMs : Int) (d : PendingDispatch)
  | postArrives (nodeId : String) (d : PendingDispatch) (stopped : Bool)
  | postLost (nodeId : String) (d : PendingDispatch)
  | render (nodeId : String) (call : RenderCall)
  | nodeRestarts (nodeId : String)
  | stopChunk (peers : List PeerInfo) (chunkId : Int)
  | edit (peers : List PeerInfo) (jobId manifestJson mode : String) (priority : Int)
  | pushArrives (p : AbortPush)
  | pushLost (p : AbortPush)

namespace Farm

/-- One node's coordinator after a change. -/
def setNode (s : Farm) (nodeId : String) (k : RenderCoordinator) : Farm :=
  { s with nodes := Function.update s.nodes nodeId k }

/-- `queueDispatch` on a node. -/
def give (s : Farm) (nodeId : String) (d : PendingDispatch) : Farm :=
  s.setNode nodeId
    ((s.nodes nodeId).queueDispatch d.manifest d.chunk d.editEpoch)

/-- `abandonJobRender` on a node. -/
def abandon (s : Farm) (nodeId jobId reason : String) : Farm :=
  s.setNode nodeId (abandonJobRender (s.nodes nodeId) jobId reason).1

end Farm

/-- The leader's `stopChunk`: the row's node is told, unless it is the leader
itself or its address is unknown. -/
def stopOn (s : Farm) (peers : List PeerInfo) (chunkId : Int) : Farm :=
  match DatabaseManager.stopChunk s.db chunkId with
  | (none, db) => { s with db }
  | (some row, db) =>
      let s := { s with db }
      if row.assignedTo = "" then s
      else if row.assignedTo = s.leader then
        s.abandon s.leader row.jobId "chunk stopped"
      else { s with
        pushes := s.pushes ++ (abortPush peers row.assignedTo row.jobId).toList }

def step (T : JsonText) (s : Farm) : Event → Option Farm
  | .call c => some { s with db := c.after T s.db }
  | .assign chunkId nodeId nowMs d =>
      match s.db.chunk? chunkId with
      | none => none
      | some c =>
          if (d.manifest.jobId, d.chunk) ≠ c.key then none
          else
            let (assigned, db) := assignChunk s.db chunkId nodeId nowMs d.editEpoch
            let s := { s with db }
            if ¬ assigned then some s
            else if nodeId = s.leader then some (s.give nodeId d)
            else some { s with posts := (nodeId, d) :: s.posts }
  | .postArrives nodeId d stopped =>
      if (nodeId, d) ∈ s.posts then
        let s := { s with posts := s.posts.erase (nodeId, d) }
        -- a busy or stopped worker refuses the dispatch
        if (s.nodes nodeId).activeRender.isSome ∨ stopped then some s
        else some (s.give nodeId d)
      else none
  | .postLost nodeId d =>
      if (nodeId, d) ∈ s.posts then
        some { s with posts := s.posts.erase (nodeId, d) }
      else none
  | .render nodeId call => some (s.setNode nodeId (call.apply (s.nodes nodeId)).1)
  | .nodeRestarts nodeId => some (s.setNode nodeId {})
  | .stopChunk peers chunkId => some (stopOn s peers chunkId)
  | .edit peers jobId manifestJson mode priority =>
      match (applyEditLocally T true jobId manifestJson mode priority).run
          (DbCall.exec T) s.db with
      | (none, _) => none
      | (some outcome, db) =>
          let s := { s with db }
          if outcome.reset then
            some ({ s with
              pushes := s.pushes ++
                editPushes peers s.leader jobId outcome.rendering }.abandon
              s.leader jobId "job edited")
          else some s
  | .pushArrives p =>
      if p ∈ s.pushes then
        some ({ s with pushes := s.pushes.erase p }.abandon p.nodeId p.jobId "job edited")
      else none
  | .pushLost p =>
      if p ∈ s.pushes then some { s with pushes := s.pushes.erase p } else none

def machine (T : JsonText) : Machine Farm Event := ⟨step T⟩

/-- An empty farm. -/
def start (leader : String) : Farm := { leader }

/-! ## Renders that are killed -/

/-- The row is assigned to the node under the dispatch's epoch. -/
def Matches (c : ChunkRecord) (nodeId : String) (x : Held) : Prop :=
  c.key = (x.jobId, x.chunk) ∧ c.state = .assigned ∧
    c.assignedTo = some nodeId ∧ c.editEpoch = x.editEpoch

instance (c : ChunkRecord) (nodeId : String) (x : Held) :
    Decidable (Matches c nodeId x) := by
  unfold Matches
  infer_instance

/-- The leader has the dispatch's chunk assigned to the node under its epoch. -/
def Current (db : Db) (nodeId : String) (x : Held) : Prop :=
  ∃ c ∈ db.chunks, Matches c nodeId x

/-- What a node drops when a push arrives is not current. -/
def KillsOnlyReleased (s : Farm) (e : Event) (s' : Farm) : Prop :=
  ∀ p, e = .pushArrives p → ∀ x ∈ (s.nodes p.nodeId).held,
    x ∉ (s'.nodes p.nodeId).held → ¬ Current s.db p.nodeId x

/-- The call assigns the dispatch's chunk to the node under its epoch. -/
def Assigns (db : Db) (nodeId : String) (x : Held) : DbCall → Prop
  | .assignChunk id node _ epoch =>
      node = nodeId ∧ epoch = x.editEpoch ∧
        ∃ c ∈ db.chunks, c.id = id ∧ c.key = (x.jobId, x.chunk)
  | .reassignChunk id node _ =>
      node = nodeId ∧ ∃ c ∈ db.chunks, c.id = id ∧ c.key = (x.jobId, x.chunk) ∧
        c.editEpoch = x.editEpoch
  | _ => False

/-- With a push for a node in flight, what the node holds of the job is not
assigned to it again. -/
def AssignsBesidesPushes (s : Farm) (c : DbCall) : Prop :=
  ∀ p ∈ s.pushes, ∀ x ∈ (s.nodes p.nodeId).held, x.jobId = p.jobId →
    ¬ Assigns s.db p.nodeId x c

/-- The steps that may set a push against current work do not: a dispatch that
reaches a node after a push for its job was sent is out of date; a stopped
chunk's node holds nothing current of the job but that chunk; and what a node
with a push on the way holds of the job is not assigned to it again. -/
def Careful (s : Farm) (e : Event) (_ : Farm) : Prop :=
  match e with
  | .call c => AssignsBesidesPushes s c
  | .assign chunkId nodeId nowMs d =>
      AssignsBesidesPushes s (.assignChunk chunkId nodeId nowMs d.editEpoch)
  | .postArrives nodeId d _ =>
      ∀ p ∈ s.pushes, p.nodeId = nodeId → p.jobId = d.manifest.jobId →
        ¬ Current s.db nodeId d.held
  | .stopChunk _ chunkId =>
      ∀ c ∈ s.db.chunks, c.id = chunkId → ∀ nodeId ∈ c.assignedTo,
        ∀ x ∈ (s.nodes nodeId).held, x.jobId = c.jobId →
          ∀ c' ∈ s.db.chunks, c'.id ≠ chunkId → ¬ Matches c' nodeId x
  | _ => True

/-! ## What database calls do to current dispatches -/

variable {T : JsonText} {db : Db} {c : DbCall} {nodeId : String} {x : Held}

/-- A dispatch that is current after a call was current, or the call assigned
its chunk. -/
theorem current_after (h : Current (c.after T db) nodeId x) :
    Current db nodeId x ∨ Assigns db nodeId x c := by
  obtain ⟨r', hr', hkey, hs, hto, hep⟩ := h
  obtain ⟨r, hr, -, hstep, hby⟩ := assigned_after hr' hs
  have hkey₀ : r.key = (x.jobId, x.chunk) := hstep.key_eq.symm.trans hkey
  cases hby with
  | before hs₀ hto₀ hep₀ =>
      exact .inl ⟨r, hr, hkey₀, hs₀, hto₀.symm.trans hto, hep₀.symm.trans hep⟩
  | dispatch hid hp =>
      exact .inr ⟨Option.some.inj hto, hep, r, hr, hid, hkey₀⟩
  | reassign hn hrr =>
      exact .inr ⟨Option.some.inj hto, r, hr, (of_decide_eq_true hrr).1, hkey₀, hep⟩

theorem not_current_after (h : ¬ Current db nodeId x) (hc : ¬ Assigns db nodeId x c) :
    ¬ Current (c.after T db) nodeId x := fun hcur =>
  (current_after hcur).elim h hc

/-- After a restart's or startover's reset no chunk of the job is assigned. -/
theorem not_assigned_after_reset {jobId : String} (h : IsReset jobId c)
    {r : ChunkRecord} (hr : r ∈ (c.after T db).chunks) (hj : r.jobId = jobId) :
    r.state ≠ .assigned := by
  intro hs
  obtain rfl | ⟨ranges, -, rfl⟩ := h
  · obtain ⟨r₀, hr₀, rfl⟩ := Table.mem_update.mp hr
    split at hs
    · cases hs
    · rename_i hmiss
      rw [if_neg hmiss] at hj
      exact hmiss (decide_eq_true ⟨hj, hs⟩)
  · obtain ⟨r₀, -, hkeep, hstep, -⟩ := assigned_after hr hs
    have hj₀ : r₀.jobId = jobId := hstep.jobId_eq.symm.trans hj
    simp [DbCall.keepsRow, hj₀] at hkeep

/-- What a stop that hits leaves: the row's job and node, and no assigned row
under its id. -/
theorem stopChunk_spec {chunkId : Int} {row : ChunkRow}
    (h : (DatabaseManager.stopChunk db chunkId).1 = some row) :
    (∃ r ∈ db.chunks, r.id = chunkId ∧ row.jobId = r.jobId ∧
      row.assignedTo = r.assignedTo.getD "") ∧
    ∀ r ∈ (DatabaseManager.stopChunk db chunkId).2.chunks, r.id = chunkId →
      r.state ≠ .assigned := by
  unfold DatabaseManager.stopChunk at h ⊢
  split at h
  · cases h
  rename_i r hr
  obtain ⟨hmem, hid⟩ := Db.chunk?_eq_some.mp hr
  simp only [] at h
  split at h
  · cases h
  rename_i hhit
  cases h
  refine ⟨⟨r, hmem, hid, rfl, rfl⟩, fun r' hr' hid' hs => ?_⟩
  simp only [if_neg hhit] at hr'
  obtain ⟨r₀, -, rfl⟩ := Table.mem_update.mp hr'
  split at hs
  · cases hs
  · rename_i hmiss
    rw [if_neg hmiss] at hid'
    exact hmiss (decide_eq_true ⟨hid', .inr hs⟩)

/-! ## The invariant -/

/-- Pushes go to other nodes, and what their node holds of their job is not
current. -/
structure Inv (s : Farm) : Prop where
  remote : ∀ p ∈ s.pushes, p.nodeId ≠ s.leader
  released : ∀ p ∈ s.pushes, ∀ x ∈ (s.nodes p.nodeId).held, x.jobId = p.jobId →
    ¬ Current s.db p.nodeId x

variable {s s' : Farm} {e : Event}

/-- Nothing is pushed, assigned or given to a node. -/
theorem Inv.shrink (h : Inv s) (hleader : s'.leader = s.leader)
    (hpushes : ∀ p ∈ s'.pushes, p ∈ s.pushes)
    (hheld : ∀ n, ∀ x ∈ (s'.nodes n).held, x ∈ (s.nodes n).held)
    (hdb : ∀ n x, Current s'.db n x → Current s.db n x) : Inv s' where
  remote p hp := hleader ▸ h.remote p (hpushes p hp)
  released p hp x hx hj hcur :=
    h.released p (hpushes p hp) x (hheld _ x hx) hj (hdb _ x hcur)

theorem held_setNode {k : RenderCoordinator} {n : String}
    (hk : ∀ x ∈ k.held, x ∈ (s.nodes nodeId).held) :
    ∀ x ∈ ((s.setNode nodeId k).nodes n).held, x ∈ (s.nodes n).held := by
  intro x hx
  simp only [Farm.setNode] at hx
  by_cases hn : n = nodeId
  · subst hn
    rw [Function.update_self] at hx
    exact hk x hx
  · rwa [Function.update_of_ne hn] at hx

theorem held_abandon {jobId reason : String} {n : String} :
    ∀ x ∈ ((s.abandon nodeId jobId reason).nodes n).held, x ∈ (s.nodes n).held :=
  held_setNode fun _ => held_of_abandonJobRender

theorem Inv.abandon (h : Inv s) {jobId reason : String} :
    Inv (s.abandon nodeId jobId reason) :=
  h.shrink rfl (fun _ hp => hp) (fun _ => held_abandon) fun _ _ hcur => hcur

theorem Inv.call (h : Inv s) (hc : AssignsBesidesPushes s c) :
    Inv { s with db := c.after T s.db } where
  remote := h.remote
  released p hp x hx hj := not_current_after (h.released p hp x hx hj) (hc p hp x hx hj)

/-- A dispatch reaches a node. -/
theorem Inv.give (h : Inv s) {d : PendingDispatch}
    (hd : ∀ p ∈ s.pushes, p.nodeId = nodeId → p.jobId = d.manifest.jobId →
      ¬ Current s.db nodeId d.held) : Inv (s.give nodeId d) where
  remote := h.remote
  released p hp x hx hj := by
    simp only [Farm.give, Farm.setNode] at hx
    by_cases hn : p.nodeId = nodeId
    · rw [hn, Function.update_self] at hx
      rw [hn]
      rcases RenderCoordinator.mem_held_queueDispatch.mp hx with hold | rfl
      · exact hn ▸ h.released p hp x (hn ▸ hold) hj
      · exact hd p hp hn hj.symm
    · rw [Function.update_of_ne hn] at hx
      exact h.released p hp x hx hj

/-- Pushes are added whose node holds nothing current of their job. -/
theorem Inv.push (h : Inv s) {new : List AbortPush}
    (hremote : ∀ p ∈ new, p.nodeId ≠ s.leader)
    (hnew : ∀ p ∈ new, ∀ x ∈ (s.nodes p.nodeId).held, x.jobId = p.jobId →
      ¬ Current s.db p.nodeId x) : Inv { s with pushes := s.pushes ++ new } where
  remote p hp := (List.mem_append.mp hp).elim (h.remote p) (hremote p)
  released p hp := (List.mem_append.mp hp).elim (h.released p) (hnew p)

theorem abortPush_spec {peers : List PeerInfo} {jobId : String} {p : AbortPush}
    (h : abortPush peers nodeId jobId = some p) : p.nodeId = nodeId ∧ p.jobId = jobId := by
  unfold abortPush at h
  split at h
  · cases h
  · simp only [] at h
    split at h
    · cases h
    · cases h
      exact ⟨rfl, rfl⟩

/-! ## The steps -/

theorem inv_assign {chunkId nowMs : Int} {d : PendingDispatch} (h : Inv s)
    (hcond : AssignsBesidesPushes s (.assignChunk chunkId nodeId nowMs d.editEpoch))
    (hstep : step T s (.assign chunkId nodeId nowMs d) = some s') : Inv s' := by
  have hcall := h.call (T := T) hcond
  simp only [step] at hstep
  split at hstep
  · cases hstep
  split at hstep
  · cases hstep
  split at hstep
  · cases hstep
    exact hcall
  split at hstep
  · -- the leader's own dispatch: no push goes there
    rename_i hself
    cases hstep
    exact hcall.give fun p hp hn _ => absurd (hn.trans hself) (h.remote p hp)
  · cases hstep
    exact hcall.shrink rfl (fun _ hp => hp) (fun _ _ hx => hx) fun _ _ hcur => hcur

theorem inv_postArrives {d : PendingDispatch} {stopped : Bool} (h : Inv s)
    (hcond : ∀ p ∈ s.pushes, p.nodeId = nodeId → p.jobId = d.manifest.jobId →
      ¬ Current s.db nodeId d.held)
    (hstep : step T s (.postArrives nodeId d stopped) = some s') : Inv s' := by
  have herased : Inv { s with posts := s.posts.erase (nodeId, d) } :=
    h.shrink rfl (fun _ hp => hp) (fun _ _ hx => hx) fun _ _ hcur => hcur
  simp only [step] at hstep
  split at hstep
  case isFalse => cases hstep
  case isTrue =>
  split at hstep
  · cases hstep
    exact herased
  · cases hstep
    exact herased.give hcond

theorem inv_stopOn {peers : List PeerInfo} {chunkId : Int} (h : Inv s)
    (hcond : ∀ c ∈ s.db.chunks, c.id = chunkId →
      ∀ nodeId ∈ c.assignedTo,
        ∀ x ∈ (s.nodes nodeId).held, x.jobId = c.jobId →
          ∀ c' ∈ s.db.chunks, c'.id ≠ chunkId → ¬ Matches c' nodeId x) :
    Inv (stopOn s peers chunkId) := by
  have hcall : Inv { s with db := (DatabaseManager.stopChunk s.db chunkId).2 } :=
    h.call (T := shotText) (c := .stopChunk chunkId) fun _ _ _ _ _ hno => hno
  unfold stopOn
  cases hstop : DatabaseManager.stopChunk s.db chunkId with
  | mk hit db =>
      rw [hstop] at hcall
      cases hit with
      | none => exact hcall
      | some row =>
          simp only []
          split
          · exact hcall
          rename_i hnamed
          split
          · exact hcall.abandon
          rename_i hremote
          have hrow : (DatabaseManager.stopChunk s.db chunkId).1 = some row := by
            rw [hstop]
          obtain ⟨⟨r, hr, hid, hjob, hto⟩, hstopped⟩ := stopChunk_spec hrow
          -- the push goes to the node the row was assigned to
          have hassigned : r.assignedTo = some row.assignedTo := by
            cases ha : r.assignedTo with
            | none => exact absurd (by rw [hto, ha]; rfl) hnamed
            | some n => rw [hto, ha]; rfl
          refine hcall.push (fun p hp => ?_) fun p hp x hx hj hcur => ?_
          · rw [(abortPush_spec (Option.mem_toList.mp hp)).1]
            exact hremote
          · -- what is still assigned to the node was so through another row
            obtain ⟨hn, hpj⟩ := abortPush_spec (Option.mem_toList.mp hp)
            rw [hn] at hx hcur
            obtain ⟨r', hr', hkey, hs, hto', hep⟩ := hcur
            have hafter : r' ∈ ((DbCall.stopChunk chunkId).after shotText s.db).chunks := by
              simpa [DbCall.after, DbCall.exec, hstop] using hr'
            have hid' : r'.id ≠ chunkId := fun heq =>
              hstopped r' (by rw [hstop]; exact hr') heq hs
            obtain ⟨r₀, hr₀, -, hrow, hby⟩ := assigned_after hafter hs
            cases hby with
            | before hs₀ hto₀ hep₀ =>
                refine hcond r hr hid row.assignedTo hassigned x hx
                  (hj.trans (hpj.trans hjob)) r₀ hr₀ (hrow.id_eq ▸ hid') ⟨?_, hs₀, ?_, ?_⟩
                · exact hrow.key_eq.symm.trans hkey
                · exact hto₀.symm.trans hto'
                · exact hep₀.symm.trans hep

theorem inv_edit {peers : List PeerInfo} {jobId manifestJson mode : String}
    {priority : Int} (h : Inv s)
    (hstep : step T s (.edit peers jobId manifestJson mode priority) = some s') :
    Inv s' := by
  have hquiet : ∀ (k : DbCall) (t : Farm), Inv t →
      (∀ db n x, ¬ Assigns db n x k) → Inv { t with db := k.after T t.db } :=
    fun k t ht hk => ht.call fun _ _ _ _ _ => hk _ _ _
  have hstored : Inv { s with db := stored T jobId manifestJson priority s.db } :=
    hquiet (.updateJobManifest jobId manifestJson) _
      (hquiet (.updateJobPriority jobId priority) s h fun _ _ _ hno => hno)
      fun _ _ _ hno => hno
  simp only [step] at hstep
  split at hstep
  · cases hstep
  rename_i outcome db hrun
  rcases applyEditLocally_run hrun with ⟨hkept, hdb⟩ | ⟨hreset, -, reset, hr, hdb⟩
  · simp only [hkept, Bool.false_eq_true, if_false] at hstep
    cases hstep
    rcases hdb with rfl | rfl
    · exact h
    · exact hstored
  · simp only [hreset, if_true] at hstep
    cases hstep
    have hbumped := hquiet (.bumpEditEpoch jobId) _ hstored fun _ _ _ hno => hno
    have hres := hquiet reset _ hbumped (by
      obtain rfl | ⟨ranges, -, rfl⟩ := hr <;> exact fun _ _ _ hno => hno)
    have hdone := hquiet (.updateJobState jobId .active) _ hres fun _ _ _ hno => hno
    refine Inv.abandon ?_
    refine Inv.push (s := { s with db }) (by rw [hdb]; exact hdone) (fun p hp => ?_)
      fun p hp x hx hj hcur => ?_
    · obtain ⟨n, hn, hp⟩ := List.mem_filterMap.mp hp
      rw [(abortPush_spec hp).1]
      exact of_decide_eq_true (List.mem_filter.mp hn).2
    · obtain ⟨n, hn, hp⟩ := List.mem_filterMap.mp hp
      obtain ⟨r, hmem, hkey, hs, -⟩ := hcur
      have hmem' : r ∈ (reset.after T ((DbCall.bumpEditEpoch jobId).after T
          (stored T jobId manifestJson priority s.db))).chunks := by
        rw [hdb] at hmem
        exact hmem
      refine not_assigned_after_reset hr hmem' ?_ hs
      exact (congrArg Prod.fst hkey).trans (hj.trans (abortPush_spec hp).2)

/-- A push leaves the network. -/
theorem inv_erase {p : AbortPush} (h : Inv s) :
    Inv { s with pushes := s.pushes.erase p } :=
  h.shrink rfl (fun _ hp => List.mem_of_mem_erase hp) (fun _ _ hx => hx)
    fun _ _ hcur => hcur

theorem inv_step (h : Inv s) (hstep : (machine T).step s e = some s')
    (hcond : Careful s e s') : Inv s' := by
  cases e with
  | call c =>
      cases hstep
      exact h.call hcond
  | assign chunkId nodeId nowMs d => exact inv_assign (T := T) h hcond hstep
  | postArrives nodeId d stopped => exact inv_postArrives (T := T) h hcond hstep
  | postLost nodeId d =>
      simp only [machine, step] at hstep
      split at hstep
      · cases hstep
        exact h.shrink rfl (fun _ hp => hp) (fun _ _ hx => hx) fun _ _ hcur => hcur
      · cases hstep
  | render nodeId call =>
      cases hstep
      exact h.shrink rfl (fun _ hp => hp)
        (fun _ => held_setNode fun _ => RenderCall.held_apply) fun _ _ hcur => hcur
  | nodeRestarts nodeId =>
      cases hstep
      exact h.shrink rfl (fun _ hp => hp)
        (fun _ => held_setNode fun _ hx => by cases hx) fun _ _ hcur => hcur
  | stopChunk peers chunkId =>
      cases hstep
      exact inv_stopOn h hcond
  | edit peers jobId manifestJson mode priority => exact inv_edit (T := T) h hstep
  | pushArrives p =>
      simp only [machine, step] at hstep
      split at hstep
      · cases hstep
        exact (inv_erase h).abandon
      · cases hstep
  | pushLost p =>
      simp only [machine, step] at hstep
      split at hstep
      · cases hstep
        exact inv_erase h
      · cases hstep

/-- **An abort push kills only what the leader released, in any run that takes
care of it.** From an empty farm and for every order of dispatches, reports,
stops, edits, renders and delayed, lost or delivered messages: while no current
dispatch reaches a node behind a push for its job, no chunk is stopped whose
node holds another current chunk of the job, and no chunk is assigned again to
a node that still holds it with a push on the way, each dispatch a push makes a
node drop is one the leader no longer has assigned to it under that epoch. -/
theorem kills_only_released_of_careful (T : JsonText) (leader : String)
    (es : List Event) :
    (machine T).Along Careful (start leader) es →
      (machine T).Along KillsOnlyReleased (start leader) es := by
  refine Machine.Along.mono (I := Inv) ?_ ⟨by simp [start], by simp [start]⟩
  intro s e s' h hstep hcond
  refine ⟨?_, inv_step h hstep hcond⟩
  rintro p rfl x hx hdrop
  simp only [machine, step] at hstep
  split at hstep
  case isFalse => cases hstep
  case isTrue hp =>
  cases hstep
  refine h.released p hp x hx ?_
  simp only [Farm.abandon, Farm.setNode, Function.update_self] at hdrop
  exact held_abandonJobRender hx hdrop

/-! ## A push behind which the node took new work -/

/-- The only worker, where the leader can reach it. -/
def worker : List PeerInfo := [{ nodeId := "w1", endpoint := "10.0.0.5:8420" }]

def pushTo : AbortPush :=
  { nodeId := "w1", host := "10.0.0.5", port := 8420, jobId := "shot" }

/-- The dispatch of one of the job's two chunks. -/
def dispatchOf (frame : Int) : PendingDispatch :=
  { manifest := { jobId := "shot" }, chunk := ⟨frame, frame⟩, editEpoch := 0 }

/-- The first chunk is rendering on the worker when it is stopped. -/
def firstStopped : List Event :=
  [.call (.insertJob { jobId := "shot" }),
    .call (.insertChunks "shot" [⟨1, 1⟩, ⟨2, 2⟩]), .assign 1 "w1" 1000 (dispatchOf 1),
    .postArrives "w1" (dispatchOf 1) false, .render "w1" (.update {}),
    .stopChunk worker 1]

instance (db : Db) (nodeId : String) (x : Held) : Decidable (Current db nodeId x) := by
  unfold Current
  infer_instance

/-- `Assigns` as a test. -/
def assigns? (db : Db) (nodeId : String) (x : Held) : DbCall → Bool
  | .assignChunk id node _ epoch =>
      node = nodeId ∧ epoch = x.editEpoch ∧
        ∃ c ∈ db.chunks, c.id = id ∧ c.key = (x.jobId, x.chunk)
  | .reassignChunk id node _ =>
      node = nodeId ∧ ∃ c ∈ db.chunks, c.id = id ∧ c.key = (x.jobId, x.chunk) ∧
        c.editEpoch = x.editEpoch
  | _ => false

theorem assigns?_iff {db : Db} {nodeId : String} {x : Held} {c : DbCall} :
    assigns? db nodeId x c = true ↔ Assigns db nodeId x c := by
  cases c <;> simp [assigns?, Assigns]

instance (db : Db) (nodeId : String) (x : Held) (c : DbCall) :
    Decidable (Assigns db nodeId x c) :=
  decidable_of_iff _ assigns?_iff

instance (s : Farm) (e : Event) (s' : Farm) : Decidable (Careful s e s') := by
  unfold Careful AssignsBesidesPushes
  split <;> infer_instance

theorem stopped_render_is_released :
    (machine shotText).Along KillsOnlyReleased (start "lead")
      (firstStopped ++ [.pushArrives pushTo]) := by
  refine kills_only_released_of_careful shotText "lead" _ ?_
  exact Machine.Along.of_check (fun s e s' => decide (Careful s e s'))
    (fun s e s' htest => of_decide_eq_true htest) (by decide)

/-- The render ends before the push arrives, and the worker takes the second
chunk. -/
def tookNewWork : List Event :=
  firstStopped ++ [.render "w1" (.agentMessage (.completed ⟨"shot", 1, 1⟩) {}),
    .assign 2 "w1" 2000 (dispatchOf 2), .postArrives "w1" (dispatchOf 2) false]

/-- **A push is late**: it drops the second chunk, which stays assigned. -/
theorem late_push_drops_current_chunk :
    ¬ ∀ es, (machine shotText).Along KillsOnlyReleased (start "lead") es := by
  intro h
  refine Machine.Along.refute tookNewWork (.pushArrives pushTo)
    (fun t u => (t.nodes "w1").held.any fun x =>
      x ∉ (u.nodes "w1").held ∧ ∃ c ∈ t.db.chunks, Matches c "w1" x) ?_ ?_ (h _)
  · intro t u hbad hgood
    obtain ⟨x, hx, hdrop⟩ := List.any_eq_true.mp hbad
    obtain ⟨hgone, hcur⟩ := of_decide_eq_true hdrop
    exact hgood pushTo rfl x hx hgone hcur
  · decide

end MinRender.AbortPushes
