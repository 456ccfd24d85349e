import MinRender.Framework.Runs
import MinRender.Monitor.RenderCoordinator

/-!
# Whose a staging directory is

The staging directories of a coordinator, that of its active render and those
of the renders held for delivery, over every sequence of dispatches and calls.
A directory is named by job and range alone.
-/

namespace MinRender.StagingDirs
open RenderCoordinator

inductive Event
  | queueDispatch (d : PendingDispatch)
  | call (call : RenderCall)

/-- Application data stays where it is while the node runs. -/
def inHome (appData : AppData) : RenderCall → RenderCall
  | .update env => .update { env with appData }
  | call => call

def step (appData : AppData) (c : RenderCoordinator) : Event → RenderCoordinator
  | .queueDispatch d => c.queueDispatch d.manifest d.chunk d.editEpoch
  | .call call => ((inHome appData call).apply c).1

def machine (appData : AppData) : Machine RenderCoordinator Event :=
  ⟨fun c e => some (step appData c e)⟩

def start : RenderCoordinator := {}

/-! ## Directories of one owner -/

/-- The staging directories in use. -/
def stagingDirs (c : RenderCoordinator) : List String :=
  (c.activeRender.toList.map (·.stagingDir)).filter (· ≠ "") ++
    c.pendingDeliveries.map (·.stagingDir)

def Exclusive (c : RenderCoordinator) : Prop := (stagingDirs c).Nodup

/-- The coordinator in the course of an event: `update` retries the held
deliveries, takes a dispatch and looks after the pipe. -/
def course (appData : AppData) (c : RenderCoordinator) : Event → List RenderCoordinator
  | .call (.update env) =>
      let env := { env with appData }
      let retried := (c.updatePendingDeliveries env).1
      let taken := (retried.takeDispatch env).1
      [retried, taken, (taken.checkPipe env).1]
  | e => [step appData c e]

/-- A delivery that `update` may retry is not in the directory of the running
render, and its report is not about that render's chunk. -/
def RetriesApart (c : RenderCoordinator) : Prop :=
  ∀ ar, c.activeRender = some ar → ar.stagingDir ≠ "" →
    ∀ p ∈ c.pendingDeliveries, p.stagingDir ≠ ar.stagingDir ∧
      (p.jobId, p.chunk) ≠ (ar.manifest.jobId, ar.chunk)

def OwnsDirectories (appData : AppData) (c : RenderCoordinator) (e : Event)
    (_ : RenderCoordinator) : Prop :=
  (∀ s ∈ course appData c e, Exclusive s) ∧
    ∀ env, e = .call (.update env) → RetriesApart c

/-- `takeDispatch` starts a staged render of `d`. -/
def StagesNow (c : RenderCoordinator) (env : Surroundings) (d : PendingDispatch) : Prop :=
  c.activeRender = none ∧ c.throttled env.nowMs = false ∧
    c.dispatchQueue.head? = some d ∧ c.stopped = false ∧ env.connected = true ∧
    (c.renderOf d env).stagingDir ≠ ""

/-- A staged render is only started where no delivery of the same directory is
still held. -/
def StartsApart (appData : AppData) (c : RenderCoordinator) (e : Event)
    (_ : RenderCoordinator) : Prop :=
  ∀ env d, e = .call (.update env) → StagesNow c { env with appData } d →
    ∀ p ∈ (c.updatePendingDeliveries { env with appData }).1.pendingDeliveries,
      stagingPath appData p.jobId p.chunk ≠
        stagingPath appData d.manifest.jobId d.chunk

/-! ## Directories kept -/

variable {appData : AppData} {c c' : RenderCoordinator} {env : Surroundings}

/-- Every directory is the one its job and range name. -/
def Placed (appData : AppData) (c : RenderCoordinator) : Prop :=
  (∀ ar, c.activeRender = some ar → ar.stagingDir = "" ∨
    ar.stagingDir = stagingPath appData ar.manifest.jobId ar.chunk) ∧
  ∀ p ∈ c.pendingDeliveries, p.stagingDir = stagingPath appData p.jobId p.chunk

/-- Without the active render, or with it as it was. -/
def Drops (c c' : RenderCoordinator) : Prop :=
  (c'.activeRender = none ∨ c'.activeRender = c.activeRender) ∧
    c'.pendingDeliveries = c.pendingDeliveries

theorem Drops.exclusive (h : Drops c c') (hex : Exclusive c) : Exclusive c' := by
  obtain ⟨hactive | hactive, hpending⟩ := h
  · unfold Exclusive stagingDirs at hex ⊢
    rw [hactive, hpending]
    exact (List.nodup_append.mp hex).2.1
  · unfold Exclusive stagingDirs at hex ⊢
    rw [hactive, hpending]
    exact hex

theorem Drops.placed (h : Drops c c') (hp : Placed appData c) : Placed appData c' := by
  obtain ⟨hactive, hpending⟩ := h
  refine ⟨fun ar har => ?_, hpending ▸ hp.2⟩
  rcases hactive with hnone | hsame
  · rw [hnone] at har
    cases har
  · exact hp.1 ar (hsame ▸ har)

theorem drops_failChunk : Drops c c.failChunk.1 := by
  rcases failChunk_cases c with hnone | ⟨ar, -, hended⟩
  · rw [hnone]
    exact ⟨.inr rfl, rfl⟩
  · rw [hended]
    exact ⟨.inl rfl, rfl⟩

theorem drops_checkPipe : Drops c (c.checkPipe env).1 := by
  rcases checkPipe_cases c env with ⟨grace, hkept⟩ | hfails
  · rw [hkept]
    exact ⟨.inr rfl, rfl⟩
  · rw [hfails]
    exact drops_failChunk

theorem drops_abort {reason : String} : Drops c (c.abortCurrentRender reason).1 := by
  unfold abortCurrentRender
  split
  · exact ⟨.inr rfl, rfl⟩
  · exact drops_failChunk

theorem drops_abandon {reason : String} : Drops c (c.abandonCurrentRender reason).1 := by
  unfold abandonCurrentRender
  split
  · exact ⟨.inr rfl, rfl⟩
  · exact ⟨.inl rfl, rfl⟩

/-- A delivery that stays keeps its job, range and directory. -/
theorem retryDelivery_kept {deletedJobs : List String} {p q : PendingDelivery}
    (h : (retryDelivery deletedJobs env p).1 = some q) :
    q.jobId = p.jobId ∧ q.chunk = p.chunk ∧ q.stagingDir = p.stagingDir := by
  unfold retryDelivery at h
  split at h
  · cases h
  split at h
  · cases h
    exact ⟨rfl, rfl, rfl⟩
  split at h
  · cases h
  split at h
  · cases h
  · cases h
    exact ⟨rfl, rfl, rfl⟩

theorem deliveries_sublist {env : Nat → Surroundings} :
    ((c.retryDeliveries env).1.pendingDeliveries.map (·.stagingDir)).Sublist
      (c.pendingDeliveries.map (·.stagingDir)) := by
  show (((c.pendingDeliveries.mapIdx fun i => retryDelivery c.deletedJobs (env i)).filterMap
    (·.1)).map (·.stagingDir)).Sublist _
  induction c.pendingDeliveries generalizing env with
  | nil => exact List.Sublist.refl _
  | cons p ps ih =>
      rw [List.mapIdx_cons, List.filterMap_cons, List.map_cons]
      cases h : (retryDelivery c.deletedJobs (env 0) p).1 with
      | none => exact ih.cons _
      | some q =>
          rw [List.map_cons, (retryDelivery_kept h).2.2]
          exact ih.cons_cons _

theorem exclusive_deliveries (hex : Exclusive c) :
    Exclusive (c.updatePendingDeliveries env).1 :=
  List.Nodup.sublist ((List.Sublist.refl _).append deliveries_sublist) hex

theorem placed_deliveries (hp : Placed appData c) :
    Placed appData (c.updatePendingDeliveries env).1 := by
  refine ⟨hp.1, fun q hq => ?_⟩
  obtain ⟨r, hr, hq⟩ := List.mem_filterMap.mp hq
  obtain ⟨i, hi, rfl⟩ := List.mem_mapIdx.mp hr
  obtain ⟨hjob, hchunk, hdir⟩ := retryDelivery_kept hq
  rw [hdir, hjob, hchunk]
  exact hp.2 _ (List.getElem_mem hi)

/-- A render that changed apart from its directory. -/
theorem kept_render {ar ar' : ActiveRender} (har : c.activeRender = some ar)
    (hdir : ar'.stagingDir = ar.stagingDir) (hheld : ar'.held = ar.held)
    (hex : Exclusive c) (hp : Placed appData c) :
    Exclusive { c with activeRender := some ar' } ∧
      Placed appData { c with activeRender := some ar' } := by
  constructor
  · unfold Exclusive stagingDirs at hex ⊢
    rw [har] at hex
    simpa [hdir] using hex
  · refine ⟨fun a ha => ?_, hp.2⟩
    cases ha
    have hjob : ar'.manifest.jobId = ar.manifest.jobId := congrArg Held.jobId hheld
    have hchunk : ar'.chunk = ar.chunk := congrArg Held.chunk hheld
    rw [hdir, hjob, hchunk]
    exact hp.1 ar har

/-- A held render takes its directory along. -/
theorem held_render {ar : ActiveRender} (har : c.activeRender = some ar)
    (hstaged : ar.stagingDir ≠ "") (hex : Exclusive c) (hp : Placed appData c)
    {p : PendingDelivery} (hdir : p.stagingDir = ar.stagingDir)
    (hjob : p.jobId = ar.manifest.jobId) (hchunk : p.chunk = ar.chunk) :
    Exclusive { c with activeRender := none
                       pendingDeliveries := c.pendingDeliveries ++ [p] } ∧
      Placed appData { c with activeRender := none
                              pendingDeliveries := c.pendingDeliveries ++ [p] } := by
  constructor
  · unfold Exclusive stagingDirs at hex ⊢
    rw [har] at hex
    have hperm : (c.pendingDeliveries.map (·.stagingDir) ++ [ar.stagingDir]).Perm
        ([ar.stagingDir] ++ c.pendingDeliveries.map (·.stagingDir)) := List.perm_append_comm
    have hall : (ar.stagingDir :: c.pendingDeliveries.map (·.stagingDir)).Nodup := by
      simpa [hstaged] using hex
    have := (hperm.nodup_iff).mpr hall
    simpa [hdir] using this
  · refine ⟨fun a ha => absurd ha (by simp), fun q hq => ?_⟩
    rcases List.mem_append.mp hq with hq | hq
    · exact hp.2 q hq
    · rw [List.mem_singleton.mp hq, hdir, hjob, hchunk]
      exact (hp.1 ar har).resolve_left hstaged

theorem agentMessage_keeps {m : AgentToMonitor TaskMessage} (hex : Exclusive c)
    (hp : Placed appData c) :
    Exclusive (c.handleAgentMessage env m).1 ∧
      Placed appData (c.handleAgentMessage env m).1 := by
  cases har : c.activeRender with
  | none =>
      have hsame : (c.handleAgentMessage env m).1 = c := by
        unfold handleAgentMessage
        rw [har]
      rw [hsame]
      exact ⟨hex, hp⟩
  | some ar =>
      simp only [handleAgentMessage, har]
      cases m with
      | pong | status | progress | stdout => exact ⟨hex, hp⟩
      | ack t => exact kept_render har rfl rfl hex hp
      | frameCompleted t frame =>
          simp only []
          split
          · exact kept_render har rfl rfl hex hp
          · exact ⟨hex, hp⟩
      | completed t =>
          simp only [onChunkCompleted]
          split
          -- the frames could not be delivered: the directory goes to the held ones
          · rename_i hheld
            exact held_render har hheld.1 hex hp rfl rfl rfl
          · have hdrops : Drops c (c.finish ar .completed).1 := ⟨.inl rfl, rfl⟩
            exact ⟨hdrops.exclusive hex, hdrops.placed hp⟩
      | failed t error =>
          exact ⟨drops_failChunk.exclusive hex, drops_failChunk.placed hp⟩

/-! ## Taking a dispatch -/

/-- A staged render is in the directory of its job and range. -/
theorem renderOf_stagingDir {d : PendingDispatch} :
    (c.renderOf d env).stagingDir = "" ∨
      (c.renderOf d env).stagingDir =
        stagingPath env.appData d.manifest.jobId d.chunk := by
  unfold renderOf
  cases d.manifest.outputDir with
  | none => exact .inl rfl
  | some dir =>
      by_cases hstaged : c.stagingEnabled ∧ dir ≠ "" ∧ env.stages
      · right
        simp only [if_pos hstaged]
      · left
        simp only [if_neg hstaged]

/-- **What taking a dispatch makes of the active render.** -/
theorem takeDispatch_render :
    (c.takeDispatch env).1.pendingDeliveries = c.pendingDeliveries ∧
      ((c.takeDispatch env).1.activeRender = c.activeRender ∧
          (∀ d, ¬ StagesNow c env d) ∨
        ∃ d, c.activeRender = none ∧ c.dispatchQueue.head? = some d ∧
          (c.takeDispatch env).1.activeRender = some (c.renderOf d env) ∧
          ((c.renderOf d env).stagingDir ≠ "" → StagesNow c env d)) := by
  cases takeDispatch_taken c env with
  | nothing h hr =>
      rw [hr]
      refine ⟨rfl, .inl ⟨rfl, fun d hd => ?_⟩⟩
      rcases h with hbusy | hnil
      · exact hbusy ⟨hd.1, hd.2.1⟩
      · have hhead := hd.2.2.1
        rw [hnil] at hhead
        cases hhead
  | abandoned d rest _ _ hstopped hr =>
      rw [hr]
      refine ⟨rfl, .inl ⟨rfl, fun d' hd => ?_⟩⟩
      simp [hd.2.2.2.1] at hstopped
  | started d rest hfree hq hgoing hagent hr =>
      have hhead : c.dispatchQueue.head? = some d := by
        rw [hq]
        rfl
      rw [hr]
      refine ⟨rfl, .inr ⟨d, hfree.1, hhead, rfl, fun hstaged => ?_⟩⟩
      exact ⟨hfree.1, hfree.2, hhead, hgoing, hagent, hstaged⟩
  | spawned _ _ _ _ _ hagent hr | unspawned _ _ _ _ _ hagent hr
  | timedOut _ _ _ _ _ hagent _ _ _ _ hr | waiting _ _ _ _ _ hagent _ _ _ hr =>
      rw [hr]
      refine ⟨rfl, .inl ⟨rfl, fun d' hd => ?_⟩⟩
      simp [hd.2.2.2.2.1] at hagent

theorem placed_takeDispatch (hp : Placed env.appData c) :
    Placed env.appData (c.takeDispatch env).1 := by
  obtain ⟨hpending, hrender⟩ := @takeDispatch_render c env
  refine ⟨fun ar har => ?_, hpending ▸ hp.2⟩
  rcases hrender with ⟨hsame, -⟩ | ⟨d, -, -, hstarts, -⟩
  · exact hp.1 ar (hsame ▸ har)
  · cases hstarts.symm.trans har
    have hheld := @renderOf_held c env d
    have hjob : (c.renderOf d env).manifest.jobId = d.manifest.jobId :=
      congrArg Held.jobId hheld
    have hchunk : (c.renderOf d env).chunk = d.chunk := congrArg Held.chunk hheld
    rw [hjob, hchunk]
    exact renderOf_stagingDir

/-- **Taking a dispatch keeps the directories apart exactly when it starts no
staged render in a held one.** -/
theorem exclusive_takeDispatch_iff (hex : Exclusive c) (hp : Placed env.appData c) :
    Exclusive (c.takeDispatch env).1 ↔
      ∀ d, StagesNow c env d → ∀ p ∈ c.pendingDeliveries,
        stagingPath env.appData p.jobId p.chunk ≠
          stagingPath env.appData d.manifest.jobId d.chunk := by
  obtain ⟨hpending, hrender⟩ := @takeDispatch_render c env
  rcases hrender with ⟨hsame, hnone⟩ | ⟨d, hidle, hhead, hstarts, hstages⟩
  · refine iff_of_true ?_ fun d hd => absurd hd (hnone d)
    unfold Exclusive stagingDirs at hex ⊢
    rw [hsame, hpending]
    exact hex
  · have hheld : (c.pendingDeliveries.map (·.stagingDir)).Nodup := by
      unfold Exclusive stagingDirs at hex
      exact (List.nodup_append.mp hex).2.1
    have honly : ∀ d', StagesNow c env d' → d' = d := fun d' hd' =>
      Option.some.inj (hd'.2.2.1.symm.trans hhead)
    unfold Exclusive stagingDirs
    rw [hstarts, hpending]
    by_cases hstaged : (c.renderOf d env).stagingDir = ""
    · refine iff_of_true (by simpa [hstaged] using hheld) fun d' hd' => ?_
      rw [honly d' hd'] at hd'
      exact absurd hstaged hd'.2.2.2.2.2
    · have hdir := renderOf_stagingDir.resolve_left hstaged
      have hdirs : ∀ p ∈ c.pendingDeliveries, p.stagingDir =
          stagingPath env.appData p.jobId p.chunk := hp.2
      constructor
      · intro hnodup d' hd' p hpmem hsame
        rw [honly d' hd'] at hsame
        have hout : (c.renderOf d env).stagingDir ∉ c.pendingDeliveries.map (·.stagingDir) := by
          have hcons : ((c.renderOf d env).stagingDir ::
              c.pendingDeliveries.map (·.stagingDir)).Nodup := by simpa [hstaged] using hnodup
          exact (List.nodup_cons.mp hcons).1
        refine hout (List.mem_map.mpr ⟨p, hpmem, ?_⟩)
        rw [hdirs p hpmem, hsame, hdir]
      · intro happart
        have hout : (c.renderOf d env).stagingDir ∉ c.pendingDeliveries.map (·.stagingDir) := by
          intro hmem
          obtain ⟨p, hpmem, hsame⟩ := List.mem_map.mp hmem
          refine happart d (hstages hstaged) p hpmem ?_
          rw [← hdirs p hpmem, hsame, hdir]
        have hcons := List.nodup_cons.mpr ⟨hout, hheld⟩
        simpa [hstaged] using hcons

/-! ## Every step -/

/-- What holds between the events. -/
def Inv (appData : AppData) (c : RenderCoordinator) : Prop :=
  Exclusive c ∧ Placed appData c

theorem Drops.inv (h : Drops c c') (hi : Inv appData c) : Inv appData c' :=
  ⟨h.exclusive hi.1, h.placed hi.2⟩

/-- Only `update` can start a render. -/
theorem inv_step {e : Event} (hi : Inv appData c) (he : ∀ env, e ≠ .call (.update env)) :
    Inv appData (step appData c e) := by
  cases e with
  | queueDispatch d => exact hi
  | call call =>
      cases call with
      | init => exact ⟨List.nodup_nil, by simp [Placed, step, inHome, RenderCall.apply, init]⟩
      | update env => exact absurd rfl (he env)
      | agentMessage m env => exact agentMessage_keeps hi.1 hi.2
      | abort reason => exact drops_abort.inv hi
      | abandon reason => exact drops_abandon.inv hi
      | purge | markDeleted | setStopped | setStaging => exact hi

/-- Distinct directories are directories of distinct chunks. -/
theorem retriesApart (hi : Inv appData c) : RetriesApart c := by
  intro ar har hstaged p hp
  obtain ⟨hex, hrender, hheld⟩ := hi
  have hne : p.stagingDir ≠ ar.stagingDir := by
    intro hsame
    unfold Exclusive stagingDirs at hex
    rw [har] at hex
    have hcons : (ar.stagingDir :: c.pendingDeliveries.map (·.stagingDir)).Nodup := by
      simpa [hstaged] using hex
    exact (List.nodup_cons.mp hcons).1 (List.mem_map.mpr ⟨p, hp, hsame⟩)
  refine ⟨hne, fun hchunk => hne ?_⟩
  obtain ⟨hjob, hrange⟩ := Prod.mk.inj hchunk
  rw [hheld p hp, (hrender ar har).resolve_left hstaged, hjob, hrange]

theorem owns_step_iff {e : Event} (hi : Inv appData c) :
    StartsApart appData c e (step appData c e) ↔
      OwnsDirectories appData c e (step appData c e) := by
  by_cases he : ∀ env, e ≠ .call (.update env)
  · have hother : course appData c e = [step appData c e] := by
      unfold course
      split
      · exact absurd rfl (he _)
      · rfl
    refine iff_of_true (fun env d hupdate => absurd hupdate (he env)) ⟨?_, ?_⟩
    · intro s hs
      rw [hother] at hs
      rw [List.mem_singleton.mp hs]
      exact (inv_step hi he).1
    · exact fun env hupdate => absurd hupdate (he env)
  · push Not at he
    obtain ⟨env, rfl⟩ := he
    have hex := @exclusive_deliveries c { env with appData } hi.1
    have hp := @placed_deliveries appData c { env with appData } hi.2
    have htake := @exclusive_takeDispatch_iff _ { env with appData } hex hp
    constructor
    · intro happart
      have htaken := htake.mpr fun d hd => happart env d rfl hd
      refine ⟨fun s hs => ?_, fun _ _ => retriesApart hi⟩
      simp only [course, List.mem_cons, List.not_mem_nil, or_false] at hs
      rcases hs with rfl | rfl | rfl
      · exact hex
      · exact htaken
      · exact drops_checkPipe.exclusive htaken
    · rintro ⟨hcourse, -⟩ env' d ⟨⟩ hd
      exact htake.mp (hcourse _ (by simp [course])) d hd

theorem inv_of_owns {e : Event} (hi : Inv appData c)
    (howns : OwnsDirectories appData c e (step appData c e)) :
    Inv appData (step appData c e) := by
  by_cases he : ∀ env, e ≠ .call (.update env)
  · exact inv_step hi he
  · push Not at he
    obtain ⟨env, rfl⟩ := he
    refine ⟨howns.1 _ (by simp [course, step, inHome, RenderCall.apply, update_eq]), ?_⟩
    have hp := @placed_deliveries appData c { env with appData } hi.2
    exact drops_checkPipe.placed (@placed_takeDispatch _ { env with appData } hp)

/-- **Staging directories are exclusively owned exactly in the runs that start
no staged render in a held directory.** Over every sequence of dispatches and
calls: whenever a delivery is retried, and in the course of every step, the
directories of the active render and of the held deliveries are pairwise
distinct, if and only if `update` never starts a staged render while a delivery
of the same directory is still held. -/
theorem owns_directories_iff (appData : AppData) (es : List Event) :
    (machine appData).Along (StartsApart appData) start es ↔
      (machine appData).Along (OwnsDirectories appData) start es := by
  have hstart : Inv appData start :=
    ⟨List.nodup_nil, by simp [Placed, start]⟩
  constructor
  · refine Machine.Along.mono (fun c e c' hi hs hcond => ?_) hstart
    cases hs
    have howns := (owns_step_iff hi).mp hcond
    exact ⟨howns, inv_of_owns hi howns⟩
  · refine Machine.Along.mono (fun c e c' hi hs howns => ?_) hstart
    cases hs
    exact ⟨(owns_step_iff hi).mpr howns, inv_of_owns hi howns⟩

/-! ## A chunk that comes back -/

def comp : PendingDispatch where
  manifest := { jobId := "shot", outputDir := some "/mnt/out" }
  chunk := ⟨1, 10⟩

/-- The frames of a chunk cannot be delivered; the leader reclaims the chunk
and dispatches it to the same node again. -/
def dispatchedTwice : List Event :=
  [.call (.setStaging true),
   .queueDispatch comp,
   .call (.update { nowMs := 0 }),
   .call (.agentMessage (.completed ⟨"shot", 1, 10⟩)
     { nowMs := 1000, delivers := fun _ _ => false }),
   .queueDispatch comp,
   .call (.update { nowMs := 2000 })]

/-- **Two renders share a directory**: the second is in that of the first, which
is still held. -/
theorem redispatch_shares_directory :
    ¬ ∀ appData es,
      (machine appData).Along (OwnsDirectories appData) start es := by
  intro h
  refine Machine.Along.refute dispatchedTwice.dropLast (dispatchedTwice.getLast (by decide))
    (fun c _ => (course ⟨"lin", "/home/render"⟩ c (dispatchedTwice.getLast (by decide))).any
      fun s => !decide (stagingDirs s).Nodup) ?_ ?_ (h ⟨"lin", "/home/render"⟩ dispatchedTwice)
  · intro c _ hbad howns
    obtain ⟨s, hs, hshared⟩ := List.any_eq_true.mp hbad
    have hshared : ¬ (stagingDirs s).Nodup := by simpa using hshared
    exact hshared (howns.1 s hs)
  · decide

end MinRender.StagingDirs
