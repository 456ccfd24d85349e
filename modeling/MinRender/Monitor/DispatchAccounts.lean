import Mathlib.Data.List.Count
import Mathlib.Data.List.Induction
import Mathlib.Data.List.Perm.Basic
import MinRender.Core.Json
import MinRender.Monitor.RenderCoordinator

/-!
# Where a dispatch can be

Between two calls a dispatch waits in the queue, renders, waits for its output
directory, or has left the coordinator: reported once, purged with its job, or
dropped because its job was deleted. A ledger follows a coordinator through
its calls and lists the place of every dispatch; no call makes or loses one.
-/

namespace MinRender

/-- `get<float>()`, before the number is rounded. -/
def Json.getFloat : Json → Except JsonError Rat
  | .int n => .ok n
  | .float q => .ok q
  | .bool b => .ok (if b then 1 else 0)
  | _ => .error .typeMismatch

namespace RenderCoordinator

/-! ## Messages as they arrive -/

/-- One message of the agent with the reads made of it. Where a read raises,
nothing has changed yet and the caller logs it. -/
def handleMessage (c : RenderCoordinator) (env : Surroundings) (type : String)
    (j : Json) : Except JsonError (RenderCoordinator × List RenderEffect) :=
  match c.activeRender with
  | none => .ok (c, [])
  | some ar =>
      if type = "ack" then
        .ok ({ c with activeRender := some { ar with ackReceived := true } }, [])
      else if type = "progress" then do
        let _ ← j.value Json.getFloat "progress_pct" 0
        .ok (c, [])
      else if type = "stdout" then .ok (c, [])
      else if type = "frame_completed" then do
        let frame ← j.value Json.getInt "frame" (-1)
        if 0 ≤ frame then
          .ok ({ c with activeRender := some { ar with
              completedFrames := ar.completedFrames.insert frame } },
            [.frameCompletion ar.manifest.jobId frame ar.editEpoch])
        else .ok (c, [])
      else if type = "completed" then do
        let _ ← j.value Json.getInt64 "elapsed_ms" 0
        let _ ← j.value Json.getInt "exit_code" 0
        let _ ← j.optField Json.getString "output_file"
        .ok (c.onChunkCompleted env ar)
      else if type = "failed" then do
        let _ ← j.value Json.getInt "exit_code" (-1)
        let _ ← j.value Json.getString "error" "Unknown error"
        .ok c.failChunk
      else .ok (c, [])

/-- A message that raises nothing is taken like one of the agent's own. -/
theorem handleMessage_ok {c : RenderCoordinator} {env : Surroundings} {type : String}
    {j : Json} {r : RenderCoordinator × List RenderEffect}
    (h : c.handleMessage env type j = .ok r) :
    ∃ m : AgentToMonitor TaskMessage, r = c.handleAgentMessage env m := by
  unfold handleMessage at h
  cases har : c.activeRender with
  | none =>
      rw [har] at h
      cases h
      exact ⟨.pong, by simp only [handleAgentMessage, har]⟩
  | some ar =>
      rw [har] at h
      have t : TaskMessage := buildTaskJson ar.manifest ar.chunk
      simp only [] at h
      split at h
      · cases h
        exact ⟨.ack t, by simp only [handleAgentMessage, har]⟩
      split at h
      · obtain ⟨_, -, h⟩ := Json.bind_eq_ok.mp h
        cases h
        exact ⟨.progress t, by simp only [handleAgentMessage, har]⟩
      split at h
      · cases h
        exact ⟨.stdout t [], by simp only [handleAgentMessage, har]⟩
      split at h
      · obtain ⟨frame, -, h⟩ := Json.bind_eq_ok.mp h
        refine ⟨.frameCompleted t frame, ?_⟩
        simp only [handleAgentMessage, har]
        split at h <;> rename_i hpos
        · cases h
          rw [if_pos hpos]
        · cases h
          rw [if_neg hpos]
      split at h
      · obtain ⟨_, -, h⟩ := Json.bind_eq_ok.mp h
        obtain ⟨_, -, h⟩ := Json.bind_eq_ok.mp h
        obtain ⟨_, -, h⟩ := Json.bind_eq_ok.mp h
        cases h
        exact ⟨.completed t, by simp only [handleAgentMessage, har]⟩
      split at h
      · obtain ⟨_, -, h⟩ := Json.bind_eq_ok.mp h
        obtain ⟨_, -, h⟩ := Json.bind_eq_ok.mp h
        cases h
        exact ⟨.failed t "", by simp only [handleAgentMessage, har]⟩
      · cases h
        exact ⟨.pong, by simp only [handleAgentMessage, har]⟩

end RenderCoordinator

/-! ## Calls -/

/-- A call on a coordinator that has been initialised. -/
inductive CoordinatorCall
  | queueDispatch (manifest : JobManifest) (chunk : ChunkRange) (editEpoch : Int)
  | update (deliveries : Nat → Surroundings) (queue pipe : Surroundings)
  | handleAgentMessage (env : Surroundings) (type : String) (j : Json)
  | abortCurrentRender (reason : String)
  | abandonCurrentRender (reason : String)
  | purgeJob (jobId : String)
  | markJobDeleted (jobId : String)
  | setStopped (stopped : Bool)
  | setStagingEnabled (enabled : Bool)

def CoordinatorCall.apply (c : RenderCoordinator) :
    CoordinatorCall → RenderCoordinator × List RenderEffect
  | queueDispatch manifest chunk editEpoch =>
      (c.queueDispatch manifest chunk editEpoch, [])
  | update deliveries queue pipe => c.updateThrough deliveries queue pipe
  | handleAgentMessage env type j =>
      match c.handleMessage env type j with
      | .ok r => r
      | .error _ => (c, [])
  | abortCurrentRender reason => c.abortCurrentRender reason
  | abandonCurrentRender reason => c.abandonCurrentRender reason
  | purgeJob jobId => (c.purgeJob jobId, [])
  | markJobDeleted jobId => (c.markJobDeleted jobId, [])
  | setStopped stopped => (c.setStopped stopped, [])
  | setStagingEnabled enabled => (c.setStagingEnabled enabled, [])

/-! ## What a call moves -/

def PendingDelivery.held (p : PendingDelivery) : Held := ⟨p.jobId, p.chunk, p.editEpoch⟩

/-- The dispatch a completion callback names, and the state it reports. -/
def RenderEffect.completion? : RenderEffect → Option (Held × ReportState)
  | .completion jobId chunk state editEpoch => some (⟨jobId, chunk, editEpoch⟩, state)
  | _ => none

/-- The completion callbacks among the effects of a call. -/
def completions (effects : List RenderEffect) : List (Held × ReportState) :=
  effects.filterMap (·.completion?)

@[simp] theorem completions_append (es fs : List RenderEffect) :
    completions (es ++ fs) = completions es ++ completions fs :=
  List.filterMap_append

/-- The dispatches a call adds to the queue. -/
def CoordinatorCall.queues : CoordinatorCall → List Held
  | queueDispatch manifest chunk editEpoch => [⟨manifest.jobId, chunk, editEpoch⟩]
  | _ => []

/-- The queued dispatches a call purges with their job. -/
def CoordinatorCall.purges (c : RenderCoordinator) : CoordinatorCall → List Held
  | purgeJob jobId =>
      (c.dispatchQueue.filter (·.manifest.jobId = jobId)).map (·.held)
  | _ => []

/-- The held deliveries a call drops because their job was deleted. -/
def CoordinatorCall.drops (c : RenderCoordinator) : CoordinatorCall → List Held
  | update _ _ _ => (c.pendingDeliveries.filter (·.jobId ∈ c.deletedJobs)).map (·.held)
  | _ => []

namespace RenderCoordinator

/-- Everything a coordinator has to account for. -/
def accounts (c : RenderCoordinator) : List Held :=
  c.held ++ c.pendingDeliveries.map (·.held)

/-- Whatever `r` no longer accounts for was reported in it or is `gone`. -/
def Balances (r : RenderCoordinator × List RenderEffect) (gone before : List Held) : Prop :=
  ∀ x, r.1.accounts.count x + ((completions r.2).map (·.1)).count x + gone.count x =
    before.count x

variable {c : RenderCoordinator} {env : Surroundings} {x : Held}

theorem count_accounts : c.accounts.count x =
    (c.activeRender.toList.map (·.held)).count x +
      (c.dispatchQueue.map (·.held)).count x +
      (c.pendingDeliveries.map (·.held)).count x := by
  unfold accounts held
  rw [List.count_append, List.count_append]

theorem balances_same : Balances (c, []) [] c.accounts := fun _ => rfl

/-- An active render that is dropped and reported. -/
theorem balances_finish {ar : ActiveRender} (h : c.activeRender = some ar)
    (state : ReportState) : Balances (c.finish ar state) [] c.accounts := by
  intro x
  rw [count_accounts, count_accounts, h]
  show 0 + _ + _ + [ar.held].count x + 0 = [ar.held].count x + _ + _
  simp only [finish]
  omega

theorem balances_failChunk : Balances c.failChunk [] c.accounts := by
  unfold failChunk
  split
  · exact balances_same
  · rename_i ar har
    exact balances_finish (c := { c with disconnectGrace := none }) har .failed

/-- A message to the agent changes no account. -/
theorem balances_sendAbort {r : RenderCoordinator × List RenderEffect} {reason : String}
    {gone before : List Held} (h : Balances r gone before) :
    Balances (r.1, .sendAbort reason :: r.2) gone before := h

theorem balances_abortCurrentRender {reason : String} :
    Balances (c.abortCurrentRender reason) [] c.accounts := by
  unfold abortCurrentRender
  split
  · exact balances_same
  · exact balances_sendAbort balances_failChunk

theorem balances_abandonCurrentRender {reason : String} :
    Balances (c.abandonCurrentRender reason) [] c.accounts := by
  unfold abandonCurrentRender
  split
  · exact balances_same
  · rename_i ar har
    exact balances_sendAbort
      (balances_finish (c := { c with disconnectGrace := none }) har .abandoned)

/-! ### The queue -/

/-- A render starts where none was active. -/
theorem balances_startRender {d : PendingDispatch} (h : c.activeRender = none) :
    Balances (c.startRender d env) [] ([d.held] ++ c.accounts) := by
  intro x
  rw [List.count_append, count_accounts, count_accounts, h]
  have hrender : ((c.startRender d env).1.activeRender.toList.map (·.held)).count x =
      [d.held].count x := by
    show [(c.renderOf d env).held].count x = [d.held].count x
    rw [renderOf_held]
  rw [hrender]
  show _ + _ + _ + 0 + 0 = _ + (0 + _ + _)
  simp only [startRender]
  omega

/-- A dispatch at the back of the queue. -/
theorem count_accounts_requeue {d : PendingDispatch} {requeue : Option (Int × Int)} :
    { c with dispatchQueue := c.dispatchQueue ++ [d], requeue }.accounts.count x =
      [d.held].count x + c.accounts.count x := by
  rw [count_accounts, count_accounts]
  show _ + List.count x ((c.dispatchQueue ++ [d]).map (·.held)) + _ = _
  rw [List.map_append, List.count_append]
  show _ + (_ + [d.held].count x) + _ = _
  dsimp only
  omega

/-- A dispatch that is reported leaves the coordinator as it was. -/
theorem balances_reported {d : PendingDispatch} {effects : List RenderEffect}
    (h : (completions effects).map (·.1) = [d.held]) :
    Balances (c, effects) [] ([d.held] ++ c.accounts) := by
  intro x
  rw [h, List.count_append, List.count_nil, Nat.add_zero]
  exact Nat.add_comm _ _

theorem balances_takeDispatch : Balances (c.takeDispatch env) [] c.accounts := by
  -- the dispatch is in the hands of the call until it is put somewhere
  have hput : ∀ {d rest r}, c.dispatchQueue = d :: rest →
      Balances r [] ([d.held] ++ { c with dispatchQueue := rest }.accounts) →
      Balances r [] c.accounts := by
    intro d rest r hq hr x
    have hpop : c.accounts.count x =
        ([d.held] ++ { c with dispatchQueue := rest }.accounts).count x := by
      rw [List.count_append, count_accounts, count_accounts, hq]
      show _ + List.count x ([d.held] ++ rest.map (·.held)) + _ = _
      rw [List.count_append]
      show _ + (_ + (rest.map (·.held)).count x) + _ =
        _ + (_ + (rest.map (·.held)).count x + _)
      dsimp only
      omega
    rw [hpop]
    exact hr x
  have hback : ∀ {d rest requeue effects}, completions effects = [] →
      Balances ({ c with dispatchQueue := rest ++ [d], requeue }, effects) []
        ([d.held] ++ { c with dispatchQueue := rest }.accounts) := by
    intro d rest requeue effects h x
    rw [h, List.count_append]
    exact count_accounts_requeue (c := { c with dispatchQueue := rest })
  cases takeDispatch_taken c env with
  | nothing _ hr =>
      rw [hr]
      exact balances_same
  | abandoned d rest _ hq _ hr =>
      rw [hr]
      exact hput hq (balances_reported rfl)
  | started d rest hfree hq _ _ hr =>
      rw [hr]
      exact hput hq (balances_startRender hfree.1)
  | spawned d rest _ hq _ _ hr =>
      rw [hr]
      exact hput hq (hback rfl)
  | unspawned d rest _ hq _ _ hr =>
      rw [hr]
      exact hput hq (balances_reported rfl)
  | timedOut d rest _ hq _ _ _ _ _ _ hr =>
      rw [hr]
      exact hput hq
        (balances_reported (c := { c with dispatchQueue := rest, requeue := none }) rfl)
  | waiting d rest _ hq _ _ _ _ _ hr =>
      rw [hr]
      exact hput hq (hback rfl)

theorem balances_checkPipe : Balances (c.checkPipe env) [] c.accounts := by
  rcases checkPipe_cases c env with ⟨grace, hkept⟩ | hfails
  · rw [hkept]
    exact balances_same
  · rw [hfails]
    exact balances_failChunk

/-! ### Held deliveries -/

/-- A held delivery stays, is reported, or is dropped with its job. -/
theorem count_retryDelivery (env : Surroundings) (deletedJobs : List String)
    (p : PendingDelivery) :
    ((retryDelivery deletedJobs env p).1.toList.map (·.held)).count x +
        ((completions (retryDelivery deletedJobs env p).2).map (·.1)).count x +
        (([p].filter (·.jobId ∈ deletedJobs)).map (·.held)).count x =
      [p.held].count x := by
  have hdropped : [p].filter (·.jobId ∈ deletedJobs) =
      if p.jobId ∈ deletedJobs then [p] else [] := by
    simp only [List.filter_cons, List.filter_nil, decide_eq_true_eq]
  rw [hdropped]
  unfold retryDelivery
  split
  · exact Nat.zero_add _
  split
  · rfl
  split
  · exact Nat.zero_add _
  split
  · exact Nat.zero_add _
  · rfl

theorem count_retryDeliveries (deletedJobs : List String) :
    ∀ (l : List PendingDelivery) (env : Nat → Surroundings),
      let tried := l.mapIdx fun i => retryDelivery deletedJobs (env i)
      ((tried.filterMap (·.1)).map (·.held)).count x +
          ((completions (tried.flatMap (·.2))).map (·.1)).count x +
          ((l.filter (·.jobId ∈ deletedJobs)).map (·.held)).count x =
        (l.map (·.held)).count x := by
  intro l
  induction l with
  | nil => exact fun _ => rfl
  | cons p l ih =>
      intro env
      have hp := count_retryDelivery (x := x) (env 0) deletedJobs p
      have hl := ih fun i => env (i + 1)
      dsimp only at hl
      simp only [List.mapIdx_cons, List.flatMap_cons, completions_append, List.map_append,
        List.count_append]
      have hkept : ∀ (o : Option PendingDelivery × List RenderEffect) tried,
          (((o :: tried).filterMap (·.1)).map (·.held)).count x =
            (o.1.toList.map (·.held)).count x +
              ((tried.filterMap (·.1)).map fun q : PendingDelivery => q.held).count x := by
        rintro ⟨o, es⟩ tried
        rcases o with _ | q
        · exact (Nat.zero_add _).symm
        · show List.count x ([q.held] ++ (tried.filterMap (·.1)).map (·.held)) = _
          rw [List.count_append]
          rfl
      have hcons : ∀ l' : List PendingDelivery, ((p :: l').map (·.held)).count x =
          [p.held].count x + (l'.map (·.held)).count x := by
        intro l'
        show List.count x ([p.held] ++ l'.map (·.held)) = _
        exact List.count_append
      have hfilter : (((p :: l).filter (·.jobId ∈ deletedJobs)).map (·.held)).count x =
          (([p].filter (·.jobId ∈ deletedJobs)).map (·.held)).count x +
            ((l.filter (·.jobId ∈ deletedJobs)).map (·.held)).count x := by
        rw [← List.singleton_append, List.filter_append, List.map_append, List.count_append]
      rw [hkept, hcons, hfilter]
      omega

theorem balances_retryDeliveries (deliveries : Nat → Surroundings) :
    Balances (c.retryDeliveries deliveries)
      ((c.pendingDeliveries.filter (·.jobId ∈ c.deletedJobs)).map (·.held)) c.accounts := by
  intro x
  have h := count_retryDeliveries (x := x) c.deletedJobs c.pendingDeliveries deliveries
  rw [count_accounts, count_accounts]
  simp only [] at h
  simp only [retryDeliveries]
  omega

/-- Two parts of a call balance when each of them does. -/
theorem Balances.trans {r : RenderCoordinator × List RenderEffect} {gone before : List Held}
    {s : RenderCoordinator × List RenderEffect} (h : Balances r gone before)
    (hs : Balances s [] r.1.accounts) : Balances (s.1, r.2 ++ s.2) gone before := by
  intro x
  have hr := h x
  have hs := hs x
  rw [List.count_nil] at hs
  rw [completions_append, List.map_append, List.count_append]
  dsimp only
  omega

theorem balances_updateThrough {deliveries : Nat → Surroundings} {queue pipe : Surroundings} :
    Balances (c.updateThrough deliveries queue pipe)
      ((c.pendingDeliveries.filter (·.jobId ∈ c.deletedJobs)).map (·.held)) c.accounts :=
  ((balances_retryDeliveries deliveries).trans balances_takeDispatch).trans balances_checkPipe

/-! ### Messages and the queue's other calls -/

theorem balances_onChunkCompleted {ar : ActiveRender} (h : c.activeRender = some ar) :
    Balances (c.onChunkCompleted env ar) [] c.accounts := by
  unfold onChunkCompleted
  split
  · intro x
    rw [count_accounts, count_accounts, h]
    show 0 + _ + List.count x (List.map _ (c.pendingDeliveries ++ _)) + 0 + 0 =
      [ar.held].count x + _ + _
    rw [List.map_append, List.count_append]
    show 0 + _ + (_ + [ar.held].count x) + 0 + 0 = _
    dsimp only
    omega
  · exact balances_finish h .completed

theorem balances_handleAgentMessage {τ : Type} {m : AgentToMonitor τ} :
    Balances (c.handleAgentMessage env m) [] c.accounts := by
  unfold handleAgentMessage
  cases har : c.activeRender with
  | none => exact balances_same
  | some ar =>
      -- an active render is accounted for by what its report will name
      have hsame : ∀ {ar' effects}, ar'.held = ar.held → completions effects = [] →
          Balances ({ c with activeRender := some ar' }, effects) [] c.accounts := by
        intro ar' effects hheld heffects x
        rw [heffects, count_accounts, count_accounts, har]
        show List.count x [ar'.held] + _ + _ + 0 + 0 = _
        rw [hheld]
        rfl
      cases m with
      | pong | status | progress | stdout => exact balances_same
      | ack t => exact hsame rfl rfl
      | frameCompleted t frame =>
          simp only []
          split
          · exact hsame rfl rfl
          · exact balances_same
      | completed t => exact balances_onChunkCompleted har
      | failed t error => exact balances_failChunk

theorem balances_purgeJob {jobId : String} : Balances (c.purgeJob jobId, [])
    ((c.dispatchQueue.filter (·.manifest.jobId = jobId)).map (·.held)) c.accounts := by
  intro x
  have hsplit : ∀ l : List PendingDispatch,
      ((l.filter (·.manifest.jobId ≠ jobId)).map (·.held)).count x +
        ((l.filter (·.manifest.jobId = jobId)).map (·.held)).count x =
      (l.map (·.held)).count x := by
    intro l
    have hperm := (List.filter_append_perm (fun d => decide (d.manifest.jobId = jobId)) l).map
      PendingDispatch.held
    rw [← hperm.count_eq, List.map_append, List.count_append, Nat.add_comm]
    simp only [decide_not, ne_eq]
  rw [count_accounts, count_accounts, ← hsplit c.dispatchQueue]
  show _ + _ + _ + 0 + _ = _
  simp only [purgeJob]
  omega

end RenderCoordinator

/-- **What a call moves.** The dispatches before it, with the one it queues,
are those after it, those it reports, and those it purges or drops. -/
theorem CoordinatorCall.balances (c : RenderCoordinator) (call : CoordinatorCall) :
    RenderCoordinator.Balances (call.apply c) (call.purges c ++ call.drops c)
      (c.accounts ++ call.queues) := by
  have hqueues : ∀ {r gone}, RenderCoordinator.Balances r gone c.accounts →
      RenderCoordinator.Balances r gone (c.accounts ++ []) := by
    intro r gone h
    rw [List.append_nil]
    exact h
  cases call with
  | queueDispatch manifest chunk editEpoch =>
      intro x
      let d : PendingDispatch := ⟨manifest, chunk, editEpoch⟩
      have hsum : (c.accounts ++ [d.held]).count x =
          [d.held].count x + c.accounts.count x := by
        rw [List.count_append, Nat.add_comm]
      exact (RenderCoordinator.count_accounts_requeue (c := c) (d := d)).trans hsum.symm
  | update deliveries queue pipe => exact hqueues RenderCoordinator.balances_updateThrough
  | handleAgentMessage env type j =>
      apply hqueues
      show RenderCoordinator.Balances (match c.handleMessage env type j with
        | .ok r => r
        | .error _ => (c, [])) [] c.accounts
      split
      · rename_i r hr
        obtain ⟨m, rfl⟩ := RenderCoordinator.handleMessage_ok hr
        exact RenderCoordinator.balances_handleAgentMessage
      · exact RenderCoordinator.balances_same
  | abortCurrentRender reason => exact hqueues RenderCoordinator.balances_abortCurrentRender
  | abandonCurrentRender reason => exact hqueues RenderCoordinator.balances_abandonCurrentRender
  | purgeJob jobId =>
      apply hqueues
      show RenderCoordinator.Balances _ (_ ++ []) _
      rw [List.append_nil]
      exact RenderCoordinator.balances_purgeJob
  | markJobDeleted jobId => exact hqueues RenderCoordinator.balances_same
  | setStopped stopped => exact hqueues RenderCoordinator.balances_same
  | setStagingEnabled enabled => exact hqueues RenderCoordinator.balances_same

/-! ## Why a dispatch is dropped -/

namespace RenderCoordinator

variable {c : RenderCoordinator} {env : Surroundings}

theorem deletedJobs_failChunk : c.failChunk.1.deletedJobs = c.deletedJobs := by
  rcases failChunk_cases c with hnone | ⟨ar, -, hended⟩
  · rw [hnone]
  · rw [hended]

theorem deletedJobs_takeDispatch : (c.takeDispatch env).1.deletedJobs = c.deletedJobs := by
  cases takeDispatch_taken c env with
  | started _ _ _ _ _ _ hr =>
      rw [hr]
      rfl
  | nothing _ hr | abandoned _ _ _ _ _ hr | spawned _ _ _ _ _ _ hr | unspawned _ _ _ _ _ _ hr
  | timedOut _ _ _ _ _ _ _ _ _ _ hr | waiting _ _ _ _ _ _ _ _ _ hr => rw [hr]

theorem deletedJobs_checkPipe : (c.checkPipe env).1.deletedJobs = c.deletedJobs := by
  rcases checkPipe_cases c env with ⟨grace, hkept⟩ | hfails
  · rw [hkept]
  · rw [hfails]
    exact deletedJobs_failChunk

theorem deletedJobs_handleAgentMessage {τ : Type} {m : AgentToMonitor τ} :
    (c.handleAgentMessage env m).1.deletedJobs = c.deletedJobs := by
  unfold handleAgentMessage
  split
  · rfl
  cases m with
  | ack | pong | status | progress | stdout => rfl
  | frameCompleted t frame =>
      simp only []
      split <;> rfl
  | completed t =>
      simp only [onChunkCompleted]
      split <;> rfl
  | failed t error => exact deletedJobs_failChunk

end RenderCoordinator

/-- Only `markJobDeleted` deletes a job. -/
theorem CoordinatorCall.mem_deletedJobs {c : RenderCoordinator} {call : CoordinatorCall}
    {jobId : String} (h : jobId ∈ (call.apply c).1.deletedJobs) :
    jobId ∈ c.deletedJobs ∨ call = .markJobDeleted jobId := by
  cases call with
  | queueDispatch | purgeJob | setStopped | setStagingEnabled => exact .inl h
  | update deliveries queue pipe =>
      rw [apply, RenderCoordinator.updateThrough, RenderCoordinator.deletedJobs_checkPipe,
        RenderCoordinator.deletedJobs_takeDispatch] at h
      exact .inl h
  | handleAgentMessage env type j =>
      simp only [apply] at h
      split at h
      · rename_i r hr
        obtain ⟨m, rfl⟩ := RenderCoordinator.handleMessage_ok hr
        rw [RenderCoordinator.deletedJobs_handleAgentMessage] at h
        exact .inl h
      · exact .inl h
  | abortCurrentRender reason =>
      simp only [apply, RenderCoordinator.abortCurrentRender] at h
      split at h
      · exact .inl h
      · rw [RenderCoordinator.deletedJobs_failChunk] at h
        exact .inl h
  | abandonCurrentRender reason =>
      simp only [apply, RenderCoordinator.abandonCurrentRender] at h
      split at h
      · exact .inl h
      · exact .inl h
  | markJobDeleted deleted =>
      rcases List.mem_cons.mp h with rfl | h
      · exact .inr rfl
      · exact .inl (List.mem_filter.mp h).1

/-- A key that occurs once has one entry. -/
theorem existsUnique_of_count_map_fst {α β : Type} [DecidableEq α] {l : List (α × β)} {x : α}
    (h : (l.map (·.1)).count x = 1) : ∃! b, (x, b) ∈ l := by
  rw [List.count_eq_countP, List.countP_map, List.countP_eq_length_filter] at h
  obtain ⟨p, hp⟩ := List.length_eq_one_iff.mp h
  have hmem : ∀ b, (x, b) ∈ l ↔ (x, b) = p := by
    intro b
    rw [← List.mem_singleton, ← hp, List.mem_filter]
    simp
  have hx : p.1 = x := by
    have hself : p ∈ [p] := List.mem_singleton_self p
    rw [← hp] at hself
    simpa using (List.mem_filter.mp hself).2
  refine ⟨p.2, (hmem _).mpr (by rw [← hx]), ?_⟩
  intro b hb
  rw [← (hmem b).mp hb]

/-! ## The ledger -/

/-- Where a dispatch is, or how it left. -/
inductive Place
  | queue
  | activeRender
  | pendingDelivery
  | completion (state : ReportState)
  | purged
  | dropped
deriving DecidableEq, Repr

/-- A coordinator with the dispatches queued so far and, in order, those that
left it. -/
structure DispatchLedger where
  coordinator : RenderCoordinator
  queued : List Held
  completions : List (Held × ReportState) := []
  purged : List Held := []
  dropped : List Held := []

namespace DispatchLedger

/-- At initialisation the queue is what earlier calls left in it. -/
def init (c : RenderCoordinator) : DispatchLedger where
  coordinator := c.init
  queued := c.dispatchQueue.map (·.held)

def step (l : DispatchLedger) (call : CoordinatorCall) : DispatchLedger :=
  let r := call.apply l.coordinator
  { coordinator := r.1
    queued := l.queued ++ call.queues
    completions := l.completions ++ MinRender.completions r.2
    purged := l.purged ++ call.purges l.coordinator
    dropped := l.dropped ++ call.drops l.coordinator }

def run (c : RenderCoordinator) (calls : List CoordinatorCall) : DispatchLedger :=
  calls.foldl step (init c)

/-- Every dispatch with its place. -/
def places (l : DispatchLedger) : List (Held × Place) :=
  l.coordinator.activeRender.toList.map (fun ar => (ar.held, .activeRender)) ++
    l.coordinator.dispatchQueue.map (fun d => (d.held, .queue)) ++
    l.coordinator.pendingDeliveries.map (fun p => (p.held, .pendingDelivery)) ++
    l.completions.map (fun x => (x.1, .completion x.2)) ++
    l.purged.map (fun x => (x, .purged)) ++ l.dropped.map (fun x => (x, .dropped))

theorem map_fst_places (l : DispatchLedger) : l.places.map (·.1) =
    l.coordinator.accounts ++ l.completions.map (·.1) ++ l.purged ++ l.dropped := by
  simp [places, RenderCoordinator.accounts, RenderCoordinator.held, Function.comp_def]

/-- The places of a ledger are those of the dispatches queued. -/
def Accounted (l : DispatchLedger) : Prop := (l.places.map (·.1)).Perm l.queued

theorem accounted_init (c : RenderCoordinator) : (init c).Accounted := by
  unfold Accounted
  rw [map_fst_places]
  simp [init, RenderCoordinator.init, RenderCoordinator.accounts, RenderCoordinator.held]

theorem accounted_step {l : DispatchLedger} (h : l.Accounted) (call : CoordinatorCall) :
    (l.step call).Accounted := by
  rw [Accounted, List.perm_iff_count] at h ⊢
  intro x
  have hcall := call.balances l.coordinator x
  have hl := h x
  rw [map_fst_places] at hl ⊢
  simp only [List.count_append] at hl hcall ⊢
  show _ + List.count x ((l.completions ++ _).map _) + List.count x (l.purged ++ _) +
    List.count x (l.dropped ++ _) = List.count x (l.queued ++ _)
  rw [List.map_append]
  simp only [List.count_append]
  show (call.apply l.coordinator).1.accounts.count x + _ + _ + _ = _
  omega

theorem accounted_run (c : RenderCoordinator) (calls : List CoordinatorCall) :
    (run c calls).Accounted := by
  unfold run
  induction calls using List.reverseRecOn with
  | nil => exact accounted_init c
  | append_singleton calls call ih =>
      rw [List.foldl_append]
      exact accounted_step ih call

/-- What left without a report: purged by a call that names the job, or dropped
after its job was marked deleted. -/
structure Justified (c : RenderCoordinator) (calls : List CoordinatorCall)
    (l : DispatchLedger) : Prop where
  purged : ∀ x ∈ l.purged, .purgeJob x.jobId ∈ calls
  deleted : ∀ jobId ∈ l.coordinator.deletedJobs,
    jobId ∈ c.deletedJobs ∨ .markJobDeleted jobId ∈ calls
  dropped : ∀ x ∈ l.dropped, x.jobId ∈ c.deletedJobs ∨ .markJobDeleted x.jobId ∈ calls

theorem justified_run (c : RenderCoordinator) (calls : List CoordinatorCall) :
    Justified c calls (run c calls) := by
  unfold run
  induction calls using List.reverseRecOn with
  | nil => exact ⟨fun _ hx => (nomatch hx), fun _ h => .inl h, fun _ hx => (nomatch hx)⟩
  | append_singleton calls call ih =>
      rw [List.foldl_append]
      have hearlier : ∀ {call'}, call' ∈ calls → call' ∈ calls ++ [call] :=
        List.mem_append_left _
      have hlast : call ∈ calls ++ [call] := by simp
      constructor
      · intro x hx
        rcases List.mem_append.mp hx with hx | hx
        · exact hearlier (ih.purged x hx)
        · cases call with
          | purgeJob jobId =>
              obtain ⟨d, hd, rfl⟩ := List.mem_map.mp hx
              have hjob : d.manifest.jobId = jobId :=
                of_decide_eq_true (List.mem_filter.mp hd).2
              show CoordinatorCall.purgeJob d.manifest.jobId ∈ _
              rw [hjob]
              exact hlast
          | _ => cases hx
      · intro jobId h
        rcases CoordinatorCall.mem_deletedJobs h with h | rfl
        · exact (ih.deleted jobId h).imp_right hearlier
        · exact .inr hlast
      · intro x hx
        rcases List.mem_append.mp hx with hx | hx
        · exact (ih.dropped x hx).imp_right hearlier
        · cases call with
          | update deliveries queue pipe =>
              obtain ⟨p, hp, rfl⟩ := List.mem_map.mp hx
              exact (ih.deleted p.jobId
                (of_decide_eq_true (List.mem_filter.mp hp).2)).imp_right hearlier
          | _ => cases hx

end DispatchLedger

/-- **Every dispatch is accounted for once.** After any calls the dispatches
queued are, one for one, those with a place: a dispatch queued once has one
place, and one that left unreported was purged or belonged to a deleted job. -/
theorem dispatch_accounted_once (c : RenderCoordinator) (calls : List CoordinatorCall) :
    let l := DispatchLedger.run c calls
    (l.places.map (·.1)).Perm l.queued ∧
      (∀ x, l.queued.count x = 1 → ∃! place, (x, place) ∈ l.places) ∧
      (∀ x ∈ l.purged, .purgeJob x.jobId ∈ calls) ∧
      ∀ x ∈ l.dropped, x.jobId ∈ c.deletedJobs ∨ .markJobDeleted x.jobId ∈ calls := by
  have hperm := DispatchLedger.accounted_run c calls
  have hcause := DispatchLedger.justified_run c calls
  refine ⟨hperm, ?_, hcause.purged, hcause.dropped⟩
  intro x hx
  rw [← hperm.count_eq] at hx
  exact existsUnique_of_count_map_fst hx

end MinRender
