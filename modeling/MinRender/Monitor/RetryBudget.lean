import MinRender.Framework.Runs
import MinRender.Monitor.DispatchManager
import MinRender.Monitor.RowSteps

/-!
# How often a failed chunk is tried again

One chunk of a job whose `max_retries` stays the same, along any calls that do
not start its count over. `max_retries` is documented as the number of times a
failed chunk is retried; the comparison in `failChunk` counts the failure at
hand already, and so gives one try less.
-/

namespace MinRender.RetryBudget
open DatabaseManager DispatchManager

/-! ## The leader and a chunk -/

/-- A failure report that reaches the database, or any other call. -/
inductive Event
  | failure (r : FailureReport)
  | call (c : DbCall)
deriving DecidableEq, Repr

/-- The database, and how many failures of the chunk were accepted. -/
structure Leader where
  db : Db
  accepted : Nat := 0

/-- What `getJob` gives for the retries of a job. -/
def retriesOf (T : JsonText) (db : Db) (jobId : String) : Int :=
  maxRetriesOf T (getJob db jobId)

def failureCall (T : JsonText) (db : Db) (r : FailureReport) : DbCall :=
  .failChunk r.jobId r.frameStart r.frameEnd (retriesOf T db r.jobId) r.nodeId r.editEpoch

/-- `failChunk` returns true, and the chunk is one it is about. -/
def accepts (T : JsonText) (id : Int) (db : Db) (r : FailureReport) : Bool :=
  (failChunk db r.jobId r.frameStart r.frameEnd (retriesOf T db r.jobId) r.nodeId
    r.editEpoch).1 &&
  (db.chunk? id).any fun c =>
    inRange r.jobId r.frameStart r.frameEnd c && decide (c.state = .assigned)

/-- The calls that start a chunk's count over, or replace the chunk. -/
def resets (jobId : String) : DbCall → Bool
  | .resetAllChunks j | .retryFailedChunks j | .rebuildChunks j _ | .deleteJob j => j = jobId
  | _ => false

/-- A failure is an event of its own. -/
def isFailure : DbCall → Bool
  | .failChunk .. => true
  | _ => false

section

variable (T : JsonText) (jobId : String) (n : Nat) (id : Int)

/-- The job's `max_retries` is `n` all along, and nobody resets its chunks. -/
def step (s : Leader) : Event → Option Leader
  | .failure r => some {
      db := (failureCall T s.db r).after T s.db
      accepted := if accepts T id s.db r then s.accepted + 1 else s.accepted }
  | .call c =>
      if resets jobId c = false ∧ isFailure c = false ∧
          retriesOf T (c.after T s.db) jobId = n then
        some { s with db := c.after T s.db }
      else none

def machine : Machine Leader Event := ⟨step T jobId n id⟩

/-- The chunk is one of the job, with `retries` counted. -/
structure Counted (retries : Int) (db : Db) : Prop where
  constant : retriesOf T db jobId = n
  chunk : ∃ c, db.chunk? id = some c ∧ c.jobId = jobId ∧ c.retryCount = retries

/-- No failure was accepted yet. -/
def Fresh (s : Leader) : Prop := s.accepted = 0 ∧ Counted T jobId n id 0 s.db

/-! ## The retries a chunk has -/

/-- The chunk's count stays. -/
def Unspent (db db' : Db) : Prop :=
  ∀ c, db.chunk? id = some c → ∃ c', db'.chunk? id = some c' ∧ c'.retryCount = c.retryCount

/-- The first `n` accepted failures return the chunk to pending, the next fails
it, and nothing else counts. -/
def Budgeted (s : Leader) (e : Event) (s' : Leader) : Prop :=
  match e with
  | .failure r =>
      if accepts T id s.db r then
        ∃ c', s'.db.chunk? id = some c' ∧
          (s.accepted < n → c'.state = .pending) ∧ (s.accepted = n → c'.state = .failed)
      else Unspent id s.db s'.db
  | .call _ => Unspent id s.db s'.db

/-- An accepted failure does not find all but one of the retries counted. -/
def NotTheLast (s : Leader) (e : Event) (_ : Leader) : Prop :=
  ∀ r c, e = .failure r → accepts T id s.db r = true → s.db.chunk? id = some c →
    c.retryCount + 1 ≠ n

end

variable {T : JsonText} {jobId : String} {n : Nat} {id : Int} {db : Db} {s s' : Leader}

/-! ## What a step does to the chunk -/

/-- Only an accepted failure and a reset touch the count. -/
theorem retryCount_step {c : DbCall} {row row' : ChunkRecord} (h : RowStep c row row')
    (hresets : resets row.jobId c = false) (hfails : isFailure c = false) :
    row'.retryCount = row.retryCount := by
  cases h with
  | resetAll hj => exact absurd (decide_eq_true hj.symm) (by simpa [resets] using hresets)
  | retry hj => exact absurd (decide_eq_true hj.symm) (by simpa [resets] using hresets)
  | fail => cases hfails
  | _ => rfl

theorem keepsRow_of_resets {c : DbCall} {row : ChunkRecord}
    (h : resets row.jobId c = false) : c.keepsRow row = true := by
  cases c with
  | deleteJob j =>
      refine decide_eq_true fun heq => ?_
      exact of_decide_eq_false h heq.symm
  | rebuildChunks j ranges =>
      refine decide_eq_true fun heq => ?_
      exact of_decide_eq_false h heq.symm
  | _ => rfl

theorem call_row {c : DbCall} {row : ChunkRecord} (hrow : db.chunk? id = some row)
    (hresets : resets row.jobId c = false) (hfails : isFailure c = false) :
    ∃ row', (c.after T db).chunk? id = some row' ∧ row'.jobId = row.jobId ∧
      row'.retryCount = row.retryCount := by
  obtain ⟨row', hrow', hstep⟩ := chunk?_after_some (T := T) hrow (keepsRow_of_resets hresets)
  exact ⟨row', hrow', hstep.jobId_eq, retryCount_step hstep hresets hfails⟩

theorem accepts_eq_true {r : FailureReport} {row : ChunkRecord}
    (hrow : db.chunk? id = some row) :
    accepts T id db r = true ↔
      isChunkCurrent db r.jobId r.frameStart r.frameEnd r.nodeId r.editEpoch = true ∧
        inRange r.jobId r.frameStart r.frameEnd row = true ∧ row.state = .assigned := by
  unfold accepts
  rw [hrow, failChunk_reply, Option.any_some, Bool.and_eq_true, Bool.and_eq_true,
    decide_eq_true_eq]

/-- An accepted failure counts, and is the last with as many counted as there
are retries. -/
theorem failure_row {r : FailureReport} {row : ChunkRecord} (hrow : db.chunk? id = some row)
    (haccepts : accepts T id db r = true) :
    ∃ row', ((failureCall T db r).after T db).chunk? id = some row' ∧
      row'.jobId = row.jobId ∧ row'.retryCount = row.retryCount + 1 ∧
      row'.state = if row.retryCount + 1 < retriesOf T db row.jobId then .pending
        else .failed := by
  obtain ⟨hcurrent, hrange, hstate⟩ := (accepts_eq_true hrow).mp haccepts
  obtain ⟨hmem, hid⟩ := Db.chunk?_eq_some.mp hrow
  obtain ⟨l, hfailed⟩ :=
    failChunk_row (retriesOf T db r.jobId) hmem hcurrent hrange hstate
  have hjob : row.jobId = r.jobId := (of_decide_eq_true hrange).1
  refine ⟨_, Db.chunk?_eq_some.mpr ⟨hfailed, hid⟩, rfl, rfl, ?_⟩
  rw [hjob]
  rfl

/-- A report that is rejected, or about another chunk, leaves the chunk's count. -/
theorem rejected_row {r : FailureReport} {row : ChunkRecord} (hrow : db.chunk? id = some row)
    (hrejects : accepts T id db r = false) :
    ∃ row', ((failureCall T db r).after T db).chunk? id = some row' ∧
      row'.jobId = row.jobId ∧ row'.retryCount = row.retryCount := by
  have hafter : ∃ row', ((failureCall T db r).after T db).chunk? id = some row' ∧
      RowStep (failureCall T db r) row row' :=
    chunk?_after_some hrow rfl
  obtain ⟨row', hrow', hstep⟩ := hafter
  refine ⟨row', hrow', hstep.jobId_eq, ?_⟩
  by_cases hcurrent :
      isChunkCurrent db r.jobId r.frameStart r.frameEnd r.nodeId r.editEpoch = true
  · cases hstep with
    | fail l hrange hstate =>
        have haccepts := (accepts_eq_true (T := T) hrow).mpr ⟨hcurrent, hrange, hstate⟩
        rw [hrejects] at haccepts
        cases haccepts
    | _ => rfl
  · have hsame : (failureCall T db r).after T db = db := by
      show (failChunk db r.jobId r.frameStart r.frameEnd _ r.nodeId r.editEpoch).2 = db
      unfold failChunk
      rw [if_neg hcurrent]
    rw [hsame, hrow] at hrow'
    cases hrow'
    rfl

theorem retriesOf_failure {r : FailureReport} :
    retriesOf T ((failureCall T db r).after T db) jobId = retriesOf T db jobId := by
  have hjobs : ((failureCall T db r).after T db).jobs = db.jobs := failChunk_jobs ..
  unfold retriesOf getJob Db.job?
  rw [hjobs]

theorem step_call {c : DbCall} (h : step T jobId n id s (.call c) = some s') :
    resets jobId c = false ∧ isFailure c = false ∧
      retriesOf T (c.after T s.db) jobId = n ∧ s' = { s with db := c.after T s.db } := by
  have hif : (if resets jobId c = false ∧ isFailure c = false ∧
      retriesOf T (c.after T s.db) jobId = n then
        some { s with db := c.after T s.db } else none) = some s' := h
  split at hif
  · rename_i hallowed
    cases hif
    exact ⟨hallowed.1, hallowed.2.1, hallowed.2.2, rfl⟩
  · cases hif

/-! ## Runs -/

/-- The row counts the accepted failures. -/
def Counts (T : JsonText) (jobId : String) (n : Nat) (id : Int) (s : Leader) : Prop :=
  Counted T jobId n id s.accepted s.db

theorem keeps_counts : (machine T jobId n id).Keeps (Counts T jobId n id) := by
  rintro s e s' ⟨hconstant, row, hrow, hjob, hcount⟩ hstep
  cases e with
  | failure r =>
      cases hstep
      refine ⟨retriesOf_failure.trans hconstant, ?_⟩
      dsimp only
      by_cases haccepts : accepts T id s.db r = true
      · obtain ⟨row', hrow', hjob', hcount', -⟩ := failure_row hrow haccepts
        refine ⟨row', hrow', hjob'.trans hjob, ?_⟩
        rw [if_pos haccepts, hcount', hcount, Int.natCast_succ]
      · obtain ⟨row', hrow', hjob', hcount'⟩ :=
          rejected_row hrow (Bool.eq_false_iff.mpr haccepts)
        refine ⟨row', hrow', hjob'.trans hjob, ?_⟩
        rw [if_neg haccepts, hcount', hcount]
  | call c =>
      have hcall : step T jobId n id s (.call c) = some s' := hstep
      obtain ⟨hresets, hfails, hretries, rfl⟩ := step_call hcall
      obtain ⟨row', hrow', hjob', hcount'⟩ :=
        call_row (T := T) hrow (hjob.symm ▸ hresets) hfails
      exact ⟨hretries, row', hrow', hjob'.trans hjob, hcount'.trans hcount⟩

/-- A step keeps to the budget exactly when it is not the last failure but one. -/
theorem budgeted_iff_notTheLast {e : Event} (hs : Counts T jobId n id s)
    (hstep : step T jobId n id s e = some s') :
    Budgeted T n id s e s' ↔ NotTheLast T n id s e s' := by
  obtain ⟨hconstant, row, hrow, hjob, hcount⟩ := hs
  cases e with
  | failure r =>
      cases hstep
      unfold Budgeted NotTheLast
      dsimp only
      by_cases haccepts : accepts T id s.db r = true
      · obtain ⟨row', hrow', -, -, hstate⟩ := failure_row hrow haccepts
        rw [hjob, hconstant, hcount] at hstate
        rw [if_pos haccepts]
        constructor
        · rintro ⟨c', hc', hpending, -⟩ r' c hr hacc hc hlast
          rw [hrow] at hc
          cases hc
          rw [hrow'] at hc'
          cases hc'
          rw [hcount] at hlast
          have hopen := hpending (by omega)
          rw [hstate, if_neg (by omega)] at hopen
          cases hopen
        · intro hnot
          have hne := hnot r row rfl haccepts hrow
          rw [hcount] at hne
          refine ⟨row', hrow', fun hlt => ?_, fun heq => ?_⟩
          · rw [hstate, if_pos (by omega)]
          · rw [hstate, if_neg (by omega)]
      · obtain ⟨row', hrow', -, hcount'⟩ :=
          rejected_row hrow (Bool.eq_false_iff.mpr haccepts)
        rw [if_neg haccepts]
        refine iff_of_true ?_ ?_
        · intro c hc
          rw [hrow] at hc
          cases hc
          exact ⟨row', hrow', hcount'⟩
        · intro r' c hr hacc
          cases hr
          exact absurd hacc haccepts
  | call c =>
      obtain ⟨hresets, hfails, -, rfl⟩ := step_call hstep
      refine iff_of_true ?_ ?_
      · intro c' hc'
        rw [hrow] at hc'
        cases hc'
        obtain ⟨row', hrow', -, hcount'⟩ :=
          call_row (T := T) hrow (hjob.symm ▸ hresets) hfails
        exact ⟨row', hrow', hcount'⟩
      · intro r c hr
        cases hr

/-- **A chunk is retried as often as the job says exactly until its last
retry**: an accepted failure that finds `max_retries - 1` counted fails the
chunk, which had one retry left. -/
theorem budget_iff_notTheLast (T : JsonText) (jobId : String) (n : Nat) (id : Int)
    (s : Leader) (es : List Event) (h : Fresh T jobId n id s) :
    (machine T jobId n id).Along (Budgeted T n id) s es ↔
      (machine T jobId n id).Along (NotTheLast T n id) s es := by
  obtain ⟨hzero, hcounted⟩ := h
  have hstart : Counts T jobId n id s := by
    unfold Counts
    rw [hzero]
    exact hcounted
  exact (Machine.Along.congr keeps_counts
    (fun _ _ _ hs hstep => (budgeted_iff_notTheLast hs hstep).symm) hstart).symm

/-- One chunk of ten frames, with the default of three retries. -/
def shotDb : Db :=
  (DbCall.insertChunks "shot" [⟨1, 10⟩]).after shotText
    ((DbCall.insertJob { jobId := "shot", manifestJson := shotManifest }).after shotText
      .empty)

def shotFailure (nodeId : String) : FailureReport := ⟨nodeId, "shot", 1, 10, "exit code 1", 0⟩

/-- Each of the nodes gets the chunk and fails it. -/
def failedBy (nodes : List String) : List Event :=
  nodes.flatMap fun node =>
    [.call (.assignChunk 1 node 1000 0), .failure (shotFailure node)]

theorem shot_fresh : Fresh shotText "shot" 3 1 { db := shotDb } :=
  ⟨rfl, ⟨by decide, _, rfl, rfl, rfl⟩⟩

theorem two_failures_budgeted :
    (machine shotText "shot" 3 1).Along (Budgeted shotText 3 1) { db := shotDb }
        (failedBy ["n1", "n2"]) ↔
      (machine shotText "shot" 3 1).Along (NotTheLast shotText 3 1) { db := shotDb }
        (failedBy ["n1", "n2"]) :=
  budget_iff_notTheLast shotText "shot" 3 1 { db := shotDb } _ shot_fresh

/-- **A retry short**: with three retries the third failure is the end. -/
theorem third_failure_is_final :
    ¬ ∀ T jobId n id s es, Fresh T jobId n id s →
      (machine T jobId n id).Along (Budgeted T n id) s es := by
  intro h
  refine Machine.Along.refute (failedBy ["n1", "n2"] ++ [.call (.assignChunk 1 "n3" 1000 0)])
    (.failure (shotFailure "n3"))
    (fun s s' => accepts shotText 1 s.db (shotFailure "n3") && decide (s.accepted = 2) &&
      (s'.db.chunk? 1).any fun c => decide (c.state = .failed)) ?_ ?_
    (h shotText "shot" 3 1 { db := shotDb } _ shot_fresh)
  · intro t u hbad hgood
    rw [Bool.and_eq_true, Bool.and_eq_true, Option.any_eq_true] at hbad
    obtain ⟨⟨haccepts, htwo⟩, row, hrow, hfailed⟩ := hbad
    unfold Budgeted at hgood
    dsimp only at hgood
    rw [if_pos haccepts] at hgood
    obtain ⟨c', hc', hpending, -⟩ := hgood
    rw [hrow] at hc'
    cases hc'
    have htwo : t.accepted = 2 := of_decide_eq_true htwo
    have hopen := hpending (by omega)
    rw [of_decide_eq_true hfailed] at hopen
    cases hopen
  · decide

end MinRender.RetryBudget
