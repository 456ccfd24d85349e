import MinRender.Framework.Runs
import MinRender.Monitor.DispatchManager
import MinRender.Monitor.TableInvariants

/-!
# Reverts of failed assignment POSTs

The leader's report queues as a state machine: assignments send a POST each,
a POST that fails (or times out although the worker took it) queues a
`RevertRequest`, and `processReports` takes the queues and drains completions,
then failures, then reverts, while other threads go on calling the database.
The queues keep, next to each request, the POST it came from; the code itself
has only the request.
-/

namespace MinRender.RevertQueue
open DatabaseManager DispatchManager Table

/-- An assignment POST: the chunk, the worker, and the epoch it was stamped
with. -/
structure Post where
  jobId : String
  frameStart : Int
  frameEnd : Int
  nodeId : String
  editEpoch : Int
deriving DecidableEq, Repr

/-- The request a failed POST queues. -/
def Post.revert (p : Post) : RevertRequest :=
  { jobId := p.jobId, frameStart := p.frameStart, frameEnd := p.frameEnd }

/-- What the running `processReports` has left to drain. `lookedUp` is the
retry limit it read for the failure at hand. -/
structure Draining where
  completions : List CompletionReport := []
  failures : List FailureReport := []
  lookedUp : Option Int := none
  reverts : List Post := []
deriving DecidableEq, Repr

structure Leader where
  db : Db
  posts : List Post := []
  completions : List CompletionReport := []
  failures : List FailureReport := []
  reverts : List Post := []
  draining : Draining := {}

inductive Event
  /-- A database call of another thread or another phase of the cycle. -/
  | call (c : DbCall)
  /-- `assignChunk` by the dispatcher; where it hits, the POST goes out. -/
  | assign (chunkId : Int) (nodeId : String) (nowMs editEpoch : Int)
  | postAnswered (p : Post)
  | postFailed (p : Post)
  | completionReported (r : CompletionReport)
  | failureReported (r : FailureReport)
  /-- `processReports` swaps the queues. -/
  | beginReports
  /-- `processReports` drains the next report. -/
  | drain (nowMs : Int)

/-- The POST for a row. -/
def Post.ofRow (c : ChunkRecord) (nodeId : String) (editEpoch : Int) : Post :=
  { jobId := c.jobId, frameStart := c.frameStart, frameEnd := c.frameEnd,
    nodeId, editEpoch }

/-- The next report in drain order. -/
def drainStep (T : JsonText) (nowMs : Int) (s : Leader) : Option Leader :=
  match s.draining with
  | { completions := r :: rest, failures, lookedUp, reverts } =>
      some { s with
        db := (DbCall.completeChunk r.jobId r.frameStart r.frameEnd nowMs r.nodeId
          r.editEpoch).after T s.db
        draining := { completions := rest, failures, lookedUp, reverts } }
  | { completions := [], failures := r :: rest, lookedUp := none, reverts } =>
      some { s with
        draining := {
          failures := r :: rest
          lookedUp := some (maxRetriesOf T (getJob s.db r.jobId))
          reverts } }
  | { completions := [], failures := r :: rest, lookedUp := some maxRetries,
      reverts } =>
      some { s with
        db := (DbCall.failChunk r.jobId r.frameStart r.frameEnd maxRetries r.nodeId
          r.editEpoch).after T s.db
        draining := { failures := rest, reverts } }
  | { completions := [], failures := [], lookedUp := _, reverts := p :: rest } =>
      some { s with
        db := (DbCall.revertChunkToPending p.revert.jobId p.revert.frameStart
          p.revert.frameEnd).after T s.db
        draining := { reverts := rest } }
  | { completions := [], failures := [], lookedUp := _, reverts := [] } => none

def step (T : JsonText) (s : Leader) : Event → Option Leader
  | .call c => some { s with db := c.after T s.db }
  | .assign chunkId nodeId nowMs editEpoch =>
      match s.db.chunk? chunkId with
      | none => none
      | some c =>
          let (assigned, db) := assignChunk s.db chunkId nodeId nowMs editEpoch
          if assigned then
            some { s with db, posts := .ofRow c nodeId editEpoch :: s.posts }
          else some { s with db }
  | .postAnswered p =>
      if p ∈ s.posts then some { s with posts := s.posts.erase p } else none
  | .postFailed p =>
      if p ∈ s.posts then
        some { s with posts := s.posts.erase p, reverts := s.reverts ++ [p] }
      else none
  | .completionReported r => some { s with completions := s.completions ++ [r] }
  | .failureReported r => some { s with failures := s.failures ++ [r] }
  | .beginReports =>
      if s.draining = {} then
        some { s with
          completions := []
          failures := []
          reverts := []
          draining := { completions := s.completions, failures := s.failures,
                        reverts := s.reverts } }
      else none
  | .drain nowMs => drainStep T nowMs s

def machine (T : JsonText) : Machine Leader Event := ⟨step T⟩

/-- A leader with an empty database and empty queues. -/
def start : Leader := { db := Db.empty }

/-! ## The two properties -/

/-- The revert that the next drain step undoes. -/
def Leader.nextRevert (s : Leader) : Option Post :=
  if s.draining.completions = [] ∧ s.draining.failures = [] then
    s.draining.reverts.head?
  else none

/-- The chunk is assigned by this POST: to its worker, under its epoch. -/
def Post.Holds (p : Post) (c : ChunkRecord) : Prop :=
  c.state = .assigned ∧ c.assignedTo = some p.nodeId ∧ c.editEpoch = p.editEpoch

instance (p : Post) (c : ChunkRecord) : Decidable (p.Holds c) := by
  unfold Post.Holds
  infer_instance

/-- Draining a revert changes a row only if the POST still holds it. -/
def UndoesOnlyItsAssignment (s : Leader) (e : Event) (s' : Leader) : Prop :=
  ∀ nowMs p, e = .drain nowMs → s.nextRevert = some p →
    ∀ c c', Changed s.db.chunks s'.db.chunks c c' →
      inRange p.jobId p.frameStart p.frameEnd c = true ∧ p.Holds c

/-- The chunk was taken out of the POST's hands: it finished, failed, was
stopped, or is assigned to another node or under another epoch. -/
def Post.Overtaken (p : Post) (c : ChunkRecord) : Prop :=
  c.state = .completed ∨ c.state = .failed ∨ c.state = .stopped ∨
    c.state = .assigned ∧
      ¬ (c.assignedTo = some p.nodeId ∧ c.editEpoch = p.editEpoch)

/-- When a revert is drained, no chunk of its range has been overtaken. -/
def NotOvertaken (s : Leader) (e : Event) (_ : Leader) : Prop :=
  ∀ nowMs p, e = .drain nowMs → s.nextRevert = some p →
    ∀ c ∈ s.db.chunks, inRange p.jobId p.frameStart p.frameEnd c = true →
      ¬ p.Overtaken c

/-! ## What a step does -/

/-- Every step leaves the database alone or makes one call on it. -/
theorem step_db {T : JsonText} {s s' : Leader} {e : Event}
    (h : step T s e = some s') :
    s'.db = s.db ∨ ∃ c : DbCall, s'.db = c.after T s.db := by
  cases e with
  | call c =>
      cases h
      exact .inr ⟨c, rfl⟩
  | assign id node nowMs epoch =>
      simp only [step] at h
      split at h
      · cases h
      · have hdb : (assignChunk s.db id node nowMs epoch).2 =
            (DbCall.assignChunk id node nowMs epoch).after T s.db := rfl
        split at h <;> cases h <;> exact .inr ⟨_, hdb⟩
  | postAnswered p | postFailed p =>
      simp only [step] at h
      split at h <;> cases h
      exact .inl rfl
  | completionReported r | failureReported r =>
      cases h
      exact .inl rfl
  | beginReports =>
      simp only [step] at h
      split at h <;> cases h
      exact .inl rfl
  | drain nowMs =>
      simp only [step, drainStep] at h
      split at h <;> cases h
      · exact .inr ⟨_, rfl⟩
      · exact .inl rfl
      · exact .inr ⟨_, rfl⟩
      · exact .inr ⟨_, rfl⟩

/-- What draining a revert does. -/
theorem drain_revert {T : JsonText} {s s' : Leader} {nowMs : Int} {p : Post}
    (h : step T s (.drain nowMs) = some s') (hp : s.nextRevert = some p) :
    s'.db.chunks =
      update (inRange p.jobId p.frameStart p.frameEnd) toPending s.db.chunks := by
  simp only [Leader.nextRevert] at hp
  split at hp
  case isFalse => cases hp
  case isTrue hempty =>
    obtain ⟨hc, hf⟩ := hempty
    simp only [step, drainStep] at h
    split at h
    · rename_i heq
      simp [heq] at hc
    · rename_i heq
      simp [heq] at hf
    · rename_i heq
      simp [heq] at hf
    · rename_i q rest heq
      rw [heq] at hp
      cases hp
      cases h
      rfl
    · cases h

/-- Every chunk of the leader satisfies `Unassigned`. -/
def Clear (s : Leader) : Prop := ∀ c ∈ s.db.chunks, Unassigned c

theorem clear_keeps (T : JsonText) : (machine T).Keeps Clear := by
  intro s e s' hs hstep
  rcases step_db hstep with hdb | ⟨c, hdb⟩
  · unfold Clear
    rw [hdb]
    exact hs
  · unfold Clear
    rw [hdb]
    exact unassigned_after hs

/-! ## Reverting a row -/

/-- Returning a chunk to the pool is no change exactly when it is there. -/
theorem toPending_eq {c : ChunkRecord} (hc : Unassigned c) :
    toPending c = c ↔ c.state = .pending := by
  constructor
  · intro h
    rw [← h]
    rfl
  · intro h
    obtain ⟨hto, hat⟩ := hc (.inl h)
    cases c
    simp_all [toPending]

/-- Of the chunks that are not pending, those not overtaken are the POST's. -/
theorem holds_iff {p : Post} {c : ChunkRecord} (h : c.state ≠ .pending) :
    p.Holds c ↔ ¬ p.Overtaken c := by
  unfold Post.Holds Post.Overtaken
  cases hs : c.state with
  | pending => exact absurd hs h
  | assigned => simp
  | completed | failed | stopped => simp

/-- **A revert undoes exactly the assignment whose POST failed, as long as
nothing overtook it.** Over every order of calls, assignments, reports and
failing POSTs: the drained reverts of a run touch only chunks their POST still
holds if and only if, whenever one is drained, no chunk of its range has been
completed, failed, stopped, or assigned to another node or epoch. -/
theorem revert_undoes_only_its_assignment (T : JsonText) (es : List Event) :
    (machine T).Along NotOvertaken start es ↔
      (machine T).Along UndoesOnlyItsAssignment start es := by
  refine Machine.Along.congr (clear_keeps T) (fun s e s' hs hstep => ?_) ?_
  · unfold NotOvertaken UndoesOnlyItsAssignment
    refine forall_congr' fun nowMs => forall_congr' fun p => ?_
    refine forall_congr' fun he => forall_congr' fun hp => ?_
    subst he
    rw [drain_revert hstep hp]
    constructor
    · intro hok c c' hchange
      obtain ⟨hc, hr, rfl, hne⟩ := changed_update.mp hchange
      have hstate : c.state ≠ .pending :=
        fun h => hne ((toPending_eq (hs c hc)).mpr h).symm
      exact ⟨hr, (holds_iff hstate).mpr (hok c hc hr)⟩
    · intro hgood c hc hr hover
      have hstate : c.state ≠ .pending := by
        intro h
        simp [Post.Overtaken, h] at hover
      have hne : c ≠ toPending c :=
        fun h => hstate ((toPending_eq (hs c hc)).mp h.symm)
      obtain ⟨-, hholds⟩ := hgood c _ (changed_update.mpr ⟨hc, hr, rfl, hne⟩)
      exact (holds_iff hstate).mp hholds hover
  · intro c hc
    cases hc

/-! ## A completed chunk rendered again -/

/-- A library that parses nothing; the run below stores no manifest that is
read. -/
def noText : JsonText := { parse := fun _ => none, dump := fun _ => "" }

/-- Worker `w1` takes chunk 1, but the answer to its POST is lost; it reports
the chunk completed, and both the report and the revert are queued when
`processReports` begins. -/
def lostAnswer : List Event :=
  [.call (.insertJob { jobId := "shot", manifestJson := "\x7b\x7d" }),
   .call (.insertChunks "shot" [⟨1, 10⟩]),
   .assign 1 "w1" 1000 0,
   .postFailed ⟨"shot", 1, 10, "w1", 0⟩,
   .completionReported ⟨"w1", "shot", 1, 10, 0⟩,
   .beginReports,
   .drain 2000]

/-- Draining the revert returns the completed chunk to the pool. -/
theorem revert_reopens_completed :
    ¬ ∀ es, (machine noText).Along UndoesOnlyItsAssignment start es := by
  intro h
  refine Machine.Along.refute lostAnswer (.drain 2000)
    (fun t u => t.nextRevert.any fun p =>
      (t.db.chunks.zip u.db.chunks).any fun cc => cc.1 ≠ cc.2 ∧ ¬ p.Holds cc.1)
    ?_ ?_ (h _)
  · intro t u hbad hgood
    rw [Option.any_eq_true] at hbad
    obtain ⟨p, hp, hany⟩ := hbad
    obtain ⟨⟨c, c'⟩, hmem, hcc⟩ := List.any_eq_true.mp hany
    obtain ⟨hne, hholds⟩ := of_decide_eq_true hcc
    exact hholds (hgood 2000 p rfl hp c c' ⟨hmem, hne⟩).2
  · decide

end MinRender.RevertQueue
