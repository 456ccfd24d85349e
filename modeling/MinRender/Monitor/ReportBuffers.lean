import Mathlib.Data.List.Infix
import MinRender.Core.Json
import MinRender.Core.PeerInfo
import MinRender.Framework.Outbox
import MinRender.Monitor.DispatchManager
import MinRender.Monitor.RenderCoordinator

/-!
# The report buffers of a worker

A worker files the outcome of each chunk and each finished frame, and its
worker thread posts them to the leader. Both flushes take the whole buffer
first; reports that arrive meanwhile wait behind whatever is put back. The
flushes are written over any type of entry with a view of its report, so that
one definition serves the reports themselves and numbered ones.
-/

namespace MinRender

structure PendingReport where
  jobId : String
  frameStart : Int := 0
  frameEnd : Int := 0
  state : ReportState
  elapsedMs : Int := 0
  exitCode : Int := 0
  error : String := ""
  editEpoch : Int := -1
deriving DecidableEq, Repr

structure PendingFrameReport where
  jobId : String
  frame : Int := 0
  editEpoch : Int := -1
deriving DecidableEq, Repr

/-! ## What is buffered -/

namespace MonitorApp

/-- The report a worker buffers for an effect of its coordinator; a leader
with an open database writes it there instead. -/
def reportCompletion (isLeader dbOpen : Bool) : RenderEffect → Option PendingReport
  | .completion jobId chunk state editEpoch =>
      if state = .abandoned then none
      else if isLeader ∧ dbOpen then none
      else some
        { jobId, frameStart := chunk.frameStart, frameEnd := chunk.frameEnd, state,
          editEpoch }
  | _ => none

def reportFrameCompletion (isLeader dbOpen : Bool) : RenderEffect → Option PendingFrameReport
  | .frameCompletion jobId frame editEpoch =>
      if isLeader ∧ dbOpen then none else some { jobId, frame, editEpoch }
  | _ => none

end MonitorApp

/-! ## Posts -/

structure PostRequest where
  host : String
  port : Int
  path : String
  body : Json

/-- What comes of a post: it raises, no response arrives, or one does. -/
inductive PostOutcome
  | raised
  | noResponse
  | answered (status : Int) (body : String)
deriving DecidableEq, Repr

def PostOutcome.isOk : PostOutcome → Bool
  | .answered status _ => status = 200
  | _ => false

/-- The leader's verdict that a report is from before an edit. -/
def PostOutcome.isStale : PostOutcome → Bool
  | .answered _ body => decide ("\"stale\"".toList <:+: body.toList)
  | _ => false

structure Post where
  request : PostRequest
  outcome : PostOutcome

def Post.isOk (p : Post) : Bool := p.outcome.isOk

/-- What a flush meets: its node, the leader's endpoint, empty while none is
known, and what comes of its posts, counted from the first. -/
structure FlushSite where
  nodeId : String
  leaderEp : String
  outcomes : Nat → PostOutcome

namespace MonitorApp

variable {ρ : Type}

/-! ## Chunk reports -/

/-- `edit_epoch` is sent by those who know it. -/
def epochField (editEpoch : Int) : List (String × Json) :=
  if 0 ≤ editEpoch then [("edit_epoch", .int editEpoch)] else []

def completedBody (r : CompletionReport) (elapsedMs exitCode : Int) : Json :=
  .obj ([("node_id", .str r.nodeId), ("job_id", .str r.jobId), ("frame_start", .int r.frameStart),
    ("frame_end", .int r.frameEnd)] ++ epochField r.editEpoch ++
    [("elapsed_ms", .int elapsedMs), ("exit_code", .int exitCode)])

def failedBody (r : FailureReport) : Json :=
  .obj ([("node_id", .str r.nodeId), ("job_id", .str r.jobId), ("frame_start", .int r.frameStart),
    ("frame_end", .int r.frameEnd)] ++ epochField r.editEpoch ++ [("error", .str r.error)])

def completionRequest (nodeId host : String) (port : Int) (report : PendingReport) :
    PostRequest :=
  if report.state = .completed then
    { host, port
      path := "/api/dispatch/complete"
      body := completedBody
        { nodeId, jobId := report.jobId, frameStart := report.frameStart,
          frameEnd := report.frameEnd, editEpoch := report.editEpoch }
        report.elapsedMs report.exitCode }
  else
    { host, port
      path := "/api/dispatch/failed"
      body := failedBody
        { nodeId, jobId := report.jobId, frameStart := report.frameStart,
          frameEnd := report.frameEnd, editEpoch := report.editEpoch, error := report.error } }

/-- The state of the sending loop. -/
structure Sending (ρ : Type) where
  anyFailed : Bool := false
  unsent : List ρ := []
  sent : List (Attempt ρ Post) := []

/-- One turn of the loop: after the first failure nothing is sent. -/
def sendReport (view : ρ → PendingReport) (site : FlushSite) (host : String) (port : Int)
    (s : Sending ρ) (x : ρ) : Sending ρ :=
  if s.anyFailed then { s with unsent := s.unsent ++ [x] }
  else
    let post : Post :=
      { request := completionRequest site.nodeId host port (view x)
        outcome := site.outcomes s.sent.length }
    let sent := s.sent ++ [⟨[x], post⟩]
    -- a stale verdict is a 200 as well: the report is dropped
    if post.isOk then { s with sent }
    else { anyFailed := true, unsent := s.unsent ++ [x], sent }

/-- The flush of a batch, with whether it asks for a cooldown. -/
def flushCompletionReports (view : ρ → PendingReport) (site : FlushSite) (batch : List ρ) :
    Flushed ρ Post × Bool :=
  if site.leaderEp = "" then (⟨batch, []⟩, false)
  else
    let (host, port) := parseEndpoint site.leaderEp
    if host = "" then (⟨batch, []⟩, false)
    else
      let s := batch.foldl (sendReport view site host port) {}
      (⟨s.unsent, s.sent⟩, s.anyFailed)

/-! ## Frame reports -/

/-- The order of the map's keys. -/
def keyLt (k k' : String × Int) : Bool := k.1 < k'.1 ∨ k.1 = k'.1 ∧ k.2 < k'.2

/-- `byJob[key].push_back(x)`, on the map's entries in key order. -/
def pushBack (key : String × Int) (x : ρ) :
    List ((String × Int) × List ρ) → List ((String × Int) × List ρ)
  | [] => [(key, [x])]
  | (k, xs) :: rest =>
      if key = k then (k, xs ++ [x]) :: rest
      else if keyLt key k then (key, [x]) :: (k, xs) :: rest
      else (k, xs) :: pushBack key x rest

/-- A batch grouped by job and epoch. -/
def byJob (view : ρ → PendingFrameReport) (batch : List ρ) :
    List ((String × Int) × List ρ) :=
  batch.foldl (fun groups x => pushBack ((view x).jobId, (view x).editEpoch) x groups) []

def framesBody (nodeId jobId : String) (frames : List Int) (editEpoch : Int) : Json :=
  .obj ([("node_id", .str nodeId), ("job_id", .str jobId),
    ("frames", .arr (frames.map .int))] ++ epochField editEpoch)

def frameRequest (nodeId host : String) (port : Int) (key : String × Int)
    (frames : List Int) : PostRequest where
  host := host
  port := port
  path := "/api/dispatch/frame-complete"
  body := framesBody nodeId key.1 frames key.2

/-- The state of the posting loop, with the jobs and epochs fenced as stale. -/
structure FrameSending (ρ : Type) where
  allSent : Bool := true
  sent : List (Attempt ρ Post) := []
  fenced : List (String × Int) := []

/-- One group is posted whatever became of the others. -/
def sendFrames (view : ρ → PendingFrameReport) (site : FlushSite) (host : String)
    (port : Int) (s : FrameSending ρ) (group : (String × Int) × List ρ) : FrameSending ρ :=
  let post : Post :=
    { request := frameRequest site.nodeId host port group.1 (group.2.map fun x => (view x).frame)
      outcome := site.outcomes s.sent.length }
  { allSent := s.allSent && post.isOk
    sent := s.sent ++ [⟨group.2, post⟩]
    fenced := if post.isOk && post.outcome.isStale then s.fenced ++ [group.1] else s.fenced }

/-- The flush of a batch of frames, put back whole when a group failed; with
the fenced groups and whether it asks for a cooldown. -/
def flushFrameReports (view : ρ → PendingFrameReport) (site : FlushSite) (batch : List ρ) :
    Flushed ρ Post × List (String × Int) × Bool :=
  if site.leaderEp = "" then (⟨batch, []⟩, [], false)
  else
    let (host, port) := parseEndpoint site.leaderEp
    if host = "" then (⟨batch, []⟩, [], false)
    else
      let s := (byJob view batch).foldl (sendFrames view site host port) {}
      (⟨if s.allSent then [] else batch, s.sent⟩, s.fenced, !s.allSent)

/-- A fenced group abandons the render it came from, if that still runs. -/
def fenceRender (c : RenderCoordinator) (key : String × Int) :
    RenderCoordinator × List RenderEffect :=
  match c.activeRender with
  | some ar =>
      if ar.manifest.jobId = key.1 ∧ ar.editEpoch = key.2 then
        abandonJobRender c key.1 "stale edit epoch"
      else (c, [])
  | none => (c, [])

/-- Abandoning a fenced render buffers no report. -/
theorem fenceRender_files_nothing {c : RenderCoordinator} {key : String × Int}
    (isLeader dbOpen : Bool) {effect : RenderEffect} (h : effect ∈ (fenceRender c key).2) :
    reportCompletion isLeader dbOpen effect = none ∧
      reportFrameCompletion isLeader dbOpen effect = none := by
  unfold fenceRender at h
  split at h
  · rename_i ar har
    split at h
    · simp only [abandonJobRender, RenderCoordinator.abandonCurrentRender, har] at h
      split at h
      · rcases List.mem_cons.mp h with rfl | h
        · exact ⟨rfl, rfl⟩
        · rw [List.mem_singleton.mp h]
          exact ⟨rfl, rfl⟩
      · cases h
    · cases h
  · cases h

/-! ## What the chunk flush puts back -/

/-- The loop has posted `tried`, one report a request, from the front of the
reports it has seen; the unsent ones begin with the first that failed. -/
structure Sending.Front (seen : List ρ) (s : Sending ρ) : Prop where
  tried : ∃ tried, s.sent.map (·.entries) = tried.map ([·]) ∧ tried <+: seen
  kept : ∃ done, seen = done ++ s.unsent ∧
    (∀ a ∈ s.sent, a.outcome.isOk = true → ∀ x ∈ a.entries, x ∈ done) ∧
    ∀ x ∈ done, ∃ a ∈ s.sent, a.outcome.isOk = true ∧ x ∈ a.entries
  all : s.anyFailed = false → s.unsent = [] ∧ s.sent.map (·.entries) = seen.map ([·])

theorem front_sendReport {view : ρ → PendingReport} {site : FlushSite} {host : String}
    {port : Int} {seen : List ρ} {s : Sending ρ} (h : s.Front seen) (x : ρ) :
    (sendReport view site host port s x).Front (seen ++ [x]) := by
  obtain ⟨⟨tried, htried, hprefix⟩, ⟨done, hdone, hacc, hall⟩, hfull⟩ := h
  unfold sendReport
  split
  · rename_i hfailed
    refine ⟨⟨tried, htried, hprefix.trans (List.prefix_append _ _)⟩, ⟨done, ?_, hacc, hall⟩, ?_⟩
    · rw [hdone, List.append_assoc]
    · intro hnot
      rw [hfailed] at hnot
      cases hnot
  · rename_i hgood
    obtain ⟨hunsent, hsent⟩ := hfull (Bool.eq_false_iff.mpr hgood)
    have hseen : seen = done := by rw [hdone, hunsent, List.append_nil]
    have hmap : ∀ post : Post,
        (s.sent ++ [({ entries := [x], outcome := post } : Attempt ρ Post)]).map (·.entries) =
          (seen ++ [x]).map ([·]) := by
      intro post
      rw [List.map_append, hsent, List.map_append]
      rfl
    simp only []
    split
    · rename_i hok
      refine ⟨⟨_, hmap _, List.prefix_refl _⟩, ⟨seen ++ [x], ?_, ?_, ?_⟩,
        fun _ => ⟨hunsent, hmap _⟩⟩
      · rw [hunsent, List.append_nil]
      · intro a ha hok y hy
        rcases List.mem_append.mp ha with ha | ha
        · exact List.mem_append_left _ (hseen ▸ hacc a ha hok y hy)
        · rw [List.mem_singleton.mp ha] at hy
          exact List.mem_append_right _ hy
      · intro y hy
        rcases List.mem_append.mp hy with hy | hy
        · obtain ⟨a, ha, h⟩ := hall y (hseen ▸ hy)
          exact ⟨a, List.mem_append_left _ ha, h⟩
        · exact ⟨_, List.mem_append_right _ (List.mem_singleton_self _), hok, hy⟩
    · rename_i hbad
      refine ⟨⟨_, hmap _, List.prefix_refl _⟩, ⟨done, ?_, ?_, ?_⟩, fun hnot => by cases hnot⟩
      · rw [hunsent, hseen]
        rfl
      · intro a ha hok y hy
        rcases List.mem_append.mp ha with ha | ha
        · exact hacc a ha hok y hy
        · rw [List.mem_singleton.mp ha] at hok
          exact absurd hok hbad
      · intro y hy
        obtain ⟨a, ha, h⟩ := hall y hy
        exact ⟨a, List.mem_append_left _ ha, h⟩

theorem front_foldl (view : ρ → PendingReport) (site : FlushSite) (host : String)
    (port : Int) (batch : List ρ) :
    (batch.foldl (sendReport view site host port) {}).Front batch := by
  induction batch using List.reverseRecOn with
  | nil =>
      exact ⟨⟨[], rfl, List.prefix_refl _⟩,
        ⟨[], rfl, fun _ ha => (nomatch ha), fun _ hx => (nomatch hx)⟩, fun _ => ⟨rfl, rfl⟩⟩
  | append_singleton batch x ih =>
      rw [List.foldl_append]
      exact front_sendReport ih x

/-- The flush posts nothing or runs its loop. -/
theorem flushCompletionReports_cases (view : ρ → PendingReport) (site : FlushSite)
    (batch : List ρ) : (flushCompletionReports view site batch).1 = ⟨batch, []⟩ ∨
      ∃ s : Sending ρ, s.Front batch ∧
        (flushCompletionReports view site batch).1 = ⟨s.unsent, s.sent⟩ := by
  unfold flushCompletionReports
  split
  · exact .inl rfl
  simp only []
  split
  · exact .inl rfl
  · exact .inr ⟨_, front_foldl view site _ _ batch, rfl⟩

/-- A request is the one that reports its only entry, with some outcome the
site has for it. -/
def CarriesReport (view : ρ → PendingReport) (site : FlushSite) (a : Attempt ρ Post) : Prop :=
  (parseEndpoint site.leaderEp).1 ≠ "" ∧
    ∃ x n, a = ⟨[x], completionRequest site.nodeId (parseEndpoint site.leaderEp).1
      (parseEndpoint site.leaderEp).2 (view x), site.outcomes n⟩

theorem sendReport_sent {view : ρ → PendingReport} {site : FlushSite} {host : String}
    {port : Int} (batch : List ρ) {a : Attempt ρ Post}
    (ha : a ∈ (batch.foldl (sendReport view site host port) {}).sent) :
    ∃ x ∈ batch, ∃ n,
      a = ⟨[x], completionRequest site.nodeId host port (view x), site.outcomes n⟩ := by
  induction batch using List.reverseRecOn with
  | nil => cases ha
  | append_singleton batch x ih =>
      have hbefore (ha : a ∈ (batch.foldl (sendReport view site host port) {}).sent) :
          ∃ y ∈ batch ++ [x], ∃ n,
            a = ⟨[y], completionRequest site.nodeId host port (view y), site.outcomes n⟩ := by
        obtain ⟨y, hy, h⟩ := ih ha
        exact ⟨y, List.mem_append_left _ hy, h⟩
      rw [List.foldl_append, List.foldl_cons, List.foldl_nil] at ha
      generalize batch.foldl (sendReport view site host port) {} = s at ha hbefore
      have hsent : a ∈ s.sent ∨ a = ⟨[x], completionRequest site.nodeId host port (view x),
          site.outcomes s.sent.length⟩ := by
        unfold sendReport at ha
        simp only [] at ha
        split at ha
        · exact .inl ha
        split at ha
        all_goals exact (List.mem_append.mp ha).imp_right List.mem_singleton.mp
      rcases hsent with h | h
      · exact hbefore h
      · exact ⟨x, List.mem_append_right _ (List.mem_singleton_self _), _, h⟩

/-- What a chunk flush sends: each request carries one report of the batch. -/
theorem sent_flushCompletionReports {view : ρ → PendingReport} {site : FlushSite}
    {batch : List ρ} {a : Attempt ρ Post}
    (ha : a ∈ (flushCompletionReports view site batch).1.sent) :
    CarriesReport view site a ∧ ∀ x ∈ a.entries, x ∈ batch := by
  unfold flushCompletionReports at ha
  split at ha
  · cases ha
  simp only [] at ha
  split at ha
  · cases ha
  rename_i hhost
  obtain ⟨x, hx, n, rfl⟩ := sendReport_sent batch ha
  refine ⟨⟨hhost, x, n, rfl⟩, ?_⟩
  intro y hy
  rw [List.mem_singleton.mp hy]
  exact hx

/-- A flush whose posts are all answered with 200 puts nothing back. -/
theorem flushCompletionReports_delivers (view : ρ → PendingReport) {site : FlushSite}
    (hhost : (parseEndpoint site.leaderEp).1 ≠ "")
    (hok : ∀ n, (site.outcomes n).isOk = true) (batch : List ρ) :
    (flushCompletionReports view site batch).1.back = [] := by
  have hgood : ∀ host port,
      (batch.foldl (sendReport view site host port) {}).anyFailed = false := by
    intro host port
    induction batch using List.reverseRecOn with
    | nil => rfl
    | append_singleton batch x ih =>
        rw [List.foldl_append, List.foldl_cons, List.foldl_nil, sendReport, ih]
        simp [Post.isOk, hok]
  have hknown : site.leaderEp ≠ "" := by
    rintro h
    rw [h] at hhost
    exact hhost (by decide)
  simp only [flushCompletionReports, if_neg hknown, if_neg hhost]
  exact ((front_foldl view site _ _ batch).all (hgood _ _)).1

theorem own_flushCompletionReports (site : FlushSite) (b : List (Nat × PendingReport)) :
    Outbox.Own b (flushCompletionReports Prod.snd site b).1 := by
  constructor
  · intro x hx
    rcases flushCompletionReports_cases Prod.snd site b with h | ⟨s, hs, h⟩
    · rw [h] at hx
      exact hx
    · rw [h] at hx
      obtain ⟨done, hdone, -⟩ := hs.kept
      rw [hdone]
      exact List.mem_append_right _ hx
  · exact fun a ha => (sent_flushCompletionReports ha).2

theorem keepsAll_flushCompletionReports (site : FlushSite) (b : List (Nat × PendingReport)) :
    Outbox.KeepsAll Post.isOk b (flushCompletionReports Prod.snd site b).1 := by
  intro x hx
  rcases flushCompletionReports_cases Prod.snd site b with h | ⟨s, hs, h⟩
  · rw [h]
    exact .inl hx
  · rw [h]
    obtain ⟨done, rfl, -, hall⟩ := hs.kept
    rcases List.mem_append.mp hx with hx | hx
    · exact .inr (hall x hx)
    · exact .inl hx

theorem orderly_flushCompletionReports (site : FlushSite) (b : List (Nat × PendingReport))
    (hb : b.Pairwise (·.1 < ·.1)) :
    Outbox.Orderly Post.isOk b (flushCompletionReports Prod.snd site b).1 := by
  rcases flushCompletionReports_cases Prod.snd site b with h | ⟨s, hs, h⟩
  · rw [h]
    exact ⟨List.suffix_refl _, fun _ ha => (nomatch ha), List.Pairwise.nil,
      fun _ ha => (nomatch ha)⟩
  rw [h]
  obtain ⟨tried, htried, hprefix⟩ := hs.tried
  obtain ⟨done, hdone, hacc, -⟩ := hs.kept
  have hsorted : tried.Pairwise (·.1 < ·.1) := hb.sublist hprefix.sublist
  constructor
  · rw [hdone]
    exact List.suffix_append _ _
  · intro a ha x hx
    have hentries : a.entries ∈ tried.map ([·]) := htried ▸ List.mem_map_of_mem ha
    obtain ⟨y, hy, hay⟩ := List.mem_map.mp hentries
    rw [← hay, List.mem_singleton] at hx
    exact hprefix.subset (hx ▸ hy)
  · -- a later request is about a later report
    have hlater : (s.sent.map (·.entries)).Pairwise fun l l' => ∀ x ∈ l, x ∉ l' := by
      rw [htried, List.pairwise_map]
      refine hsorted.imp ?_
      intro x y hlt z hz hzy
      rw [List.mem_singleton] at hz hzy
      rw [← hz, ← hzy] at hlt
      exact Nat.lt_irrefl _ hlt
    rw [List.pairwise_map] at hlater
    refine hlater.imp ?_
    intro a a' hapart _
    exact hapart
  · intro a ha hok x hx hback
    rw [hdone, List.pairwise_append] at hb
    exact Nat.lt_irrefl _ (hb.2.2 x (hacc a ha hok x hx) x hback)

/-! ## What the frame flush puts back -/

theorem mem_pushBack {key : String × Int} {x y : ρ} :
    ∀ {groups : List ((String × Int) × List ρ)},
      (∃ g ∈ pushBack key x groups, y ∈ g.2) ↔ y = x ∨ ∃ g ∈ groups, y ∈ g.2
  | [] => by simp [pushBack]
  | (k, xs) :: rest => by
      have ih : (∃ g ∈ pushBack key x rest, y ∈ g.2) ↔ y = x ∨ ∃ g ∈ rest, y ∈ g.2 :=
        mem_pushBack
      unfold pushBack
      split
      · simp
        grind
      split
      · simp
      · simp only [List.exists_mem_cons_iff, ih]
        grind

/-- Every entry of a batch is in some group. -/
theorem mem_byJob {view : ρ → PendingFrameReport} {batch : List ρ} {x : ρ} :
    (∃ g ∈ byJob view batch, x ∈ g.2) ↔ x ∈ batch := by
  unfold byJob
  induction batch using List.reverseRecOn with
  | nil => simp
  | append_singleton batch y ih =>
      rw [List.foldl_append, List.foldl_cons, List.foldl_nil, mem_pushBack, ih]
      simp [or_comm]

/-- The posting loop has posted every group, and all of them were accepted
where it says so. -/
structure FrameSending.Posted (groups : List ((String × Int) × List ρ))
    (s : FrameSending ρ) : Prop where
  entries : s.sent.map (·.entries) = groups.map (·.2)
  accepted : s.allSent = true → ∀ a ∈ s.sent, a.outcome.isOk = true

theorem posted_foldl (view : ρ → PendingFrameReport) (site : FlushSite) (host : String)
    (port : Int) (groups : List ((String × Int) × List ρ)) :
    (groups.foldl (sendFrames view site host port) {}).Posted groups := by
  induction groups using List.reverseRecOn with
  | nil => exact ⟨rfl, fun _ _ ha => (nomatch ha)⟩
  | append_singleton groups g ih =>
      rw [List.foldl_append]
      constructor
      · show (_ ++ [_]).map _ = _
        rw [List.map_append, ih.entries, List.map_append]
        rfl
      · intro hall a ha
        obtain ⟨hbefore, hlast⟩ := Bool.and_eq_true_iff.mp hall
        rcases List.mem_append.mp ha with ha | ha
        · exact ih.accepted hbefore a ha
        · rw [List.mem_singleton.mp ha]
          exact hlast

theorem keepsAll_flushFrameReports (site : FlushSite) (b : List (Nat × PendingFrameReport)) :
    Outbox.KeepsAll Post.isOk b (flushFrameReports Prod.snd site b).1 := by
  intro x hx
  unfold flushFrameReports
  split
  · exact .inl hx
  simp only []
  split
  · exact .inl hx
  have hs := posted_foldl Prod.snd site (parseEndpoint site.leaderEp).1
    (parseEndpoint site.leaderEp).2 (byJob Prod.snd b)
  cases hall : ((byJob Prod.snd b).foldl (sendFrames Prod.snd site
      (parseEndpoint site.leaderEp).1 (parseEndpoint site.leaderEp).2) {}).allSent with
  | false => exact .inl hx
  | true =>
      -- nothing is put back: the group of the entry was accepted
      obtain ⟨g, hg, hxg⟩ := mem_byJob.mpr hx
      have hentries : g.2 ∈ _ := hs.entries ▸ List.mem_map_of_mem hg
      obtain ⟨a, ha, hag⟩ := List.mem_map.mp hentries
      exact .inr ⟨a, ha, hs.accepted hall a ha, hag ▸ hxg⟩

/-- The entries of a group have its key. -/
def Keyed (view : ρ → PendingFrameReport) (groups : List ((String × Int) × List ρ)) : Prop :=
  ∀ g ∈ groups, ∀ x ∈ g.2, ((view x).jobId, (view x).editEpoch) = g.1

theorem keyed_pushBack {view : ρ → PendingFrameReport} (x : ρ) :
    ∀ {groups : List ((String × Int) × List ρ)}, Keyed view groups →
      Keyed view (pushBack ((view x).jobId, (view x).editEpoch) x groups)
  | [], _ => by
      intro g hg y hy
      rw [List.mem_singleton.mp hg] at hy ⊢
      rw [List.mem_singleton.mp hy]
  | (k, xs) :: rest, h => by
      have hhead : ∀ y ∈ xs, ((view y).jobId, (view y).editEpoch) = k :=
        h (k, xs) List.mem_cons_self
      have hrest : Keyed view rest := fun g hg => h g (List.mem_cons_of_mem _ hg)
      unfold pushBack
      split
      · rename_i hkey
        intro g hg y hy
        rcases List.mem_cons.mp hg with rfl | hg
        · rcases List.mem_append.mp hy with hy | hy
          · exact hhead y hy
          · rw [List.mem_singleton.mp hy]
            exact hkey
        · exact hrest g hg y hy
      split
      · intro g hg y hy
        rcases List.mem_cons.mp hg with rfl | hg
        · rw [List.mem_singleton.mp hy]
        · exact h g hg y hy
      · intro g hg y hy
        rcases List.mem_cons.mp hg with rfl | hg
        · exact hhead y hy
        · exact keyed_pushBack x hrest g hg y hy

theorem keyed_byJob (view : ρ → PendingFrameReport) (batch : List ρ) :
    Keyed view (byJob view batch) := by
  unfold byJob
  induction batch using List.reverseRecOn with
  | nil =>
      intro g hg
      cases hg
  | append_singleton batch x ih =>
      rw [List.foldl_append]
      exact keyed_pushBack x ih

/-- A request is the one that reports the frames of its entries, all of one
job and one epoch, with some outcome the site has for it. -/
def CarriesFrames (view : ρ → PendingFrameReport) (site : FlushSite) (a : Attempt ρ Post) :
    Prop :=
  (parseEndpoint site.leaderEp).1 ≠ "" ∧
    ∃ key xs n, (∀ x ∈ xs, ((view x).jobId, (view x).editEpoch) = key) ∧
      a = ⟨xs, frameRequest site.nodeId (parseEndpoint site.leaderEp).1
        (parseEndpoint site.leaderEp).2 key (xs.map fun x => (view x).frame),
        site.outcomes n⟩

theorem sendFrames_sent {view : ρ → PendingFrameReport} {site : FlushSite} {host : String}
    {port : Int} (groups : List ((String × Int) × List ρ)) {a : Attempt ρ Post}
    (ha : a ∈ (groups.foldl (sendFrames view site host port) {}).sent) :
    ∃ g ∈ groups, ∃ n, a = ⟨g.2, frameRequest site.nodeId host port g.1
      (g.2.map fun x => (view x).frame), site.outcomes n⟩ := by
  induction groups using List.reverseRecOn with
  | nil => cases ha
  | append_singleton groups g ih =>
      rw [List.foldl_append] at ha
      rcases List.mem_append.mp ha with ha | ha
      · obtain ⟨g', hg', h⟩ := ih ha
        exact ⟨g', List.mem_append_left _ hg', h⟩
      · exact ⟨g, List.mem_append_right _ (List.mem_singleton_self _), _,
          List.mem_singleton.mp ha⟩

/-- What a frame flush sends: each request carries frames of the batch. -/
theorem sent_flushFrameReports {view : ρ → PendingFrameReport} {site : FlushSite}
    {batch : List ρ} {a : Attempt ρ Post}
    (ha : a ∈ (flushFrameReports view site batch).1.sent) :
    CarriesFrames view site a ∧ ∀ x ∈ a.entries, x ∈ batch := by
  unfold flushFrameReports at ha
  split at ha
  · cases ha
  simp only [] at ha
  split at ha
  · cases ha
  rename_i hhost
  obtain ⟨g, hg, n, rfl⟩ := sendFrames_sent _ ha
  refine ⟨⟨hhost, g.1, g.2, n, keyed_byJob view batch g hg, rfl⟩, ?_⟩
  exact fun x hx => mem_byJob.mp ⟨g, hg, hx⟩

theorem flushFrameReports_delivers (view : ρ → PendingFrameReport) {site : FlushSite}
    (hhost : (parseEndpoint site.leaderEp).1 ≠ "")
    (hok : ∀ n, (site.outcomes n).isOk = true) (batch : List ρ) :
    (flushFrameReports view site batch).1.back = [] := by
  have hgood : ∀ host port (groups : List ((String × Int) × List ρ)),
      (groups.foldl (sendFrames view site host port) {}).allSent = true := by
    intro host port groups
    induction groups using List.reverseRecOn with
    | nil => rfl
    | append_singleton groups g ih =>
        rw [List.foldl_append, List.foldl_cons, List.foldl_nil, sendFrames, ih]
        simp [Post.isOk, hok]
  have hknown : site.leaderEp ≠ "" := by
    rintro h
    rw [h] at hhost
    exact hhost (by decide)
  simp only [flushFrameReports, if_neg hknown, if_neg hhost, hgood, if_true]

theorem own_flushFrameReports (site : FlushSite) (b : List (Nat × PendingFrameReport)) :
    Outbox.Own b (flushFrameReports Prod.snd site b).1 := by
  constructor
  · intro x hx
    unfold flushFrameReports at hx
    split at hx
    · exact hx
    simp only [] at hx
    split at hx
    · exact hx
    split at hx
    · cases hx
    · exact hx
  · exact fun a ha => (sent_flushFrameReports ha).2

end MonitorApp

/-! ## Both buffers -/

structure WorkerReports where
  reports : Outbox PendingReport Post := {}
  frames : Outbox PendingFrameReport Post := {}

/-- The coordinator reports an outcome, a report of any kind is filed, or the
worker thread begins or ends a flush. -/
inductive WorkerEvent
  | effect (isLeader dbOpen : Bool) (e : RenderEffect)
  | report (e : Outbox.Event PendingReport FlushSite)
  | frame (e : Outbox.Event PendingFrameReport FlushSite)

namespace WorkerReports

def flushReports (site : FlushSite) (b : List (Nat × PendingReport)) :
    Flushed (Nat × PendingReport) Post :=
  (MonitorApp.flushCompletionReports Prod.snd site b).1

def flushFrames (site : FlushSite) (b : List (Nat × PendingFrameReport)) :
    Flushed (Nat × PendingFrameReport) Post :=
  (MonitorApp.flushFrameReports Prod.snd site b).1

/-- The events on the two buffers that an event is. -/
def reportEvent : WorkerEvent → Option (Outbox.Event PendingReport FlushSite)
  | .effect isLeader dbOpen e => (MonitorApp.reportCompletion isLeader dbOpen e).map .file
  | .report e => some e
  | .frame _ => none

def frameEvent : WorkerEvent → Option (Outbox.Event PendingFrameReport FlushSite)
  | .effect isLeader dbOpen e =>
      (MonitorApp.reportFrameCompletion isLeader dbOpen e).map .file
  | .report _ => none
  | .frame e => some e

def step (w : WorkerReports) (e : WorkerEvent) : WorkerReports where
  reports := (reportEvent e).elim w.reports (w.reports.step flushReports)
  frames := (frameEvent e).elim w.frames (w.frames.step flushFrames)

def run (es : List WorkerEvent) : WorkerReports := es.foldl step {}

/-- The buffers do not interfere. -/
theorem run_eq (es : List WorkerEvent) : run es =
    ⟨Outbox.run flushReports (es.filterMap reportEvent),
      Outbox.run flushFrames (es.filterMap frameEvent)⟩ := by
  unfold run
  induction es using List.reverseRecOn with
  | nil => rfl
  | append_singleton es e ih =>
      rw [List.foldl_append, ih, Outbox.run_filterMap_append, Outbox.run_filterMap_append]
      rfl

/-- A render that a stale verdict abandons files no report. -/
theorem step_fenceRender (w : WorkerReports) {c : RenderCoordinator} {key : String × Int}
    {isLeader dbOpen : Bool} {effect : RenderEffect}
    (h : effect ∈ (MonitorApp.fenceRender c key).2) :
    w.step (.effect isLeader dbOpen effect) = w := by
  obtain ⟨hreport, hframe⟩ := MonitorApp.fenceRender_files_nothing isLeader dbOpen h
  simp only [step, reportEvent, frameEvent, hreport, hframe]
  rfl

theorem of_reportEvent {e : WorkerEvent} {site : FlushSite}
    (h : reportEvent e = some (.finish site)) : e = .report (.finish site) := by
  cases e with
  | effect isLeader dbOpen e =>
      obtain ⟨r, -, hr⟩ := Option.map_eq_some_iff.mp h
      cases hr
  | report e => rw [Option.some.inj h]
  | frame e => cases h

theorem of_frameEvent {e : WorkerEvent} {site : FlushSite}
    (h : frameEvent e = some (.finish site)) : e = .frame (.finish site) := by
  cases e with
  | effect isLeader dbOpen e =>
      obtain ⟨r, -, hr⟩ := Option.map_eq_some_iff.mp h
      cases hr
  | report e => cases h
  | frame e => rw [Option.some.inj h]

end WorkerReports

end MinRender
