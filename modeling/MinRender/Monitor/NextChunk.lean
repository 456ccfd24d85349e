import MinRender.Monitor.ChunkTable

/-!
# The next chunk for a node

`findNextPendingChunkForNode` walks the active jobs in dispatch order and the
pending chunks of each by frame, and passes over jobs and chunks for four
reasons. What it finds is the first eligible chunk of the first listed job that
has one.
-/

namespace MinRender.NextChunk
open DatabaseManager Table Json

variable (T : JsonText) (db : Db) (nodeTags : List String) (free : List String → Prop)

/-! ## Eligibility -/

/-- The manifest parses, and the node has every tag it requires. -/
def Carries (manifestJson : String) : Prop :=
  ∃ mj tagsReq, T.parse manifestJson = some mj ∧
    mj.value (getArray getString) "tags_required" [] = .ok tagsReq ∧ ∀ t ∈ tagsReq, t ∈ nodeTags

/-- A pending chunk of an active job that the node can render; `free` is what
its list of failing nodes has to meet. -/
structure Eligible (j : JobRow) (c : ChunkRecord) : Prop where
  active : j.currentState = .active
  carries : Carries T nodeTags j.manifestJson
  stored : c ∈ db.chunks
  owned : c.jobId = j.jobId
  pending : c.state = .pending
  free : free c.failedOn

/-- The jobs as `getAllJobs` lists them. -/
def jobRows : List JobRow := (getAllJobs db).map (·.job)

/-- The chunk is eligible, no job listed before has one that is, and no eligible
chunk of its job starts before it. -/
structure First (j : JobRow) (c : ChunkRecord) : Prop where
  eligible : Eligible T db nodeTags free j c
  first : ∃ front back, jobRows db = front ++ j :: back ∧
    ∀ j' ∈ front, ∀ c', ¬ Eligible T db nodeTags free j' c'
  least : ∀ c', Eligible T db nodeTags free j c' → c.frameStart ≤ c'.frameStart

/-- The answer is nothing exactly where nothing is eligible, and otherwise the
first eligible chunk with its job's manifest. -/
structure PicksFirst (answer : Option (ChunkRow × String)) : Prop where
  nothing : answer = none ↔ ∀ j ∈ jobRows db, ∀ c, ¬ Eligible T db nodeTags free j c
  first : ∀ found, answer = some found → ∃ j c, First T db nodeTags free j c ∧
    found = (ChunkRow.toDispatch c, j.manifestJson)

/-! ## One job -/

variable {T db nodeTags free}

theorem tagsEligible_iff {manifestJson : String} :
    tagsEligible T nodeTags manifestJson = true ↔ Carries T nodeTags manifestJson := by
  unfold tagsEligible Carries
  cases hparse : T.parse manifestJson with
  | none => exact iff_of_false (by simp) fun ⟨_, _, hsome, _⟩ => nomatch hsome
  | some mj =>
      dsimp only
      cases htags : mj.value (getArray getString) "tags_required" [] with
      | error e =>
          refine iff_of_false (by simp) fun ⟨mj', _, hsome, hok, _⟩ => ?_
          rw [← Option.some.inj hsome, htags] at hok
          cases hok
      | ok tagsReq =>
          dsimp only
          rw [List.all_eq_true]
          constructor
          · intro hall
            exact ⟨mj, tagsReq, rfl, htags, fun t ht => of_decide_eq_true (hall t ht)⟩
          · rintro ⟨mj', tagsReq', hsome, hok, hall⟩
            rw [← Option.some.inj hsome, htags] at hok
            cases hok
            exact fun t ht => decide_eq_true (hall t ht)

theorem mem_pendingOf {jobId : String} {c : ChunkRecord} :
    c ∈ byFrame (pendingOf db jobId) ↔ c ∈ db.chunks ∧ c.jobId = jobId ∧ c.state = .pending := by
  unfold byFrame pendingOf
  rw [List.mem_insertionSort, List.mem_filter, mem_chunksOf, decide_eq_true_eq, and_assoc]

/-- The first of a sorted list that passes a test is the least. -/
theorem least_of_find? {p : ChunkRecord → Bool} {rows : List ChunkRecord} {c : ChunkRecord}
    (h : (byFrame rows).find? p = some c) :
    ∀ c' ∈ byFrame rows, p c' = true → c.frameStart ≤ c'.frameStart := by
  obtain ⟨-, before, after, hsplit, hbefore⟩ := List.find?_eq_some_iff_append.mp h
  have hsorted : (byFrame rows).Pairwise fun a b => a.frameStart ≤ b.frameStart :=
    List.pairwise_insertionSort (fun a b : ChunkRecord => a.frameStart ≤ b.frameStart) rows
  rw [hsplit] at hsorted ⊢
  intro c' hmem hp
  rcases List.mem_append.mp hmem with hfront | hback
  · have hfails := hbefore c' hfront
    rw [hp] at hfails
    cases hfails
  · rcases List.mem_cons.mp hback with rfl | hafter
    · exact le_refl _
    · exact (List.pairwise_cons.mp (List.pairwise_append.mp hsorted).2.1).1 c' hafter

variable [DecidablePred free]

/-- What the walk takes from one job. -/
def offer (T : JsonText) (db : Db) (nodeTags : List String) (free : List String → Prop)
    [DecidablePred free] (j : JobRow) : Option (ChunkRow × String) :=
  if j.currentState = .active ∧ tagsEligible T nodeTags j.manifestJson then
    ((byFrame (pendingOf db j.jobId)).find? fun c => free c.failedOn).map fun c =>
      (ChunkRow.toDispatch c, j.manifestJson)
  else none

omit [DecidablePred free] in
theorem eligible_iff {j : JobRow} {c : ChunkRecord} :
    Eligible T db nodeTags free j c ↔
      (j.currentState = .active ∧ tagsEligible T nodeTags j.manifestJson = true) ∧
        c ∈ byFrame (pendingOf db j.jobId) ∧ free c.failedOn := by
  rw [tagsEligible_iff, mem_pendingOf]
  constructor
  · intro h
    exact ⟨⟨h.active, h.carries⟩, ⟨h.stored, h.owned, h.pending⟩, h.free⟩
  · rintro ⟨⟨hactive, hcarries⟩, ⟨hstored, howned, hpending⟩, hfree⟩
    exact ⟨hactive, hcarries, hstored, howned, hpending, hfree⟩

theorem offer_eq_none {j : JobRow} :
    offer T db nodeTags free j = none ↔ ∀ c, ¬ Eligible T db nodeTags free j c := by
  unfold offer
  by_cases hjob : j.currentState = .active ∧ tagsEligible T nodeTags j.manifestJson = true
  · rw [if_pos hjob, Option.map_eq_none_iff, List.find?_eq_none]
    refine forall_congr' fun c => ?_
    rw [eligible_iff, not_and, not_and, decide_eq_true_eq]
    exact ⟨fun h _ => h, fun h => h hjob⟩
  · rw [if_neg hjob]
    exact iff_of_true rfl fun c hc => hjob (eligible_iff.mp hc).1

theorem offer_eq_some {j : JobRow} {found : ChunkRow × String}
    (h : offer T db nodeTags free j = some found) :
    ∃ c, Eligible T db nodeTags free j c ∧
      (∀ c', Eligible T db nodeTags free j c' → c.frameStart ≤ c'.frameStart) ∧
      found = (ChunkRow.toDispatch c, j.manifestJson) := by
  unfold offer at h
  split at h
  · rename_i hjob
    obtain ⟨c, hfind, rfl⟩ := Option.map_eq_some_iff.mp h
    have hmem := List.mem_of_find?_eq_some hfind
    have hpassed := List.find?_some hfind
    have hfree : free c.failedOn := of_decide_eq_true hpassed
    refine ⟨c, eligible_iff.mpr ⟨hjob, hmem, hfree⟩, fun c' hc' => ?_, rfl⟩
    obtain ⟨-, hmem', hfree'⟩ := eligible_iff.mp hc'
    exact least_of_find? hfind c' hmem' (decide_eq_true hfree')
  · cases h

/-! ## The walk -/

theorem findSome?_filter_eq {α β : Type*} {p : α → Bool} {f g : α → Option β} {l : List α}
    (hkeep : ∀ a, p a = true → f a = g a) (hskip : ∀ a, p a = false → g a = none) :
    (l.filter p).findSome? f = l.findSome? g := by
  induction l with
  | nil => rfl
  | cons a l ih =>
      rw [List.findSome?_cons]
      cases hp : p a with
      | true => rw [List.filter_cons_of_pos hp, List.findSome?_cons, hkeep a hp, ih]
      | false =>
          rw [List.filter_cons_of_neg (Bool.eq_false_iff.mp hp), hskip a hp]
          exact ih

/-- The walk asks every listed job in turn. -/
theorem findNext_eq (nodeId : String) :
    findNextPendingChunkForNode T db nodeTags nodeId = (jobRows db).findSome?
      (offer T db nodeTags fun failedOn => nodeId = "" ∨ nodeId ∉ failedOn) := by
  have hrows : jobRows db = (jobsInOrder db).map JobRow.ofRecord := by
    unfold jobRows getAllJobs
    rw [List.map_map]
    rfl
  unfold findNextPendingChunkForNode dispatchableJobs
  rw [hrows, List.findSome?_map]
  refine findSome?_filter_eq (fun j hj => ?_) fun j hj => ?_
  · obtain ⟨hactive, -⟩ := of_decide_eq_true hj
    have hsame : (tagsEligible T nodeTags j.manifestJson = true) =
        ((JobRow.ofRecord j).currentState = .active ∧
          tagsEligible T nodeTags (JobRow.ofRecord j).manifestJson = true) :=
      propext (and_iff_right hactive).symm
    show _ = ite _ _ _
    simp only [← hsame]
    rfl
  · refine offer_eq_none.mpr fun c hc => of_decide_eq_false hj ⟨hc.active, fun hempty => ?_⟩
    have hmem := (eligible_iff.mp hc).2.1
    have hnone : pendingOf db (JobRow.ofRecord j).jobId = [] := hempty
    rw [hnone] at hmem
    cases hmem

theorem findSome?_offer :
    PicksFirst T db nodeTags free ((jobRows db).findSome? (offer T db nodeTags free)) where
  nothing := by
    rw [List.findSome?_eq_none_iff]
    exact forall₂_congr fun j _ => offer_eq_none
  first found hfound := by
    obtain ⟨front, j, back, hsplit, hj, hfront⟩ := List.findSome?_eq_some_iff.mp hfound
    obtain ⟨c, heligible, hleast, rfl⟩ := offer_eq_some hj
    exact ⟨j, c, ⟨heligible, ⟨front, back, hsplit, fun j' hj' =>
      offer_eq_none.mp (hfront j' hj')⟩, hleast⟩, rfl⟩

/-- No call blacklists the nameless node. -/
theorem named_after_calls (T : JsonText) (calls : List DbCall) :
    ∀ c ∈ (calls.foldl (fun db call => call.after T db) Db.empty).chunks, "" ∉ c.failedOn := by
  have hrun : ∀ db : Db, (∀ c ∈ db.chunks, "" ∉ c.failedOn) →
      ∀ c ∈ (calls.foldl (fun db call => call.after T db) db).chunks, "" ∉ c.failedOn := by
    induction calls with
    | nil => exact fun db h => h
    | cons call calls ih =>
        intro db h
        refine ih _ (failedOn_after (P := fun failedOn => "" ∉ failedOn) List.not_mem_nil
          (fun l node hnamed _ hl hmem => ?_) h)
        rcases List.mem_append.mp hmem with hold | hnew
        · exact hl hold
        · exact hnamed (List.mem_singleton.mp hnew).symm
  exact hrun Db.empty fun c hc => nomatch hc

/-- **The dispatcher picks the first eligible chunk in display order**, where a
node without a name is on no list. In every database that calls build, no list
has the empty name, and the exception is none. -/
theorem picks_first (T : JsonText) (nodeTags : List String) (nodeId : String) :
    (∀ db, PicksFirst T db nodeTags (fun failedOn => nodeId = "" ∨ nodeId ∉ failedOn)
      (findNextPendingChunkForNode T db nodeTags nodeId)) ∧
    ∀ calls : List DbCall,
      PicksFirst T (calls.foldl (fun db call => call.after T db) Db.empty) nodeTags
        (fun failedOn => nodeId ∉ failedOn)
        (findNextPendingChunkForNode T (calls.foldl (fun db call => call.after T db) Db.empty)
          nodeTags nodeId) := by
  have hall : ∀ db, PicksFirst T db nodeTags
      (fun failedOn => nodeId = "" ∨ nodeId ∉ failedOn)
      (findNextPendingChunkForNode T db nodeTags nodeId) := fun db =>
    (findNext_eq nodeId).symm ▸ findSome?_offer
  refine ⟨hall, fun calls => ?_⟩
  have hnamed := named_after_calls T calls
  have hsame : ∀ j c, Eligible T (calls.foldl (fun db call => call.after T db) Db.empty) nodeTags
      (fun failedOn => nodeId = "" ∨ nodeId ∉ failedOn) j c ↔
      Eligible T (calls.foldl (fun db call => call.after T db) Db.empty) nodeTags
        (fun failedOn => nodeId ∉ failedOn) j c := by
    refine fun j c => ⟨fun h => { h with free := ?_ }, fun h => { h with free := .inr h.free }⟩
    rcases h.free with hblank | hfree
    · exact hblank ▸ hnamed c h.stored
    · exact hfree
  obtain ⟨hnothing, hfirst⟩ := hall (calls.foldl (fun db call => call.after T db) Db.empty)
  simp only [hsame] at hnothing
  refine ⟨hnothing, fun found hfound => ?_⟩
  obtain ⟨j, c, ⟨heligible, hfront, hleast⟩, hc⟩ := hfirst found hfound
  simp only [hsame] at heligible hfront hleast
  exact ⟨j, c, ⟨heligible, hfront, hleast⟩, hc⟩

/-! ## A node without a name -/

/-- A database with one active job and one chunk, which the nameless node
failed. -/
def blamedNameless : Db where
  jobs := [{ jobId := "shot", manifestJson := "\x7b\x7d", submittedAtMs := 0 }]
  chunks := [{ id := 1, jobId := "shot", frameStart := 1, frameEnd := 10, failedOn := [""] }]
  nextChunkId := 2
  jobKey := by decide
  chunkKey := by decide
  autoincrement := by decide
  foreignKey := by decide

def emptyObject : JsonText where
  parse text := if text = "\x7b\x7d" then some (.obj []) else none
  dump _ := "\x7b\x7d"

/-- **A node without a name is offered what it failed on**: the list is checked
for nodes with a name. -/
theorem nameless_node_is_offered :
    ¬ ∀ (T : JsonText) (db : Db) (nodeTags : List String) (nodeId : String),
      PicksFirst T db nodeTags (fun failedOn => nodeId ∉ failedOn)
        (findNextPendingChunkForNode T db nodeTags nodeId) := by
  intro h
  have hnone := (h emptyObject blamedNameless [] "").nothing.mpr fun j _ c hc => ?_
  · revert hnone
    decide
  · have hmem := hc.stored
    rw [List.mem_singleton.mp hmem] at hc
    exact hc.free List.mem_cons_self

end MinRender.NextChunk
