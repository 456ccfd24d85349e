import MinRender.Framework.Runs
import MinRender.Monitor.CompletedFrames
import MinRender.Monitor.TableInvariants

/-!
# The representation invariant of the chunk table

What every row of the table satisfies, and that the ranges of one job are
apart. Every operation keeps it but one: `insertChunks` adds its ranges to
whatever rows the job has by then. A submission makes two calls, `insertJob`
and then `insertChunks`, and another thread can rebuild the job's chunks
between them.
-/

namespace MinRender
open DatabaseManager Table

/-! ## Ranges -/

/-- No frame is in both. -/
def ChunkRange.Apart (r s : ChunkRange) : Prop :=
  r.frameEnd < s.frameStart ∨ s.frameEnd < r.frameStart

instance (r s : ChunkRange) : Decidable (r.Apart s) :=
  inferInstanceAs (Decidable (_ ∨ _))

theorem ChunkRange.Apart.symm {r s : ChunkRange} (h : r.Apart s) : s.Apart r := Or.symm h

/-- Ranges that can be the chunks of a job. -/
structure RangesOk (ranges : List ChunkRange) : Prop where
  range : ∀ r ∈ ranges, r.frameStart ≤ r.frameEnd
  apart : ranges.Pairwise ChunkRange.Apart

theorem chunksFrom_apart {frameEnd chunkSize : Int} (hsize : 0 < chunkSize) :
    ∀ {fuel : Nat} {f : Int} {rs : List ChunkRange},
      chunksFrom frameEnd chunkSize fuel f = some rs → rs.Pairwise ChunkRange.Apart
  | 0, f, rs, h => by
      cases h
      exact .nil
  | fuel + 1, f, rs, h => by
      unfold chunksFrom at h
      split at h
      case isFalse =>
        cases h
        exact .nil
      case isTrue =>
        obtain ⟨next, -, h⟩ := Option.bind_eq_some_iff.mp h
        obtain ⟨rest, hrest, h⟩ := Option.bind_eq_some_iff.mp h
        cases h
        refine List.pairwise_cons.mpr ⟨?_, chunksFrom_apart hsize hrest⟩
        -- the rest begins where this chunk ends
        intro r hr
        obtain ⟨hnext, -, -⟩ := chunksFrom_within hsize hrest r hr
        left
        show min (next - 1) frameEnd < r.frameStart
        omega

theorem computeChunks_ok {frameStart frameEnd chunkSize : Int} {rs : List ChunkRange}
    (h : computeChunks frameStart frameEnd chunkSize = some rs) : RangesOk rs := by
  refine ⟨fun r hr => (computeChunks_within h r hr).2.1, ?_⟩
  unfold computeChunks at h
  split at h
  · cases h
    exact .nil
  · exact chunksFrom_apart (by omega) h

/-! ## Rows -/

/-- The frames of a row are listed once, in order, and lie in its range. -/
structure FramesOk (c : ChunkRecord) : Prop where
  increasing : c.completedFrames.Pairwise (· < ·)
  within : ∀ f ∈ c.completedFrames, c.frameStart ≤ f ∧ f ≤ c.frameEnd

structure RowOk (c : ChunkRecord) : Prop where
  range : c.frameStart ≤ c.frameEnd
  unassigned : Unassigned c
  attributed : Attributed c
  frames : FramesOk c
  failedOn : c.failedOn.Nodup

/-- Two rows of one job have ranges apart, on their keys. -/
def KeyApart (k k' : String × ChunkRange) : Prop := k.1 = k'.1 → k.2.Apart k'.2

instance (k k' : String × ChunkRange) : Decidable (KeyApart k k') :=
  inferInstanceAs (Decidable (_ → _))

/-- **The representation invariant.** -/
structure ChunkTable (db : Db) : Prop where
  job : ∀ c ∈ db.chunks, ∃ j ∈ db.jobs, j.jobId = c.jobId
  rows : ∀ c ∈ db.chunks, RowOk c
  apart : (db.chunks.map (·.key)).Pairwise KeyApart

theorem chunkTable_empty : ChunkTable Db.empty :=
  ⟨fun _ hc => (nomatch hc), fun _ hc => (nomatch hc), .nil⟩

variable {T : JsonText} {db : Db} {call : DbCall}

/-! ## The lists of frames -/

theorem sortFrames_increasing {frames : List Int} (h : frames.Nodup) :
    (sortFrames frames).Pairwise (· < ·) := by
  have hsorted : (sortFrames frames).Pairwise (· ≤ ·) := List.pairwise_insertionSort _ _
  have hnodup : (sortFrames frames).Nodup :=
    (List.perm_insertionSort (· ≤ ·) frames).nodup_iff.mpr h
  refine (hsorted.and hnodup).imp ?_
  rintro a b ⟨hle, hne⟩
  exact Int.lt_iff_le_and_ne.mpr ⟨hle, hne⟩

/-- What a sorted list of frames of a range makes of a row. -/
theorem framesOk_of_sorted {c : ChunkRecord} {frames : List Int}
    (hc : c.completedFrames = sortFrames frames) (hnodup : frames.Nodup)
    (hwithin : ∀ f ∈ frames, c.frameStart ≤ f ∧ f ≤ c.frameEnd) : FramesOk c := by
  constructor
  · rw [hc]
    exact sortFrames_increasing hnodup
  · intro f hf
    rw [hc] at hf
    exact hwithin f (mem_sortFrames.mp hf)

theorem FramesOk.nodup {c : ChunkRecord} (h : FramesOk c) : c.completedFrames.Nodup :=
  h.increasing.imp fun hlt => Int.ne_of_lt hlt

theorem framesOk_addCompletedFrames (h : ∀ c ∈ db.chunks, FramesOk c) (jobId : String)
    (f : Int) : ∀ c ∈ (addCompletedFrames db jobId f).2.chunks, FramesOk c := by
  cases hrow : rowOfFrame db jobId f with
  | none =>
      rw [addCompletedFrames_none hrow]
      exact h
  | some row =>
      intro c' hc'
      have hmem : row ∈ db.chunks := List.mem_of_find?_eq_some hrow
      have hfound := hrow
      unfold rowOfFrame at hfound
      have hin := List.find?_some hfound
      simp only [decide_eq_true_eq] at hin
      obtain ⟨-, hfrom, hto⟩ := hin
      rw [addCompletedFrames_some hrow] at hc'
      obtain ⟨c, hc, rfl⟩ := mem_update.mp hc'
      split
      · rename_i hid
        have heq : c = row := db.chunk_ext hc hmem (of_decide_eq_true hid)
        subst heq
        by_cases hf : f ∈ c.completedFrames
        · rw [if_pos hf]
          exact ⟨(h c hc).increasing, (h c hc).within⟩
        · rw [if_neg hf]
          refine framesOk_of_sorted rfl ?_ ?_
          · rw [List.nodup_append]
            refine ⟨(h c hc).nodup, List.nodup_singleton f, ?_⟩
            intro a ha b hb hab
            rw [List.mem_singleton] at hb
            exact hf (hb ▸ hab ▸ ha)
          · intro g hg
            rcases List.mem_append.mp hg with hg | hg
            · exact (h c hc).within g hg
            · rw [List.mem_singleton.mp hg]
              exact ⟨hfrom, hto⟩
      · exact h c hc

/-- A chunk in memory of a row of the table, with a good list of frames. -/
structure DataOk (db : Db) (cd : ChunkData) : Prop where
  row : ∃ c ∈ db.chunks, cd.id = c.id ∧ cd.fs = c.frameStart ∧ cd.fe = c.frameEnd
  nodup : cd.cf.Nodup
  within : ∀ f ∈ cd.cf, cd.fs ≤ f ∧ f ≤ cd.fe

theorem dataOk_placeFrame {f : Int} {cds : List ChunkData} (h : ∀ cd ∈ cds, DataOk db cd) :
    ∀ cd ∈ placeFrame f cds, DataOk db cd := by
  induction cds with
  | nil => exact h
  | cons cd rest ih =>
      obtain ⟨hcd, hrest⟩ := List.forall_mem_cons.mp h
      unfold placeFrame
      split
      · rename_i hin
        refine List.forall_mem_cons.mpr ⟨?_, hrest⟩
        split
        · exact hcd
        · rename_i hnew
          refine ⟨hcd.row, ?_, ?_⟩
          · rw [List.nodup_append]
            refine ⟨hcd.nodup, List.nodup_singleton f, ?_⟩
            intro a ha b hb hab
            rw [List.mem_singleton] at hb
            exact hnew (hb ▸ hab ▸ ha)
          · intro g hg
            rcases List.mem_append.mp hg with hg | hg
            · exact hcd.within g hg
            · rw [List.mem_singleton.mp hg]
              exact hin
      · exact List.forall_mem_cons.mpr ⟨hcd, ih hrest⟩

theorem dataOk_placeFrames (h : ∀ c ∈ db.chunks, FramesOk c) (jobId : String)
    (frames : List Int) : ∀ cd ∈ placeFrames frames (loadRows db jobId), DataOk db cd := by
  have hload : ∀ cd ∈ loadRows db jobId, DataOk db cd := by
    intro cd hcd
    obtain ⟨c, hc, rfl⟩ := mem_loadRows hcd
    exact ⟨⟨c, hc, rfl, rfl, rfl⟩, (h c hc).nodup, (h c hc).within⟩
  unfold placeFrames
  generalize loadRows db jobId = cds at hload
  induction frames generalizing cds with
  | nil => exact hload
  | cons f frames ih => exact ih _ (dataOk_placeFrame hload)

theorem framesOk_addCompletedFramesBatch (h : ∀ c ∈ db.chunks, FramesOk c) (jobId : String)
    (frames : List Int) :
    ∀ c ∈ ((DbCall.addCompletedFramesBatch jobId frames).after T db).chunks, FramesOk c := by
  intro c' hc'
  rcases (chunks_evolve T (.addCompletedFramesBatch jobId frames) db).mem hc' with
    ⟨_, _, hins, -⟩ | ⟨c, hc, -, hstep⟩
  · rcases hins with hins | hins <;> cases hins
  have hkey := hstep.key_eq
  have hid := hstep.id_eq
  have hwritten : (addCompletedFramesBatch db jobId frames).2 =
      writeBack db (placeFrames frames (loadRows db jobId)) := addCompletedFramesBatch_eq frames
  change c' ∈ (addCompletedFramesBatch db jobId frames).2.chunks at hc'
  rw [hwritten] at hc'
  obtain ⟨d, hd, hdid, hfrom⟩ := writeBack_mem hc'
  have heq : d = c := db.chunk_ext hd hc (hdid.symm.trans hid)
  subst heq
  rcases hfrom with rfl | ⟨cd, hcd, hcdid, hcf⟩
  · exact h c' hd
  · have hok := dataOk_placeFrames h jobId frames cd hcd
    obtain ⟨row, hrow, hrid, hfs, hfe⟩ := hok.row
    have hsame : row = d := db.chunk_ext hrow hd (hrid.symm.trans hcdid)
    subst hsame
    have hrange : c'.frameStart = row.frameStart ∧ c'.frameEnd = row.frameEnd := by
      simp only [ChunkRecord.key, Prod.mk.injEq, ChunkRange.mk.injEq] at hkey
      exact hkey.2
    refine framesOk_of_sorted hcf hok.nodup ?_
    rw [hrange.1, hrange.2, ← hfs, ← hfe]
    exact hok.within

/-- Every other call leaves a row its frames, or none. -/
theorem framesOk_step {c c' : ChunkRecord} (h : RowStep call c c')
    (hframe : ∀ jobId f, call ≠ .addCompletedFrames jobId f)
    (hframes : ∀ jobId fs, call ≠ .addCompletedFramesBatch jobId fs)
    (hc : FramesOk c) : FramesOk c' := by
  have hnone : ∀ d : ChunkRecord, d.completedFrames = [] → FramesOk d := by
    intro d hd
    constructor
    · rw [hd]
      exact .nil
    · intro f hf
      rw [hd] at hf
      cases hf
  cases h with
  | frame => exact absurd rfl (hframe _ _)
  | frames => exact absurd rfl (hframes _ _)
  | resetAll | retry => exact hnone _ rfl
  | _ => exact ⟨hc.increasing, hc.within⟩

theorem framesOk_after (h : ∀ c ∈ db.chunks, FramesOk c) :
    ∀ c ∈ (call.after T db).chunks, FramesOk c := by
  by_cases hframe : ∃ jobId f, call = .addCompletedFrames jobId f
  · obtain ⟨jobId, f, rfl⟩ := hframe
    exact framesOk_addCompletedFrames h jobId f
  by_cases hframes : ∃ jobId fs, call = .addCompletedFramesBatch jobId fs
  · obtain ⟨jobId, fs, rfl⟩ := hframes
    exact framesOk_addCompletedFramesBatch h jobId fs
  refine (chunks_evolve T call db).forall_mem h ?_ ?_
  · intro c c' hstep
    exact framesOk_step hstep (fun jobId f heq => hframe ⟨jobId, f, heq⟩)
      (fun jobId fs heq => hframes ⟨jobId, fs, heq⟩)
  · rintro c ⟨jobId, ranges, -, id, r, -, rfl⟩
    exact ⟨.nil, fun f hf => (nomatch hf)⟩

/-! ## The blacklists -/

section Blacklists

variable {P : List String → Prop}

theorem failedOn_blacklist (hadd : ∀ l node, node ≠ "" → node ∉ l → P l → P (l ++ [node]))
    (h : ∀ c ∈ db.chunks, P c.failedOn) (jobId : String) (fs fe : Int) (node : String) :
    ∀ c ∈ (blacklist db jobId fs fe node).chunks, P c.failedOn := by
  unfold blacklist
  split
  · exact h
  rename_i hnamed
  split
  · exact h
  rename_i row hrow
  split
  · exact h
  rename_i hnew
  intro c' hc'
  obtain ⟨c, hc, rfl⟩ := mem_update.mp hc'
  split
  · exact hadd _ _ hnamed hnew (h row (List.mem_of_find?_eq_some hrow))
  · exact h c hc

/-- What holds of the empty list and of a list with one more named node holds
of every blacklist. -/
theorem failedOn_after (hnil : P [])
    (hadd : ∀ l node, node ≠ "" → node ∉ l → P l → P (l ++ [node]))
    (h : ∀ c ∈ db.chunks, P c.failedOn) : ∀ c ∈ (call.after T db).chunks, P c.failedOn := by
  by_cases hfail : ∃ jobId fs fe mr node epoch, call = .failChunk jobId fs fe mr node epoch
  · obtain ⟨jobId, fs, fe, mr, node, epoch, rfl⟩ := hfail
    show ∀ c ∈ (failChunk db jobId fs fe mr node epoch).2.chunks, _
    unfold failChunk
    split
    · intro c' hc'
      obtain ⟨c, hc, rfl⟩ := mem_update.mp hc'
      have hlist := failedOn_blacklist hadd h jobId fs fe node c hc
      split
      · exact hlist
      · exact hlist
    · exact h
  refine (chunks_evolve T call db).forall_mem h ?_ ?_
  · intro c c' hstep hc
    cases hstep with
    | blacklist => exact absurd ⟨_, _, _, _, _, _, rfl⟩ hfail
    | fail => exact absurd ⟨_, _, _, _, _, _, rfl⟩ hfail
    | resetAll => exact hnil
    | _ => exact hc
  · rintro c ⟨jobId, ranges, -, id, r, -, rfl⟩
    exact hnil

end Blacklists

theorem nodup_concat_of_notMem (l : List String) (node : String) (hnew : node ∉ l)
    (h : l.Nodup) : (l ++ [node]).Nodup :=
  h.append (List.nodup_singleton node) (List.disjoint_singleton.mpr hnew)

/-! ## Calls that insert -/

/-- The ranges are apart from those the job has. A job that does not exist has
none, and gets none. -/
def ApartFrom (db : Db) (jobId : String) (ranges : List ChunkRange) : Prop :=
  (∃ j ∈ db.jobs, j.jobId = jobId) → ∀ c ∈ db.chunks, c.jobId = jobId →
    ∀ r ∈ ranges, c.key.2.Apart r

/-- Rows inserted apart from the job's own keep the ranges apart. -/
theorem apart_insertChunks (h : (db.chunks.map (·.key)).Pairwise KeyApart) {jobId : String}
    {ranges : List ChunkRange} (hranges : RangesOk ranges) (hapart : ApartFrom db jobId ranges) :
    ((insertChunks db jobId ranges).2.chunks.map (·.key)).Pairwise KeyApart := by
  obtain ⟨hjobs, new, hchunks, hkeys, hnew⟩ := insertChunks_spec db jobId ranges
  rw [hchunks, List.map_append, List.pairwise_append]
  rcases hkeys with rfl | hkeys
  · exact ⟨h, .nil, fun _ _ _ hk => (nomatch hk)⟩
  refine ⟨h, ?_, ?_⟩
  · rw [hkeys, List.pairwise_map]
    refine hranges.apart.imp ?_
    intro r s hrs _
    exact hrs
  · intro k hk k' hk' hsame
    obtain ⟨c, hc, rfl⟩ := List.mem_map.mp hk
    obtain ⟨c', hc', rfl⟩ := List.mem_map.mp hk'
    have hkey' : c'.key ∈ ranges.map (jobId, ·) := hkeys ▸ List.mem_map_of_mem hc'
    obtain ⟨r, hr, hr'⟩ := List.mem_map.mp hkey'
    -- the inserted row has its job
    have hjob : ∃ j ∈ db.jobs, j.jobId = jobId := by
      have hin : c' ∈ (insertChunks db jobId ranges).2.chunks :=
        hchunks ▸ List.mem_append_right _ hc'
      obtain ⟨j, hj, hjc⟩ := (insertChunks db jobId ranges).2.foreignKey c' hin
      rw [hjobs] at hj
      exact ⟨j, hj, hjc.trans (congrArg Prod.fst hr').symm⟩
    rw [← hr'] at hsame ⊢
    exact hapart hjob c hc hsame r hr

/-- Conversely, rows that keep the ranges apart were inserted apart. -/
theorem apartFrom_of_apart {jobId : String} {ranges : List ChunkRange}
    (h : ((insertChunks db jobId ranges).2.chunks.map (·.key)).Pairwise KeyApart) :
    ApartFrom db jobId ranges := by
  intro hjob c hc hcj r hr
  obtain ⟨db', hdb'⟩ := insertRows_some _ hjob
  obtain ⟨-, new, hchunks, hkeys, -⟩ := insertRows_spec hdb'
  have hinsert : (insertChunks db jobId ranges).2 = db' := by
    unfold insertChunks
    rw [hdb']
  rw [hinsert, hchunks, List.map_append, hkeys, List.pairwise_append] at h
  exact h.2.2 c.key (List.mem_map_of_mem hc) (jobId, r) (List.mem_map_of_mem hr) hcj

/-- Every row is good after a call, if those it inserts are. -/
theorem rowOk_after (h : ∀ c ∈ db.chunks, RowOk c)
    (hnew : ∀ jobId ranges, (call = .insertChunks jobId ranges ∨
      call = .rebuildChunks jobId ranges) → RangesOk ranges) :
    ∀ c ∈ (call.after T db).chunks, RowOk c := by
  have hrange : ∀ c ∈ (call.after T db).chunks, c.frameStart ≤ c.frameEnd := by
    refine (chunks_evolve T call db).forall_mem (fun c hc => (h c hc).range) ?_ ?_
    · intro c c' hstep hc
      have hkey := hstep.key_eq
      simp only [ChunkRecord.key, Prod.mk.injEq, ChunkRange.mk.injEq] at hkey
      rw [hkey.2.1, hkey.2.2]
      exact hc
    · rintro c ⟨jobId, ranges, hcall, id, r, hr, rfl⟩
      exact (hnew jobId ranges hcall).range r hr
  intro c hc
  exact ⟨hrange c hc, unassigned_after (fun c hc => (h c hc).unassigned) c hc,
    attributed_after (fun c hc => (h c hc).attributed) c hc,
    framesOk_after (fun c hc => (h c hc).frames) c hc,
    failedOn_after .nil (fun l node _ => nodup_concat_of_notMem l node)
      (fun c hc => (h c hc).failedOn) c hc⟩

/-- **Every call that inserts nothing keeps the invariant.** -/
theorem chunkTable_after (h : ChunkTable db)
    (hcall : ∀ jobId ranges, call ≠ .insertChunks jobId ranges ∧
      call ≠ .rebuildChunks jobId ranges) : ChunkTable (call.after T db) := by
  refine ⟨(call.after T db).foreignKey, rowOk_after h.rows ?_, ?_⟩
  · rintro jobId ranges (rfl | rfl)
    · exact absurd rfl (hcall jobId ranges).1
    · exact absurd rfl (hcall jobId ranges).2
  · refine h.apart.sublist (keys_sublist_after ?_)
    rintro c ⟨jobId, ranges, hins | hins, -⟩
    · exact (hcall jobId ranges).1 hins
    · exact (hcall jobId ranges).2 hins

/-- A rebuild inserts into a job without chunks. -/
theorem chunkTable_rebuild (h : ChunkTable db) {jobId : String} {ranges : List ChunkRange}
    (hranges : RangesOk ranges) : ChunkTable ((DbCall.rebuildChunks jobId ranges).after T db) := by
  refine ⟨((DbCall.rebuildChunks jobId ranges).after T db).foreignKey, rowOk_after h.rows ?_, ?_⟩
  · rintro jobId' ranges' (hcall | hcall) <;> cases hcall
    exact hranges
  · refine apart_insertChunks (h.apart.sublist (List.filter_sublist.map _)) hranges ?_
    intro _ c hc hcj
    have hne : c.jobId ≠ jobId := by simpa [Db.deleteChunkRows] using (List.mem_filter.mp hc).2
    exact absurd hcj hne

/-- An insertion keeps the invariant exactly where it adds ranges apart from
those the job has. -/
theorem chunkTable_insert_iff (h : ChunkTable db) {jobId : String} {ranges : List ChunkRange}
    (hranges : RangesOk ranges) :
    ChunkTable ((DbCall.insertChunks jobId ranges).after T db) ↔ ApartFrom db jobId ranges := by
  constructor
  · intro h'
    exact apartFrom_of_apart h'.apart
  · intro hapart
    refine ⟨((DbCall.insertChunks jobId ranges).after T db).foreignKey,
      rowOk_after h.rows ?_, apart_insertChunks h.apart hranges hapart⟩
    rintro jobId' ranges' (hcall | hcall) <;> cases hcall
    exact hranges

end MinRender
