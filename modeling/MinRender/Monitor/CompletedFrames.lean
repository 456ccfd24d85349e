import MinRender.Monitor.DatabaseManager

/-!
# What a frame report changes

A frame report is written at once on the leader's own machine, or with the
others of its job and epoch in one transaction. Either way a frame belongs to
one chunk row, and it changes that row exactly where the row does not list it
yet.
-/

namespace MinRender.DatabaseManager
open Table

/-! ## Single frames -/

/-- The row `addCompletedFrames` gives a frame to. -/
def rowOfFrame (db : Db) (jobId : String) (frame : Int) : Option ChunkRecord :=
  db.chunks.find? fun c => c.jobId = jobId ∧ c.frameStart ≤ frame ∧ frame ≤ c.frameEnd

theorem mem_sortFrames {frames : List Int} {f : Int} :
    f ∈ sortFrames frames ↔ f ∈ frames :=
  List.mem_insertionSort _

variable {db : Db} {jobId : String} {f : Int}

theorem addCompletedFrames_none (h : rowOfFrame db jobId f = none) :
    (addCompletedFrames db jobId f).2 = db := by
  unfold addCompletedFrames
  unfold rowOfFrame at h
  rw [h]

theorem addCompletedFrames_some {row : ChunkRecord} (h : rowOfFrame db jobId f = some row) :
    (addCompletedFrames db jobId f).2.chunks =
      update (·.id = row.id) (fun c =>
        { c with
          completedFrames :=
            if f ∈ row.completedFrames then row.completedFrames
            else sortFrames (row.completedFrames ++ [f]) }) db.chunks := by
  unfold addCompletedFrames
  unfold rowOfFrame at h
  rw [h]
  rfl

/-- A frame changes nothing exactly where its row lists it already. -/
theorem addCompletedFrames_same_iff :
    (addCompletedFrames db jobId f).2.chunks = db.chunks ↔
      ∀ c, rowOfFrame db jobId f = some c → f ∈ c.completedFrames := by
  cases hrow : rowOfFrame db jobId f with
  | none =>
      rw [addCompletedFrames_none hrow]
      simp
  | some row =>
      have hmem : row ∈ db.chunks := List.mem_of_find?_eq_some hrow
      rw [addCompletedFrames_some hrow, update_eq_self_iff]
      by_cases hf : f ∈ row.completedFrames
      · rw [if_pos hf]
        constructor
        · intro _ c hc
          rw [← Option.some.inj hc]
          exact hf
        · -- the row is written back as it was read
          intro _ c hc hid
          rw [db.chunk_ext hc hmem (of_decide_eq_true hid)]
      · rw [if_neg hf]
        constructor
        · intro hsame
          have hrow' := congrArg ChunkRecord.completedFrames
            (hsame row hmem (decide_eq_true rfl))
          have hin : f ∈ sortFrames (row.completedFrames ++ [f]) :=
            mem_sortFrames.mpr (List.mem_append_right _ (List.mem_singleton.mpr rfl))
          rw [show sortFrames (row.completedFrames ++ [f]) = row.completedFrames from hrow'] at hin
          exact absurd hin hf
        · intro h
          exact absurd (h row rfl) hf

/-! ## Batches in memory -/

/-- A chunk row as the batch loads it. -/
def ChunkData.ofRow (c : ChunkRecord) : ChunkData :=
  { id := c.id, fs := c.frameStart, fe := c.frameEnd, cf := c.completedFrames }

/-- The frames of a batch given to their chunks. -/
def placeFrames (frames : List Int) (cds : List ChunkData) : List ChunkData :=
  frames.foldl (fun cds f => placeFrame f cds) cds

/-- The chunk that gets a frame. -/
def owner (f : Int) (cds : List ChunkData) : Option ChunkData :=
  cds.find? fun cd => cd.fs ≤ f ∧ f ≤ cd.fe

/-- What a batch makes of a chunk: it gains some of the frames, and is marked
where it does. -/
structure Grown (frames : List Int) (cd cd' : ChunkData) : Prop where
  id_eq : cd'.id = cd.id
  fs_eq : cd'.fs = cd.fs
  fe_eq : cd'.fe = cd.fe
  keeps : ∀ g ∈ cd.cf, g ∈ cd'.cf
  gains : ∀ g ∈ cd'.cf, g ∈ cd.cf ∨ g ∈ frames
  clean : cd'.dirty = false → cd'.cf = cd.cf ∧ cd.dirty = false

theorem Grown.refl (frames : List Int) (cd : ChunkData) : Grown frames cd cd :=
  ⟨rfl, rfl, rfl, fun _ h => h, fun _ h => .inl h, fun h => ⟨rfl, h⟩⟩

theorem Grown.trans {frames frames' : List Int} {a b c : ChunkData} (h : Grown frames a b)
    (h' : Grown frames' b c) : Grown (frames ++ frames') a c := by
  refine ⟨h'.id_eq.trans h.id_eq, h'.fs_eq.trans h.fs_eq, h'.fe_eq.trans h.fe_eq,
    fun g hg => h'.keeps g (h.keeps g hg), fun g hg => ?_, fun hc => ?_⟩
  · rcases h'.gains g hg with hg | hg
    · rcases h.gains g hg with hg | hg
      · exact .inl hg
      · exact .inr (List.mem_append_left _ hg)
    · exact .inr (List.mem_append_right _ hg)
  · obtain ⟨hcf, hb⟩ := h'.clean hc
    obtain ⟨hcf', ha⟩ := h.clean hb
    exact ⟨hcf.trans hcf', ha⟩

theorem placeFrame_grown (f : Int) (cds : List ChunkData) :
    List.Forall₂ (Grown [f]) cds (placeFrame f cds) := by
  induction cds with
  | nil => exact .nil
  | cons cd rest ih =>
      have hrest : List.Forall₂ (Grown [f]) rest rest :=
        List.forall₂_same.mpr fun cd _ => .refl [f] cd
      unfold placeFrame
      split
      · refine .cons ?_ hrest
        split
        · exact .refl [f] cd
        · refine ⟨rfl, rfl, rfl, fun g hg => List.mem_append_left _ hg, fun g hg => ?_, nofun⟩
          exact List.mem_append.mp hg
      · exact .cons (.refl [f] cd) ih

theorem placeFrames_grown (frames : List Int) (cds : List ChunkData) :
    List.Forall₂ (Grown frames) cds (placeFrames frames cds) := by
  induction frames generalizing cds with
  | nil => exact List.forall₂_same.mpr fun cd _ => .refl [] cd
  | cons f frames ih =>
      have hfirst := placeFrame_grown f cds
      have hrest := ih (placeFrame f cds)
      show List.Forall₂ (Grown (f :: frames)) cds (placeFrames frames (placeFrame f cds))
      generalize placeFrame f cds = mid at hfirst hrest
      generalize placeFrames frames mid = last at hrest
      clear ih
      induction hfirst generalizing last with
      | nil =>
          cases hrest
          exact .nil
      | cons h _ ih =>
          cases hrest with
          | cons h' hs => exact .cons (h.trans h') (ih _ hs)

/-- Growing moves no chunk to other frames. -/
theorem owner_grown {frames : List Int} {cds cds' : List ChunkData}
    (h : List.Forall₂ (Grown frames) cds cds') (f : Int) :
    Option.Rel (Grown frames) (owner f cds) (owner f cds') := by
  unfold owner
  induction h with
  | nil => exact .none
  | @cons cd cd' _ _ h _ ih =>
      by_cases hc : cd.fs ≤ f ∧ f ≤ cd.fe
      · have hc' : cd'.fs ≤ f ∧ f ≤ cd'.fe := by
          rw [h.fs_eq, h.fe_eq]
          exact hc
        rw [List.find?_cons_of_pos (by simpa using hc),
          List.find?_cons_of_pos (by simpa using hc')]
        exact .some h
      · have hc' : ¬(cd'.fs ≤ f ∧ f ≤ cd'.fe) := by
          rw [h.fs_eq, h.fe_eq]
          exact hc
        rw [List.find?_cons_of_neg (by simpa using hc),
          List.find?_cons_of_neg (by simpa using hc')]
        exact ih

/-- A frame its chunk has already is placed nowhere. -/
theorem placeFrame_eq_self {cds : List ChunkData}
    (h : ∀ cd, owner f cds = some cd → f ∈ cd.cf) : placeFrame f cds = cds := by
  induction cds with
  | nil => rfl
  | cons cd rest ih =>
      unfold placeFrame
      by_cases hc : cd.fs ≤ f ∧ f ≤ cd.fe
      · have hf : f ∈ cd.cf := h cd (List.find?_cons_of_pos (by simpa using hc))
        rw [if_pos hc, if_pos hf]
      · rw [if_neg hc, ih fun cd' hcd' => h cd' ?_]
        exact (List.find?_cons_of_neg (by simpa using hc)).trans hcd'

theorem owner_placeFrame {cds : List ChunkData} {cd : ChunkData}
    (h : owner f (placeFrame f cds) = some cd) : f ∈ cd.cf := by
  induction cds with
  | nil => cases h
  | cons cd' rest ih =>
      unfold placeFrame at h
      by_cases hc : cd'.fs ≤ f ∧ f ≤ cd'.fe
      · rw [if_pos hc] at h
        by_cases hf : f ∈ cd'.cf
        · rw [if_pos hf, owner, List.find?_cons_of_pos (by simpa using hc)] at h
          exact (Option.some.inj h) ▸ hf
        · rw [if_neg hf, owner, List.find?_cons_of_pos (by simpa using hc)] at h
          rw [← Option.some.inj h]
          exact List.mem_append_right _ (List.mem_singleton.mpr rfl)
      · rw [if_neg hc, owner, List.find?_cons_of_neg (by simpa using hc)] at h
        exact ih h

/-- Every frame of the batch is on its chunk's list. -/
theorem owner_placeFrames {frames : List Int} {cds : List ChunkData} {cd : ChunkData}
    (hf : f ∈ frames) (h : owner f (placeFrames frames cds) = some cd) : f ∈ cd.cf := by
  induction frames generalizing cds with
  | nil => cases hf
  | cons g frames ih =>
      rcases List.mem_cons.mp hf with rfl | hf
      · have hgrown := owner_grown (placeFrames_grown frames (placeFrame f cds)) f
        rw [show owner f (placeFrames frames (placeFrame f cds)) = some cd from h] at hgrown
        cases hmid : owner f (placeFrame f cds) with
        | none =>
            rw [hmid] at hgrown
            cases hgrown
        | some mid =>
            rw [hmid] at hgrown
            rcases hgrown with hgrown | _
            exact hgrown.keeps f (owner_placeFrame hmid)
      · exact ih hf h

/-! ## Batches in the table -/

/-- The rows the batch loads, as it loads them. -/
def loadRows (db : Db) (jobId : String) : List ChunkData :=
  (byFrame (chunksOf db jobId)).map .ofRow

/-- The row a batch gives a frame to. -/
def batchRowOfFrame (db : Db) (jobId : String) (frame : Int) : Option ChunkRecord :=
  (byFrame (chunksOf db jobId)).find? fun c => c.frameStart ≤ frame ∧ frame ≤ c.frameEnd

theorem owner_loadRows :
    owner f (loadRows db jobId) = (batchRowOfFrame db jobId f).map .ofRow := by
  unfold owner loadRows batchRowOfFrame
  rw [List.find?_map]
  rfl

theorem mem_loadRows {cd : ChunkData} (h : cd ∈ loadRows db jobId) :
    ∃ c ∈ db.chunks, cd = .ofRow c := by
  obtain ⟨c, hc, rfl⟩ := List.mem_map.mp h
  have hmem : c ∈ chunksOf db jobId := (List.mem_insertionSort _).mp hc
  exact ⟨c, (mem_chunksOf.mp hmem).1, rfl⟩

theorem loadRows_nodup : ((loadRows db jobId).map (·.id)).Nodup := by
  unfold loadRows byFrame
  rw [List.map_map]
  have hperm := (List.perm_insertionSort (fun a b : ChunkRecord => a.frameStart ≤ b.frameStart)
    (chunksOf db jobId)).map (·.id)
  refine hperm.nodup_iff.mpr ?_
  exact db.chunkKey.sublist (List.filter_sublist.map _)

/-- Clean chunks are not written. -/
theorem writeBack_clean {cds : List ChunkData} (h : ∀ cd ∈ cds, cd.dirty = false) :
    writeBack db cds = db := by
  unfold writeBack
  induction cds with
  | nil => rfl
  | cons cd rest ih =>
      rw [List.foldl_cons, if_neg (by simp [h cd List.mem_cons_self])]
      exact ih fun cd' hcd' => h cd' (List.mem_cons_of_mem _ hcd')

/-- Where the rows of the written table come from. -/
theorem writeBack_mem {cds : List ChunkData} {c' : ChunkRecord}
    (h : c' ∈ (writeBack db cds).chunks) :
    ∃ c ∈ db.chunks, c'.id = c.id ∧ (c' = c ∨ ∃ cd ∈ cds, cd.id = c.id ∧
      c'.completedFrames = sortFrames cd.cf) := by
  unfold writeBack at h
  induction cds generalizing db with
  | nil => exact ⟨c', h, rfl, .inl rfl⟩
  | cons cd rest ih =>
      rw [List.foldl_cons] at h
      obtain ⟨c, hc, hid, hfrom⟩ := ih h
      split at hc
      · rw [Db.updateChunks_chunks, mem_update] at hc
        obtain ⟨b, hb, hbc⟩ := hc
        split at hbc
        · rename_i hcd
          have hbid : b.id = cd.id := of_decide_eq_true hcd
          subst hbc
          refine ⟨b, hb, hid, .inr ?_⟩
          rcases hfrom with rfl | ⟨d, hd, hdid, hcf⟩
          · exact ⟨cd, List.mem_cons_self, hbid.symm, rfl⟩
          · exact ⟨d, List.mem_cons_of_mem _ hd, hdid, hcf⟩
        · subst hbc
          refine ⟨b, hb, hid, hfrom.imp id ?_⟩
          rintro ⟨d, hd, hdid, hcf⟩
          exact ⟨d, List.mem_cons_of_mem _ hd, hdid, hcf⟩
      · refine ⟨c, hc, hid, hfrom.imp id ?_⟩
        rintro ⟨d, hd, hdid, hcf⟩
        exact ⟨d, List.mem_cons_of_mem _ hd, hdid, hcf⟩

/-- A row that no marked chunk is of keeps its frames. -/
theorem writeBack_keeps {cds : List ChunkData} {c : ChunkRecord} (hc : c ∈ db.chunks)
    (h : ∀ cd ∈ cds, cd.id ≠ c.id) : c ∈ (writeBack db cds).chunks := by
  unfold writeBack
  induction cds generalizing db with
  | nil => exact hc
  | cons cd rest ih =>
      rw [List.foldl_cons]
      refine ih ?_ fun cd' hcd' => h cd' (List.mem_cons_of_mem _ hcd')
      split
      · have hne : c.id ≠ cd.id := Ne.symm (h cd List.mem_cons_self)
        rw [Db.updateChunks_chunks, mem_update]
        exact ⟨c, hc, if_neg (by simpa using hne)⟩
      · exact hc

/-- A marked chunk is written. -/
theorem writeBack_writes {cds : List ChunkData} {cd : ChunkData} {c : ChunkRecord}
    (hkey : (cds.map (·.id)).Nodup) (hcd : cd ∈ cds) (hdirty : cd.dirty = true)
    (hc : c ∈ db.chunks) (hid : c.id = cd.id) :
    { c with completedFrames := sortFrames cd.cf } ∈ (writeBack db cds).chunks := by
  induction cds generalizing db with
  | nil => cases hcd
  | cons d rest ih =>
      rw [List.map_cons, List.nodup_cons] at hkey
      rcases List.mem_cons.mp hcd with rfl | hcd
      · -- the later chunks are of other rows
        have hrest : ∀ d ∈ rest, d.id ≠ c.id := fun d hd heq =>
          hkey.1 (List.mem_map.mpr ⟨d, hd, heq.trans hid⟩)
        show _ ∈ (writeBack (if cd.dirty then _ else db) rest).chunks
        rw [if_pos hdirty]
        refine writeBack_keeps ?_ hrest
        rw [Db.updateChunks_chunks, mem_update]
        exact ⟨c, hc, if_pos (by simpa using hid)⟩
      · have hne : d.id ≠ c.id := fun heq =>
          hkey.1 (List.mem_map.mpr ⟨cd, hcd, hid.symm.trans heq.symm⟩)
        have hkept : c ∈ (writeBack db [d]).chunks :=
          writeBack_keeps hc fun d' hd' => List.mem_singleton.mp hd' ▸ hne
        exact ih hkey.2 hcd hkept

theorem addCompletedFramesBatch_eq (frames : List Int) :
    (addCompletedFramesBatch db jobId frames).2 =
      writeBack db (placeFrames frames (loadRows db jobId)) := by
  unfold addCompletedFramesBatch
  split
  · rename_i hnil
    subst hnil
    refine (writeBack_clean fun cd hcd => ?_).symm
    obtain ⟨c, -, rfl⟩ := mem_loadRows hcd
    rfl
  · rfl

/-- Whatever the batch gives a row was on its list or is in the batch. -/
theorem mem_placeFrames {frames : List Int} {cd : ChunkData} {c : ChunkRecord}
    (hcd : cd ∈ placeFrames frames (loadRows db jobId)) (hc : c ∈ db.chunks)
    (hid : cd.id = c.id) (hf : f ∈ cd.cf) : f ∈ c.completedFrames ∨ f ∈ frames := by
  have hgrown := placeFrames_grown frames (loadRows db jobId)
  rcases (Evolves.of_forall₂ (N := fun _ => False) hgrown).mem hcd with h | ⟨l, hl, -, hlcd⟩
  · exact h.elim
  · obtain ⟨b, hb, rfl⟩ := mem_loadRows hl
    have hbid : b.id = c.id := hlcd.id_eq.symm.trans hid
    have hbc : b = c := db.chunk_ext hb hc hbid
    exact hbc ▸ hlcd.gains f hf

/-- A frame of the batch that its row did not list is written to it. -/
theorem addCompletedFramesBatch_writes {frames : List Int} {c : ChunkRecord}
    (hrow : batchRowOfFrame db jobId f = some c) (hf : f ∈ frames)
    (hnew : f ∉ c.completedFrames) :
    ∃ c' ∈ (addCompletedFramesBatch db jobId frames).2.chunks,
      c'.id = c.id ∧ f ∈ c'.completedFrames := by
  have hgrown := placeFrames_grown frames (loadRows db jobId)
  have howner := owner_grown hgrown f
  rw [owner_loadRows, hrow, Option.map_some] at howner
  cases hcd : owner f (placeFrames frames (loadRows db jobId)) with
  | none =>
      rw [hcd] at howner
      cases howner
  | some cd =>
      rw [hcd] at howner
      rcases howner with hcgrown | _
      have hin : f ∈ cd.cf := owner_placeFrames hf hcd
      have hdirty : cd.dirty = true := by
        cases hd : cd.dirty with
        | true => rfl
        | false =>
            have hcf : cd.cf = c.completedFrames := (hcgrown.clean hd).1
            exact absurd (hcf ▸ hin) hnew
      have hkey : ((placeFrames frames (loadRows db jobId)).map (·.id)).Nodup := by
        rw [map_eq_of_forall₂ (·.id) (fun _ _ h => h.id_eq) hgrown]
        exact loadRows_nodup
      have hc : c ∈ chunksOf db jobId :=
        (List.mem_insertionSort _).mp (List.mem_of_find?_eq_some hrow)
      refine ⟨{ c with completedFrames := sortFrames cd.cf }, ?_, rfl, mem_sortFrames.mpr hin⟩
      rw [addCompletedFramesBatch_eq]
      exact writeBack_writes hkey (List.mem_of_find?_eq_some hcd) hdirty
        (mem_chunksOf.mp hc).1 hcgrown.id_eq.symm

/-- **One more frame changes a batch's rows exactly where it is of a row that
lists it neither before nor by the batch.** -/
theorem addCompletedFramesBatch_same_iff (frames : List Int) :
    (addCompletedFramesBatch db jobId (frames ++ [f])).2.chunks =
        (addCompletedFramesBatch db jobId frames).2.chunks ↔
      ∀ c, batchRowOfFrame db jobId f = some c → f ∈ c.completedFrames ∨ f ∈ frames := by
  have hsplit : placeFrames (frames ++ [f]) (loadRows db jobId) =
      placeFrame f (placeFrames frames (loadRows db jobId)) := by
    unfold placeFrames
    rw [List.foldl_append]
    rfl
  constructor
  · intro hsame c hrow
    by_contra hnew
    rw [not_or] at hnew
    have hlast : f ∈ frames ++ [f] := List.mem_append_right _ (List.mem_singleton.mpr rfl)
    obtain ⟨c', hc', hid, hf⟩ := addCompletedFramesBatch_writes hrow hlast hnew.1
    rw [hsame, addCompletedFramesBatch_eq] at hc'
    have hcmem : c ∈ chunksOf db jobId :=
      (List.mem_insertionSort _).mp (List.mem_of_find?_eq_some hrow)
    have hc : c ∈ db.chunks := (mem_chunksOf.mp hcmem).1
    obtain ⟨b, hb, hbid, hfrom⟩ := writeBack_mem hc'
    have hbc : b = c := db.chunk_ext hb hc (hbid.symm.trans hid)
    subst hbc
    rcases hfrom with rfl | ⟨cd, hcd, hcdid, hcf⟩
    · exact hnew.1 hf
    · rw [hcf] at hf
      rcases mem_placeFrames hcd hb hcdid (mem_sortFrames.mp hf) with h | h
      · exact hnew.1 h
      · exact hnew.2 h
  · intro h
    have hgrown := owner_grown (placeFrames_grown frames (loadRows db jobId)) f
    rw [addCompletedFramesBatch_eq, addCompletedFramesBatch_eq, hsplit, placeFrame_eq_self]
    intro cd hcd
    rw [hcd, owner_loadRows] at hgrown
    cases hrow : batchRowOfFrame db jobId f with
    | none =>
        rw [hrow] at hgrown
        cases hgrown
    | some c =>
        rw [hrow] at hgrown
        rcases hgrown with hgrown | _
        rcases h c hrow with hf | hf
        · exact hgrown.keeps f hf
        · exact owner_placeFrames hf hcd

end MinRender.DatabaseManager
