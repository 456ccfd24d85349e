import Mathlib.Data.List.Induction
import MinRender.Monitor.ChunkTable

/-!
# Reported frames, one at a time and in batches

The leader's own render reports each frame by itself, a worker's frames come in
batches. Where the chunks of a job are apart, a frame belongs to one of them at
most, and both ways end in the same lists: each chunk's old frames and the
reported ones of its range.
-/

namespace MinRender.FrameLists
open DatabaseManager Table

/-! ## Lists of frames -/

/-- `cf` is `old` with the `new` frames it lacked, sorted if there are any. -/
def Merges (old : List Int) (new : Int → Prop) (cf : List Int) : Prop :=
  ∃ gained : List Int, gained.Nodup ∧ (∀ f, f ∈ gained ↔ new f ∧ f ∉ old) ∧
    cf.Perm (old ++ gained) ∧ if gained = [] then cf = old else cf.Pairwise (· ≤ ·)

namespace Merges

variable {old mid cf cf' : List Int} {new new' : Int → Prop}

theorem none (h : ∀ f, ¬ new f) : Merges old new old :=
  ⟨[], .nil, fun f => iff_of_false List.not_mem_nil fun hf => h f hf.1,
    .of_eq (List.append_nil old).symm, rfl⟩

theorem mem_iff (h : Merges old new cf) {f : Int} : f ∈ cf ↔ f ∈ old ∨ new f := by
  obtain ⟨gained, -, hmem, hperm, -⟩ := h
  rw [hperm.mem_iff, List.mem_append, hmem]
  by_cases hold : f ∈ old
  · simp [hold]
  · simp [hold]

theorem congr (h : Merges old new cf) (hnew : ∀ f, new f ↔ new' f) : Merges old new' cf := by
  have heq : new = new' := funext fun f => propext (hnew f)
  exact heq ▸ h

/-- An increasing list stays one. -/
theorem increasing (h : Merges old new cf) (hold : old.Pairwise (· < ·)) :
    cf.Pairwise (· < ·) := by
  obtain ⟨gained, hnodup, hmem, hperm, hcf⟩ := h
  split at hcf
  · exact hcf ▸ hold
  · have hdistinct : (old ++ gained).Nodup := by
      have holdnodup : old.Nodup := hold.imp fun hlt => Int.ne_of_lt hlt
      exact holdnodup.append hnodup fun f hin hgained => ((hmem f).mp hgained).2 hin
    refine (hcf.and (hperm.nodup_iff.mpr hdistinct)).imp ?_
    rintro a b ⟨hle, hne⟩
    exact lt_of_le_of_ne hle hne

/-- What is gained determines the list. -/
theorem unique (h : Merges old new cf) (h' : Merges old new cf') : cf = cf' := by
  obtain ⟨gained, hnodup, hmem, hperm, hcf⟩ := h
  obtain ⟨gained', hnodup', hmem', hperm', hcf'⟩ := h'
  have hsame : gained.Perm gained' :=
    (List.perm_ext_iff_of_nodup hnodup hnodup').mpr fun f => (hmem f).trans (hmem' f).symm
  by_cases hnil : gained = []
  · have hnil' : gained' = [] := List.nil_perm.mp (hnil ▸ hsame)
    rw [if_pos hnil] at hcf
    rw [if_pos hnil'] at hcf'
    exact hcf.trans hcf'.symm
  · have hnil' : gained' ≠ [] := fun heq => hnil (List.perm_nil.mp (heq ▸ hsame))
    rw [if_neg hnil] at hcf
    rw [if_neg hnil'] at hcf'
    refine List.Perm.eq_of_pairwise (fun a b _ _ hab hba => le_antisymm hab hba) hcf hcf' ?_
    exact hperm.trans ((hsame.append_left old).trans hperm'.symm)

/-- Frames reported in two parts. -/
theorem trans (h : Merges old new mid) (h' : Merges mid new' cf) :
    Merges old (fun f => new f ∨ new' f) cf := by
  have hmid := fun f => h.mem_iff (f := f)
  obtain ⟨gained, hnodup, hmem, hperm, hsorted⟩ := h
  obtain ⟨gained', hnodup', hmem', hperm', hsorted'⟩ := h'
  refine ⟨gained ++ gained', hnodup.append hnodup' ?_, fun f => ?_, ?_, ?_⟩
  · intro f hf hf'
    exact ((hmem' f).mp hf').2 ((hmid f).mpr (.inr ((hmem f).mp hf).1))
  · rw [List.mem_append, hmem, hmem', hmid]
    tauto
  · rw [← List.append_assoc]
    exact hperm'.trans (hperm.append_right gained')
  · by_cases hnil' : gained' = []
    · rw [if_pos hnil'] at hsorted'
      rw [hnil', List.append_nil, hsorted']
      exact hsorted
    · rw [if_neg hnil'] at hsorted'
      rw [if_neg fun heq => hnil' (List.append_eq_nil_iff.mp heq).2]
      exact hsorted'

/-- New frames behind the old ones, sorted. -/
theorem sorted {gained : List Int} (hnodup : gained.Nodup)
    (hmem : ∀ f, f ∈ gained ↔ new f ∧ f ∉ old) (hne : gained ≠ []) :
    Merges old new (sortFrames (old ++ gained)) :=
  ⟨gained, hnodup, hmem, List.perm_insertionSort _ _,
    (if_neg hne).symm ▸ List.pairwise_insertionSort _ _⟩

/-- One frame. -/
theorem one (f : Int) (old : List Int) :
    Merges old (· = f) (if f ∈ old then old else sortFrames (old ++ [f])) := by
  split
  · rename_i hin
    refine ⟨[], .nil, fun g => iff_of_false List.not_mem_nil ?_,
      .of_eq (List.append_nil old).symm, rfl⟩
    rintro ⟨rfl, hout⟩
    exact hout hin
  · rename_i hout
    refine sorted (List.nodup_singleton f) (fun g => ?_) (List.cons_ne_nil f [])
    rw [List.mem_singleton]
    exact ⟨fun heq => ⟨heq, heq ▸ hout⟩, And.left⟩

end Merges

/-! ## Rows -/

/-- The frame is in the chunk's range. -/
def Within (c : ChunkRecord) (f : Int) : Prop := c.frameStart ≤ f ∧ f ≤ c.frameEnd

/-- No frame is in two chunks of the job. -/
def Disjoint (db : Db) (jobId : String) : Prop :=
  ∀ c ∈ db.chunks, ∀ c' ∈ db.chunks, c.jobId = jobId → c'.jobId = jobId → c ≠ c' →
    ∀ f, Within c f → ¬ Within c' f

/-- A row after frames of the job were reported. -/
def RowMerges (jobId : String) (new : Int → Prop) (c c' : ChunkRecord) : Prop :=
  ∃ cf, c' = { c with completedFrames := cf } ∧
    Merges c.completedFrames (fun f => c.jobId = jobId ∧ new f ∧ Within c f) cf

variable {db : Db} {jobId : String} {new new' : Int → Prop}

theorem rowMerges_refl {c : ChunkRecord} (h : ∀ f, ¬ (c.jobId = jobId ∧ new f ∧ Within c f)) :
    RowMerges jobId new c c :=
  ⟨c.completedFrames, rfl, .none h⟩

theorem rowMerges_trans {a b c : ChunkRecord} (h : RowMerges jobId new a b)
    (h' : RowMerges jobId new' b c) : RowMerges jobId (fun f => new f ∨ new' f) a c := by
  obtain ⟨cf, rfl, hcf⟩ := h
  obtain ⟨cf', rfl, hcf'⟩ := h'
  refine ⟨cf', rfl, (hcf.trans hcf').congr fun f => ?_⟩
  show a.jobId = jobId ∧ new f ∧ Within a f ∨ a.jobId = jobId ∧ new' f ∧ Within a f ↔ _
  tauto

theorem rowMerges_unique {c a b : ChunkRecord} (h : RowMerges jobId new c a)
    (h' : RowMerges jobId new c b) : a = b := by
  obtain ⟨cf, rfl, hcf⟩ := h
  obtain ⟨cf', rfl, hcf'⟩ := h'
  rw [hcf.unique hcf']

theorem rows_unique {rows rows' rows'' : List ChunkRecord}
    (h : List.Forall₂ (RowMerges jobId new) rows rows')
    (h' : List.Forall₂ (RowMerges jobId new) rows rows'') : rows' = rows'' := by
  induction h generalizing rows'' with
  | nil => exact (List.forall₂_nil_left_iff.mp h').symm
  | cons hrow _ ih =>
      obtain ⟨c, rest, hc, hrest, rfl⟩ := List.forall₂_cons_left_iff.mp h'
      rw [rowMerges_unique hrow hc, ih hrest]

/-- Reports move no chunk. -/
theorem Disjoint.after {db' : Db} (h : Disjoint db jobId)
    (hrows : List.Forall₂ (RowMerges jobId new) db.chunks db'.chunks) : Disjoint db' jobId := by
  have hfrom : ∀ c' ∈ db'.chunks, ∃ c ∈ db.chunks, RowMerges jobId new c c' := by
    intro c' hc'
    rcases (Evolves.of_forall₂ (N := fun _ => False) hrows).mem hc' with hnew | ⟨c, hc, -, hrow⟩
    · exact hnew.elim
    · exact ⟨c, hc, hrow⟩
  intro a' ha' b' hb' haj hbj hne
  obtain ⟨a, ha, cf, rfl, -⟩ := hfrom a' ha'
  obtain ⟨b, hb, cf', rfl, -⟩ := hfrom b' hb'
  refine h a ha b hb haj hbj fun heq => hne ?_
  have hid : a.id = b.id := congrArg ChunkRecord.id heq
  exact db'.chunk_ext ha' hb' hid

/-! ## One frame -/

/-- A single report gives the frame to the chunk that has it. -/
theorem rows_addCompletedFrames (h : Disjoint db jobId) (f : Int) :
    List.Forall₂ (RowMerges jobId (· = f)) db.chunks (addCompletedFrames db jobId f).2.chunks := by
  cases hrow : rowOfFrame db jobId f with
  | none =>
      rw [addCompletedFrames_none hrow]
      refine List.forall₂_same.mpr fun c hc => rowMerges_refl ?_
      rintro g ⟨hjob, rfl, hin⟩
      have hmiss := List.find?_eq_none.mp hrow c hc
      exact hmiss (decide_eq_true ⟨hjob, hin⟩)
  | some row =>
      have hmem : row ∈ db.chunks := List.mem_of_find?_eq_some hrow
      have hpassed := List.find?_some hrow
      have hin : row.jobId = jobId ∧ row.frameStart ≤ f ∧ f ≤ row.frameEnd :=
        of_decide_eq_true hpassed
      rw [addCompletedFrames_some hrow]
      unfold update
      rw [List.forall₂_map_right_iff]
      refine List.forall₂_same.mpr fun c hc => ?_
      split
      · rename_i hid
        cases db.chunk_ext hc hmem (of_decide_eq_true hid)
        refine ⟨_, rfl, (Merges.one f row.completedFrames).congr fun g => ?_⟩
        refine ⟨fun hg => ⟨hin.1, hg, ?_⟩, fun hg => hg.2.1⟩
        exact hg ▸ hin.2
      · rename_i hid
        refine rowMerges_refl ?_
        rintro g ⟨hjob, rfl, hc'⟩
        have hne : row ≠ c := fun heq => hid (decide_eq_true (heq ▸ rfl))
        exact h row hmem c hc hin.1 hjob hne g hin.2 hc'

/-! ## One batch -/

/-- The frame is in the range of the chunk in memory. -/
def ChunkWithin (cd : ChunkData) (f : Int) : Prop := cd.fs ≤ f ∧ f ≤ cd.fe

instance (cd : ChunkData) (f : Int) : Decidable (ChunkWithin cd f) :=
  inferInstanceAs (Decidable (_ ∧ _))

/-- A frame given to a chunk in memory. -/
def gain (cd : ChunkData) (f : Int) : ChunkData :=
  if ChunkWithin cd f then
    if f ∈ cd.cf then cd else { cd with cf := cd.cf ++ [f], dirty := true }
  else cd

def gather (frames : List Int) (cd : ChunkData) : ChunkData := frames.foldl gain cd

theorem gain_range (cd : ChunkData) (f : Int) :
    (gain cd f).id = cd.id ∧ (gain cd f).fs = cd.fs ∧ (gain cd f).fe = cd.fe := by
  unfold gain
  split
  · split
    · exact ⟨rfl, rfl, rfl⟩
    · exact ⟨rfl, rfl, rfl⟩
  · exact ⟨rfl, rfl, rfl⟩

/-- No frame is in two of the chunks. -/
def Apart (cd cd' : ChunkData) : Prop := ∀ f, ChunkWithin cd f → ¬ ChunkWithin cd' f

/-- Where the chunks are apart, the first that has a frame is the only one. -/
theorem placeFrame_eq_map {f : Int} {cds : List ChunkData} (h : cds.Pairwise Apart) :
    placeFrame f cds = cds.map (gain · f) := by
  induction cds with
  | nil => rfl
  | cons cd rest ih =>
      obtain ⟨hcd, hrest⟩ := List.pairwise_cons.mp h
      rw [placeFrame, List.map_cons, gain]
      by_cases hin : ChunkWithin cd f
      · rw [if_pos (show cd.fs ≤ f ∧ f ≤ cd.fe from hin), if_pos hin]
        have hothers : rest.map (gain · f) = rest :=
          (List.map_congr_left fun cd' hcd' => if_neg (hcd cd' hcd' f hin)).trans (List.map_id rest)
        rw [hothers]
      · rw [if_neg (show ¬ (cd.fs ≤ f ∧ f ≤ cd.fe) from hin), if_neg hin, ih hrest]

theorem placeFrames_eq_map {frames : List Int} {cds : List ChunkData} (h : cds.Pairwise Apart) :
    placeFrames frames cds = cds.map (gather frames) := by
  induction frames generalizing cds with
  | nil => exact (List.map_id cds).symm
  | cons f frames ih =>
      have hmoved : (cds.map (gain · f)).Pairwise Apart := by
        refine List.pairwise_map.mpr (h.imp fun {a b} hab g ha hb => hab g ?_ ?_)
        · unfold ChunkWithin at ha
          rwa [(gain_range a f).2.1, (gain_range a f).2.2] at ha
        · unfold ChunkWithin at hb
          rwa [(gain_range b f).2.1, (gain_range b f).2.2] at hb
      show placeFrames frames (placeFrame f cds) = _
      rw [placeFrame_eq_map h, ih hmoved, List.map_map]
      rfl

theorem gather_id (frames : List Int) (cd : ChunkData) :
    (gather frames cd).id = cd.id ∧ (gather frames cd).fs = cd.fs ∧
      (gather frames cd).fe = cd.fe := by
  unfold gather
  induction frames generalizing cd with
  | nil => exact ⟨rfl, rfl, rfl⟩
  | cons f frames ih =>
      obtain ⟨hid, hfs, hfe⟩ := gain_range cd f
      obtain ⟨hid', hfs', hfe'⟩ := ih (gain cd f)
      exact ⟨hid'.trans hid, hfs'.trans hfs, hfe'.trans hfe⟩

/-- The frames a chunk gathers, each once, behind its own. -/
structure Gathered (cd cd' : ChunkData) (frames gained : List Int) : Prop where
  nodup : gained.Nodup
  mem_iff : ∀ f, f ∈ gained ↔ (f ∈ frames ∧ ChunkWithin cd f) ∧ f ∉ cd.cf
  cf_eq : cd'.cf = cd.cf ++ gained
  dirty_iff : cd'.dirty = true ↔ gained ≠ []

namespace Gathered

variable {cd cd' : ChunkData} {frames gained : List Int} {f : Int}

/-- A frame outside the chunk, or one it has, changes nothing. -/
theorem skip (h : Gathered cd cd' frames gained)
    (hf : ¬ ChunkWithin cd f ∨ f ∈ cd'.cf) : Gathered cd cd' (frames ++ [f]) gained := by
  obtain ⟨hnodup, hmem, hcf, hdirty⟩ := h
  refine ⟨hnodup, fun g => ?_, hcf, hdirty⟩
  rw [hmem, List.mem_append, List.mem_singleton]
  constructor
  · rintro ⟨⟨hg, hgin⟩, hout⟩
    exact ⟨⟨.inl hg, hgin⟩, hout⟩
  · rintro ⟨⟨hg | rfl, hgin⟩, hout⟩
    · exact ⟨⟨hg, hgin⟩, hout⟩
    rcases hf with hoff | hknown
    · exact absurd hgin hoff
    · rw [hcf, List.mem_append, hmem] at hknown
      exact hknown.resolve_left hout

/-- A new frame of the chunk goes to the end. -/
theorem add (h : Gathered cd cd' frames gained) (hin : ChunkWithin cd f) (hnew : f ∉ cd'.cf) :
    Gathered cd { cd' with cf := cd'.cf ++ [f], dirty := true } (frames ++ [f])
      (gained ++ [f]) := by
  obtain ⟨hnodup, hmem, hcf, hdirty⟩ := h
  rw [hcf, List.mem_append, not_or] at hnew
  refine ⟨hnodup.append (List.nodup_singleton f) (List.disjoint_singleton.mpr hnew.2),
    fun g => ?_, ?_, ?_⟩
  · rw [List.mem_append, List.mem_append, List.mem_singleton, hmem]
    constructor
    · rintro (⟨⟨hg, hgin⟩, hout⟩ | rfl)
      · exact ⟨⟨.inl hg, hgin⟩, hout⟩
      · exact ⟨⟨.inr rfl, hin⟩, hnew.1⟩
    · rintro ⟨⟨hg | rfl, hgin⟩, hout⟩
      · exact .inl ⟨⟨hg, hgin⟩, hout⟩
      · exact .inr rfl
  · show cd'.cf ++ [f] = _
    rw [hcf, List.append_assoc]
  · exact iff_of_true rfl fun hnil => nomatch (List.append_eq_nil_iff.mp hnil).2

end Gathered

theorem gather_gathered (cd : ChunkData) (hclean : cd.dirty = false) (frames : List Int) :
    ∃ gained, Gathered cd (gather frames cd) frames gained := by
  induction frames using List.reverseRecOn with
  | nil =>
      refine ⟨[], .nil, fun f => ?_, (List.append_nil _).symm, ?_⟩
      · simp
      · exact iff_of_false (hclean ▸ Bool.false_ne_true) fun hne => hne rfl
  | append_singleton frames f ih =>
      obtain ⟨gained, hgathered⟩ := ih
      obtain ⟨-, hfs, hfe⟩ := gather_id frames cd
      have hlast : gather (frames ++ [f]) cd = gain (gather frames cd) f := by
        unfold gather
        rw [List.foldl_append]
        rfl
      have hwithin : ChunkWithin (gather frames cd) f ↔ ChunkWithin cd f := by
        unfold ChunkWithin
        rw [hfs, hfe]
      rw [hlast, gain]
      by_cases hin : ChunkWithin cd f
      · rw [if_pos (hwithin.mpr hin)]
        by_cases hknown : f ∈ (gather frames cd).cf
        · rw [if_pos hknown]
          exact ⟨gained, hgathered.skip (.inr hknown)⟩
        · rw [if_neg hknown]
          exact ⟨gained ++ [f], hgathered.add hin hknown⟩
      · rw [if_neg fun hc => hin (hwithin.mp hc)]
        exact ⟨gained, hgathered.skip (.inl hin)⟩

/-- What a chunk in memory makes of the row it is of. -/
def written (cds : List ChunkData) (c : ChunkRecord) : ChunkRecord :=
  (row? (·.id) c.id cds).elim c fun cd =>
    if cd.dirty then { c with completedFrames := sortFrames cd.cf } else c

/-- Every row is written by its own chunk. -/
theorem writeBack_chunks {cds : List ChunkData} (hkey : (cds.map (·.id)).Nodup) :
    (writeBack db cds).chunks = db.chunks.map (written cds) := by
  unfold writeBack
  induction cds generalizing db with
  | nil => exact (List.map_id _).symm
  | cons cd rest ih =>
      obtain ⟨hother, hrest⟩ := List.nodup_cons.mp hkey
      rw [List.foldl_cons, ih hrest]
      have hstep : ∀ c, written (cd :: rest) c =
          if c.id = cd.id then
            if cd.dirty then { c with completedFrames := sortFrames cd.cf } else c
          else written rest c := by
        intro c
        unfold written
        rw [row?_cons]
        by_cases hid : c.id = cd.id
        · rw [if_pos hid, if_pos hid.symm]
          rfl
        · rw [if_neg hid, if_neg (Ne.symm hid)]
      have hown : ∀ c : ChunkRecord, c.id = cd.id → written rest c = c := by
        intro c hid
        have hnone : row? (·.id) c.id rest = none :=
          row?_eq_none.mpr fun d hd hdid =>
            hother (List.mem_map.mpr ⟨d, hd, hdid.trans hid⟩)
        unfold written
        rw [hnone]
        rfl
      split
      · rename_i hdirty
        rw [Db.updateChunks_chunks, update, List.map_map]
        refine List.map_congr_left fun c _ => ?_
        rw [hstep, Function.comp_apply]
        by_cases hid : c.id = cd.id
        · rw [if_pos hid, if_pos hdirty, if_pos (decide_eq_true hid)]
          exact hown _ hid
        · rw [if_neg hid, if_neg (by simpa using hid)]
      · rename_i hclean
        refine List.map_congr_left fun c _ => ?_
        rw [hstep]
        by_cases hid : c.id = cd.id
        · rw [if_pos hid, if_neg hclean, hown c hid]
        · rw [if_neg hid]

/-- The chunks of the job are loaded apart. -/
theorem loadRows_apart (h : Disjoint db jobId) : (loadRows db jobId).Pairwise Apart := by
  have hnodup : (byFrame (chunksOf db jobId)).Nodup :=
    (List.perm_insertionSort _ _).nodup_iff.mpr (db.chunkKey.of_map _ |>.filter _)
  refine List.pairwise_map.mpr (hnodup.imp_of_mem fun {a b} ha hb hne f => ?_)
  obtain ⟨ha, haj⟩ := mem_chunksOf.mp ((List.mem_insertionSort _).mp ha)
  obtain ⟨hb, hbj⟩ := mem_chunksOf.mp ((List.mem_insertionSort _).mp hb)
  exact h a ha b hb haj hbj hne f

theorem gathered_nodup (frames : List Int) :
    (((loadRows db jobId).map (gather frames)).map (·.id)).Nodup := by
  rw [List.map_map]
  refine (List.map_congr_left fun cd _ => ?_) ▸ @loadRows_nodup db jobId
  exact (gather_id frames cd).1.symm

/-- The chunk in memory of a row of the job. -/
theorem row?_gathered {c : ChunkRecord} (hc : c ∈ db.chunks) (frames : List Int) :
    row? (·.id) c.id ((loadRows db jobId).map (gather frames)) =
      if c.jobId = jobId then some (gather frames (.ofRow c)) else none := by
  split
  · rename_i hjob
    have hloaded : ChunkData.ofRow c ∈ loadRows db jobId :=
      List.mem_map_of_mem ((List.mem_insertionSort _).mpr (mem_chunksOf.mpr ⟨hc, hjob⟩))
    exact (row?_eq_some (gathered_nodup frames)).mpr
      ⟨List.mem_map_of_mem hloaded, (gather_id frames _).1⟩
  · rename_i hjob
    refine row?_eq_none.mpr fun cd hcd hid => hjob ?_
    obtain ⟨loaded, hloaded, rfl⟩ := List.mem_map.mp hcd
    obtain ⟨b, hb, rfl⟩ := List.mem_map.mp hloaded
    obtain ⟨hb, hbj⟩ := mem_chunksOf.mp ((List.mem_insertionSort _).mp hb)
    have hbid : b.id = c.id := (gather_id frames (.ofRow b)).1.symm.trans hid
    exact db.chunk_ext hb hc hbid ▸ hbj

/-- A batch gives each of its frames to the chunk that has it. -/
theorem rows_addCompletedFramesBatch (h : Disjoint db jobId) (frames : List Int) :
    List.Forall₂ (RowMerges jobId (· ∈ frames)) db.chunks
      (addCompletedFramesBatch db jobId frames).2.chunks := by
  rw [addCompletedFramesBatch_eq, placeFrames_eq_map (loadRows_apart h),
    writeBack_chunks (gathered_nodup frames), List.forall₂_map_right_iff]
  refine List.forall₂_same.mpr fun c hc => ?_
  unfold written
  rw [row?_gathered hc]
  by_cases hjob : c.jobId = jobId
  · rw [if_pos hjob]
    obtain ⟨gained, hnodup, hmem, hcf, hdirty⟩ := gather_gathered (.ofRow c) rfl frames
    have hnew : ∀ f, f ∈ gained ↔
        (c.jobId = jobId ∧ f ∈ frames ∧ Within c f) ∧ f ∉ c.completedFrames := by
      intro f
      rw [hmem]
      exact and_congr_left fun _ => (and_iff_right hjob).symm
    show RowMerges jobId _ c (if (gather frames (.ofRow c)).dirty then
      { c with completedFrames := sortFrames (gather frames (.ofRow c)).cf } else c)
    split
    · rename_i hmarked
      refine ⟨_, rfl, ?_⟩
      rw [hcf]
      exact .sorted hnodup hnew (hdirty.mp hmarked)
    · rename_i hclean
      have hnil : gained = [] := by
        by_contra hne
        exact hclean (hdirty.mpr hne)
      refine ⟨c.completedFrames, rfl, gained, hnodup, hnew, ?_, (if_pos hnil).symm ▸ rfl⟩
      rw [hnil, List.append_nil]
  · rw [if_neg hjob]
    exact rowMerges_refl fun f hf => hjob hf.1

/-! ## Any order, any batches -/

/-- The frames reported one at a time. -/
def reportFrames (db : Db) (jobId : String) (frames : List Int) : Db :=
  frames.foldl (fun db f => (addCompletedFrames db jobId f).2) db

/-- The frames reported in batches. -/
def reportBatches (db : Db) (jobId : String) (batches : List (List Int)) : Db :=
  batches.foldl (fun db frames => (addCompletedFramesBatch db jobId frames).2) db

theorem rows_refl (db : Db) (jobId : String) (h : ∀ f, ¬ new f) :
    List.Forall₂ (RowMerges jobId new) db.chunks db.chunks :=
  List.forall₂_same.mpr fun _ _ => rowMerges_refl fun f hf => h f hf.2.1

theorem rows_congr {rows rows' : List ChunkRecord} (hnew : ∀ f, new f ↔ new' f)
    (h : List.Forall₂ (RowMerges jobId new) rows rows') :
    List.Forall₂ (RowMerges jobId new') rows rows' := by
  have heq : new = new' := funext fun f => propext (hnew f)
  exact heq ▸ h

theorem rows_reportFrames (h : Disjoint db jobId) (frames : List Int) :
    List.Forall₂ (RowMerges jobId (· ∈ frames)) db.chunks
      (reportFrames db jobId frames).chunks := by
  unfold reportFrames
  induction frames generalizing db with
  | nil => exact rows_refl db jobId fun f => List.not_mem_nil
  | cons f frames ih =>
      have hfirst := rows_addCompletedFrames h f
      have hrest := ih (h.after hfirst)
      refine rows_congr (fun g => List.mem_cons.symm) ?_
      exact forall₂_trans (fun _ _ _ => rowMerges_trans) hfirst hrest

theorem rows_reportBatches (h : Disjoint db jobId) (batches : List (List Int)) :
    List.Forall₂ (RowMerges jobId (· ∈ batches.flatten)) db.chunks
      (reportBatches db jobId batches).chunks := by
  unfold reportBatches
  induction batches generalizing db with
  | nil => exact rows_refl db jobId fun f => List.not_mem_nil
  | cons frames batches ih =>
      have hfirst := rows_addCompletedFramesBatch h frames
      have hrest := ih (h.after hfirst)
      refine rows_congr (fun g => List.mem_append.symm) ?_
      exact forall₂_trans (fun _ _ _ => rowMerges_trans) hfirst hrest

/-- A row after the frames were reported: its old frames and those of its range,
in increasing order if the old ones were. -/
def Reported (jobId : String) (frames : List Int) (c c' : ChunkRecord) : Prop :=
  ∃ cf, c' = { c with completedFrames := cf } ∧
    (∀ f, f ∈ cf ↔ f ∈ c.completedFrames ∨ c.jobId = jobId ∧ f ∈ frames ∧ Within c f) ∧
    (c.completedFrames.Pairwise (· < ·) → cf.Pairwise (· < ·))

/-- The lists of every database that calls build are increasing. -/
theorem increasing_after_calls (T : JsonText) (calls : List DbCall) :
    ∀ c ∈ (calls.foldl (fun db call => call.after T db) Db.empty).chunks,
      c.completedFrames.Pairwise (· < ·) := by
  have hrun : ∀ db : Db, (∀ c ∈ db.chunks, FramesOk c) →
      ∀ c ∈ (calls.foldl (fun db call => call.after T db) db).chunks, FramesOk c := by
    induction calls with
    | nil => exact fun db h => h
    | cons call calls ih => exact fun db h => ih _ (framesOk_after h)
  exact fun c hc => (hrun Db.empty (fun c hc => nomatch hc) c hc).increasing

/-- **Frame completion is order- and duplicate-insensitive on both paths.** The
same frames, one at a time or in batches, in any order and with repetitions,
leave the same chunks: each the old frames and the reported ones of its range,
in increasing order as every database has them that calls build. -/
theorem frames_merge :
    (∀ (db : Db) (jobId : String) (frames : List Int) (batches : List (List Int)),
      Disjoint db jobId → (∀ f, f ∈ batches.flatten ↔ f ∈ frames) →
        (reportBatches db jobId batches).chunks = (reportFrames db jobId frames).chunks ∧
        List.Forall₂ (Reported jobId frames) db.chunks (reportFrames db jobId frames).chunks) ∧
    ∀ (T : JsonText) (calls : List DbCall),
      ∀ c ∈ (calls.foldl (fun db call => call.after T db) Db.empty).chunks,
        c.completedFrames.Pairwise (· < ·) := by
  refine ⟨fun db jobId frames batches h hsame => ?_, increasing_after_calls⟩
  have hframes := rows_reportFrames h frames
  have hbatches := rows_congr hsame (rows_reportBatches h batches)
  refine ⟨rows_unique hbatches hframes, hframes.imp ?_⟩
  rintro c c' ⟨cf, rfl, hcf⟩
  exact ⟨cf, rfl, fun f => hcf.mem_iff, hcf.increasing⟩

/-- Two chunks of a job, one with a frame done. -/
def twoChunks : Db where
  jobs := [{ jobId := "shot", manifestJson := "", submittedAtMs := 0 }]
  chunks := [{ id := 1, jobId := "shot", frameStart := 1, frameEnd := 10, completedFrames := [2] },
    { id := 2, jobId := "shot", frameStart := 11, frameEnd := 20 }]
  nextChunkId := 3
  jobKey := by decide
  chunkKey := by decide
  autoincrement := by decide
  foreignKey := by decide

theorem twoChunks_disjoint : Disjoint twoChunks "shot" := by
  intro c hc c' hc' _ _ hne f hin hin'
  unfold Within at hin hin'
  simp only [twoChunks, List.mem_cons, List.not_mem_nil, or_false] at hc hc'
  rcases hc with rfl | rfl <;> rcases hc' with rfl | rfl
  · exact hne rfl
  · exact absurd (hin'.1.trans hin.2) (by decide)
  · exact absurd (hin.1.trans hin'.2) (by decide)
  · exact hne rfl

theorem shot_frames_merge :
    (reportBatches twoChunks "shot" [[3], [12, 99], [12, 3]]).chunks =
        (reportFrames twoChunks "shot" [12, 3, 99]).chunks ∧
      (reportFrames twoChunks "shot" [12, 3, 99]).chunks.map (·.completedFrames) =
        [[2, 3], [12]] := by
  refine ⟨(frames_merge.1 twoChunks "shot" [12, 3, 99] [[3], [12, 99], [12, 3]]
    twoChunks_disjoint fun f => ?_).1, by decide⟩
  simp only [List.flatten_cons, List.flatten_nil, List.mem_append, List.mem_cons,
    List.not_mem_nil, or_false]
  tauto

end MinRender.FrameLists
