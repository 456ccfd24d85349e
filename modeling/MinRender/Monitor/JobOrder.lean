import MinRender.Framework.StableSort
import MinRender.Monitor.RowSteps

/-!
# Moving a job in the list

`moveJob` renumbers one priority group. The list of all jobs is sorted by
priority first, and within the group by the new keys, so the move is a splice
of the whole list.
-/

namespace MinRender.JobOrder
open DatabaseManager Table StableSort

/-- The ids of `getAllJobs`, in its order. -/
def listed (db : Db) : List String := (getAllJobs db).map (·.job.jobId)

/-- `jobId` taken out and put back right before or after `target`. -/
def MovedNext (jobId target : String) (before : Bool) (ids ids' : List String) : Prop :=
  ∃ front back, ids.filter (· ≠ jobId) = front ++ target :: back ∧
    ids' = if before then front ++ jobId :: target :: back
      else front ++ target :: jobId :: back

/-- A row after the move: the job adopts the target's priority, and the keys of
the target's group are new. -/
def MovedRow (jobId : String) (target : JobRecord) (j j' : JobRecord) : Prop :=
  ∃ key, j' = { j with
      priority := if j.jobId = jobId then target.priority else j.priority
      sortKey := key } ∧
    (j'.priority ≠ target.priority → key = j.sortKey)

/-- What a successful move leaves. -/
structure Moved (jobId : String) (target : JobRecord) (before : Bool) (db db' : Db) :
    Prop where
  order : MovedNext jobId target.jobId before (listed db) (listed db')
  jobs : List.Forall₂ (MovedRow jobId target) db.jobs db'.jobs
  chunks : db'.chunks = db.chunks

/-- The move succeeds exactly for two different stored jobs. -/
structure Splices (db : Db) (jobId targetJobId : String) (before : Bool)
    (r : Bool × Db) : Prop where
  moved : ∀ target, jobId ≠ targetJobId → (db.job? jobId).isSome →
    db.job? targetJobId = some target → r.1 = true ∧ Moved jobId target before db r.2
  refused : jobId = targetJobId ∨ db.job? jobId = none ∨ db.job? targetJobId = none →
    r = (false, db)

/-! ## The order -/

instance : Std.Total jobOrder where
  total a b := by
    unfold jobOrder
    omega

instance : IsTrans JobRecord jobOrder where
  trans a b c hab hbc := by
    unfold jobOrder at *
    omega

theorem jobOrder_priority {a b : JobRecord} (h : jobOrder a b) : a.priority ≤ b.priority := by
  unfold jobOrder at h
  omega

/-- Within a group the keys decide. -/
theorem jobOrder_sortValue {a b : JobRecord} (h : jobOrder a b)
    (hp : a.priority = b.priority) : sortValue a ≤ sortValue b := by
  unfold jobOrder at h
  omega

theorem listed_eq (db : Db) :
    listed db = (db.jobs.insertionSort jobOrder).map (·.jobId) := by
  unfold listed getAllJobs jobsInOrder
  rw [List.map_map]
  rfl

/-- The ids of the jobs with a property, sorted. -/
def sortedIds (rows : List JobRecord) (p : JobRecord → Bool) : List String :=
  ((rows.filter p).insertionSort jobOrder).map (·.jobId)

/-- The list is the groups before a priority, its own and those after it. -/
theorem listed_groups (db : Db) (k : Int) :
    listed db = sortedIds db.jobs (fun j => j.priority < k) ++
      (sortedIds db.jobs (fun j => j.priority = k) ++
        sortedIds db.jobs (fun j => k < j.priority)) := by
  rw [listed_eq, insertionSort_eq_append JobRecord.priority k fun _ _ => jobOrder_priority,
    List.map_append, List.map_append]
  rfl

/-- A job taken out of a part is a job taken out before. -/
theorem filter_sortedIds (rows : List JobRecord) (p : JobRecord → Bool) (jobId : String) :
    (sortedIds rows p).filter (· ≠ jobId) =
      sortedIds rows fun j => decide (j.jobId ≠ jobId) && p j := by
  unfold sortedIds
  rw [List.filter_map, filter_insertionSort, List.filter_filter]
  rfl

theorem mem_sortedIds {rows : List JobRecord} {p : JobRecord → Bool} {x : String} :
    x ∈ sortedIds rows p ↔ ∃ j ∈ rows, p j = true ∧ j.jobId = x := by
  unfold sortedIds
  rw [List.mem_map]
  refine exists_congr fun j => ?_
  rw [List.mem_insertionSort, List.mem_filter, and_assoc]

theorem sortedIds_perm (rows : List JobRecord) (p : JobRecord → Bool) :
    (sortedIds rows p).Perm ((rows.filter p).map (·.jobId)) :=
  (List.perm_insertionSort jobOrder _).map _

/-! ## The splice -/

theorem insertIdx_middle (front back : List String) (x : String) :
    (front ++ back).insertIdx front.length x = front ++ x :: back := by
  induction front with
  | nil => rfl
  | cons y front ih =>
      rw [List.cons_append, List.length_cons, List.insertIdx_succ_cons, ih]
      rfl

theorem movedNext_splice {ids : List String} {jobId target : String} (before : Bool)
    (hmem : target ∈ ids) (hne : target ≠ jobId) :
    MovedNext jobId target before ids (splice ids jobId target before) := by
  have hin : target ∈ ids.filter (· ≠ jobId) :=
    List.mem_filter.mpr ⟨hmem, decide_eq_true hne⟩
  obtain ⟨front, back, hsplit, hfront⟩ := List.eq_append_cons_of_mem hin
  have hidx : (ids.filter (· ≠ jobId)).idxOf target = front.length := by
    rw [hsplit, List.idxOf_append_of_notMem hfront, List.idxOf_cons_self, Nat.add_zero]
  refine ⟨front, back, hsplit, ?_⟩
  unfold splice
  dsimp only
  rw [hidx, hsplit]
  cases before with
  | true => exact insertIdx_middle front (target :: back) jobId
  | false =>
      have hafter := insertIdx_middle (front ++ [target]) back jobId
      rw [List.length_append, List.append_assoc, List.append_assoc] at hafter
      exact hafter

namespace MovedNext

variable {jobId target : String} {before : Bool} {ids mid mid' low high : List String}

/-- A move within a part is a move within the list. -/
theorem append (h : MovedNext jobId target before mid mid')
    (hids : ids.filter (· ≠ jobId) = low ++ (mid.filter (· ≠ jobId) ++ high)) :
    MovedNext jobId target before ids (low ++ (mid' ++ high)) := by
  obtain ⟨front, back, hsplit, rfl⟩ := h
  refine ⟨low ++ front, back ++ high, ?_, ?_⟩
  · rw [hids, hsplit, List.append_assoc, List.append_assoc, List.cons_append]
  · split
    · rw [List.append_assoc, List.append_assoc, List.cons_append, List.cons_append]
    · rw [List.append_assoc, List.append_assoc, List.cons_append, List.cons_append]

theorem perm_cons (h : MovedNext jobId target before mid mid') :
    mid'.Perm (jobId :: mid.filter (· ≠ jobId)) := by
  obtain ⟨front, back, hsplit, rfl⟩ := h
  rw [hsplit]
  split
  · exact List.perm_middle
  · have hswap : (front ++ [target] ++ jobId :: back).Perm
        (jobId :: (front ++ [target] ++ back)) := List.perm_middle
    rw [List.append_assoc, List.append_assoc] at hswap
    exact hswap

/-- Nothing is lost and nothing doubled. -/
theorem perm (h : MovedNext jobId target before mid mid') (hmem : jobId ∈ mid)
    (hnodup : mid.Nodup) : mid'.Perm mid := by
  refine h.perm_cons.trans (List.Perm.trans ?_ (List.perm_cons_erase hmem).symm)
  rw [hnodup.erase_eq_filter]
  refine List.Perm.cons _ (List.Perm.of_eq (List.filter_congr fun x _ => ?_))
  by_cases hx : x = jobId
  · simp [hx]
  · simp [hx]

end MovedNext

/-! ## Renumbering a group -/

/-- The key of a job in the group, counted from `k`. -/
def rekeyed (k : Nat) (ids : List String) (j : JobRecord) : JobRecord :=
  if j.jobId ∈ ids then
    { j with sortKey := some ((((k + ids.idxOf j.jobId : Nat) : Int) + 1) * 1024) }
  else j

@[simp] theorem rekeyed_jobId (k : Nat) (ids : List String) (j : JobRecord) :
    (rekeyed k ids j).jobId = j.jobId := by
  unfold rekeyed
  split <;> rfl

@[simp] theorem rekeyed_priority (k : Nat) (ids : List String) (j : JobRecord) :
    (rekeyed k ids j).priority = j.priority := by
  unfold rekeyed
  split <;> rfl

/-- The head's own update, and then those of the tail. -/
theorem rekeyed_cons (k : Nat) {id : String} {ids : List String} (h : id ∉ ids)
    (j : JobRecord) :
    rekeyed (k + 1) ids
        (if decide (j.jobId = id) = true then { j with sortKey := some (((k : Int) + 1) * 1024) }
          else j) =
      rekeyed k (id :: ids) j := by
  by_cases hid : j.jobId = id
  · subst hid
    rw [if_pos (decide_eq_true rfl)]
    unfold rekeyed
    rw [if_neg h, if_pos List.mem_cons_self, List.idxOf_cons_self, Nat.add_zero]
  · rw [if_neg (by simpa using hid)]
    unfold rekeyed
    by_cases hmem : j.jobId ∈ ids
    · rw [if_pos hmem, if_pos (List.mem_cons_of_mem _ hmem),
        List.idxOf_cons_ne _ (Ne.symm hid), Nat.succ_eq_add_one, Nat.add_right_comm,
        Nat.add_assoc]
    · rw [if_neg hmem, if_neg fun hcons => (List.mem_cons.mp hcons).elim hid hmem]

theorem renumber_jobs (db : Db) {ids : List String} (h : ids.Nodup) :
    (renumber db ids).jobs = db.jobs.map (rekeyed 0 ids) := by
  unfold renumber
  generalize 0 = k
  induction ids generalizing db k with
  | nil =>
      have hid : rekeyed k [] = id := funext fun j => if_neg List.not_mem_nil
      rw [hid, List.map_id]
      rfl
  | cons id ids ih =>
      obtain ⟨hfresh, hnodup⟩ := List.nodup_cons.mp h
      rw [List.zipIdx_cons, List.foldl_cons, ih _ hnodup, Db.updateJobs_jobs, update,
        List.map_map]
      exact List.map_congr_left fun j _ => rekeyed_cons k hfresh j

/-- Rows a map leaves alone, picked out of the mapped rows. -/
theorem sortedIds_map {rows : List JobRecord} {f : JobRecord → JobRecord}
    {p q : JobRecord → Bool} (hp : ∀ j ∈ rows, p (f j) = q j)
    (hf : ∀ j ∈ rows, q j = true → f j = j) :
    sortedIds (rows.map f) p = sortedIds rows q := by
  have hrows : (rows.map f).filter p = rows.filter q := by
    have htest : rows.filter (p ∘ f) = rows.filter q := List.filter_congr hp
    rw [List.filter_map, htest]
    refine (List.map_congr_left fun j hj => ?_).trans (List.map_id _)
    exact hf j (List.mem_filter.mp hj).1 (List.mem_filter.mp hj).2
  unfold sortedIds
  rw [hrows]

/-- **A renumbered group is listed in its new order**, and the other groups as
before. -/
theorem listed_renumber (db : Db) (k : Int) {ids : List String}
    (hperm : ids.Perm (sortedIds db.jobs fun j => j.priority = k)) :
    listed (renumber db ids) = sortedIds db.jobs (fun j => j.priority < k) ++
      (ids ++ sortedIds db.jobs fun j => k < j.priority) := by
  have hgroup : ids.Perm ((db.jobs.filter fun j => j.priority = k).map (·.jobId)) :=
    hperm.trans (sortedIds_perm db.jobs _)
  have hnodup : ids.Nodup :=
    hgroup.nodup_iff.mpr (db.jobKey.sublist (List.filter_sublist.map _))
  have hmem : ∀ j ∈ db.jobs, j.jobId ∈ ids → j.priority = k := by
    intro j hj hin
    obtain ⟨i, hi, hp, hid⟩ := mem_sortedIds.mp (hperm.mem_iff.mp hin)
    rw [List.inj_on_of_nodup_map db.jobKey hi hj hid] at hp
    exact of_decide_eq_true hp
  have hother : ∀ p : Int → Bool, p k = false →
      sortedIds (db.jobs.map (rekeyed 0 ids)) (fun j => p j.priority) =
        sortedIds db.jobs fun j => p j.priority := by
    intro p hp
    refine sortedIds_map (fun j _ => by rw [rekeyed_priority]) fun j hj hpj => ?_
    refine if_neg fun hin => ?_
    rw [hmem j hj hin, hp] at hpj
    cases hpj
  have hown : sortedIds (db.jobs.map (rekeyed 0 ids)) (fun j => j.priority = k) = ids := by
    refine map_insertionSort_eq JobRecord.jobId ?_ hnodup ?_
    · rw [List.filter_map, List.map_map]
      have hids : JobRecord.jobId ∘ rekeyed 0 ids = JobRecord.jobId :=
        funext fun j => rekeyed_jobId 0 ids j
      have htest : (fun j : JobRecord => decide (j.priority = k)) ∘ rekeyed 0 ids =
          fun j => decide (j.priority = k) :=
        funext fun j => by rw [Function.comp_apply, rekeyed_priority]
      rw [hids, htest]
      exact hgroup.symm
    · intro a ha b hb hab
      obtain ⟨ha, hpa⟩ := List.mem_filter.mp ha
      obtain ⟨hb, hpb⟩ := List.mem_filter.mp hb
      obtain ⟨i, hi, rfl⟩ := List.mem_map.mp ha
      obtain ⟨j, hj, rfl⟩ := List.mem_map.mp hb
      have hpi := of_decide_eq_true hpa
      have hpj := of_decide_eq_true hpb
      have hkey : ∀ r ∈ db.jobs, (rekeyed 0 ids r).priority = k →
          sortValue (rekeyed 0 ids r) = ((ids.idxOf r.jobId : Int) + 1) * 1024 := by
        intro r hr hpr
        have hin : r.jobId ∈ ids := hgroup.mem_iff.mpr (List.mem_map.mpr
          ⟨r, List.mem_filter.mpr ⟨hr, decide_eq_true (rekeyed_priority 0 ids r ▸ hpr)⟩, rfl⟩)
        unfold rekeyed
        rw [if_pos hin, Nat.zero_add]
        rfl
      have hle := jobOrder_sortValue hab (hpi.trans hpj.symm)
      rw [hkey i hi hpi, hkey j hj hpj] at hle
      rw [rekeyed_jobId, rekeyed_jobId]
      omega
  have hbelow := hother (fun p => decide (p < k)) (decide_eq_false (Int.lt_irrefl k))
  have habove := hother (fun p => decide (k < p)) (decide_eq_false (Int.lt_irrefl k))
  rw [listed_groups _ k, renumber_jobs db hnodup, hbelow, hown, habove]

/-! ## Adopting the priority -/

/-- The job in its new group. -/
def adopt (db : Db) (jobId : String) (k : Int) : Db :=
  db.updateJobs (·.jobId = jobId) fun j => { j with priority := k }

variable {db : Db} {jobId : String} {k : Int}

/-- The other jobs of a group are those they were. -/
theorem adopt_others (p : Int → Bool) :
    (sortedIds (adopt db jobId k).jobs fun j => p j.priority).filter (· ≠ jobId) =
      (sortedIds db.jobs fun j => p j.priority).filter (· ≠ jobId) := by
  rw [filter_sortedIds, filter_sortedIds]
  refine sortedIds_map (fun j _ => ?_) fun j _ hj => ?_
  · by_cases hid : j.jobId = jobId
    · rw [if_pos (decide_eq_true hid), hid]
      simp
    · rw [if_neg (by simpa using hid)]
  · rw [Bool.and_eq_true, decide_eq_true_eq] at hj
    exact if_neg (by simpa using hj.1)

/-- The job is in no group but the one it adopted. -/
theorem adopt_elsewhere {p : Int → Bool} (hp : p k = false) :
    (sortedIds (adopt db jobId k).jobs fun j => p j.priority) =
      (sortedIds db.jobs fun j => p j.priority).filter (· ≠ jobId) := by
  rw [← adopt_others]
  refine (List.filter_eq_self.mpr fun x hx => decide_eq_true ?_).symm
  obtain ⟨j, hj, hpj, rfl⟩ := mem_sortedIds.mp hx
  obtain ⟨i, hi, rfl⟩ := mem_update.mp hj
  by_cases hid : i.jobId = jobId
  · rw [if_pos (decide_eq_true hid)] at hpj
    dsimp only at hpj
    rw [hp] at hpj
    cases hpj
  · rw [if_neg (by simpa using hid)]
    exact hid

theorem adopt_row {j : JobRecord} (hj : j ∈ db.jobs) (h : j.jobId = jobId ∨ j.priority = k) :
    j.jobId ∈ sortedIds (adopt db jobId k).jobs fun j => j.priority = k := by
  refine mem_sortedIds.mpr ⟨_, mem_update.mpr ⟨j, hj, rfl⟩, ?_⟩
  split
  · exact ⟨decide_eq_true rfl, rfl⟩
  · rename_i hid
    have hprio := h.resolve_left (by simpa using hid)
    exact ⟨decide_eq_true hprio, rfl⟩

theorem adopt_group_nodup : (sortedIds (adopt db jobId k).jobs fun j => j.priority = k).Nodup :=
  (sortedIds_perm _ _).nodup_iff.mpr
    ((adopt db jobId k).jobKey.sublist (List.filter_sublist.map _))

/-! ## The move -/

variable {targetJobId : String} {before : Bool}

theorem moveJob_eq {j target : JobRecord} (hne : jobId ≠ targetJobId)
    (hj : db.job? jobId = some j) (ht : db.job? targetJobId = some target) :
    moveJob db jobId targetJobId before =
      (true, renumber (adopt db jobId target.priority)
        (splice (sortedIds (adopt db jobId target.priority).jobs
          fun j => j.priority = target.priority) jobId targetJobId before)) := by
  unfold moveJob
  rw [if_neg hne, hj, ht]
  rfl

theorem listed_move {target : JobRecord} {ids : List String}
    (hmoved : MovedNext jobId target.jobId before
      (sortedIds (adopt db jobId k).jobs fun j => j.priority = k) ids)
    (hj : (db.job? jobId).isSome) :
    MovedNext jobId target.jobId before (listed db) (listed (renumber (adopt db jobId k) ids)) := by
  obtain ⟨j, hj⟩ := Option.isSome_iff_exists.mp hj
  obtain ⟨hmem, hid⟩ := Db.job?_eq_some.mp hj
  have hin := adopt_row (k := k) hmem (.inl hid)
  rw [hid] at hin
  rw [listed_renumber _ k (hmoved.perm hin adopt_group_nodup)]
  apply hmoved.append
  have hbelow : (sortedIds (adopt db jobId k).jobs fun j => j.priority < k) =
      (sortedIds db.jobs fun j => j.priority < k).filter (· ≠ jobId) :=
    adopt_elsewhere (p := fun p => decide (p < k)) (decide_eq_false (Int.lt_irrefl k))
  have habove : (sortedIds (adopt db jobId k).jobs fun j => k < j.priority) =
      (sortedIds db.jobs fun j => k < j.priority).filter (· ≠ jobId) :=
    adopt_elsewhere (p := fun p => decide (k < p)) (decide_eq_false (Int.lt_irrefl k))
  have hown : (sortedIds (adopt db jobId k).jobs fun j => j.priority = k).filter (· ≠ jobId) =
      (sortedIds db.jobs fun j => j.priority = k).filter (· ≠ jobId) :=
    adopt_others fun p => decide (p = k)
  rw [listed_groups db k, List.filter_append, List.filter_append, hbelow, habove, hown]

theorem rows_move {target : JobRecord} {ids : List String}
    (hperm : ids.Perm (sortedIds (adopt db jobId target.priority).jobs
      fun j => j.priority = target.priority)) :
    List.Forall₂ (MovedRow jobId target) db.jobs
      (renumber (adopt db jobId target.priority) ids).jobs := by
  have hnodup : ids.Nodup := hperm.nodup_iff.mpr adopt_group_nodup
  rw [renumber_jobs _ hnodup, adopt, Db.updateJobs_jobs, update, List.map_map,
    List.forall₂_map_right_iff, List.forall₂_same]
  intro j hj
  show MovedRow jobId target j (rekeyed 0 ids
    (if decide (j.jobId = jobId) = true then { j with priority := target.priority } else j))
  by_cases hin : j.jobId ∈ ids
  · -- a job of the group has the target's priority
    obtain ⟨a, ha, hpa, hid⟩ := mem_sortedIds.mp (hperm.mem_iff.mp hin)
    obtain ⟨i, hi, rfl⟩ := mem_update.mp ha
    have hsame : i = j := by
      refine List.inj_on_of_nodup_map db.jobKey hi hj (Eq.trans ?_ hid)
      split <;> rfl
    subst hsame
    refine ⟨some ((((0 + ids.idxOf i.jobId : Nat) : Int) + 1) * 1024), ?_, fun hother => ?_⟩
    · by_cases hjob : i.jobId = jobId
      · rw [if_pos (decide_eq_true hjob), if_pos hjob]
        exact if_pos hin
      · rw [if_neg (by simpa using hjob), if_neg hjob]
        exact if_pos hin
    · rw [rekeyed_priority] at hother
      exact absurd (of_decide_eq_true hpa) hother
  · refine ⟨j.sortKey, ?_, fun _ => rfl⟩
    by_cases hjob : j.jobId = jobId
    · rw [if_pos (decide_eq_true hjob), if_pos hjob]
      exact if_neg hin
    · rw [if_neg (by simpa using hjob), if_neg hjob]
      exact if_neg hin

/-- **A move is an exact splice of the list**: for two different stored jobs the
one is taken out and put back next to the other, whose priority it takes;
otherwise nothing happens. -/
theorem moveJob_splices (db : Db) (jobId targetJobId : String) (before : Bool) :
    Splices db jobId targetJobId before (moveJob db jobId targetJobId before) where
  moved := by
    intro target hne hj ht
    obtain ⟨htmem, rfl⟩ := Db.job?_eq_some.mp ht
    obtain ⟨j, hjob⟩ := Option.isSome_iff_exists.mp hj
    obtain ⟨hjmem, hid⟩ := Db.job?_eq_some.mp hjob
    rw [moveJob_eq hne hjob ht]
    have hgroup : target.jobId ∈ sortedIds (adopt db jobId target.priority).jobs
        fun j => j.priority = target.priority :=
      adopt_row htmem (.inr rfl)
    have hmoved := movedNext_splice before hgroup (Ne.symm hne)
    have hin : j.jobId ∈ sortedIds (adopt db jobId target.priority).jobs
        fun j => j.priority = target.priority :=
      adopt_row hjmem (.inl hid)
    rw [hid] at hin
    refine ⟨rfl, listed_move hmoved hj, rows_move (hmoved.perm hin adopt_group_nodup), ?_⟩
    exact (renumber_spec _ _).2
  refused := by
    intro hrefused
    unfold moveJob
    split
    · rfl
    · rename_i hne
      rcases hrefused with heq | hnone | hnone
      · exact absurd heq hne
      · rw [hnone]
      · rw [hnone]
        cases db.job? jobId <;> rfl

end MinRender.JobOrder
