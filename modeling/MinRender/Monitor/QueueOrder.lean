import MinRender.Monitor.JobControls
import MinRender.Monitor.JobOrder
import MinRender.Monitor.Submissions

/-!
# What moves jobs in the queue besides `moveJob`

A job's place in its priority group is its sort key. `insertJob` and
`updateJobPriority` set it to the submission time, `moveJob` to a small
multiple of 1024. An edit resets the key of its job, whatever the priority;
a new job goes to the back only behind smaller keys.
-/

namespace MinRender.QueueOrder
open DatabaseManager DispatchManager JobOrder Table StableSort
open MonitorApp (EditResult editManifest applyEditLocally resetForEdit)

/-- What changes the leader's database. -/
inductive Event
  | call (c : DbCall)
  | submit (manifest : JobManifest) (priority : Int)
  | submitChunks (manifest : JobManifest) (priority : Int) (chunks : List ChunkRange)
  | edit (jobId manifestJson mode : String) (priority : Int)
deriving DecidableEq

def step (T : JsonText) (db : Db) : Event → Db
  | .call c => c.after T db
  | .submit manifest priority =>
      ((submitJob T manifest priority).run (DbCall.exec T) db).2
  | .submitChunks manifest priority chunks =>
      ((submitJobWithChunks T manifest priority chunks).run (DbCall.exec T) db).2
  | .edit jobId manifestJson mode priority =>
      ((applyEditLocally T true jobId manifestJson mode priority).run (DbCall.exec T) db).2

def machine (T : JsonText) : Machine Db Event := ⟨fun db e => some (step T db e)⟩

/-! ## Kept orders and new jobs -/

/-- An edit with the job's stored priority leaves the list in its order. -/
def KeepsOrder (db : Db) (e : Event) (db' : Db) : Prop :=
  ∀ jobId manifestJson mode j, e = .edit jobId manifestJson mode j.priority →
    db.job? jobId = some j → listed db' = listed db

/-- The job with the sort key of its submission. -/
def resetKey (j : JobRecord) : JobRecord := { j with sortKey := some j.submittedAtMs }

/-- `a` would be listed before `b`: equal keys keep the order of the rows. -/
def SortsBefore (db : Db) (a b : JobRecord) : Prop :=
  jobOrder a b ∧ (jobOrder b a → [a.jobId, b.jobId].Sublist (db.jobs.map (·.jobId)))

/-- The edit is refused, or the job has its place in its group under the reset
key, too. -/
def PlaceKept (T : JsonText) (db : Db) (e : Event) (_ : Db) : Prop :=
  ∀ jobId manifestJson mode j, e = .edit jobId manifestJson mode j.priority →
    db.job? jobId = some j →
      (∃ refused, editManifest T jobId manifestJson = .error refused) ∨
        ∀ b ∈ db.jobs, b.jobId ≠ jobId → b.priority = j.priority →
          (SortsBefore db b j ↔ SortsBefore db b (resetKey j))

def Submits (e : Event) (manifest : JobManifest) (priority : Int) : Prop :=
  e = .submit manifest priority ∨ ∃ chunks, e = .submitChunks manifest priority chunks

/-- The ids of a priority group, in the order of `getAllJobs`. -/
def groupIds (db : Db) (priority : Int) : List String :=
  ((getAllJobs db).filter (·.job.priority = priority)).map (·.job.jobId)

/-- A submission of a new job puts it last in its group. -/
def JoinsBack (db : Db) (e : Event) (db' : Db) : Prop :=
  ∀ manifest priority, Submits e manifest priority → db.job? manifest.jobId = none →
    (groupIds db' priority).getLast? = some manifest.jobId

/-- No key of the group is above the submission time; at an equal one no
submission was later. -/
def NoneBehind (db : Db) (e : Event) (_ : Db) : Prop :=
  ∀ manifest priority, Submits e manifest priority → db.job? manifest.jobId = none →
    ∀ b ∈ db.jobs, b.priority = priority →
      sortValue b < manifest.submittedAtMs ∨
        sortValue b = manifest.submittedAtMs ∧ b.submittedAtMs ≤ manifest.submittedAtMs

/-! ## What the order reads -/

/-- A row without the columns the order does not read. -/
def bare (j : JobRecord) : JobRecord :=
  { j with manifestJson := "", currentState := .active, editEpoch := 0 }

theorem listed_bare (db : Db) :
    listed db = ((db.jobs.map bare).insertionSort jobOrder).map (·.jobId) := by
  have hsort : (db.jobs.insertionSort jobOrder).map bare =
      (db.jobs.map bare).insertionSort jobOrder :=
    List.map_insertionSort jobOrder jobOrder bare db.jobs fun _ _ _ _ => Iff.rfl
  rw [listed_eq, ← hsort, List.map_map]
  rfl

/-- The calls that change no place: no row comes or goes, and no key or
priority changes. -/
def KeepsKeys : DbCall → Prop
  | .insertJob _ | .updateJobPriority .. | .moveJob .. | .deleteJob _ => False
  | _ => True

variable {T : JsonText} {db : Db} {jobId manifestJson mode : String} {priority : Int}

theorem bare_after {call : DbCall} (h : KeepsKeys call) (db : Db) :
    (call.after T db).jobs.map bare = db.jobs.map bare := by
  refine (jobs_evolve T call db).map_eq ?_ ?_ bare ?_
  · intro j _
    cases call <;> first | rfl | exact h.elim
  · rintro j ⟨job, rfl, -⟩
    exact h
  · intro j j' hstep
    cases hstep <;> first | rfl | exact h.elim

theorem resetForEdit_keepsKeys {manifest : JobManifest} :
    (resetForEdit mode jobId manifest).Every KeepsKeys := by
  refine .ite (.ask trivial fun _ => trivial) ?_
  split
  · exact .ask trivial fun _ => trivial
  · exact trivial

/-! ## An edit -/

/-- Of all an edit stores, the order sees the priority and the reset key. -/
theorem edit_bare {manifest : JobManifest} {j : JobRecord}
    (hm : editManifest T jobId manifestJson = .ok manifest) (hj : db.job? jobId = some j) :
    (step T db (.edit jobId manifestJson mode priority)).jobs.map bare =
      (updateJobPriority db jobId priority).2.jobs.map bare := by
  have hjob : ((DbCall.exec T (.getJob jobId) db).1.isNone) = false := by
    simp [DbCall.exec, getJob, hj]
  simp only [step, applyEditLocally, Bool.not_true, Bool.false_eq_true, if_false, hm, query]
  rw [Prog.ask_bind, Prog.run_call, hjob, if_neg Bool.false_ne_true, Prog.ask_bind,
    Prog.run_call]
  -- after the priority the edit makes no call that moves a job
  refine Prog.Every.run_keeps (P := KeepsKeys) ?_ (fun db => db.jobs.map bare)
    (fun c s hc => bare_after hc s) _
  refine .ask trivial fun _ => .ite ?_ trivial
  refine .ask trivial fun rendering => .ask trivial fun _ =>
    resetForEdit_keepsKeys.bind fun reset => ?_
  cases reset with
  | none => exact trivial
  | some u => exact .ask trivial fun _ => trivial

theorem edit_refused {refused : EditResult}
    (hm : editManifest T jobId manifestJson = .error refused) :
    step T db (.edit jobId manifestJson mode priority) = db := by
  simp [step, applyEditLocally, hm]

/-- The edited job's key is reset, and no other. -/
def rekey (jobId : String) (j : JobRecord) : JobRecord :=
  if j.jobId = jobId then resetKey j else j

theorem rekey_jobId (j : JobRecord) : (rekey jobId j).jobId = j.jobId := by
  unfold rekey
  split <;> rfl

theorem updateJobPriority_jobs {j : JobRecord} (hj : db.job? jobId = some j) :
    (updateJobPriority db jobId j.priority).2.jobs = db.jobs.map (rekey jobId) := by
  obtain ⟨hmem, hid⟩ := Db.job?_eq_some.mp hj
  refine List.map_congr_left fun i hi => ?_
  unfold rekey
  by_cases hjob : i.jobId = jobId
  · have hij : i = j := List.inj_on_of_nodup_map db.jobKey hi hmem (hjob.trans hid.symm)
    rw [if_pos (decide_eq_true hjob), if_pos hjob, hij]
    rfl
  · rw [if_neg (by simpa using hjob), if_neg hjob]

theorem listed_edit {manifest : JobManifest} {j : JobRecord}
    (hm : editManifest T jobId manifestJson = .ok manifest) (hj : db.job? jobId = some j) :
    listed (step T db (.edit jobId manifestJson mode j.priority)) =
      ((db.jobs.map (rekey jobId)).insertionSort jobOrder).map (·.jobId) := by
  rw [listed_bare, edit_bare hm hj, ← listed_bare, listed_eq, updateJobPriority_jobs hj]

/-! ## Two jobs -/

section Pairs

variable {a b j : JobRecord}

/-- Of two stored jobs exactly one sorts before the other. -/
theorem sortsBefore_iff_not (ha : a.jobId ∈ db.jobs.map (·.jobId))
    (hb : b.jobId ∈ db.jobs.map (·.jobId)) (hne : a.jobId ≠ b.jobId) :
    SortsBefore db a b ↔ ¬ SortsBefore db b a := by
  constructor
  · rintro ⟨hab, htie⟩ ⟨hba, htie'⟩
    exact pair_sublist_asymm db.jobKey (htie hba) (htie' hab)
  · intro hnot
    by_cases hba : jobOrder b a
    · by_cases hab : jobOrder a b
      · rcases pair_sublist_or ha hb hne with hbefore | hafter
        · exact ⟨hab, fun _ => hbefore⟩
        · exact absurd ⟨hba, fun _ => hafter⟩ hnot
      · exact absurd ⟨hba, fun h => absurd h hab⟩ hnot
    · exact ⟨(total_of jobOrder a b).resolve_right hba, fun h => absurd h hba⟩

/-- Keys of different groups are not compared. -/
theorem sortsBefore_resetKey (hp : b.priority ≠ j.priority) :
    SortsBefore db b j ↔ SortsBefore db b (resetKey j) := by
  have hto : jobOrder b j ↔ jobOrder b (resetKey j) := by
    unfold jobOrder resetKey
    simp [hp]
  have hfro : jobOrder j b ↔ jobOrder (resetKey j) b := by
    unfold jobOrder resetKey
    simp [hp.symm]
  unfold SortsBefore
  rw [hto, hfro]
  rfl

theorem ahead_rekey_iff (ha : a ∈ db.jobs) (hb : b ∈ db.jobs) :
    Ahead jobOrder (db.jobs.map (rekey jobId)) (rekey jobId a) (rekey jobId b) ↔
      SortsBefore db (rekey jobId a) (rekey jobId b) := by
  have hids : (db.jobs.map (rekey jobId)).map (·.jobId) = db.jobs.map (·.jobId) := by
    rw [List.map_map]
    exact List.map_congr_left fun i _ => rekey_jobId i
  have hnodup : ((db.jobs.map (rekey jobId)).map (·.jobId)).Nodup := hids ▸ db.jobKey
  have hpair := pair_sublist_map_iff hnodup (List.mem_map_of_mem ha) (List.mem_map_of_mem hb)
  rw [hids] at hpair
  unfold Ahead SortsBefore
  rw [hpair]

theorem ahead_iff (ha : a ∈ db.jobs) (hb : b ∈ db.jobs) :
    Ahead jobOrder db.jobs a b ↔ SortsBefore db a b := by
  unfold Ahead SortsBefore
  rw [pair_sublist_map_iff db.jobKey ha hb]

/-- **A reset key shows exactly where it moves its job past another one of the
group.** -/
theorem rekey_keeps_iff (hj : db.job? jobId = some j) :
    ((db.jobs.map (rekey jobId)).insertionSort jobOrder).map (·.jobId) = listed db ↔
      ∀ b ∈ db.jobs, b.jobId ≠ jobId → b.priority = j.priority →
        (SortsBefore db b j ↔ SortsBefore db b (resetKey j)) := by
  obtain ⟨hmem, hid⟩ := Db.job?_eq_some.mp hj
  have hown : rekey jobId j = resetKey j := if_pos hid
  have hother : ∀ {b : JobRecord}, b.jobId ≠ jobId → rekey jobId b = b := fun h => if_neg h
  rw [listed_eq, map_insertionSort_eq_iff rekey_jobId db.jobKey]
  constructor
  · intro h b hb hne _
    have hbj := h b hb j hmem fun heq => hne (heq ▸ hid)
    rw [ahead_rekey_iff hb hmem, ahead_iff hb hmem, hown, hother hne] at hbj
    exact hbj.symm
  · intro h a ha b hb hne
    have hbefore : ∀ c ∈ db.jobs, c.jobId ≠ jobId →
        (SortsBefore db c (resetKey j) ↔ SortsBefore db c j) := by
      intro c hc hcj
      by_cases hp : c.priority = j.priority
      · exact (h c hc hcj hp).symm
      · exact (sortsBefore_resetKey hp).symm
    rw [ahead_rekey_iff ha hb, ahead_iff ha hb]
    by_cases haj : a.jobId = jobId
    · have heq : a = j := List.inj_on_of_nodup_map db.jobKey ha hmem (haj.trans hid.symm)
      subst heq
      have hbj : b.jobId ≠ jobId := fun hb' =>
        hne (List.inj_on_of_nodup_map db.jobKey ha hb (haj.trans hb'.symm))
      have hids : a.jobId ≠ b.jobId := fun h => hbj (h ▸ haj)
      have hina : a.jobId ∈ db.jobs.map (·.jobId) := List.mem_map_of_mem ha
      have hinb : b.jobId ∈ db.jobs.map (·.jobId) := List.mem_map_of_mem hb
      rw [hown, hother hbj, sortsBefore_iff_not hina hinb hids,
        sortsBefore_iff_not (a := resetKey a) hina hinb hids]
      exact not_congr (hbefore b hb hbj)
    · by_cases hbj : b.jobId = jobId
      · have heq : b = j := List.inj_on_of_nodup_map db.jobKey hb hmem (hbj.trans hid.symm)
        subst heq
        rw [hown, hother haj]
        exact hbefore a ha haj
      · rw [hother haj, hother hbj]

end Pairs

/-! ## Edits and the order -/

theorem keepsOrder_iff (T : JsonText) (db : Db) (e : Event) :
    PlaceKept T db e (step T db e) ↔ KeepsOrder db e (step T db e) := by
  unfold PlaceKept KeepsOrder
  refine forall₄_congr fun jobId manifestJson mode j => ?_
  refine forall_congr' fun he => forall_congr' fun hj => ?_
  subst he
  cases hm : editManifest T jobId manifestJson with
  | error refused =>
      rw [edit_refused hm]
      simp
  | ok manifest =>
      rw [listed_edit hm hj, rekey_keeps_iff hj]
      simp

/-- **An edit that keeps the priority keeps the order exactly where the reset
key compares like the old one**, in every run. -/
theorem edits_keep_order (T : JsonText) (es : List Event) :
    (machine T).Along (PlaceKept T) Db.empty es ↔
      (machine T).Along KeepsOrder Db.empty es := by
  refine Machine.Along.congr (I := fun _ => True) (fun _ _ _ _ _ => trivial) ?_ trivial
  intro db e db' _ hstep
  cases hstep
  exact keepsOrder_iff T db e

/-- Two jobs, a frame each; the second is dragged before the first. -/
def dragged : List Event :=
  [.submit { jobId := "other", frameEnd := 1, submittedAtMs := 1700000000000 } 50,
    .submit { jobId := "shot", frameEnd := 1, submittedAtMs := 1700000001000 } 50,
    .call (.moveJob "shot" "other" true)]

/-- **An edit takes the dragged job from its place.** -/
theorem edit_moves_dragged_job :
    ¬ ∀ (T : JsonText) (es : List Event), (machine T).Along KeepsOrder Db.empty es := by
  intro h
  refine Machine.Along.refute dragged (.edit "shot" shotManifest "" 50)
    (fun t u => listed u ≠ listed t && (t.job? "shot").any (·.priority = 50)) ?_ ?_
    (h shotText _)
  · intro t u hbad hkeeps
    obtain ⟨hmoved, hjob⟩ := (Bool.and_eq_true _ _).mp hbad
    obtain ⟨j, hj, hp⟩ := (Option.any_eq_true _ _).mp hjob
    rw [← of_decide_eq_true hp] at hkeeps
    exact of_decide_eq_true hmoved (hkeeps _ _ _ j rfl hj)
  · decide

/-! ## A new job -/

/-- The row a submission stores. -/
def newRow (T : JsonText) (manifest : JobManifest) (priority : Int) : JobRecord :=
  { jobId := manifest.jobId
    manifestJson := T.dump manifest.toJson
    currentState := .active
    priority
    submittedAtMs := manifest.submittedAtMs
    sortKey := some manifest.submittedAtMs }

variable {manifest : JobManifest}

/-- Whatever becomes of the chunks, the new job is the last row. -/
theorem submits_jobs {e : Event} (h : Submits e manifest priority)
    (hnew : db.job? manifest.jobId = none) :
    (step T db e).jobs = db.jobs ++ [newRow T manifest priority] := by
  have hinsert : ∃ db₁, insertJob db (jobRowOf T manifest priority) = (true, db₁) ∧
      db₁.jobs = db.jobs ++ [newRow T manifest priority] := by
    rcases insertJob_cases db (jobRowOf T manifest priority) with ⟨htaken, -⟩ | hins
    · exact absurd htaken (by simp [jobRowOf, hnew])
    · exact ⟨_, Prod.ext hins.2.1 rfl, hins.2.2.2⟩
  obtain ⟨db₁, hins, hjobs⟩ := hinsert
  have hstored : ∃ j ∈ db₁.jobs, j.jobId = manifest.jobId :=
    ⟨newRow T manifest priority, by simp [hjobs], rfl⟩
  have hchunks : ∀ chunks, ((submitJobWithChunks T manifest priority chunks).run
      (DbCall.exec T) db).2.jobs = db.jobs ++ [newRow T manifest priority] := by
    intro chunks
    obtain ⟨db₂, hrows⟩ := insertRows_some chunks hstored
    rw [Submissions.submitJobWithChunks_run hins hrows]
    exact (insertRows_spec hrows).1.trans hjobs
  rcases h with rfl | ⟨chunks, rfl⟩
  · show ((submitJob T manifest priority).run (DbCall.exec T) db).2.jobs = _
    unfold submitJob
    split
    · rename_i chunks _
      show ((submitJobWithChunks T manifest priority chunks >>= fun id =>
        pure (some id)).run (DbCall.exec T) db).2.jobs = _
      rw [Prog.run_bind]
      exact hchunks chunks
    · show (insertJob db (jobRowOf T manifest priority)).2.jobs = _
      rw [hins]
      exact hjobs
  · exact hchunks chunks

theorem groupIds_eq (db : Db) (priority : Int) :
    groupIds db priority = sortedIds db.jobs fun j => j.priority = priority := by
  unfold groupIds getAllJobs jobsInOrder sortedIds
  rw [List.filter_map, List.map_map, ← filter_insertionSort]
  rfl

/-- The last row of a group is listed last exactly where no other of the group
sorts behind it. -/
theorem last_iff {rows : List JobRecord} {n : JobRecord} {p : JobRecord → Bool} (hp : p n = true)
    (hnew : ∀ j ∈ rows, j.jobId ≠ n.jobId) :
    (sortedIds (rows ++ [n]) p).getLast? = some n.jobId ↔
      ∀ b ∈ rows, p b = true → jobOrder b n := by
  have hrows : (rows ++ [n]).filter p = rows.filter p ++ [n] := by
    rw [List.filter_append, List.filter_cons_of_pos hp, List.filter_nil]
  unfold sortedIds
  rw [hrows]
  constructor
  · intro hlast b hb hpb
    rw [List.getLast?_map, Option.map_eq_some_iff] at hlast
    obtain ⟨x, hx, hid⟩ := hlast
    obtain ⟨init, hsorted⟩ := List.getLast?_eq_some_iff.mp hx
    have hmem : ∀ y, y ∈ init ++ [x] ↔ y ∈ rows.filter p ++ [n] := by
      intro y
      rw [← hsorted, List.mem_insertionSort]
    -- no other job has the id of the new one
    have hxn : x = n := by
      have hin := (hmem x).mp (by simp)
      rcases List.mem_append.mp hin with hold | hnil
      · exact absurd hid (hnew x (List.mem_filter.mp hold).1)
      · exact List.mem_singleton.mp hnil
    subst hxn
    have hin : b ∈ init := by
      have hbin := (hmem b).mpr (List.mem_append_left _ (List.mem_filter.mpr ⟨hb, hpb⟩))
      rcases List.mem_append.mp hbin with hinit | hnil
      · exact hinit
      · exact absurd (congrArg JobRecord.jobId (List.mem_singleton.mp hnil)) (hnew b hb)
    have hpairs := List.pairwise_insertionSort jobOrder (rows.filter p ++ [x])
    rw [hsorted, List.pairwise_append] at hpairs
    exact hpairs.2.2 b hin x (List.mem_singleton.mpr rfl)
  · intro h
    have hbehind : ∀ b ∈ rows.filter p, jobOrder b n := by
      intro b hb
      exact h b (List.mem_filter.mp hb).1 (List.mem_filter.mp hb).2
    rw [insertionSort_concat hbehind, List.map_append, List.map_cons, List.map_nil,
      List.getLast?_concat]

theorem jobOrder_newRow {b : JobRecord} (hp : b.priority = priority) :
    jobOrder b (newRow T manifest priority) ↔
      (sortValue b < manifest.submittedAtMs ∨
        sortValue b = manifest.submittedAtMs ∧ b.submittedAtMs ≤ manifest.submittedAtMs) := by
  have hkey : sortValue (newRow T manifest priority) = manifest.submittedAtMs := rfl
  unfold jobOrder
  rw [hkey]
  simp [hp, newRow]

theorem joinsBack_iff (T : JsonText) (db : Db) (e : Event) :
    NoneBehind db e (step T db e) ↔ JoinsBack db e (step T db e) := by
  unfold NoneBehind JoinsBack
  refine forall₄_congr fun manifest priority hsub hnew => ?_
  rw [groupIds_eq, submits_jobs hsub hnew]
  -- the new row belongs to the group, under an id of its own
  refine Iff.trans (forall₂_congr fun b hb => ?_)
    (last_iff (n := newRow T manifest priority) (p := fun j => j.priority = priority)
      (decide_eq_true rfl) (Db.job?_eq_none.mp hnew)).symm
  rw [decide_eq_true_eq]
  exact forall_congr' fun hp => (jobOrder_newRow hp).symm

/-- **A new job joins the back of its group exactly where no key there is above
its submission time**, in every run. -/
theorem new_jobs_join_back (T : JsonText) (es : List Event) :
    (machine T).Along NoneBehind Db.empty es ↔ (machine T).Along JoinsBack Db.empty es := by
  refine Machine.Along.congr (I := fun _ => True) (fun _ _ _ _ _ => trivial) ?_ trivial
  intro db e db' _ hstep
  cases hstep
  exact joinsBack_iff T db e

/-- **A job joins at the front**: its manifest has no `submitted_at_ms`. -/
theorem undated_job_goes_first :
    ¬ ∀ (T : JsonText) (es : List Event), (machine T).Along JoinsBack Db.empty es := by
  intro h
  refine Machine.Along.refute
    [.submit { jobId := "other", frameEnd := 1, submittedAtMs := 1700000000000 } 50]
    (.submit { jobId := "shot", frameEnd := 1 } 50)
    (fun t u => (t.job? "shot").isNone && (groupIds u 50).getLast? ≠ some "shot") ?_ ?_
    (h shotText _)
  · intro t u hbad hjoins
    obtain ⟨hnew, hlast⟩ := (Bool.and_eq_true _ _).mp hbad
    exact of_decide_eq_true hlast (hjoins _ _ (.inl rfl) (Option.isNone_iff_eq_none.mp hnew))
  · decide

end MinRender.QueueOrder
