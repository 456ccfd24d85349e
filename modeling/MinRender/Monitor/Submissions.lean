import MinRender.Core.Paths
import MinRender.Core.Templates
import MinRender.Monitor.DispatchManager
import MinRender.Monitor.RowSteps

/-!
# What becomes of an accepted submission

The leader accepts a submission over HTTP or from its own window, queues it,
and stores it in its next dispatch cycle. The id is chosen before, against the
folders of the jobs that already have one.
-/

namespace MinRender

/-! ## Accepting -/

/-- What `POST /api/jobs` answers. -/
inductive JobPostAnswer
  | ok
  | notLeader
  /-- 400 `invalid_job_id` -/
  | invalidJobId
  /-- 400 with the text of the exception; `none` where the body does not parse. -/
  | badRequest (e : Option JsonError)
deriving DecidableEq, Repr

/-- What `body.at("manifest")` raises where it is missing is a range error, which
nothing tells from the others here. -/
def Json.at? (j : Json) (key : String) : Except JsonError Json :=
  match j.find? key with
  | some v => .ok v
  | none => .error .notAnObject

/-- `POST /api/jobs`: its answer, and what it queues. -/
def HttpServer.postJobs (T : JsonText) (isLeader : Bool) (text : String) :
    JobPostAnswer × Option SubmitRequest :=
  if !isLeader then (.notLeader, none)
  else
    match T.parse text with
    | none => (.badRequest none, none)
    | some body =>
        match body.at? "manifest" >>= JobManifest.fromJson with
        | .error e => (.badRequest (some e), none)
        | .ok manifest =>
            if !isSafePathSegment manifest.jobId then (.invalidJobId, none)
            else
              match body.value Json.getInt "priority" 50 with
              | .error e => (.badRequest (some e), none)
              | .ok priority => (.ok, some { manifest, priority })

/-- The leader's window: a job of this name, with a manifest baked for the slug.
`taken` is whether the jobs folder has an entry of that name. -/
def AppBridge.submitJob (isLeader : Bool) (taken : String → Bool) (jobName : String)
    (manifest : JobManifest) (priority : Int) : Option SubmitRequest :=
  let slug := TemplateManager.generateSlug jobName taken
  if slug = "" then none
  else if isLeader then some { manifest := { manifest with jobId := slug }, priority }
  -- a worker posts it to the leader
  else none

namespace Submissions
open DatabaseManager DispatchManager Table

/-- The leader's part of a node, and the entries of the farm's jobs folder. -/
structure World where
  isLeader : Bool := false
  /-- The open database. -/
  db : Option Db := none
  submitQueue : List SubmitRequest := []
  memory : CycleMemory := {}
  jobsFolder : List String := []

inductive Event
  | elected (isLeader : Bool)
  /-- The database is opened, restored or closed. -/
  | database (db : Option Db)
  | folders (jobsFolder : List String)
  | post (text : String)
  | submit (jobName : String) (manifest : JobManifest) (priority : Int)
  /-- A call of another thread, between two cycles. -/
  | call (c : DbCall)
  | cycle (input : CycleInput)

/-- One cycle on an open database, with the queue as its submissions. -/
def cycle (T : JsonText) (w : World) (db : Db) (input : CycleInput) : World :=
  let r := (update T w.memory { input with submissions := w.submitQueue }).run
    (DbCall.exec T) db
  { w with db := some r.2, submitQueue := [], memory := r.1.1 }

def step (T : JsonText) (w : World) : Event → Option World
  | .elected isLeader => some { w with isLeader }
  | .database db => some { w with db }
  | .folders jobsFolder => some { w with jobsFolder }
  | .post text =>
      some { w with submitQueue := w.submitQueue ++
        (HttpServer.postJobs T w.isLeader text).2.toList }
  | .submit jobName manifest priority =>
      some { w with submitQueue := w.submitQueue ++
        (AppBridge.submitJob w.isLeader (· ∈ w.jobsFolder) jobName manifest
          priority).toList }
  | .call c => w.db.map fun db => { w with db := some (c.after T db) }
  | .cycle input => w.db.map fun db => cycle T w db input

def machine (T : JsonText) : Machine World Event := ⟨step T⟩

def start : World := {}

/-! ## Accepted and stored -/

/-- A stored job by what its submission gave it. -/
structure Entry where
  jobId : String
  manifestJson : String
  priority : Int
  submittedAtMs : Int
deriving DecidableEq

def entry (j : JobRecord) : Entry :=
  ⟨j.jobId, j.manifestJson, j.priority, j.submittedAtMs⟩

def entryOf (T : JsonText) (req : SubmitRequest) : Entry :=
  ⟨req.manifest.jobId, T.dump req.manifest.toJson, req.priority, req.manifest.submittedAtMs⟩

def chunksOf (req : SubmitRequest) : Option (List ChunkRange) :=
  computeChunks req.manifest.frameStart req.manifest.frameEnd req.manifest.chunkSize

/-- The ranges stored for a job. -/
def storedRanges (db : Db) (jobId : String) : List ChunkRange :=
  (db.chunks.filter (·.jobId = jobId)).map fun c => ⟨c.frameStart, c.frameEnd⟩

/-- A job of its own, with its chunks, was stored for every submission. -/
def Stored (T : JsonText) (db : Db) (submissions : List SubmitRequest) (db' : Db) : Prop :=
  db'.jobs.map entry = db.jobs.map entry ++ submissions.map (entryOf T) ∧
    ∀ req ∈ submissions, chunksOf req = some (storedRanges db' req.manifest.jobId)

/-- A cycle on an open database stores everything accepted before it. -/
def LosesNothing (T : JsonText) (w : World) (e : Event) (w' : World) : Prop :=
  ∀ input db db', e = .cycle input → w.db = some db → w'.db = some db' →
    Stored T db w.submitQueue db'

/-- The ids of the stored jobs and of the submissions are all different, and no
range overflows. -/
def Free (db : Db) (submissions : List SubmitRequest) : Prop :=
  (db.jobs.map (·.jobId) ++ submissions.map (·.manifest.jobId)).Nodup ∧
    ∀ req ∈ submissions, (chunksOf req).isSome

def TakesFreeIds (w : World) (e : Event) (_ : World) : Prop :=
  ∀ input db, e = .cycle input → w.db = some db → Free db w.submitQueue

/-! ## Storing one submission -/

variable {T : JsonText} {db db' : Db} {req : SubmitRequest}

/-- The ranges stored for a job, once rows are inserted for `jobId`. -/
theorem storedRanges_append {jobId : String} {new : List ChunkRecord}
    {ranges : List ChunkRange} (hchunks : db'.chunks = db.chunks ++ new)
    (hkeys : new.map (·.key) = ranges.map (jobId, ·)) (id : String) :
    storedRanges db' id =
      storedRanges db id ++ (if id = jobId then ranges else []) := by
  have hnew : ∀ (new : List ChunkRecord) (ranges : List ChunkRange),
      new.map (·.key) = ranges.map (jobId, ·) →
      (new.filter (·.jobId = id)).map (fun c => (⟨c.frameStart, c.frameEnd⟩ : ChunkRange)) =
        if id = jobId then ranges else [] := by
    intro new
    induction new with
    | nil =>
        intro ranges h
        rw [List.map_eq_nil_iff.mp h.symm]
        simp
    | cons c new ih =>
        intro ranges h
        cases ranges with
        | nil => cases h
        | cons r ranges =>
            obtain ⟨hc, hrest⟩ := List.cons.inj h
            obtain ⟨hjob, hr⟩ := Prod.mk.inj hc
            have htail := ih ranges hrest
            by_cases hid : id = jobId
            · rw [if_pos hid] at htail ⊢
              rw [List.filter_cons_of_pos (by simpa using hjob.trans hid.symm),
                List.map_cons, htail, hr]
            · rw [if_neg hid] at htail ⊢
              rw [List.filter_cons_of_neg (by simpa [hjob] using Ne.symm hid), htail]
  unfold storedRanges
  rw [hchunks, List.filter_append, List.map_append, hnew new ranges hkeys]

/-- No job, no chunks. -/
theorem storedRanges_eq_nil {jobId : String} (h : jobId ∉ db.jobs.map (·.jobId)) :
    storedRanges db jobId = [] := by
  unfold storedRanges
  rw [List.map_eq_nil_iff, List.filter_eq_nil_iff]
  intro c hc hid
  obtain ⟨j, hj, hjc⟩ := db.foreignKey c hc
  exact h (List.mem_map.mpr ⟨j, hj, hjc.trans (of_decide_eq_true hid)⟩)

/-- A job whose id is free is inserted. -/
theorem insertJob_free (job : JobRow) (hfree : job.jobId ∉ db.jobs.map (·.jobId)) :
    ∃ db', insertJob db job = (true, db') ∧ db'.chunks = db.chunks ∧
      db'.jobs.map entry =
        db.jobs.map entry ++ [⟨job.jobId, job.manifestJson, job.priority, job.submittedAtMs⟩] := by
  unfold insertJob Db.insertJobRow
  rw [dif_neg hfree]
  refine ⟨_, rfl, rfl, ?_⟩
  rw [List.map_append]
  rfl

/-- Both insertions go through. -/
theorem submitJobWithChunks_run {manifest : JobManifest} {priority : Int}
    {chunks : List ChunkRange} {db₁ db₂ : Db}
    (hins : insertJob db (jobRowOf T manifest priority) = (true, db₁))
    (hrows : insertRows manifest.jobId chunks db₁ = some db₂) :
    (submitJobWithChunks T manifest priority chunks).run (DbCall.exec T) db =
      (manifest.jobId, db₂) := by
  have hfirst : (query (.insertJob (jobRowOf T manifest priority))).run
      (DbCall.exec T) db = (true, db₁) := hins
  have hsecond : (query (.insertChunks manifest.jobId chunks)).run
      (DbCall.exec T) db₁ = (true, db₂) := by
    show insertChunks db₁ manifest.jobId chunks = (true, db₂)
    rw [insertChunks, hrows]
  rw [submitJobWithChunks, Prog.run_bind, hfirst, if_pos rfl, Prog.run_bind, hsecond]
  rfl

/-- A submission whose id no job has is stored, and its chunks are. -/
theorem submitJob_run {chunks : List ChunkRange}
    (hfree : req.manifest.jobId ∉ db.jobs.map (·.jobId)) (hchunks : chunksOf req = some chunks)
    (hdb' : ((submitJob T req.manifest req.priority).run (DbCall.exec T) db).2 = db') :
    db'.jobs.map entry = db.jobs.map entry ++ [entryOf T req] ∧
      ∀ id, storedRanges db' id =
        storedRanges db id ++ (if id = req.manifest.jobId then chunks else []) := by
  obtain ⟨db₁, hins, hsame, hjobs⟩ :=
    insertJob_free (jobRowOf T req.manifest req.priority) hfree
  have hstored : ∃ j ∈ db₁.jobs, j.jobId = req.manifest.jobId := by
    have hmem : entryOf T req ∈ db₁.jobs.map entry := by
      rw [hjobs]
      exact List.mem_append_right _ (List.mem_singleton.mpr rfl)
    obtain ⟨j, hj, he⟩ := List.mem_map.mp hmem
    exact ⟨j, hj, congrArg Entry.jobId he⟩
  -- the job is there, so its rows can be inserted
  obtain ⟨db₂, hrows⟩ := insertRows_some chunks hstored
  have hrun : ((submitJob T req.manifest req.priority).run (DbCall.exec T) db).2 = db₂ := by
    unfold chunksOf at hchunks
    unfold submitJob
    rw [hchunks]
    show ((submitJobWithChunks T req.manifest req.priority chunks >>= fun id =>
      pure (some id)).run (DbCall.exec T) db).2 = db₂
    rw [Prog.run_bind, submitJobWithChunks_run hins hrows]
    rfl
  have hdb : db₂ = db' := hrun.symm.trans hdb'
  subst hdb
  obtain ⟨hsame', new, hnew, hkeys, -⟩ := insertRows_spec hrows
  constructor
  · rw [hsame', hjobs]
    rfl
  · exact storedRanges_append (hsame ▸ hnew) hkeys

theorem processSubmissions_cons (req : SubmitRequest) (rest : List SubmitRequest) :
    ((processSubmissions T (req :: rest)).run (DbCall.exec T) db).2 =
      ((processSubmissions T rest).run (DbCall.exec T)
        ((submitJob T req.manifest req.priority).run (DbCall.exec T) db).2).2 := by
  show (((submitJob T req.manifest req.priority >>= fun _ => pure ()) >>= fun _ =>
    processSubmissions T rest).run (DbCall.exec T) db).2 = _
  rw [Prog.run_bind, Prog.run_bind]
  rfl

/-- What the submissions of a cycle leave when their ids are free. -/
theorem processSubmissions_run {submissions : List SubmitRequest} (hfree : Free db submissions)
    (hdb' : ((processSubmissions T submissions).run (DbCall.exec T) db).2 = db') :
    db'.jobs.map entry = db.jobs.map entry ++ submissions.map (entryOf T) ∧
      (∀ req ∈ submissions, chunksOf req = some (storedRanges db' req.manifest.jobId)) ∧
      ∀ id ∉ submissions.map (·.manifest.jobId), storedRanges db' id = storedRanges db id := by
  induction submissions generalizing db with
  | nil =>
      cases hdb'
      exact ⟨(List.append_nil _).symm, by simp, fun _ _ => rfl⟩
  | cons req rest ih =>
      -- the first id is free now and will not come again, so the rest is free after it
      obtain ⟨hids, hranges⟩ := hfree
      obtain ⟨chunks, hchunks⟩ :=
        Option.isSome_iff_exists.mp (hranges req List.mem_cons_self)
      rw [List.map_cons] at hids
      have hout : req.manifest.jobId ∉ db.jobs.map (·.jobId) := fun h =>
        (List.nodup_append.mp hids).2.2 _ h _ List.mem_cons_self rfl
      have hlater : req.manifest.jobId ∉ rest.map (·.manifest.jobId) :=
        (List.nodup_cons.mp (List.nodup_append.mp hids).2.1).1
      rw [processSubmissions_cons] at hdb'
      generalize hdb₁ :
        ((submitJob T req.manifest req.priority).run (DbCall.exec T) db).2 = db₁ at hdb'
      obtain ⟨hjobs, hstored⟩ := submitJob_run hout hchunks hdb₁
      have hfree₁ : Free db₁ rest := by
        refine ⟨?_, fun r hr => hranges r (List.mem_cons_of_mem _ hr)⟩
        have hjobIds : db₁.jobs.map (·.jobId) = db.jobs.map (·.jobId) ++ [req.manifest.jobId] := by
          have := congrArg (List.map Entry.jobId) hjobs
          simpa [Function.comp_def, entry, entryOf] using this
        rw [hjobIds, List.append_assoc]
        exact hids
      obtain ⟨hjobs', hstored', hkeep⟩ := ih hfree₁ hdb'
      refine ⟨?_, ?_, ?_⟩
      · rw [hjobs', hjobs, List.append_assoc]
        rfl
      · intro r hr
        rcases List.mem_cons.mp hr with rfl | hr
        · rw [hkeep _ hlater, hstored, storedRanges_eq_nil hout, if_pos rfl, hchunks]
          rfl
        · exact hstored' r hr
      · intro id hid
        rw [List.map_cons, List.mem_cons, not_or] at hid
        rw [hkeep id hid.2, hstored, if_neg hid.1, List.append_nil]

/-! ## The rest of the cycle -/

theorem entries_of_upkeep {call : DbCall} (h : Upkeep call) (db : Db) :
    (call.after T db).jobs.map entry = db.jobs.map entry := by
  refine (jobs_evolve T call db).map_eq ?_ ?_ entry ?_
  · intro j _
    cases call <;> first | rfl | exact h.elim
  · rintro j ⟨job, rfl, -⟩
    exact h
  · intro j j' hstep
    cases hstep <;> first | rfl | exact h.elim

theorem keys_of_upkeep {call : DbCall} (h : Upkeep call) (db : Db) :
    (call.after T db).chunks.map (·.key) = db.chunks.map (·.key) := by
  refine (chunks_evolve T call db).map_eq ?_ ?_ (·.key) fun _ _ => RowStep.key_eq
  · intro c _
    cases call <;> first | rfl | exact h.elim
  · rintro c ⟨jobId, ranges, rfl | rfl, -⟩
    · exact h
    · exact h

/-- The ranges of a job are its share of the chunks' keys. -/
theorem storedRanges_eq_keys (db : Db) (jobId : String) :
    storedRanges db jobId =
      ((db.chunks.map (·.key)).filter (·.1 = jobId)).map (·.2) := by
  rw [List.filter_map, List.map_map]
  rfl

/-- The phases after the submissions leave what they stored. -/
theorem cycle_stored {w : World} {input : CycleInput} {db₁ : Db}
    (hdb₁ : ((processSubmissions T w.submitQueue).run (DbCall.exec T) db).2 = db₁)
    (hdb' : (cycle T w db input).db = some db') :
    db'.jobs.map entry = db₁.jobs.map entry ∧
      ∀ jobId, storedRanges db' jobId = storedRanges db₁ jobId := by
  unfold cycle at hdb'
  rw [update_eq, Prog.run_bind] at hdb'
  simp only [hdb₁, Option.some.injEq] at hdb'
  subst hdb'
  have hupkeep := @afterSubmissions_upkeep T w.memory { input with submissions := w.submitQueue }
  have hjobs := hupkeep.run_keeps (h := DbCall.exec T) (fun db => db.jobs.map entry)
    (fun c s hc => entries_of_upkeep hc s) db₁
  have hkeys := hupkeep.run_keeps (h := DbCall.exec T) (fun db => db.chunks.map (·.key))
    (fun c s hc => keys_of_upkeep hc s) db₁
  refine ⟨hjobs, fun jobId => ?_⟩
  rw [storedRanges_eq_keys, storedRanges_eq_keys, hkeys]

/-! ## Nothing is lost -/

/-- **A cycle stores exactly what finds its id free.** -/
theorem stored_iff {w : World} {input : CycleInput}
    (hdb' : (cycle T w db input).db = some db') :
    Stored T db w.submitQueue db' ↔ Free db w.submitQueue := by
  generalize hdb₁ : ((processSubmissions T w.submitQueue).run (DbCall.exec T) db).2 = db₁
  obtain ⟨hjobs, hranges⟩ := cycle_stored hdb₁ hdb'
  constructor
  · rintro ⟨hnew, hchunks⟩
    refine ⟨?_, fun req hreq => ?_⟩
    · -- the table's own key tells the entries apart
      have hkey := db'.jobKey
      have hids : db'.jobs.map (·.jobId) =
          db.jobs.map (·.jobId) ++ w.submitQueue.map (·.manifest.jobId) := by
        have := congrArg (List.map Entry.jobId) hnew
        simpa [Function.comp_def, entry, entryOf] using this
      rwa [hids] at hkey
    · rw [hchunks req hreq]
      rfl
  · intro hfree
    obtain ⟨hnew, hchunks, -⟩ := processSubmissions_run hfree hdb₁
    refine ⟨hjobs.trans hnew, fun req hreq => ?_⟩
    rw [hranges, hchunks req hreq]

/-- **No submission is lost exactly while every id is free when it is stored.**
For every sequence of elections, openings of the database, changes of the jobs
folder, submissions over HTTP and from the window, other database calls and
dispatch cycles: every cycle on an open database stores a job of its own with
all its chunks for each submission accepted before it, if and only if at every
such cycle the ids of the queued submissions differ from each other and from
those of the stored jobs, and none of their frame ranges overflows. -/
theorem loses_nothing_iff (T : JsonText) (es : List Event) :
    (machine T).Along (LosesNothing T) start es ↔
      (machine T).Along TakesFreeIds start es := by
  refine Machine.Along.congr (I := fun _ => True) (fun _ _ _ _ _ => trivial) ?_ trivial
  intro w e w' _ hstep
  constructor
  · rintro hkeeps input db rfl hdb
    have hw' : cycle T w db input = w' := by
      simpa [machine, step, hdb] using hstep
    have hdb' : (cycle T w db input).db = some _ := rfl
    exact (stored_iff hdb').mp (hkeeps input db _ rfl hdb (hw' ▸ hdb'))
  · rintro hfree input db db' rfl hdb hdb'
    have hw' : cycle T w db input = w' := by
      simpa [machine, step, hdb] using hstep
    exact (stored_iff (hw' ▸ hdb')).mpr (hfree input db rfl hdb)

theorem Stored.length {submissions : List SubmitRequest} (h : Stored T db submissions db') :
    db'.jobs.length = db.jobs.length + submissions.length := by
  have := congrArg List.length h.1
  simpa using this

/-- The leader's user submits "Shot" twice between two cycles; no folder is
there yet, for no render has started. -/
def submitTwice : List Event :=
  [.elected true, .database (some Db.empty),
    .submit "Shot" { frameStart := 1, frameEnd := 1 } 50,
    .submit "Shot" { frameStart := 1, frameEnd := 1 } 50]

/-- **A submission is lost**: both are accepted as `shot`, and the second finds
the id taken. -/
theorem second_submission_lost :
    ¬ ∀ (T : JsonText) (es : List Event), (machine T).Along (LosesNothing T) start es := by
  intro h
  refine Machine.Along.refute submitTwice (.cycle { nowMs := 1000 })
    (fun t u => t.db.any fun db => u.db.any fun db' =>
      db'.jobs.length ≠ db.jobs.length + t.submitQueue.length) ?_ ?_ (h shotText _)
  · intro t u hbad hkeeps
    obtain ⟨db, hdb, hbad⟩ := (Option.any_eq_true _ _).mp hbad
    obtain ⟨db', hdb', hbad⟩ := (Option.any_eq_true _ _).mp hbad
    exact of_decide_eq_true hbad (hkeeps _ db db' rfl hdb hdb').length
  · decide

end Submissions

end MinRender
