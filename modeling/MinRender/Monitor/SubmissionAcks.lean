import MinRender.Framework.Runs
import MinRender.Monitor.Submissions
import MinRender.Monitor.WatchedFolders

/-!
# What consumes a submission file

One file of the submissions folder over any number of polls. A poll hands the
job over and moves the file away, whatever came of the former and whether or
not the latter succeeds.
-/

namespace MinRender.SubmissionAcks
open DatabaseManager DispatchManager SubmissionWatcher

/-- What becomes of a POST: the status the node sees, none where it gets no
answer, and whether the leader queued the job. -/
structure PostOutcome where
  status : Option Nat := some 200
  accepted : Bool := true
deriving DecidableEq, Repr

/-- Whether the file is still in the folder, the leader's database, what the
leader has queued of the file, the jobs stored of it, and whether a leader has
answered 200 to it. -/
structure World where
  inFolder : Bool := true
  db : Db := Db.empty
  queue : List SubmitRequest := []
  created : List String := []
  answered : Bool := false

inductive Event
  | poll (site : SubmissionSite) (renames : Bool) (post : PostOutcome)
  /-- the leader stores the submission it queued first -/
  | store
  /-- any other call on the database -/
  | call (c : DbCall)

/-- The id of a job that was stored. -/
def storedId (jobId : String) : List String := if jobId = "" then [] else [jobId]

def createdBy : SubmissionResult → List String
  | .stored jobId => storedId jobId
  | _ => []

def queuedBy (post : PostOutcome) : SubmissionResult → List SubmitRequest
  | .posted _ _ manifest priority => if post.accepted then [{ manifest, priority }] else []
  | _ => []

def answeredBy (post : PostOutcome) : SubmissionResult → Bool
  | .posted .. => post.status = some 200
  | _ => false

variable (T : JsonText) (name text : String)

def poll (w : World) (site : SubmissionSite) (renames : Bool) (post : PostOutcome) :
    Option World :=
  if w.inFolder then
    let r := (processSubmission T site { name, text, renames }).run (DbCall.exec T) w.db
    match r.1 with
    | .undefined => none
    | .raised _ => some { w with db := r.2 }
    | .done gone result =>
        some
          { inFolder := !gone
            db := r.2
            queue := w.queue ++ queuedBy post result
            created := w.created ++ createdBy result
            answered := w.answered || answeredBy post result }
  else some w

def store (w : World) : Option World :=
  match w.queue with
  | [] => some w
  | req :: rest =>
      let r := (submitJob T req.manifest req.priority).run (DbCall.exec T) w.db
      r.1.map fun jobId =>
        { w with db := r.2, queue := rest, created := w.created ++ storedId jobId }

def step (w : World) : Event → Option World
  | .poll site renames post => poll T name text w site renames post
  | .store => store T w
  | .call c => some { w with db := c.after T w.db }

def machine : Machine World Event := ⟨step T name text⟩

/-- The manifest and priority of a well-formed submission whose template
resolves. -/
def prepared (site : SubmissionSite) : Option (JobManifest × Int) :=
  (T.parse text).bind fun json =>
    (readSubmission json).toOption.bind fun sub =>
      (prepare T site sub).toOption.map (·, sub.priority)

/-- The node sends its submissions to a leader. -/
def Posts (site : SubmissionSite) : Prop :=
  site.isLeader = false ∧ (parseEndpoint site.leaderEndpoint).1 ≠ ""

/-- A poll moves the file only if a job was stored of it or a leader answered 200 to
it, then or before, and no more than one job comes of the file. -/
def ConsumedOnce (w : World) (e : Event) (w' : World) : Prop :=
  w'.created.length ≤ 1 ∧
    ∀ site renames post m p, e = .poll site renames post → prepared T text site = some (m, p) →
      w.inFolder = true → w'.inFolder = false → w'.created ≠ [] ∨ w'.answered = true

/-- Some job has the id. -/
def Taken (db : Db) (jobId : String) : Prop := jobId ∈ db.jobs.map (·.jobId)

instance (db : Db) (jobId : String) : Decidable (Taken db jobId) :=
  inferInstanceAs (Decidable (_ ∈ _))

/-- The hand-over will succeed: the leader's database is open and the id free,
or the leader answers 200. -/
def Succeeds (w : World) (site : SubmissionSite) (post : PostOutcome) (m : JobManifest) : Prop :=
  (site.isLeader = true ∧ site.dbOpen = true ∧ ¬ Taken w.db m.jobId) ∨
    Posts site ∧ post.status = some 200

/-- A file that can be moved is handed over with success, or was before; and once a
job has come of the file, the id of a submission that reaches the database is
taken. -/
def Careful (w : World) (e : Event) (_ : World) : Prop :=
  match e with
  | .poll site renames post =>
      ∀ m p, prepared T text site = some (m, p) → w.inFolder = true →
        (renames = true → Succeeds w site post m ∨ w.created ≠ [] ∨ w.answered = true) ∧
        (site.isLeader = true → site.dbOpen = true → w.created ≠ [] → Taken w.db m.jobId)
  | .store => ∀ req, w.queue.head? = some req → w.created ≠ [] → Taken w.db req.manifest.jobId
  | .call _ => True

/-! ## Storing -/

variable {T name text} {db : Db} {w w' : World}

theorem insertJob_taken {job : JobRow} (h : Taken db job.jobId) :
    insertJob db job = (false, db) := by
  rcases insertJob_cases db job with ⟨-, hrefused⟩ | ⟨hfree, -⟩
  · exact hrefused
  · obtain ⟨j, hj, hid⟩ := List.mem_map.mp h
    exact absurd hid (Db.job?_eq_none.mp hfree j hj)

/-- What a submission comes to on the database. -/
theorem submitJob_fst {m : JobManifest} {p : Int} {chunks : List ChunkRange}
    (hchunks : computeChunks m.frameStart m.frameEnd m.chunkSize = some chunks) :
    ((submitJob T m p).run (DbCall.exec T) db).1 =
      some (if Taken db m.jobId then "" else m.jobId) := by
  unfold submitJob
  rw [hchunks]
  show ((submitJobWithChunks T m p chunks >>= fun id => pure (some id)).run
    (DbCall.exec T) db).1 = _
  rw [Prog.run_bind]
  show some ((submitJobWithChunks T m p chunks).run (DbCall.exec T) db).1 = _
  by_cases htaken : Taken db m.jobId
  · rw [if_pos htaken]
    have hfirst : (query (.insertJob (jobRowOf T m p))).run (DbCall.exec T) db = (false, db) :=
      insertJob_taken htaken
    rw [submitJobWithChunks, Prog.run_bind, hfirst]
    rfl
  · rw [if_neg htaken]
    obtain ⟨db₁, hins, -, hjobs⟩ := Submissions.insertJob_free (jobRowOf T m p) htaken
    have hstored : ∃ j ∈ db₁.jobs, j.jobId = m.jobId := by
      have hmem : Submissions.entryOf T ⟨m, p⟩ ∈ db₁.jobs.map Submissions.entry := by
        rw [hjobs]
        exact List.mem_append_right _ (List.mem_singleton.mpr rfl)
      obtain ⟨j, hj, he⟩ := List.mem_map.mp hmem
      exact ⟨j, hj, congrArg Submissions.Entry.jobId he⟩
    obtain ⟨db₂, hrows⟩ := insertRows_some chunks hstored
    rw [Submissions.submitJobWithChunks_run hins hrows]

/-- A range that overflows leaves no defined result. -/
theorem submitJob_overflow {m : JobManifest} {p : Int}
    (hchunks : computeChunks m.frameStart m.frameEnd m.chunkSize = none) :
    ((submitJob T m p).run (DbCall.exec T) db).1 = none := by
  unfold submitJob
  rw [hchunks]
  rfl

theorem canonicalize_jobId {site : SubmissionSite} {m : JobManifest} :
    (canonicalize site m).jobId = m.jobId := by
  unfold canonicalize
  split
  · rfl
  · rfl

theorem bakeManifestStatic_jobId {osTag jobSlug cmdForMyOS nodeId os : String}
    {tmpl : JobTemplate} {flagValues : List String}
    {frameStart frameEnd chunkSize maxRetries nowMs : Int} {timeout : Option Int} :
    (TemplateManager.bakeManifestStatic osTag tmpl flagValues cmdForMyOS jobSlug frameStart
      frameEnd chunkSize maxRetries timeout nodeId os nowMs).jobId = jobSlug := rfl

theorem prepare_jobId {site : SubmissionSite} {sub : Submission} {m : JobManifest}
    (h : prepare T site sub = .ok m) : m.jobId ≠ "" := by
  unfold prepare at h
  split at h
  · exact (nomatch h)
  · split at h
    · exact (nomatch h)
    · dsimp only at h
      split at h
      · exact (nomatch h)
      · rename_i hslug
        rw [← Except.ok.inj h, canonicalize_jobId, bakeManifestStatic_jobId]
        exact hslug

theorem prepared_jobId {site : SubmissionSite} {m : JobManifest} {p : Int}
    (h : prepared T text site = some (m, p)) : m.jobId ≠ "" := by
  obtain ⟨json, -, h⟩ := Option.bind_eq_some_iff.mp h
  obtain ⟨sub, -, h⟩ := Option.bind_eq_some_iff.mp h
  obtain ⟨m', hm, heq⟩ := Option.map_eq_some_iff.mp h
  cases heq
  cases hprep : prepare T site sub with
  | error e =>
      rw [hprep] at hm
      cases hm
  | ok m' =>
      rw [hprep] at hm
      cases hm
      exact prepare_jobId hprep

/-! ## One poll -/

/-- The ids a hand-over stores. -/
def handedOver (w : World) (site : SubmissionSite) (m : JobManifest) : List String :=
  if site.isLeader = true ∧ site.dbOpen = true ∧ ¬ Taken w.db m.jobId then [m.jobId] else []

theorem createdBy_submit {site : SubmissionSite} {m : JobManifest} {p : Int}
    {result : SubmissionResult} (hid : m.jobId ≠ "")
    (h : ((submit T site m p).run (DbCall.exec T) w.db).1 = some result) :
    createdBy result = handedOver w site m := by
  unfold submit at h
  unfold handedOver
  by_cases hleader : site.isLeader = true
  · rw [if_pos hleader] at h
    by_cases hopen : site.dbOpen = true
    · rw [if_pos hopen, Prog.run_bind] at h
      cases hchunks : computeChunks m.frameStart m.frameEnd m.chunkSize with
      | none =>
          rw [submitJob_overflow hchunks] at h
          cases h
      | some chunks =>
          rw [submitJob_fst hchunks] at h
          cases h
          by_cases htaken : Taken w.db m.jobId
          · rw [if_pos htaken, if_neg (fun hh => hh.2.2 htaken)]
            rfl
          · rw [if_neg htaken, if_pos ⟨hleader, hopen, htaken⟩]
            exact if_neg hid
    · rw [if_neg hopen] at h
      cases h
      rw [if_neg (fun hh => hopen hh.2.1)]
      rfl
  · rw [if_neg hleader] at h
    rw [if_neg (fun hh => hleader hh.1)]
    split at h
    · cases h
      rfl
    · cases h
      rfl

theorem answeredBy_submit {site : SubmissionSite} {m : JobManifest} {p : Int}
    {post : PostOutcome} {result : SubmissionResult}
    (h : ((submit T site m p).run (DbCall.exec T) db).1 = some result) :
    answeredBy post result = true ↔ Posts site ∧ post.status = some 200 := by
  unfold Posts
  unfold submit at h
  by_cases hleader : site.isLeader = true
  · have hnot : answeredBy post result = false := by
      rw [if_pos hleader] at h
      split at h
      · rw [Prog.run_bind] at h
        obtain ⟨jobId, -, rfl⟩ := Option.map_eq_some_iff.mp h
        rfl
      · cases h
        rfl
    rw [hnot, hleader]
    simp
  · rw [if_neg hleader] at h
    have hworker : site.isLeader = false := Bool.eq_false_iff.mpr hleader
    split at h
    · rename_i hhost
      cases h
      simp [answeredBy, hhost]
    · rename_i host port hne hhost
      cases h
      have hknown : ¬ host = "" := fun hempty => hne hempty
      simp [answeredBy, hworker, hhost, hknown]

/-- What `prepared` says of the file's handling. -/
theorem processSubmission_prepared {site : SubmissionSite} {renames : Bool} {m : JobManifest}
    {p : Int} (h : prepared T text site = some (m, p)) :
    processSubmission T site { name, text, renames } =
      submit T site m p >>= fun submitted => match submitted with
        | none => return .undefined
        | some result => return .done renames result := by
  obtain ⟨json, hparse, h⟩ := Option.bind_eq_some_iff.mp h
  obtain ⟨sub, hread, h⟩ := Option.bind_eq_some_iff.mp h
  obtain ⟨m', hm, heq⟩ := Option.map_eq_some_iff.mp h
  cases heq
  unfold processSubmission
  dsimp only
  rw [hparse]
  dsimp only
  cases hr : readSubmission json with
  | error e =>
      rw [hr] at hread
      cases hread
  | ok sub' =>
      rw [hr] at hread
      cases hread
      dsimp only
      cases hp : prepare T site sub with
      | error e =>
          rw [hp] at hm
          cases hm
      | ok m' =>
          rw [hp] at hm
          cases hm
          rfl

theorem processSubmission_unprepared {site : SubmissionSite} {renames : Bool}
    (h : prepared T text site = none) :
    (∃ e, processSubmission T site { name, text, renames } = return .raised e) ∨
      ∃ why, processSubmission T site { name, text, renames } =
        return .done renames (.dropped why) := by
  unfold prepared at h
  unfold processSubmission
  dsimp only
  cases hparse : T.parse text with
  | none => exact .inr ⟨_, rfl⟩
  | some json =>
      rw [hparse, Option.bind_some] at h
      dsimp only
      cases hread : readSubmission json with
      | error e => exact .inl ⟨e, rfl⟩
      | ok sub =>
          rw [hread] at h
          dsimp only
          cases hprep : prepare T site sub with
          | error why => exact .inr ⟨why, rfl⟩
          | ok m =>
              simp only [Except.toOption, Option.bind_some, hprep, Option.map_some] at h
              cases h

/-- A poll hands the file over, or nothing. -/
theorem handsOver_or (w : World) (site : SubmissionSite) :
    (∃ m p, prepared T text site = some (m, p) ∧ w.inFolder = true) ∨
      (w.inFolder = true → prepared T text site = none) := by
  cases hprep : prepared T text site with
  | none => exact .inr fun _ => rfl
  | some mp =>
      by_cases hfolder : w.inFolder = true
      · exact .inl ⟨mp.1, mp.2, rfl, hfolder⟩
      · exact .inr fun hin => absurd hin hfolder

/-- The polls that hand nothing over. -/
theorem poll_unprepared {site : SubmissionSite} {renames : Bool} {post : PostOutcome}
    (hprep : w.inFolder = true → prepared T text site = none)
    (h : poll T name text w site renames post = some w') :
    w'.created = w.created ∧ w'.queue = w.queue := by
  unfold poll at h
  split at h
  · rename_i hfolder
    have hfate := @processSubmission_unprepared T name text site renames (hprep hfolder)
    rcases hfate with ⟨e, hrun⟩ | ⟨why, hrun⟩
    · rw [hrun] at h
      cases h
      exact ⟨rfl, rfl⟩
    · rw [hrun] at h
      cases h
      exact ⟨List.append_nil _, List.append_nil _⟩
  · cases h
    exact ⟨rfl, rfl⟩

theorem queuedBy_jobId {site : SubmissionSite} {m : JobManifest} {p : Int}
    {result : SubmissionResult} {post : PostOutcome}
    (h : ((submit T site m p).run (DbCall.exec T) db).1 = some result) :
    ∀ req ∈ queuedBy post result, req.manifest = m := by
  unfold submit at h
  split at h
  · split at h
    · rw [Prog.run_bind] at h
      obtain ⟨jobId, -, rfl⟩ := Option.map_eq_some_iff.mp h
      exact fun req hreq => (nomatch hreq)
    · cases h
      exact fun req hreq => (nomatch hreq)
  · split at h
    · cases h
      exact fun req hreq => (nomatch hreq)
    · cases h
      intro req hreq
      unfold queuedBy at hreq
      dsimp only at hreq
      split at hreq
      · rw [List.mem_singleton.mp hreq]
      · cases hreq

/-- A poll that hands over. -/
theorem poll_prepared {site : SubmissionSite} {renames : Bool} {post : PostOutcome}
    {m : JobManifest} {p : Int} (hfolder : w.inFolder = true)
    (hprep : prepared T text site = some (m, p))
    (h : poll T name text w site renames post = some w') :
    w'.inFolder = !renames ∧ w'.created = w.created ++ handedOver w site m ∧
      (w'.answered = true ↔ w.answered = true ∨ Posts site ∧ post.status = some 200) ∧
      ∀ req ∈ w'.queue, req ∈ w.queue ∨ req.manifest = m := by
  unfold poll at h
  rw [if_pos hfolder, processSubmission_prepared hprep, Prog.run_bind] at h
  cases hsub : ((submit T site m p).run (DbCall.exec T) w.db).1 with
  | none =>
      rw [hsub] at h
      cases h
  | some result =>
      rw [hsub] at h
      cases h
      refine ⟨rfl, ?_, ?_, ?_⟩
      · show w.created ++ createdBy result = _
        rw [createdBy_submit (prepared_jobId hprep) hsub]
      · rw [← answeredBy_submit hsub]
        exact Bool.or_eq_true_iff
      · intro req hreq
        rcases List.mem_append.mp hreq with hold | hnew
        · exact .inl hold
        · exact .inr (queuedBy_jobId hsub req hnew)

/-! ## Runs -/

structure Inv (w : World) : Prop where
  once : w.created.length ≤ 1
  queue : ∀ req ∈ w.queue, req.manifest.jobId ≠ ""

theorem inv_start : Inv {} := ⟨by decide, fun _ h => (nomatch h)⟩

/-- One more job is one too many exactly after a first. -/
theorem length_append_le {created new : List String} (h : created.length ≤ 1)
    (hnew : new.length ≤ 1) : (created ++ new).length ≤ 1 ↔ (created ≠ [] → new = []) := by
  rw [List.length_append]
  cases created with
  | nil => simpa using hnew
  | cons id rest =>
      rw [List.length_cons] at h ⊢
      constructor
      · intro hle _
        exact List.eq_nil_of_length_eq_zero (by omega)
      · intro himp
        rw [himp (List.cons_ne_nil _ _)]
        exact h

theorem handedOver_eq_nil {site : SubmissionSite} {m : JobManifest} :
    handedOver w site m = [] ↔
      (site.isLeader = true → site.dbOpen = true → Taken w.db m.jobId) := by
  unfold handedOver
  split
  · rename_i h
    refine iff_of_false (List.cons_ne_nil _ _) fun himp => h.2.2 (himp h.1 h.2.1)
  · rename_i h
    refine iff_of_true rfl fun hleader hopen => ?_
    by_contra htaken
    exact h ⟨hleader, hopen, htaken⟩

theorem handedOver_length {site : SubmissionSite} {m : JobManifest} :
    (handedOver w site m).length ≤ 1 := by
  unfold handedOver
  split
  · exact Nat.le_refl 1
  · exact Nat.zero_le 1

theorem handedOver_ne_nil {site : SubmissionSite} {m : JobManifest} :
    handedOver w site m ≠ [] ↔
      site.isLeader = true ∧ site.dbOpen = true ∧ ¬ Taken w.db m.jobId := by
  unfold handedOver
  split
  · rename_i h
    exact iff_of_true (List.cons_ne_nil _ _) h
  · rename_i h
    exact iff_of_false (fun hne => hne rfl) h

/-- A step that moves nothing away is good when no second job comes of it. -/
theorem consumedOnce_of_length {e : Event} (hlen : w'.created.length ≤ 1)
    (hstays : ∀ site renames post m p, e = .poll site renames post →
      prepared T text site = some (m, p) → w.inFolder = true → w'.inFolder = true) :
    ConsumedOnce T text w e w' := by
  refine ⟨hlen, ?_⟩
  intro site renames post m p he hprep hfolder hgone
  rw [hstays site renames post m p he hprep hfolder] at hgone
  exact (nomatch hgone)

theorem poll_iff {site : SubmissionSite} {renames : Bool} {post : PostOutcome}
    (hinv : Inv w) (h : poll T name text w site renames post = some w') :
    ConsumedOnce T text w (.poll site renames post) w' ↔
      Careful T text w (.poll site renames post) w' := by
  rcases @handsOver_or T text w site with ⟨m, p, hprep, hfolder⟩ | hprep
  · obtain ⟨hgone, hcreated, hanswered, -⟩ := poll_prepared hfolder hprep h
    have hlength := length_append_le hinv.once (@handedOver_length w site m)
    rw [handedOver_eq_nil] at hlength
    have hsuccess : w'.created ≠ [] ∨ w'.answered = true ↔
        Succeeds w site post m ∨ w.created ≠ [] ∨ w.answered = true := by
      unfold Succeeds
      rw [hcreated, hanswered, ← handedOver_ne_nil, Ne, List.append_eq_nil_iff, not_and_or]
      tauto
    constructor
    · rintro ⟨hlen, hmoved⟩ m' p' hprep' -
      cases hprep.symm.trans hprep'
      rw [hcreated] at hlen
      have htaken := hlength.mp hlen
      refine ⟨?_, fun hleader hopen hsome => htaken hsome hleader hopen⟩
      intro hrenames
      apply hsuccess.mp
      apply hmoved site renames post m p rfl hprep hfolder
      rw [hgone, hrenames]
      rfl
    · intro hcareful
      obtain ⟨hmoves, htaken⟩ := hcareful m p hprep hfolder
      refine ⟨?_, ?_⟩
      · rw [hcreated]
        exact hlength.mpr fun hsome hleader hopen => htaken hleader hopen hsome
      · intro site' renames' post' m' p' he hprep' _ hmoved
        cases he
        cases hprep.symm.trans hprep'
        rw [hgone] at hmoved
        exact hsuccess.mpr (hmoves (by simpa using hmoved))
  · obtain ⟨hcreated, -⟩ := poll_unprepared hprep h
    have hnothing : ∀ m p, prepared T text site = some (m, p) → w.inFolder ≠ true := by
      intro m p hsome hfolder
      rw [hprep hfolder] at hsome
      exact (nomatch hsome)
    refine iff_of_true ?_ ?_
    · refine consumedOnce_of_length (hcreated ▸ hinv.once) ?_
      intro site' renames' post' m p he hsome hfolder
      cases he
      exact absurd hfolder (hnothing m p hsome)
    · intro m p hsome hfolder
      exact absurd hfolder (hnothing m p hsome)

/-- What storing a queued submission adds. -/
theorem store_cases (h : store T w = some w') :
    (w.queue = [] ∧ w' = w) ∨
      ∃ req rest, w.queue = req :: rest ∧ w'.queue = rest ∧
        w'.created = w.created ++
          storedId (if Taken w.db req.manifest.jobId then "" else req.manifest.jobId) := by
  unfold store at h
  split at h
  · rename_i hq
    exact .inl ⟨hq, (Option.some.inj h).symm⟩
  · rename_i req rest hq
    refine .inr ⟨req, rest, hq, ?_⟩
    obtain ⟨jobId, hrun, rfl⟩ := Option.map_eq_some_iff.mp h
    refine ⟨rfl, ?_⟩
    cases hchunks : computeChunks req.manifest.frameStart req.manifest.frameEnd
        req.manifest.chunkSize with
    | none =>
        rw [submitJob_overflow hchunks] at hrun
        exact (nomatch hrun)
    | some chunks =>
        rw [submitJob_fst hchunks] at hrun
        rw [Option.some.inj hrun]

theorem storedId_length {jobId : String} : (storedId jobId).length ≤ 1 := by
  unfold storedId
  split
  · exact Nat.zero_le 1
  · exact Nat.le_refl 1

theorem storedId_eq_nil {jobId : String} (hid : jobId ≠ "") :
    storedId (if Taken db jobId then "" else jobId) = [] ↔ Taken db jobId := by
  by_cases htaken : Taken db jobId
  · rw [if_pos htaken]
    exact iff_of_true rfl htaken
  · rw [if_neg htaken]
    refine iff_of_false ?_ htaken
    unfold storedId
    rw [if_neg hid]
    exact List.cons_ne_nil _ _

theorem store_iff (hinv : Inv w) (h : store T w = some w') :
    ConsumedOnce T text w .store w' ↔ Careful T text w .store w' := by
  have hpoll : ConsumedOnce T text w .store w' ↔ w'.created.length ≤ 1 := by
    refine ⟨fun hgood => hgood.1, fun hlen => consumedOnce_of_length hlen ?_⟩
    intro site renames post m p he
    exact (nomatch he)
  rw [hpoll]
  rcases store_cases h with ⟨hq, rfl⟩ | ⟨req, rest, hq, -, hcreated⟩
  · refine iff_of_true hinv.once ?_
    intro req hreq
    rw [hq] at hreq
    exact (nomatch hreq)
  · have hid : req.manifest.jobId ≠ "" := by
      apply hinv.queue
      rw [hq]
      exact List.mem_cons_self
    rw [hcreated, length_append_le hinv.once storedId_length, storedId_eq_nil hid]
    constructor
    · intro htaken req' hreq' hsome
      rw [hq] at hreq'
      cases hreq'
      exact htaken hsome
    · intro hcareful
      exact hcareful req (by rw [hq]; rfl)

/-! ## Every run -/

theorem step_iff {e : Event} (hinv : Inv w) (h : step T name text w e = some w') :
    ConsumedOnce T text w e w' ↔ Careful T text w e w' := by
  cases e with
  | poll site renames post => exact poll_iff hinv h
  | store => exact store_iff hinv h
  | call c =>
      cases h
      refine iff_of_true (consumedOnce_of_length hinv.once ?_) trivial
      intro site renames post m p he
      exact (nomatch he)

/-- A step of a good run queues under real ids only. -/
theorem inv_step {e : Event} (hinv : Inv w) (h : step T name text w e = some w')
    (hgood : ConsumedOnce T text w e w') : Inv w' := by
  refine ⟨hgood.1, ?_⟩
  cases e with
  | poll site renames post =>
      rcases @handsOver_or T text w site with ⟨m, p, hprep, hfolder⟩ | hprep
      · obtain ⟨-, -, -, hqueue⟩ := poll_prepared hfolder hprep h
        intro req hreq
        rcases hqueue req hreq with hold | rfl
        · exact hinv.queue req hold
        · exact prepared_jobId hprep
      · obtain ⟨-, hqueue⟩ := poll_unprepared hprep h
        rw [hqueue]
        exact hinv.queue
  | store =>
      rcases store_cases h with ⟨-, rfl⟩ | ⟨req, rest, hq, hqueue, -⟩
      · exact hinv.queue
      · rw [hqueue]
        intro r hr
        exact hinv.queue r (hq ▸ List.mem_cons_of_mem _ hr)
  | call c =>
      cases h
      exact hinv.queue

/-- Over any polls a file is consumed once exactly where each hand-over of a
file that can be moved succeeds, or an earlier one did, and none follows the file's
job under another id. -/
theorem consumed_once_iff (T : JsonText) (name text : String) (es : List Event) :
    (machine T name text).Along (ConsumedOnce T text) {} es ↔
      (machine T name text).Along (Careful T text) {} es := by
  constructor
  · refine Machine.Along.mono ?_ inv_start
    intro w e w' hinv h hgood
    exact ⟨(step_iff hinv h).mp hgood, inv_step hinv h hgood⟩
  · refine Machine.Along.mono ?_ inv_start
    intro w e w' hinv h hcareful
    have hgood := (step_iff hinv h).mpr hcareful
    exact ⟨hgood, inv_step hinv h hgood⟩

/-- A library that reads every text as the submission of a two-frame job. -/
def shotText : JsonText where
  parse _ := some (.obj [("template_id", .str "blender"), ("job_name", .str "shot"),
    ("frame_end", .int 2)])
  dump _ := ""

def blender : JobTemplate where
  templateId := "blender"
  name := "Blender"
  cmd := { osLinux := "/usr/bin/blender" }
  valid := true

def worker : SubmissionSite :=
  { nodeId := "n1", os := "linux", cachedTemplates := [blender],
    leaderEndpoint := "10.0.0.2:8420" }

def leader : SubmissionSite :=
  { nodeId := "n1", os := "linux", cachedTemplates := [blender], isLeader := true }

/-- The leader does not answer the worker, whose file is moved away. -/
def unanswered : Event := .poll worker true { status := none, accepted := false }

/-- The job's folder exists when the file, which could not be moved, is read
again. -/
def readAgain : Event := .poll { leader with slugTaken := (· = "shot") } false {}

/-- **A submission is lost, or stored twice**: an unanswered POST consumes the
file, and a file that stays is stored again under the next slug. -/
theorem file_lost_and_job_doubled :
    ¬ (machine shotText "shot.json" "").Along (ConsumedOnce shotText "") {} [unanswered] ∧
      ¬ (machine shotText "shot.json" "").Along (ConsumedOnce shotText "") {}
        [.poll leader false {}, readAgain] := by
  constructor
  · refine Machine.Along.refute [] unanswered
      (fun (t u : World) => t.inFolder && !u.inFolder && (u.created = [] && !u.answered)) ?_ ?_
    · intro t u hbad hgood
      simp only [Bool.and_eq_true, Bool.not_eq_true', decide_eq_true_eq] at hbad
      obtain ⟨⟨hfolder, hgone⟩, hcreated, hanswered⟩ := hbad
      obtain ⟨mp, hprep⟩ := Option.isSome_iff_exists.mp
        (show (prepared shotText "" worker).isSome = true by decide)
      rcases hgood.2 worker true _ mp.1 mp.2 rfl hprep hfolder hgone with hstored | hyes
      · exact hstored hcreated
      · rw [hanswered] at hyes
        cases hyes
    · decide
  · refine Machine.Along.refute [.poll leader false {}] readAgain
      (fun (_ u : World) => decide (1 < u.created.length)) ?_ ?_
    · intro t u hbad hgood
      exact absurd hgood.1 (Nat.not_le.mpr (of_decide_eq_true hbad))
    · decide

end MinRender.SubmissionAcks
