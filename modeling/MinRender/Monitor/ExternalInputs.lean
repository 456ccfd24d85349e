import MinRender.Monitor.UdpMessages
import MinRender.Monitor.WatchedFolders

/-!
# External inputs

The three readers of data that other programs hand to the monitor: UDP
datagrams, submission files and command files. An input is settled when its
reader returns and a malformed file does not stay in its folder. The module
says which inputs are.
-/

namespace MinRender.ExternalInputs
open Json MonitorApp SubmissionWatcher

/-- What the readers work on: the leader's database and the peer map. -/
structure Monitor where
  db : Db
  peers : PeerManager

/-- One input, with what its reader finds around it. -/
inductive Input
  | datagrams (nowMs : Int) (waiting : List String)
  | submission (site : SubmissionSite) (file : WatchedFile)
  | commands (dbOpen : Bool) (nowMs : Int) (files : List WatchedFile)

/-! ## Malformed files -/

/-- An object whose keys hold the types a submission is read at. -/
structure SubmissionTyped (sub : Json) : Prop where
  object : sub.isObject = true
  templateId : StringAt "template_id" sub
  jobName : StringAt "job_name" sub
  frameStart : IntAt "frame_start" sub
  frameEnd : IntAt "frame_end" sub
  chunkSize : IntAt "chunk_size" sub
  priority : IntAt "priority" sub

/-- An object whose keys hold the types a command is read at. -/
structure CommandTyped (cmd : Json) : Prop where
  object : cmd.isObject = true
  type : StringAt "type" cmd
  issuedAt : NumberAt "issued_at_ms" cmd
  jobId : StringAt "job_id" cmd
  mode : StringAt "mode" cmd
  priority : IntAt "priority" cmd
  issuedBy : StringAt "issued_by" cmd

/-- The text is no JSON, or no value of the given form. -/
def Malformed (T : JsonText) (typed : Json → Prop) (text : String) : Prop :=
  ∀ j, T.parse text = some j → ¬ typed j

/-! ## Settled inputs -/

/-- The handler of a file returned, and took a malformed file away. -/
def FileSettled {α : Type} (T : JsonText) (typed : Json → Prop) (file : WatchedFile)
    (fate : Fate α) : Prop :=
  fate.Returned ∧ (Malformed T typed file.text → fate.Gone)

/-- **One input is settled**: its reader returns normally, and each
malformed file it handled is out of the watched folder. A poll of an open
database handles every file. -/
def Input.Settled (T : JsonText) (m : Monitor) : Input → Prop
  | .datagrams nowMs waiting => Returns (handleUdpMessages T nowMs m.peers waiting)
  | .submission site file =>
      FileSettled T SubmissionTyped file
        ((processSubmission T site file).run (DbCall.exec T) m.db).1
  | .commands dbOpen nowMs files =>
      let handled := ((pollFarmCommands T dbOpen nowMs files).run (DbCall.exec T) m.db).1
      (∀ r ∈ handled, FileSettled T CommandTyped r.1 r.2) ∧
        (dbOpen = true → (handled.map (·.1)).Perm files)

/-! ## The condition -/

/-- A submission file that does not parse can be moved. One that does is
typed, and a job the leader stores for it splits its range without
overflow. -/
structure SubmissionReadable (T : JsonText) (site : SubmissionSite) (file : WatchedFile) :
    Prop where
  moves : T.parse file.text = none → file.renames = true
  typed : ∀ j, T.parse file.text = some j → SubmissionTyped j
  inRange : ∀ j sub manifest, T.parse file.text = some j → readSubmission j = .ok sub →
    prepare T site sub = .ok manifest → site.isLeader = true → site.dbOpen = true →
    computeChunks manifest.frameStart manifest.frameEnd manifest.chunkSize ≠ none

/-- The edit a command names, each key at the value its read gives. -/
def commandEdit (T : JsonText) (cmd : Json) : CommandEdit where
  jobId := cmd.readOr getString "job_id" ""
  mode := cmd.readOr getString "mode" "continue"
  priority := cmd.readOr getInt "priority" 50
  manifestJson := commandManifest T cmd

/-- A job edit issued within the last quarter of an hour. -/
def Current (nowMs : Int) (cmd : Json) : Prop :=
  cmd.readOr getString "type" "" = "job_edit" ∧
    0 < cmd.readOr getInt64 "issued_at_ms" 0 ∧
    nowMs - cmd.readOr getInt64 "issued_at_ms" 0 ≤ kCommandTtlMs

/-- The keys of a command hold the types they are read at, as far as it is
read: the date of a job edit, the edit of a current one, and the issuer of one
that is applied; the range of that edit does not overflow. -/
structure CommandReadable (T : JsonText) (nowMs : Int) (db : Db) (cmd : Json) : Prop where
  object : cmd.isObject = true
  type : StringAt "type" cmd
  issuedAt : cmd.readOr getString "type" "" = "job_edit" → NumberAt "issued_at_ms" cmd
  jobId : Current nowMs cmd → StringAt "job_id" cmd
  mode : Current nowMs cmd → StringAt "mode" cmd
  priority : Current nowMs cmd → IntAt "priority" cmd
  inRange : Current nowMs cmd → editCode T db (commandEdit T cmd).jobId
    (commandEdit T cmd).manifestJson (commandEdit T cmd).mode ≠ none
  issuedBy : Current nowMs cmd → editCode T db (commandEdit T cmd).jobId
    (commandEdit T cmd).manifestJson (commandEdit T cmd).mode = some .applied →
    StringAt "issued_by" cmd

/-- A command file parses to a readable command, and can be moved or removed
unless its text is a typed command. -/
structure CommandFileReadable (T : JsonText) (nowMs : Int) (db : Db) (file : WatchedFile) :
    Prop where
  moves : Malformed T CommandTyped file.text →
    file.renames = true ∨ file.removes = true
  readable : ∀ cmd, T.parse file.text = some cmd → CommandReadable T nowMs db cmd

/-- Every command file is readable over the database as the files before it
leave it. -/
def CommandsReadable (T : JsonText) (nowMs : Int) : List WatchedFile → Db → Prop
  | [], _ => True
  | file :: files, db =>
      CommandFileReadable T nowMs db file ∧
        CommandsReadable T nowMs files
          ((handleCommand T true nowMs file).run (DbCall.exec T) db).2

/-- **When an input is settled.** -/
def Input.Readable (T : JsonText) (m : Monitor) : Input → Prop
  | .datagrams _ waiting =>
      ∀ msg ∈ UdpNotify.poll T m.peers.nodeId waiting, MessageTyped m.peers.nodeId msg
  | .submission site file => SubmissionReadable T site file
  | .commands dbOpen nowMs files =>
      dbOpen = true →
        CommandsReadable T nowMs (files.insertionSort fun a b => a.name ≤ b.name) m.db

/-! ## Fates -/

variable {T : JsonText} {α : Type}

@[simp] theorem returned_done {gone : Bool} {result : α} :
    (Fate.done gone result).Returned := ⟨gone, result, rfl⟩

@[simp] theorem not_returned_raised {e : JsonError} :
    ¬ (Fate.raised e : Fate α).Returned := by
  rintro ⟨gone, result, h⟩
  cases h

@[simp] theorem not_returned_undefined : ¬ (Fate.undefined : Fate α).Returned := by
  rintro ⟨gone, result, h⟩
  cases h

@[simp] theorem gone_done {gone : Bool} {result : α} :
    (Fate.done gone result).Gone ↔ gone = true := by
  constructor
  · rintro ⟨r, h⟩
    cases h
    rfl
  · rintro rfl
    exact ⟨result, rfl⟩

theorem malformed_of_none {typed : Json → Prop} {text : String}
    (h : T.parse text = none) : Malformed T typed text := fun j hj => by
  rw [h] at hj
  cases hj

theorem malformed_iff_of_some {typed : Json → Prop} {text : String} {j : Json}
    (h : T.parse text = some j) : Malformed T typed text ↔ ¬ typed j := by
  constructor
  · exact fun hm => hm j h
  · intro hj j' hj'
    rw [h] at hj'
    cases hj'
    exact hj

/-! ## Submissions -/

theorem returns_readSubmission {sub : Json} :
    Returns (readSubmission sub) ↔ SubmissionTyped sub := by
  have hs : ∀ v, Returns (getString v) ↔ isString v = true := fun _ => returns_getString
  have hi : ∀ v, Returns (getInt v) ↔ (v.isNumber || v.isBool) = true :=
    fun _ => returns_getInt
  have hany : ∀ v : Json, Returns (.ok v : Except JsonError Json) ↔ true = true :=
    fun _ => by simp
  unfold readSubmission
  by_cases hobj : sub.isObject = true
  · rw [returns_value_bind hs hobj, returns_value_bind hs hobj,
      returns_value_bind hi hobj, returns_value_bind hi hobj,
      returns_value_bind hi hobj, returns_value_bind hi hobj,
      returns_value_bind hany hobj]
    constructor
    · rintro ⟨hid, hname, hstart, hend, hsize, hpri, -, -⟩
      exact ⟨hobj, hid, hname, hstart, hend, hsize, hpri⟩
    · rintro ⟨-, hid, hname, hstart, hend, hsize, hpri⟩
      exact ⟨hid, hname, hstart, hend, hsize, hpri, fun _ _ => rfl, returns_ok _⟩
  · refine iff_of_false ?_ fun h => hobj h.object
    rw [returns_bind]
    rintro ⟨a, ha, -⟩
    exact hobj ((returns_value hs).mp (returns_iff.mpr ⟨a, ha⟩)).1

theorem submitJob_eq_none {manifest : JobManifest} {priority : Int} {db : Db} :
    ((DispatchManager.submitJob T manifest priority).run (DbCall.exec T) db).1 = none ↔
      computeChunks manifest.frameStart manifest.frameEnd manifest.chunkSize = none := by
  unfold DispatchManager.submitJob
  split
  · rename_i chunks hchunks
    change ((DispatchManager.submitJobWithChunks T manifest priority chunks >>=
      fun jobId => pure (some jobId)).run (DbCall.exec T) db).1 = none ↔ _
    rw [hchunks, Prog.run_bind]
    simp
  · rename_i hchunks
    rw [query, Prog.ask_bind, Prog.run_call, hchunks]
    simp

/-- Handing a manifest over ends without a result exactly where the leader
splits a range that overflows. -/
theorem submit_eq_none (site : SubmissionSite) (manifest : JobManifest) (priority : Int)
    (db : Db) :
    ((submit T site manifest priority).run (DbCall.exec T) db).1 = none ↔
      site.isLeader = true ∧ site.dbOpen = true ∧
        computeChunks manifest.frameStart manifest.frameEnd manifest.chunkSize = none := by
  unfold submit
  by_cases hleader : site.isLeader = true
  · rw [if_pos hleader]
    by_cases hopen : site.dbOpen = true
    · rw [if_pos hopen, Prog.run_bind]
      simp [hleader, hopen, submitJob_eq_none]
    · rw [if_neg hopen]
      simp [hopen]
  · rw [if_neg hleader]
    split
    · simp [hleader]
    · simp [hleader]

/-- The condition on a file that parses. -/
theorem submissionReadable_iff {site : SubmissionSite} {file : WatchedFile} {j : Json}
    (hparse : T.parse file.text = some j) :
    SubmissionReadable T site file ↔ SubmissionTyped j ∧
      ∀ sub manifest, readSubmission j = .ok sub → prepare T site sub = .ok manifest →
        site.isLeader = true → site.dbOpen = true →
        computeChunks manifest.frameStart manifest.frameEnd manifest.chunkSize ≠ none := by
  constructor
  · exact fun h => ⟨h.typed j hparse, fun sub manifest => h.inRange j sub manifest hparse⟩
  · rintro ⟨htyped, hrange⟩
    refine ⟨?_, ?_, ?_⟩
    · rw [hparse]
      rintro ⟨⟩
    · intro j' hj'
      rw [hparse] at hj'
      cases hj'
      exact htyped
    · intro j' sub manifest hj'
      rw [hparse] at hj'
      cases hj'
      exact hrange sub manifest

/-- **When a submission file is settled.** -/
theorem submission_settled_iff {site : SubmissionSite} {file : WatchedFile} {db : Db} :
    SubmissionReadable T site file ↔
      FileSettled T SubmissionTyped file
        ((processSubmission T site file).run (DbCall.exec T) db).1 := by
  unfold processSubmission FileSettled
  cases hparse : T.parse file.text with
  | none =>
      simp only [Prog.pure_eq, Prog.run_done, returned_done, gone_done, true_and]
      constructor
      · exact fun h _ => h.moves hparse
      · intro h
        refine ⟨fun _ => h (malformed_of_none hparse), ?_, ?_⟩
        · intro j hj
          rw [hparse] at hj
          cases hj
        · intro j sub manifest hj
          rw [hparse] at hj
          cases hj
  | some j =>
      rw [submissionReadable_iff hparse, malformed_iff_of_some hparse]
      simp only []
      cases hread : readSubmission j with
      | error e =>
          simp only [Prog.pure_eq, Prog.run_done, not_returned_raised, false_and, iff_false]
          -- a field of the wrong type raises out of the handler
          rintro ⟨htyped, -⟩
          have := returns_readSubmission.mpr htyped
          rw [hread] at this
          exact not_returns_error e this
      | ok sub =>
          have htyped : SubmissionTyped j :=
            returns_readSubmission.mp (hread ▸ returns_ok sub)
          simp only [htyped, not_true_eq_false, false_implies, and_true, true_and,
            Except.ok.injEq]
          cases hprep : prepare T site sub with
          | error why =>
              simp only [Prog.pure_eq, Prog.run_done, returned_done, iff_true]
              rintro sub' manifest rfl hm
              rw [hprep] at hm
              cases hm
          | ok manifest =>
              simp only [Prog.run_bind]
              have hnone := submit_eq_none (T := T) site manifest sub.priority db
              cases hs : ((submit T site manifest sub.priority).run (DbCall.exec T) db).1 with
              | none =>
                  -- the range overflows: nothing is returned
                  obtain ⟨hleader, hopen, hchunks⟩ := hnone.mp hs
                  simp only [Prog.pure_eq, Prog.run_done, not_returned_undefined, iff_false]
                  exact fun h => h sub manifest rfl hprep hleader hopen hchunks
              | some result =>
                  simp only [Prog.pure_eq, Prog.run_done, returned_done, iff_true]
                  rintro sub' manifest' rfl hm hleader hopen hchunks
                  rw [hprep] at hm
                  cases hm
                  rw [hnone.mpr ⟨hleader, hopen, hchunks⟩] at hs
                  cases hs

/-! ## Commands -/

theorem returns_readCommand {nowMs : Int} {cmd : Json} :
    Returns (readCommand T nowMs cmd) ↔ cmd.isObject = true ∧ StringAt "type" cmd ∧
      (cmd.readOr getString "type" "" = "job_edit" → NumberAt "issued_at_ms" cmd) ∧
      (Current nowMs cmd →
        StringAt "job_id" cmd ∧ StringAt "mode" cmd ∧ IntAt "priority" cmd) := by
  have hs : ∀ v, Returns (getString v) ↔ isString v = true := fun _ => returns_getString
  have hi : ∀ v, Returns (getInt v) ↔ (v.isNumber || v.isBool) = true :=
    fun _ => returns_getInt
  have hl : ∀ v, Returns (getInt64 v) ↔ v.isNumber = true := fun _ => returns_getInt64
  unfold readCommand
  by_cases hobj : cmd.isObject = true
  · rw [returns_value_bind hs hobj]
    simp only [hobj, true_and]
    refine and_congr_right fun _ => ?_
    by_cases htype : cmd.readOr getString "type" "" = "job_edit"
    · rw [if_neg (by simp [htype]), returns_value_bind hl hobj]
      simp only [htype, true_implies]
      refine and_congr_right fun _ => ?_
      by_cases hcur : Current nowMs cmd
      · have hin : ¬ (cmd.readOr getInt64 "issued_at_ms" 0 ≤ 0 ∨
            kCommandTtlMs < nowMs - cmd.readOr getInt64 "issued_at_ms" 0) := by
          have := hcur.2
          omega
        rw [if_neg hin, returns_value_bind hs hobj, returns_value_bind hs hobj,
          returns_value_bind hi hobj]
        simp [hcur, pure, Except.pure]
      · have hout : cmd.readOr getInt64 "issued_at_ms" 0 ≤ 0 ∨
            kCommandTtlMs < nowMs - cmd.readOr getInt64 "issued_at_ms" 0 := by
          by_contra hin
          exact hcur ⟨htype, by omega, by omega⟩
        rw [if_pos hout]
        simp [hcur, pure, Except.pure]
    · have hcur : ¬ Current nowMs cmd := fun h => htype h.1
      rw [if_pos htype]
      simp [htype, hcur, pure, Except.pure]
  · refine iff_of_false ?_ fun h => hobj h.1
    rw [returns_bind]
    rintro ⟨a, ha, -⟩
    exact hobj ((returns_value hs).mp (returns_iff.mpr ⟨a, ha⟩)).1

/-- What the reads of a command give: the edit of a current one. -/
theorem readCommand_cases {nowMs : Int} {cmd : Json} {r : Except String CommandEdit}
    (h : readCommand T nowMs cmd = .ok r) :
    (Current nowMs cmd ∧ r = .ok (commandEdit T cmd)) ∨
      (¬ Current nowMs cmd ∧ ∃ why, r = .error why) := by
  unfold readCommand at h
  obtain ⟨type, htype, h⟩ := bind_eq_ok.mp h
  have htype := readOr_of_eq_ok htype
  split at h
  · rename_i hne
    cases h
    exact .inr ⟨fun hcur => hne (htype ▸ hcur.1), _, rfl⟩
  · rename_i hedit
    obtain ⟨issuedAt, hissued, h⟩ := bind_eq_ok.mp h
    have hissued := readOr_of_eq_ok hissued
    split at h
    · rename_i hout
      cases h
      refine .inr ⟨?_, _, rfl⟩
      rintro ⟨-, hpos, hrecent⟩
      rw [hissued] at hpos hrecent
      omega
    · rename_i hin
      obtain ⟨jobId, hjob, h⟩ := bind_eq_ok.mp h
      obtain ⟨mode, hmode, h⟩ := bind_eq_ok.mp h
      obtain ⟨priority, hpriority, h⟩ := bind_eq_ok.mp h
      cases h
      refine .inl ⟨⟨htype.trans (not_not.mp hedit), ?_, ?_⟩, ?_⟩
      · omega
      · omega
      · simp only [commandEdit, readOr_of_eq_ok hjob, readOr_of_eq_ok hmode,
          readOr_of_eq_ok hpriority]

/-- The condition on a command whose reads return. -/
theorem commandReadable_iff {nowMs : Int} {db : Db} {cmd : Json}
    {r : Except String CommandEdit} (h : readCommand T nowMs cmd = .ok r) :
    CommandReadable T nowMs db cmd ↔ (Current nowMs cmd →
      editCode T db (commandEdit T cmd).jobId (commandEdit T cmd).manifestJson
        (commandEdit T cmd).mode ≠ none ∧
      (editCode T db (commandEdit T cmd).jobId (commandEdit T cmd).manifestJson
        (commandEdit T cmd).mode = some .applied → StringAt "issued_by" cmd)) := by
  obtain ⟨hobj, htype, hissued, hedit⟩ :=
    returns_readCommand.mp (returns_iff.mpr ⟨r, h⟩)
  constructor
  · exact fun hr hcur => ⟨hr.inRange hcur, hr.issuedBy hcur⟩
  · intro hr
    exact {
      object := hobj
      type := htype
      issuedAt := hissued
      jobId := fun hcur => (hedit hcur).1
      mode := fun hcur => (hedit hcur).2.1
      priority := fun hcur => (hedit hcur).2.2
      inRange := fun hcur => (hr hcur).1
      issuedBy := fun hcur => (hr hcur).2 }

theorem fileSettled_ack {file : WatchedFile} {why : String} {edit : Option EditOutcome} :
    FileSettled T CommandTyped file (MonitorApp.ack file why edit) ↔
      (Malformed T CommandTyped file.text → file.renames = true ∨ file.removes = true) := by
  simp [FileSettled, MonitorApp.ack]

/-- An edit on an open database is never refused for want of one. -/
theorem editCode_ne_dbUnavailable {db : Db} {jobId manifestJson mode : String} :
    editCode T db jobId manifestJson mode ≠ some .dbUnavailable := by
  unfold editCode
  split
  · simp
  · split
    · simp
    · split
      · simp
      · simp

/-- How a current command's file ends, for what its edit answers. -/
theorem commandFate_settled_iff {file : WatchedFile} {cmd : Json}
    {outcome : Option EditOutcome} (hobj : cmd.isObject = true)
    (hopen : outcome.map (·.result.code) ≠ some .dbUnavailable) :
    FileSettled T CommandTyped file (commandFate file cmd outcome) ↔
      (Malformed T CommandTyped file.text → file.renames = true ∨ file.removes = true) ∧
        outcome.map (·.result.code) ≠ none ∧
        (outcome.map (·.result.code) = some .applied → StringAt "issued_by" cmd) := by
  have hs : ∀ v, Returns (getString v) ↔ isString v = true := fun _ => returns_getString
  cases outcome with
  | none => simp [commandFate, FileSettled]
  | some outcome =>
      simp only [commandFate, Option.map_some, ne_eq, reduceCtorEq, not_false_eq_true,
        true_and, Option.some.injEq] at hopen ⊢
      cases hcode : outcome.result.code with
      | dbUnavailable => exact absurd hcode hopen
      | invalidManifest => simp [fileSettled_ack]
      | jobNotFound => simp [fileSettled_ack]
      | applied =>
          have hread : Returns (cmd.value getString "issued_by" "?") ↔
              cmd.isObject = true ∧ StringAt "issued_by" cmd := returns_value hs
          simp only [true_implies]
          cases hv : cmd.value getString "issued_by" "?" with
          | error e =>
              rw [hv] at hread
              have hnot : ¬ StringAt "issued_by" cmd :=
                fun h => not_returns_error e (hread.mpr ⟨hobj, h⟩)
              simp [FileSettled, hnot]
          | ok a =>
              rw [hv] at hread
              have hstring : StringAt "issued_by" cmd := (hread.mp (returns_ok a)).2
              simp only [fileSettled_ack, hstring, and_true]

/-- **When a command file is settled.** -/
theorem command_settled_iff {nowMs : Int} {file : WatchedFile} {db : Db} :
    CommandFileReadable T nowMs db file ↔
      FileSettled T CommandTyped file
        ((handleCommand T true nowMs file).run (DbCall.exec T) db).1 := by
  have hiff : CommandFileReadable T nowMs db file ↔
      (Malformed T CommandTyped file.text → file.renames = true ∨ file.removes = true) ∧
        ∀ cmd, T.parse file.text = some cmd → CommandReadable T nowMs db cmd :=
    ⟨fun h => ⟨h.moves, h.readable⟩, fun h => ⟨h.1, h.2⟩⟩
  rw [hiff]
  unfold handleCommand
  cases hparse : T.parse file.text with
  | none => simp [fileSettled_ack]
  | some cmd =>
      simp only [Option.some.injEq, forall_eq', handleParsed]
      cases hread : readCommand T nowMs cmd with
      | error e =>
          simp only [Prog.pure_eq, Prog.run_done, FileSettled, not_returned_raised,
            false_and, iff_false]
          rintro ⟨-, hr⟩
          have hret : Returns (readCommand T nowMs cmd) := returns_readCommand.mpr
            ⟨hr.object, hr.type, hr.issuedAt, fun hcur =>
              ⟨hr.jobId hcur, hr.mode hcur, hr.priority hcur⟩⟩
          rw [hread] at hret
          exact not_returns_error e hret
      | ok r =>
          rw [commandReadable_iff hread]
          rcases readCommand_cases hread with ⟨hcur, rfl⟩ | ⟨hcur, why, rfl⟩
          · have hobj := (returns_readCommand.mp (returns_iff.mpr ⟨_, hread⟩)).1
            simp only [Prog.run_bind]
            simp only [Prog.pure_eq, Prog.run_done]
            rw [commandFate_settled_iff hobj, applyEditLocally_code]
            · simp only [hcur, true_implies]
            · rw [applyEditLocally_code]
              exact editCode_ne_dbUnavailable
          · simp [fileSettled_ack, hcur]

/-- A file that returns is followed by the rest, over the database it
leaves. -/
theorem handleCommands_cons {nowMs : Int} {file : WatchedFile} {files : List WatchedFile}
    {db : Db} (h : ((handleCommand T true nowMs file).run (DbCall.exec T) db).1.Returned) :
    ((handleCommands T true nowMs (file :: files)).run (DbCall.exec T) db).1 =
      (file, ((handleCommand T true nowMs file).run (DbCall.exec T) db).1) ::
        ((handleCommands T true nowMs files).run (DbCall.exec T)
          ((handleCommand T true nowMs file).run (DbCall.exec T) db).2).1 := by
  obtain ⟨gone, result, hfate⟩ := h
  simp only [handleCommands, Prog.run_bind, hfate]
  rfl

/-- A file that does not is the last. -/
theorem handleCommands_last {nowMs : Int} {file : WatchedFile} {files : List WatchedFile}
    {db : Db} (h : ¬ ((handleCommand T true nowMs file).run (DbCall.exec T) db).1.Returned) :
    ((handleCommands T true nowMs (file :: files)).run (DbCall.exec T) db).1 =
      [(file, ((handleCommand T true nowMs file).run (DbCall.exec T) db).1)] := by
  simp only [handleCommands, Prog.run_bind]
  cases hfate : ((handleCommand T true nowMs file).run (DbCall.exec T) db).1 with
  | done gone result => exact absurd ⟨gone, result, hfate⟩ h
  | raised e => rfl
  | undefined => rfl

/-- **When the files of a poll are settled.** By induction on the files, each
over the database the one before it leaves. -/
theorem commands_settled_iff {nowMs : Int} {files : List WatchedFile} {db : Db} :
    CommandsReadable T nowMs files db ↔
      ∀ r ∈ ((handleCommands T true nowMs files).run (DbCall.exec T) db).1,
        FileSettled T CommandTyped r.1 r.2 := by
  induction files generalizing db with
  | nil => simp [CommandsReadable, handleCommands]
  | cons file files ih =>
      rw [CommandsReadable, command_settled_iff, ih]
      by_cases hret : ((handleCommand T true nowMs file).run (DbCall.exec T) db).1.Returned
      · rw [handleCommands_cons hret, List.forall_mem_cons]
      · rw [handleCommands_last hret, List.forall_mem_singleton]
        exact iff_of_false (fun h => hret h.1.1) fun h => hret h.1

/-- A poll in which every file it handled returned has handled them all. -/
theorem handled_all {nowMs : Int} {files : List WatchedFile} {db : Db}
    (h : ∀ r ∈ ((handleCommands T true nowMs files).run (DbCall.exec T) db).1,
      r.2.Returned) :
    ((handleCommands T true nowMs files).run (DbCall.exec T) db).1.map (·.1) = files := by
  induction files generalizing db with
  | nil => rfl
  | cons file files ih =>
      by_cases hret : ((handleCommand T true nowMs file).run (DbCall.exec T) db).1.Returned
      · rw [handleCommands_cons hret] at h ⊢
        rw [List.map_cons, ih (List.forall_mem_cons.mp h).2]
      · rw [handleCommands_last hret] at h
        exact absurd (h _ List.mem_cons_self) hret

/-! ## Every input -/

/-- **An input is settled exactly when it is readable.** For every content of
the socket and of both folders, on every database and peer map: the reader
returns normally and leaves no malformed file behind if and only if every key
it gets to read holds the type it is read at, no range it splits overflows, and
the malformed files can be moved. -/
theorem settled_iff_readable (T : JsonText) (m : Monitor) (input : Input) :
    input.Readable T m ↔ input.Settled T m := by
  cases input with
  | datagrams nowMs waiting => exact returns_handleUdpMessages.symm
  | submission site file => exact submission_settled_iff
  | commands dbOpen nowMs files =>
      cases dbOpen with
      | false => simp [Input.Readable, Input.Settled, pollFarmCommands]
      | true =>
          simp only [Input.Readable, Input.Settled, pollFarmCommands, true_implies, if_true]
          rw [commands_settled_iff]
          refine (and_iff_left_of_imp fun hsettled => ?_).symm
          rw [handled_all fun r hr => (hsettled r hr).1]
          exact List.perm_insertionSort _ files

/-- Three short texts and their values: a message whose type is a number, a
submission that is an array, and a command whose type is a number. -/
def poisonText : JsonText where
  parse text :=
    if text = "\x7b\"t\":5\x7d" then some (.obj [("t", .int 5)])
    else if text = "[]" then some (.arr [])
    else if text = "\x7b\"type\":7\x7d" then some (.obj [("type", .int 7)])
    else none
  dump _ := ""

/-- **No reader survives a value of a wrong type**: it is thrown out of each of
the three. -/
theorem wrong_type_is_thrown :
    let m : Monitor := ⟨.empty, { nodeId := "w1" }⟩
    ¬ (Input.datagrams 0 ["\x7b\"t\":5\x7d"]).Settled poisonText m ∧
    ¬ (Input.submission { nodeId := "w1" } ⟨"a.json", "[]", true, true⟩).Settled
        poisonText m ∧
    ¬ (Input.commands true 0 [⟨"b.json", "\x7b\"type\":7\x7d", true, true⟩]).Settled
        poisonText m := by
  refine ⟨?_, ?_, ?_⟩
  · change ¬ Returns
      (handleUdpMessages poisonText 0 { nodeId := "w1" } ["\x7b\"t\":5\x7d"])
    decide
  · exact fun h => not_returned_raised h.1
  · exact fun h => not_returned_raised (h.1 _ List.mem_cons_self).1

end MinRender.ExternalInputs
