import Mathlib.Logic.Function.Basic
import MinRender.Framework.Runs
import MinRender.Monitor.ExternalInputs
import MinRender.Monitor.Submissions

/-!
# One edit over two transports

A worker's `editJob` posts the edit to the leader and, where no answer comes
back, leaves it as a command file on the share. The POST may arrive late or
never, its answer may be lost, and every node that leads polls the folder. All
database calls made for the edit, on whatever node, are kept in one log. The
JSON texts that travel are kept as the values they stand for.
-/

namespace MinRender
open Json MonitorApp

/-! ## The worker's side -/

/-- A call of `editJob` on the node `nodeId`. -/
structure EditCall where
  jobId : String
  manifestJson : String
  mode : String
  priority : Int
  nodeId : String
deriving DecidableEq, Repr

/-- The body of the POST. -/
def EditCall.body (e : EditCall) (manifest : Json) : Json :=
  .obj [("manifest", manifest), ("mode", .str e.mode), ("priority", .int e.priority)]

/-- The command file. -/
def EditCall.command (e : EditCall) (manifest : Json) (nowMs : Int) : Json :=
  .obj [("type", .str "job_edit"),
    ("command_id", .str (toString nowMs ++ "_edit_" ++ e.jobId ++ "_" ++ e.nodeId)),
    ("job_id", .str e.jobId), ("manifest", manifest), ("mode", .str e.mode),
    ("priority", .int e.priority), ("issued_at_ms", .int nowMs),
    ("issued_by", .str e.nodeId)]

/-- What `writeEditCommand` finds: whether the farm runs, and whether the
folder takes the file. -/
structure Share where
  farmRunning : Bool := true
  takes : Bool := true
  nowMs : Int := 0
deriving DecidableEq, Repr

def MonitorApp.writeEditCommand (T : JsonText) (e : EditCall) (share : Share) :
    Option Json :=
  if !share.farmRunning ∨ e.jobId = "" then none
  else
    match T.parse e.manifestJson with
    | none => none
    | some manifest => if share.takes then some (e.command manifest share.nowMs) else none

/-- What the leader answers; `noRoute` is a server without the route. -/
inductive EditAnswer
  | ok
  | notLeader
  | jobNotFound
  | invalidManifest (detail : String)
  | dbUnavailable
  | badRequest (e : JsonError)
  | noRoute
deriving DecidableEq, Repr

def EditAnswer.status : EditAnswer → Nat
  | .ok => 200
  | .jobNotFound | .noRoute => 404
  | .invalidManifest _ | .badRequest _ => 400
  | .notLeader | .dbUnavailable => 503

/-- What the caller of `editJob` is told; the leader's own words where it refuses. -/
inductive EditDone
  | applied
  | queuedToShare
  | noResponse
  | jobNotFound
  | routeMissing
  | leaderError (answer : EditAnswer)
  | invalidManifest (what : String)
deriving DecidableEq, Repr

/-- The status callback for an answer. -/
def editAnswered (answer : EditAnswer) : EditDone :=
  if answer.status = 200 then .applied
  else if answer.status = 404 then
    if answer = .jobNotFound then .jobNotFound else .routeMissing
  else .leaderError answer

/-- The status callback without one: the command that was written, if it
could be. -/
def editUnanswered (T : JsonText) (e : EditCall) (share : Share) : EditDone × Option Json :=
  match writeEditCommand T e share with
  | some command => (.queuedToShare, some command)
  | none => (.noResponse, none)

/-! ## The leader's side -/

/-- The handler's reads of the body. -/
def HttpServer.readEdit (body : Json) : Except JsonError (Json × String × Int) := do
  let manifest ← body.at? "manifest"
  let mode ← body.value getString "mode" "continue"
  let priority ← body.value getInt "priority" 50
  return (manifest, mode, priority)

/-- What it answers for an outcome. -/
def HttpServer.editAnswer (outcome : EditOutcome) : EditAnswer :=
  match outcome.result.code with
  | .applied => .ok
  | .jobNotFound => .jobNotFound
  | .invalidManifest => .invalidManifest outcome.result.message
  | .dbUnavailable => .dbUnavailable

/-- `POST /api/jobs/:id/edit`; `none` where a startover's range overflows. -/
def HttpServer.postEdit (T : JsonText) (isLeader dbOpen : Bool) (jobId : String)
    (body : Json) : DbProg (Option EditAnswer) :=
  if !isLeader then return some .notLeader
  else
    match readEdit body with
    | .error e => return some (.badRequest e)
    | .ok (manifest, mode, priority) => do
        let outcome ← applyEditLocally T dbOpen jobId (T.dump manifest) mode priority
        return outcome.map editAnswer

namespace EditCommands

/-! ## What an edit calls -/

/-- `applyEditLocally` performs an edit by storing its manifest. -/
def stores : DbCall → Bool
  | .updateJobManifest .. => true
  | _ => false

def bumps : DbCall → Bool
  | .bumpEditEpoch _ => true
  | _ => false

def rebuilds : DbCall → Bool
  | .rebuildChunks .. => true
  | _ => false

/-- Epoch bumps and rebuilds come with a stored manifest each. -/
structure Counted (calls : List DbCall) : Prop where
  bumps : calls.countP bumps ≤ calls.countP stores
  rebuilds : calls.countP rebuilds ≤ calls.countP stores

theorem Counted.append {xs ys : List DbCall} (hx : Counted xs) (hy : Counted ys) :
    Counted (xs ++ ys) := by
  constructor
  · rw [List.countP_append, List.countP_append]
    exact Nat.add_le_add hx.bumps hy.bumps
  · rw [List.countP_append, List.countP_append]
    exact Nat.add_le_add hx.rebuilds hy.rebuilds

theorem counted_nil : Counted [] := ⟨Nat.le_refl _, Nat.le_refl _⟩

variable {T : JsonText}

/-- A reset stores nothing, bumps nothing, and rebuilds once at most. -/
theorem resetForEdit_trace (mode jobId : String) (manifest : JobManifest) (db : Db) :
    let calls := (resetForEdit mode jobId manifest).trace (DbCall.exec T) db
    calls.countP stores = 0 ∧ calls.countP bumps = 0 ∧ calls.countP rebuilds ≤ 1 := by
  unfold resetForEdit
  split
  · exact ⟨rfl, rfl, Nat.zero_le _⟩
  · split
    · exact ⟨rfl, rfl, Nat.le_refl _⟩
    · exact ⟨rfl, rfl, Nat.zero_le _⟩

/-- The calls of an edit that resets the job. -/
theorem counted_reset {jobId manifestJson : String} {priority : Int} {reset : List DbCall}
    (hstores : reset.countP stores = 0) (hbumps : reset.countP bumps = 0)
    (hrebuilds : reset.countP rebuilds ≤ 1) :
    let calls : List DbCall := .getJob jobId :: .updateJobPriority jobId priority ::
      .updateJobManifest jobId manifestJson :: .getAssignedNodes jobId ::
      .bumpEditEpoch jobId :: (reset ++ [.updateJobState jobId .active])
    Counted calls ∧ calls.countP stores = 1 := by
  refine ⟨⟨?_, ?_⟩, ?_⟩
  · simp [hstores, hbumps, List.countP_cons, stores, bumps]
  · simpa [hstores, List.countP_cons, stores, rebuilds] using hrebuilds
  · simp [hstores, List.countP_cons, stores]

/-- **The calls of one edit.** It stores one manifest where it is applied and
none where it is refused. -/
theorem applyEditLocally_trace {dbOpen : Bool} {jobId manifestJson mode : String}
    {priority : Int} {db : Db} {o : EditOutcome}
    (h : ((applyEditLocally T dbOpen jobId manifestJson mode priority).run
      (DbCall.exec T) db).1 = some o) :
    let calls := (applyEditLocally T dbOpen jobId manifestJson mode priority).trace
      (DbCall.exec T) db
    Counted calls ∧
      calls.countP stores = if o.result.code = .applied then 1 else 0 := by
  unfold applyEditLocally at h ⊢
  cases dbOpen with
  | false =>
      cases h
      exact ⟨counted_nil, rfl⟩
  | true =>
      rw [Bool.not_true, if_neg Bool.false_ne_true] at h ⊢
      cases hm : editManifest T jobId manifestJson with
      | error result =>
          rw [hm] at h
          cases h
          refine ⟨counted_nil, ?_⟩
          rw [editManifest_code hm]
          rfl
      | ok manifest =>
          rw [hm] at h
          simp only [query] at h ⊢
          rw [Prog.ask_bind, Prog.run_call] at h
          rw [Prog.ask_bind, Prog.trace_call]
          split at h
          · rename_i hnone
            rw [if_pos hnone]
            cases h
            exact ⟨⟨Nat.le_refl _, Nat.le_refl _⟩, rfl⟩
          · rename_i hsome
            rw [if_neg hsome]
            -- the job is stored: its priority and manifest are written
            rw [Prog.ask_bind, Prog.run_call, Prog.ask_bind, Prog.run_call] at h
            rw [Prog.ask_bind, Prog.trace_call, Prog.ask_bind, Prog.trace_call]
            split at h
            · rename_i hmode
              -- a restart or a startover: the epoch goes up before the reset
              rw [if_pos hmode]
              rw [Prog.ask_bind, Prog.run_call, Prog.ask_bind, Prog.run_call,
                Prog.run_bind] at h
              rw [Prog.ask_bind, Prog.trace_call, Prog.ask_bind, Prog.trace_call,
                Prog.trace_bind]
              generalize (DbCall.exec T (.bumpEditEpoch jobId) _).2 = db₁ at h ⊢
              obtain ⟨hstores, hbumps, hrebuilds⟩ :=
                resetForEdit_trace (T := T) mode jobId manifest db₁
              generalize (resetForEdit mode jobId manifest).run (DbCall.exec T) db₁ = r at h ⊢
              obtain ⟨done, db'⟩ := r
              cases done with
              | none => cases h
              | some u =>
                  cases h
                  generalize (resetForEdit mode jobId manifest).trace (DbCall.exec T) db₁ =
                    reset at hstores hbumps hrebuilds ⊢
                  rw [Prog.ask_bind, Prog.trace_call, Prog.pure_eq, Prog.trace_done]
                  exact counted_reset hstores hbumps hrebuilds
            · rename_i hmode
              rw [if_neg hmode]
              cases h
              exact ⟨⟨Nat.zero_le _, Nat.zero_le _⟩, rfl⟩

/-! ## The farm -/

structure Node where
  isLeader : Bool := false
  leaderDbReady : Bool := false
  /-- The open database. -/
  db : Option Db := none

inductive Phase
  | before
  | waiting
  | over (done : EditDone)
deriving DecidableEq

structure Farm where
  nodes : String → Node := fun _ => {}
  phase : Phase := .before
  /-- The POST, until it arrives or is lost. -/
  request : Option Json := none
  answer : Option EditAnswer := none
  /-- The command in the folder, not moved to `processed`. -/
  commandFile : Option Json := none
  /-- Who has read the command and not handled it yet. -/
  hands : List (String × Json) := []
  /-- All calls `applyEditLocally` made for the edit, on any node. -/
  log : List DbCall := []
  /-- The POST was applied. -/
  posted : Bool := false

inductive Event
  /-- Elections, openings and all other work on a node's database. -/
  | node (nodeId : String) (k : Node)
  /-- `share` counts where no leader is known. -/
  | editJob (leaderKnown : Bool) (share : Share)
  | requestArrives (nodeId : String)
  /-- An older server has no such route. -/
  | requestRefused
  | requestLost
  | answerArrives
  /-- No connection, a lost answer, or the read times out. -/
  | noAnswer (share : Share)
  /-- `pollFarmCommands` reads the file. -/
  | opens (nodeId : String)
  /-- It applies and acknowledges what it has read. -/
  | handles (nodeId : String) (nowMs : Int) (renames removes : Bool)
  | restarts (nodeId : String)

namespace Farm

/-- A program for the edit runs on a node's database. -/
def serve {α : Type} (T : JsonText) (s : Farm) (nodeId : String) (p : DbProg α) : α × Farm :=
  let k := s.nodes nodeId
  let r := p.run (DbCall.exec T) (k.db.getD .empty)
  (r.1, { s with
    nodes := Function.update s.nodes nodeId { k with db := k.db.map fun _ => r.2 }
    log := s.log ++ p.trace (DbCall.exec T) (k.db.getD .empty) })

/-- The node has the command no longer in hand. -/
def putDown (s : Farm) (nodeId : String) : Farm :=
  { s with hands := s.hands.filter (·.1 ≠ nodeId) }

end Farm

/-- `editJob` and its callback, on the worker `e.nodeId`. -/
def callStep (T : JsonText) (e : EditCall) (s : Farm) (leaderKnown : Bool) (share : Share) :
    Farm :=
  match T.parse e.manifestJson with
  | none => { s with phase := .over (.invalidManifest (T.what e.manifestJson)) }
  | some manifest =>
      if leaderKnown then { s with phase := .waiting, request := some (e.body manifest) }
      else
        let r := editUnanswered T e share
        { s with phase := .over r.1, commandFile := r.2 }

/-- The handler of the POST. -/
def requestStep (T : JsonText) (e : EditCall) (s : Farm) (nodeId : String) (body : Json) :
    Option Farm :=
  let k := s.nodes nodeId
  let r := s.serve T nodeId (HttpServer.postEdit T k.isLeader k.db.isSome e.jobId body)
  r.1.map fun answer =>
    { r.2 with
      request := none
      answer := some answer
      posted := s.posted || decide (s.log.countP stores < r.2.log.countP stores) }

/-- One turn of the loop of `pollFarmCommands`. -/
def handleStep (T : JsonText) (s : Farm) (nodeId : String) (cmd : Json) (nowMs : Int)
    (renames removes : Bool) : Option Farm :=
  let file : WatchedFile := { name := "", text := T.dump cmd, renames, removes }
  let r := s.serve T nodeId (handleParsed T (s.nodes nodeId).db.isSome nowMs file cmd)
  match r.1 with
  | .undefined => none
  | .raised _ => some (r.2.putDown nodeId)
  | .done gone _ =>
      some { r.2.putDown nodeId with
        commandFile := if gone then none else s.commandFile }

def step (T : JsonText) (e : EditCall) (s : Farm) : Event → Option Farm
  | .node n k => some { s with nodes := Function.update s.nodes n k }
  | .editJob leaderKnown share =>
      if s.phase = .before then some (callStep T e s leaderKnown share) else none
  | .requestArrives n => s.request.bind fun body => requestStep T e s n body
  | .requestRefused => s.request.map fun _ =>
      { s with request := none, answer := some .noRoute }
  | .requestLost => s.request.map fun _ => { s with request := none }
  | .answerArrives =>
      if s.phase = .waiting then
        s.answer.map fun answer =>
          { s with phase := .over (editAnswered answer), answer := none }
      else none
  | .noAnswer share =>
      if s.phase = .waiting then
        let r := editUnanswered T e share
        some { s with phase := .over r.1, commandFile := r.2, answer := none }
      else none
  | .opens n =>
      let k := s.nodes n
      -- one thread polls: a node has one command in hand at a time
      if k.isLeader ∧ k.leaderDbReady ∧ k.db.isSome ∧ n ∉ s.hands.map (·.1) then
        s.commandFile.map fun cmd => { s with hands := (n, cmd) :: s.hands }
      else none
  | .handles n nowMs renames removes =>
      (s.hands.lookup n).bind fun cmd => handleStep T s n cmd nowMs renames removes
  | .restarts n => some ({ s with nodes := Function.update s.nodes n {} }.putDown n)

def machine (T : JsonText) (e : EditCall) : Machine Farm Event := ⟨step T e⟩

/-- Before the call. -/
def start : Farm := {}

/-! ## Performed at most once -/

/-- The edit was performed once at most, on whatever node; so was its epoch
bump, and its rebuild. -/
structure AtMostOnce (s : Farm) : Prop where
  performed : s.log.countP stores ≤ 1
  bumped : s.log.countP bumps ≤ 1
  rebuilt : s.log.countP rebuilds ≤ 1

/-- The command is current, and the database takes its edit. -/
def Applies (T : JsonText) (db : Db) (nowMs : Int) (cmd : Json) : Prop :=
  ∃ edit, readCommand T nowMs cmd = .ok (.ok edit) ∧
    editCode T db edit.jobId edit.manifestJson edit.mode = some .applied

/-- The fallback is written only for a POST that was not applied and is no
longer on its way; and a leader that applies the command moves or removes its
file, while no other leader has the command in hand. -/
def Careful (T : JsonText) (e : EditCall) (s : Farm) (ev : Event) (_ : Farm) : Prop :=
  match ev with
  | .noAnswer share => share.farmRunning = true → share.takes = true → e.jobId ≠ "" →
      s.posted = false ∧ s.request = none
  | .handles n nowMs renames removes =>
      ∀ cmd db, s.hands.lookup n = some cmd → (s.nodes n).db = some db →
        Applies T db nowMs cmd →
          (renames = true ∨ removes = true) ∧ ∀ h ∈ s.hands, h.1 = n
  | _ => True

/-! ## What the handlers do -/

variable {e : EditCall} {s s' : Farm} {ev : Event}

/-- The POST's handler performs one edit at most. -/
theorem postEdit_trace {isLeader dbOpen : Bool} {jobId : String} {body : Json} {db : Db}
    {answer : EditAnswer}
    (h : ((HttpServer.postEdit T isLeader dbOpen jobId body).run (DbCall.exec T) db).1 =
      some answer) :
    let calls := (HttpServer.postEdit T isLeader dbOpen jobId body).trace (DbCall.exec T) db
    Counted calls ∧ calls.countP stores ≤ 1 := by
  unfold HttpServer.postEdit at h ⊢
  cases isLeader with
  | false => exact ⟨counted_nil, Nat.zero_le _⟩
  | true =>
      rw [Bool.not_true, if_neg Bool.false_ne_true] at h ⊢
      cases hread : HttpServer.readEdit body with
      | error e => exact ⟨counted_nil, Nat.zero_le _⟩
      | ok read =>
          obtain ⟨manifest, mode, priority⟩ := read
          rw [hread] at h
          simp only at h ⊢
          rw [Prog.run_bind] at h
          rw [Prog.trace_bind, Prog.pure_eq, Prog.trace_done, List.append_nil]
          obtain ⟨outcome, houtcome, -⟩ := Option.map_eq_some_iff.mp h
          obtain ⟨hcounted, hstores⟩ := applyEditLocally_trace houtcome
          refine ⟨hcounted, ?_⟩
          rw [hstores]
          split
          · exact Nat.le_refl _
          · exact Nat.zero_le _

/-- The issuer of the application's own commands can be read. -/
theorem commandFate_command {manifest : Json} {issuedAt : Int} {file : WatchedFile}
    {o : EditOutcome} (ho : o.result.code = .applied) :
    commandFate file (e.command manifest issuedAt) (some o) = ack file "" (some o) := by
  unfold commandFate
  simp only [ho]
  rfl

/-- And so can all the rest of them. -/
theorem readCommand_command (e : EditCall) (manifest : Json) (issuedAt nowMs : Int) :
    ∃ r, readCommand T nowMs (e.command manifest issuedAt) = .ok r := by
  refine returns_iff.mp (ExternalInputs.returns_readCommand.mpr
    ⟨rfl, fun v hv => ?_, fun _ v hv => ?_, fun _ => ⟨fun v hv => ?_, fun v hv => ?_,
      fun v hv => ?_⟩⟩)
  all_goals cases hv; rfl

/-- A refused edit leaves its file or acknowledges it. -/
theorem commandFate_refused (file : WatchedFile) (cmd : Json) {o : EditOutcome}
    (ho : o.result.code ≠ .applied) :
    ∃ gone result, commandFate file cmd (some o) = .done gone result := by
  unfold commandFate
  cases hcode : o.result.code with
  | applied => exact absurd hcode ho
  | dbUnavailable => exact ⟨_, _, by simp only [hcode]; rfl⟩
  | invalidManifest | jobNotFound => exact ⟨_, _, by simp only [hcode]; rfl⟩

/-- **One turn of the poll.** A command of the application is handled with no
edit, or with one, which its leader's database takes; then the file goes with
the acknowledgement. -/
theorem handleParsed_trace (e : EditCall) (manifest : Json) (issuedAt nowMs : Int)
    (file : WatchedFile) (db : Option Db) :
    let p := handleParsed T db.isSome nowMs file (e.command manifest issuedAt)
    let calls := p.trace (DbCall.exec T) (db.getD .empty)
    (p.run (DbCall.exec T) (db.getD .empty)).1 = .undefined ∨
      ∃ gone result, (p.run (DbCall.exec T) (db.getD .empty)).1 = .done gone result ∧
        Counted calls ∧ (calls.countP stores = 0 ∨
          calls.countP stores = 1 ∧ gone = (file.renames || file.removes) ∧
          ∃ d, db = some d ∧ Applies T d nowMs (e.command manifest issuedAt)) := by
  unfold handleParsed
  obtain ⟨read, hread⟩ := readCommand_command (T := T) e manifest issuedAt nowMs
  simp only [hread]
  cases read with
  | error why => exact .inr ⟨_, _, rfl, counted_nil, .inl rfl⟩
  | ok edit =>
      simp only
      rw [Prog.run_bind, Prog.trace_bind, Prog.pure_eq, Prog.trace_done, List.append_nil,
        Prog.run_done]
      cases ho : ((applyEditLocally T db.isSome edit.jobId edit.manifestJson edit.mode
          edit.priority).run (DbCall.exec T) (db.getD .empty)).1 with
      | none => exact .inl rfl
      | some o =>
          obtain ⟨hcounted, hstores⟩ := applyEditLocally_trace ho
          by_cases happlied : o.result.code = .applied
          · rw [if_pos happlied] at hstores
            rw [commandFate_command happlied]
            refine .inr ⟨_, _, rfl, hcounted, .inr ⟨hstores, rfl, ?_⟩⟩
            cases db with
            | none =>
                -- without a database there is no edit to apply
                cases ho
                cases happlied
            | some d =>
                refine ⟨d, rfl, edit, hread, ?_⟩
                have hcode := @applyEditLocally_code T edit.jobId edit.manifestJson
                  edit.mode edit.priority d
                have ho : ((applyEditLocally T true edit.jobId edit.manifestJson edit.mode
                  edit.priority).run (DbCall.exec T) d).1 = some o := ho
                rw [ho] at hcode
                rw [← hcode, Option.map_some, happlied]
          · rw [if_neg happlied] at hstores
            obtain ⟨gone, result, hfate⟩ := commandFate_refused file
              (e.command manifest issuedAt) happlied
            rw [hfate]
            exact .inr ⟨gone, result, rfl, hcounted, .inl hstores⟩

/-! ## The edit's tokens -/

/-- One for a command in the folder or in a hand. -/
def commandsLeft (file : Option Json) (hands : List (String × Json)) : Nat :=
  if file.isSome ∨ hands ≠ [] then 1 else 0

theorem commandsLeft_le_one (file : Option Json) (hands : List (String × Json)) :
    commandsLeft file hands ≤ 1 := by
  unfold commandsLeft
  split
  · exact Nat.le_refl _
  · exact Nat.zero_le _

theorem commandsLeft_of_mem {file : Option Json} {hands : List (String × Json)}
    {h : String × Json} (hmem : h ∈ hands) : commandsLeft file hands = 1 :=
  if_pos (.inr (List.ne_nil_of_mem hmem))

/-- How many performances are still to come, with one for a POST on its way. -/
def pending (s : Farm) : Nat :=
  s.request.toList.length + commandsLeft s.commandFile s.hands

/-- The value is a command of this call. -/
def IsCommand (e : EditCall) (cmd : Json) : Prop :=
  ∃ manifest nowMs, cmd = e.command manifest nowMs

/-- **The invariant.** What was performed and what may still be are one
together. Until the call is over nothing is in the folder, and what was
performed came by the POST. -/
structure Inv (e : EditCall) (s : Farm) : Prop where
  counted : Counted s.log
  budget : s.log.countP stores + pending s ≤ 1
  before : s.phase = .before → s.log.countP stores = 0 ∧ s.request = none
  unwritten : s.phase = .before ∨ s.phase = .waiting → s.commandFile = none ∧ s.hands = []
  posted : s.phase = .waiting → s.posted = false → s.log.countP stores = 0
  file : ∀ cmd, s.commandFile = some cmd → IsCommand e cmd
  hands : ∀ h ∈ s.hands, IsCommand e h.2

theorem inv_start (e : EditCall) : Inv e start where
  counted := counted_nil
  budget := by decide
  before := fun _ => ⟨rfl, rfl⟩
  unwritten := fun _ => ⟨rfl, rfl⟩
  posted := fun _ _ => rfl
  file := fun _ h => by cases h
  hands := fun _ h => by cases h

/-- The property follows. -/
theorem Inv.atMostOnce (h : Inv e s) : AtMostOnce s := by
  have hstores : s.log.countP stores ≤ 1 := Nat.le_trans (Nat.le_add_right _ _) h.budget
  exact ⟨hstores, Nat.le_trans h.counted.bumps hstores,
    Nat.le_trans h.counted.rebuilds hstores⟩

/-- A command of the call is what `writeEditCommand` writes. -/
theorem writeEditCommand_command {share : Share} {cmd : Json}
    (h : writeEditCommand T e share = some cmd) :
    IsCommand e cmd ∧ share.farmRunning = true ∧ share.takes = true ∧ e.jobId ≠ "" := by
  unfold writeEditCommand at h
  split at h
  · cases h
  · rename_i hshare
    obtain ⟨hfarm, hjob⟩ := not_or.mp hshare
    split at h
    · cases h
    · rename_i manifest _
      split at h
      · rename_i htakes
        cases h
        exact ⟨⟨manifest, share.nowMs, rfl⟩, by simpa using hfarm, htakes, hjob⟩
      · cases h

/-- The call ends. -/
theorem Inv.over {done : EditDone} {answer : Option EditAnswer} (h : Inv e s) :
    Inv e { s with phase := .over done, answer := answer } :=
  { h with
    before := fun hp => (by cases hp)
    unwritten := fun hp => (by cases hp <;> contradiction)
    posted := fun hp => (by cases hp) }

/-- Where a command was written the call is over. -/
theorem Inv.written (h : Inv e s) (hwritten : s.commandFile ≠ none ∨ s.hands ≠ []) :
    ¬ (s.phase = .before ∨ s.phase = .waiting) := by
  intro hphase
  obtain ⟨hfile, hhands⟩ := h.unwritten hphase
  rcases hwritten with hw | hw
  · exact hw hfile
  · exact hw hhands

/-- Without an answer the call ends, with the command in the folder or
nothing. -/
theorem inv_unanswered {share : Share} (h : Inv e s)
    (hphase : s.phase = .before ∨ s.phase = .waiting)
    (hcareful : share.farmRunning = true → share.takes = true → e.jobId ≠ "" →
      s.log.countP stores = 0 ∧ s.request = none) {answer : Option EditAnswer} :
    Inv e { s with
      phase := .over (editUnanswered T e share).1
      commandFile := (editUnanswered T e share).2
      answer := answer } := by
  unfold editUnanswered
  cases hwrite : writeEditCommand T e share with
  | none =>
      show Inv e { s with phase := .over .noResponse, commandFile := none, answer := answer }
      rw [← (h.unwritten hphase).1]
      exact h.over
  | some cmd =>
      obtain ⟨hcmd, hfarm, htakes, hjob⟩ := writeEditCommand_command hwrite
      obtain ⟨hstores, hrequest⟩ := hcareful hfarm htakes hjob
      refine { (h.over : Inv e { s with phase := .over .queuedToShare, answer := answer }) with
        budget := ?_
        unwritten := fun hp => (by cases hp <;> contradiction)
        file := fun c hc => ?_ }
      · show s.log.countP stores + (s.request.toList.length + commandsLeft _ _) ≤ 1
        rw [hstores, hrequest]
        exact Nat.le_trans (Nat.le_of_eq (by simp)) (commandsLeft_le_one (some cmd) s.hands)
      · cases hc
        exact hcmd

theorem inv_requestStep {n : String} {body : Json} (h : Inv e s) (hr : s.request = some body)
    (hstep : requestStep T e s n body = some s') : Inv e s' := by
  unfold requestStep at hstep
  obtain ⟨answer, hanswer, rfl⟩ := Option.map_eq_some_iff.mp hstep
  obtain ⟨hcounted, hone⟩ := postEdit_trace hanswer
  have hbudget := h.budget
  have hbefore : s.phase ≠ .before := by
    intro hp
    rw [(h.before hp).2] at hr
    cases hr
  -- the POST is the one pending performance, so none came before it
  unfold pending at hbudget
  rw [hr, Option.toList_some, List.length_singleton] at hbudget
  have hnone : s.log.countP stores = 0 := by omega
  refine {
    counted := h.counted.append hcounted
    budget := ?_
    before := fun hp => absurd hp hbefore
    unwritten := h.unwritten
    posted := fun _ hposted => ?_
    file := h.file
    hands := h.hands }
  · have hrest : commandsLeft s.commandFile s.hands = 0 := by omega
    show (s.log ++ _).countP stores + (0 + commandsLeft s.commandFile s.hands) ≤ 1
    rw [List.countP_append, hnone, hrest]
    simpa using hone
  · obtain ⟨-, hsame⟩ := Bool.or_eq_false_iff.mp hposted
    have hsame := of_decide_eq_false hsame
    rw [hnone] at hsame
    exact Nat.eq_zero_of_not_pos hsame

theorem inv_handleStep {n : String} {cmd : Json} {nowMs : Int} {renames removes : Bool}
    (h : Inv e s) (hhand : s.hands.lookup n = some cmd)
    (hcareful : ∀ db, (s.nodes n).db = some db → Applies T db nowMs cmd →
      (renames = true ∨ removes = true) ∧ ∀ h ∈ s.hands, h.1 = n)
    (hstep : handleStep T s n cmd nowMs renames removes = some s') : Inv e s' := by
  have hmem : (n, cmd) ∈ s.hands := by
    obtain ⟨before, after, hsplit, -⟩ := List.lookup_eq_some_iff.mp hhand
    rw [hsplit]
    exact List.mem_append_right _ List.mem_cons_self
  obtain ⟨manifest, issuedAt, hcmd⟩ := h.hands _ hmem
  have hcmd : cmd = e.command manifest issuedAt := hcmd
  subst hcmd
  have hover := h.written (.inr (List.ne_nil_of_mem hmem))
  have hbudget := h.budget
  unfold pending at hbudget
  rw [commandsLeft_of_mem hmem] at hbudget
  unfold handleStep at hstep
  dsimp only at hstep
  have htrace := handleParsed_trace (T := T) e manifest issuedAt nowMs
    ⟨"", T.dump (e.command manifest issuedAt), renames, removes⟩ (s.nodes n).db
  -- a startover whose range overflows, or one turn with one edit at most
  rcases htrace with hundefined | ⟨gone, result, hdone, hcounted, hcalls⟩
  · rw [show (s.serve T n _).1 = _ from hundefined] at hstep
    cases hstep
  · rw [show (s.serve T n _).1 = _ from hdone] at hstep
    cases hstep
    refine {
      counted := h.counted.append hcounted
      budget := ?_
      before := fun hp => absurd (.inl hp) hover
      unwritten := fun hp => absurd hp hover
      posted := fun hp => absurd (.inr hp) hover
      file := fun c hc => ?_
      hands := fun m hm => h.hands m (List.mem_filter.mp hm).1 }
    · show (s.log ++ _).countP stores + (s.request.toList.length +
        commandsLeft (if gone then none else s.commandFile) (s.hands.filter (·.1 ≠ n))) ≤ 1
      rw [List.countP_append]
      rcases hcalls with hzero | ⟨hone, hgone, d, hd, happlies⟩
      · have hleft := commandsLeft_le_one (if gone then none else s.commandFile)
          (s.hands.filter (·.1 ≠ n))
        omega
      · -- it was applied: the file goes, and nobody else has it
        obtain ⟨hack, hothers⟩ := hcareful d hd happlies
        have hgone : gone = true := by
          rw [hgone]
          exact Bool.or_eq_true_iff.mpr hack
        have hempty : s.hands.filter (·.1 ≠ n) = [] := by
          rw [List.filter_eq_nil_iff]
          intro m hm
          simpa using hothers m hm
        rw [hone, hempty, if_pos hgone]
        show _ + 1 + (_ + 0) ≤ 1
        omega
    · have hc : (if gone then none else s.commandFile) = some c := hc
      split at hc
      · cases hc
      · exact h.file c hc

theorem inv_callStep {leaderKnown : Bool} {share : Share} (h : Inv e s)
    (hphase : s.phase = .before) : Inv e (callStep T e s leaderKnown share) := by
  obtain ⟨hstores, hrequest⟩ := h.before hphase
  obtain ⟨hfile, hhands⟩ := h.unwritten (.inl hphase)
  unfold callStep
  split
  · exact h.over
  · split
    · refine { h with
        budget := ?_
        before := fun hp => (by cases hp)
        unwritten := fun _ => ⟨hfile, hhands⟩
        posted := fun _ _ => hstores }
      show s.log.countP stores + (1 + commandsLeft s.commandFile s.hands) ≤ 1
      rw [hstores, hfile, hhands]
      exact Nat.le_refl _
    · exact inv_unanswered h (.inl hphase) (fun _ _ _ => ⟨hstores, hrequest⟩)

/-- Without the POST the rest is as it was. -/
theorem inv_requestGone {answer : Option EditAnswer} (h : Inv e s) :
    Inv e { s with request := none, answer := answer } := by
  refine { h with
    budget := ?_
    before := fun hp => ⟨(h.before hp).1, rfl⟩ }
  have hbudget := h.budget
  unfold pending at hbudget
  show s.log.countP stores + (0 + commandsLeft s.commandFile s.hands) ≤ 1
  omega

theorem inv_opens (h : Inv e s) (n : String) {cmd : Json} (hcmd : s.commandFile = some cmd) :
    Inv e { s with hands := (n, cmd) :: s.hands } := by
  have hover := h.written (.inl (by simp [hcmd]))
  refine { h with
    budget := ?_
    unwritten := fun hp => absurd hp hover
    hands := fun m hm => ?_ }
  · -- the file itself already counts for one
    have hbudget := h.budget
    unfold pending at hbudget
    rw [hcmd, show commandsLeft (some cmd) s.hands = 1 from if_pos (.inl rfl)] at hbudget
    show _ + (s.request.toList.length + commandsLeft s.commandFile ((n, cmd) :: s.hands)) ≤ 1
    rw [commandsLeft_of_mem List.mem_cons_self]
    exact hbudget
  · rcases List.mem_cons.mp hm with rfl | hm
    · exact h.file cmd hcmd
    · exact h.hands m hm

/-- What was in hand is lost; its file stays to be read again. -/
theorem inv_putDown (h : Inv e s) (n : String) : Inv e (s.putDown n) := by
  refine { h with
    budget := ?_
    unwritten := fun hp => ?_
    hands := fun m hm => h.hands m (List.mem_filter.mp hm).1 }
  · refine Nat.le_trans ?_ h.budget
    refine Nat.add_le_add_left (Nat.add_le_add_left ?_ _) _
    show commandsLeft s.commandFile (s.hands.filter (·.1 ≠ n)) ≤ _
    cases hhands : s.hands with
    | nil => exact Nat.le_refl _
    | cons m rest =>
        rw [commandsLeft_of_mem List.mem_cons_self]
        exact commandsLeft_le_one _ _
  · obtain ⟨hfile, hhands⟩ := h.unwritten hp
    refine ⟨hfile, ?_⟩
    show s.hands.filter _ = []
    rw [hhands]
    rfl

/-- **Step rule.** A careful step keeps the invariant. -/
theorem inv_step (h : Inv e s) (hstep : step T e s ev = some s')
    (hcareful : Careful T e s ev s') : Inv e s' := by
  cases ev with
  | node n k =>
      cases hstep
      exact { h with }
  | editJob leaderKnown share =>
      simp only [step] at hstep
      split at hstep
      · rename_i hphase
        cases hstep
        exact inv_callStep h hphase
      · cases hstep
  | requestArrives n =>
      obtain ⟨body, hbody, hstep⟩ := Option.bind_eq_some_iff.mp hstep
      exact inv_requestStep h hbody hstep
  | requestRefused | requestLost =>
      obtain ⟨body, hbody, rfl⟩ := Option.map_eq_some_iff.mp hstep
      exact inv_requestGone h
  | answerArrives =>
      simp only [step] at hstep
      split at hstep
      · obtain ⟨answer, -, rfl⟩ := Option.map_eq_some_iff.mp hstep
        exact h.over
      · cases hstep
  | noAnswer share =>
      simp only [step] at hstep
      split at hstep
      · rename_i hphase
        cases hstep
        refine inv_unanswered h (.inr hphase) fun hfarm htakes hjob => ?_
        obtain ⟨hposted, hrequest⟩ := hcareful hfarm htakes hjob
        exact ⟨h.posted hphase hposted, hrequest⟩
      · cases hstep
  | opens n =>
      simp only [step] at hstep
      split at hstep
      · obtain ⟨cmd, hcmd, rfl⟩ := Option.map_eq_some_iff.mp hstep
        exact inv_opens h n hcmd
      · cases hstep
  | handles n nowMs renames removes =>
      obtain ⟨cmd, hcmd, hstep⟩ := Option.bind_eq_some_iff.mp hstep
      exact inv_handleStep h hcmd (fun db hdb => hcareful cmd db hcmd hdb) hstep
  | restarts n =>
      cases hstep
      have hnode : Inv e { s with nodes := Function.update s.nodes n {} } := { h with }
      exact inv_putDown hnode n

/-! ## Runs -/

/-- **An edit is performed at most once where it is handed on with care.** For
one call of `editJob` and every interleaving of deliveries, losses, timeouts,
elections, polls and restarts: if the fallback is written only for a POST that
was not applied and is no longer on its way, and a leader that applies the
command moves or removes its file while no other has it in hand, then in every
state the edit was performed, its epoch bumped and its chunks rebuilt at most
once. -/
theorem performed_at_most_once (T : JsonText) (e : EditCall) (es : List Event)
    (h : (machine T e).Along (Careful T e) start es) :
    (machine T e).Along (fun _ _ s' => AtMostOnce s') start es := by
  have hkeeps : ∀ s ev s', Inv e s → (machine T e).step s ev = some s' →
      Careful T e s ev s' → AtMostOnce s' ∧ Inv e s' := by
    intro s ev s' hs hstep hcareful
    have hs' : Inv e s' := inv_step hs hstep hcareful
    exact ⟨hs'.atMostOnce, hs'⟩
  exact Machine.Along.mono hkeeps (inv_start e) h

/-- A restart of the job `shot`. -/
def restartShot : EditCall :=
  { jobId := "shot", manifestJson := shotManifest, mode := "restart", priority := 50,
    nodeId := "w" }

/-- A database with that job. -/
def shotDb : Db :=
  (DbCall.insertJob { jobId := "shot", manifestJson := shotManifest }).after shotText .empty

/-- A leader with it. -/
def leading : Event := .node "a" { isLeader := true, leaderDbReady := true, db := some shotDb }

/-- The POST is lost; the leader finds the command and applies it. -/
def fallenBack : List Event :=
  [leading, .editJob true {}, .requestLost, .noAnswer { nowMs := 1000 }, .opens "a",
    .handles "a" 4000 true true]

/-- A test of one step that `Careful` follows from. -/
def carefulStep (s : Farm) : Event → Bool
  | .noAnswer _ => !s.posted && s.request.isNone
  | .handles n _ renames _ => renames && s.hands.all (·.1 = n)
  | _ => true

theorem careful_of_carefulStep (htest : carefulStep s ev = true) : Careful T e s ev s' := by
  cases ev with
  | noAnswer share =>
      obtain ⟨hposted, hrequest⟩ := Bool.and_eq_true_iff.mp htest
      exact fun _ _ _ => ⟨by simpa using hposted, by simpa using hrequest⟩
  | handles n nowMs renames removes =>
      obtain ⟨hrenames, hothers⟩ := Bool.and_eq_true_iff.mp htest
      exact fun _ _ _ _ _ => ⟨.inl hrenames, by simpa using hothers⟩
  | _ => trivial

theorem fallen_back_once : (machine shotText restartShot).Along
    (fun _ _ s' => AtMostOnce s') start fallenBack :=
  performed_at_most_once shotText restartShot fallenBack
    (Machine.Along.of_check (fun s ev _ => carefulStep s ev)
      (fun _ _ _ htest => careful_of_carefulStep htest) (by decide))

/-- The leader applies the POST, its answer is lost, and the leader finds the
command. -/
def answerLost : List Event :=
  [leading, .editJob true {}, .requestArrives "a", .noAnswer { nowMs := 1000 }, .opens "a"]

/-- **A lost answer has the edit performed twice.** -/
theorem lost_answer_performs_twice :
    ¬ ∀ (e : EditCall) (es : List Event),
      (machine shotText e).Along (fun _ _ s' => AtMostOnce s') start es := by
  intro h
  refine Machine.Along.refute answerLost (.handles "a" 4000 true true)
    (fun _ u => decide (1 < u.log.countP stores)) ?_ (by decide) (h restartShot _)
  intro t u hbad hgood
  exact absurd hgood.performed (Nat.not_le.mpr (of_decide_eq_true hbad))

end EditCommands

end MinRender
