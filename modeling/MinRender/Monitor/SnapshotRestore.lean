import MinRender.Monitor.Schema

/-!
# Restoring the database from a snapshot

A new leader copies the farm's snapshot over its own database file and opens
it. Whatever lies beside that file stays there: a write-ahead log of the old
database is replayed into the copy. What SQLite makes of the bytes of its files
is a parameter here; `createSchema` is not.
-/

namespace MinRender.SnapshotRestore

/-! ## The schema -/

/-- The columns `createSchema` adds to tables that do not have them. -/
structure Columns where
  completedFrames : Bool := true
  failedOn : Bool := true
  sortKey : Bool := true
  jobEpoch : Bool := true
  chunkEpoch : Bool := true
deriving DecidableEq

/-- The tables in a database file. Of a column the file does not have the rows
below hold nothing that is looked at; a missing table is an empty one. -/
structure Tables where
  db : Db
  columns : Columns := {}

/-- `ALTER TABLE chunks ADD COLUMN`, which fails where the column is there. -/
def addToChunks (has : Bool) (default : ChunkRecord → ChunkRecord)
    (hid : ∀ c, (default c).id = c.id) (hjob : ∀ c, (default c).jobId = c.jobId) (db : Db) : Db :=
  if has then db else db.updateChunks (fun _ => true) default hid hjob

/-- `ALTER TABLE jobs ADD COLUMN`. -/
def addToJobs (has : Bool) (default : JobRecord → JobRecord)
    (hid : ∀ j, (default j).jobId = j.jobId) (db : Db) : Db :=
  if has then db else db.updateJobs (fun _ => true) default hid

/-- `UPDATE jobs SET sort_key = submitted_at_ms WHERE sort_key IS NULL`. -/
def fillSortKey (db : Db) : Db :=
  db.updateJobs (·.sortKey.isNone) fun j => { j with sortKey := some j.submittedAtMs }

/-- The migrations, in the order of the source. -/
def createSchema (t : Tables) : Db :=
  let db := addToChunks t.columns.completedFrames (fun c => { c with completedFrames := [] })
    (fun _ => rfl) (fun _ => rfl) t.db
  let db := addToChunks t.columns.failedOn (fun c => { c with failedOn := [] })
    (fun _ => rfl) (fun _ => rfl) db
  let db := addToJobs t.columns.sortKey (fun j => { j with sortKey := none }) (fun _ => rfl) db
  let db := fillSortKey db
  let db := addToJobs t.columns.jobEpoch (fun j => { j with editEpoch := 0 }) (fun _ => rfl) db
  addToChunks t.columns.chunkEpoch (fun c => { c with editEpoch := 0 })
    (fun _ => rfl) (fun _ => rfl) db

/-! ## SQLite and its files -/

/-- The local database file and the write-ahead log beside it. -/
structure Files (F : Type) where
  main : Option F
  wal : Option F

/-- SQLite, as far as opening a database goes. -/
structure Sqlite (F : Type) where
  /-- The tables of a database file, `none` where it is malformed. -/
  tables? : F → Option Tables
  validLog : F → Bool
  /-- A log put into a database file. -/
  replay : F → F → F
  /-- The files with a database committed to them. -/
  stored : Files F → Db → Files F
  /-- The files after a connection that found them malformed. -/
  closed : Files F → Files F

variable {F : Type}

/-- What a connection finds: a missing file is created, a valid log replayed. -/
def Sqlite.read (S : Sqlite F) (files : Files F) : Option Tables :=
  match files.main with
  | none => some { db := Db.empty }
  | some main =>
      match files.wal with
      | none => S.tables? main
      | some log => if S.validLog log then S.tables? (S.replay log main) else S.tables? main

/-- What is assumed of SQLite: a committed database is read back, and what
was malformed stays so. -/
structure Sqlite.Lawful (S : Sqlite F) : Prop where
  read_stored : ∀ files db, S.read (S.stored files db) = some { db }
  read_closed : ∀ files, S.read files = none → S.read (S.closed files) = none

/-! ## Opening and restoring -/

/-- The files of a node and what it has open: nothing, when it becomes leader. -/
structure Node (F : Type) where
  files : Files F
  opened : Option Db := none

/-- `open`. -/
def openDatabase (S : Sqlite F) (n : Node F) : Bool × Node F :=
  match S.read n.files with
  | some t =>
      (true, { files := S.stored n.files (createSchema t), opened := some (createSchema t) })
  | none => (false, { files := S.closed n.files, opened := none })

/-- What `copy_file` did: a copy that fails midway leaves something else than it
found, or nothing. -/
inductive Copy (F : Type)
  | done
  | failed (left : Option F)

/-- `snapshot` is `none` where there is none. -/
def restoreFrom (S : Sqlite F) (snapshot : Option F) (copy : Copy F)
    (n : Node F) : Bool × Node F :=
  match snapshot with
  | none => (false, n)
  | some file =>
      match copy with
      | .failed left => (false, { n with files := { n.files with main := left } })
      | .done => openDatabase S { n with files := { n.files with main := some file } }

/-! ## A safe restore -/

/-- The database `open` makes of the files. -/
def shows (S : Sqlite F) (files : Files F) : Option Db := (S.read files).map createSchema

/-- A restore that succeeds opened the snapshot, as it is on its own; one that
fails left the local database. -/
def AllOrNothing (S : Sqlite F) (snapshot : Option F) (files : Files F)
    (r : Bool × Node F) : Prop :=
  (r.1 = true → ∃ file, snapshot = some file ∧ r.2.opened = shows S ⟨some file, none⟩) ∧
    (r.1 = false → S.read r.2.files = S.read files)

/-- There is no valid log, or replaying it changes nothing in the snapshot. -/
def LogHarmless (S : Sqlite F) (file : F) (wal : Option F) : Prop :=
  ∀ log, wal = some log → S.validLog log = true →
    (S.tables? (S.replay log file)).map createSchema = (S.tables? file).map createSchema

/-- The snapshot is well formed and the log beside the local database harmless;
or neither could be opened. A copy that failed left the database as it was. -/
def Safe (S : Sqlite F) (snapshot : Option F) (copy : Copy F) (files : Files F) : Prop :=
  match snapshot, copy with
  | none, _ => True
  | some _, .failed left => S.read ⟨left, files.wal⟩ = S.read files
  | some file, .done =>
      (S.tables? file).isSome ∧ LogHarmless S file files.wal ∨
        S.read ⟨some file, files.wal⟩ = none ∧ S.read files = none

/-! ## Opening -/

variable {S : Sqlite F} {files : Files F}

theorem openDatabase_opened (S : Sqlite F) (n : Node F) :
    (openDatabase S n).2.opened = shows S n.files := by
  unfold openDatabase shows
  cases S.read n.files <;> rfl

theorem openDatabase_fst (S : Sqlite F) (n : Node F) :
    (openDatabase S n).1 = (S.read n.files).isSome := by
  unfold openDatabase
  cases S.read n.files <;> rfl

/-- The log beside the local database decides whether the copy shows the
snapshot. -/
theorem shows_beside_iff (S : Sqlite F) (file : F) (wal : Option F) :
    shows S ⟨some file, wal⟩ = shows S ⟨some file, none⟩ ↔ LogHarmless S file wal := by
  unfold LogHarmless shows Sqlite.read
  cases wal with
  | none => simp
  | some log =>
      by_cases hvalid : S.validLog log = true
      · simp [hvalid]
      · simp [hvalid]

/-! ## All or nothing -/

theorem restoreFrom_copied (hS : S.Lawful) (file : F) (files : Files F) :
    Safe S (some file) .done files ↔
      AllOrNothing S (some file) files (restoreFrom S (some file) .done { files }) := by
  have hbeside := shows_beside_iff S file files.wal
  unfold Safe AllOrNothing
  simp only [restoreFrom, openDatabase_fst, openDatabase_opened]
  cases hread : S.read ⟨some file, files.wal⟩ with
  | some t =>
      have hshows : shows S ⟨some file, files.wal⟩ = some (createSchema t) := by
        unfold shows
        rw [hread]
        rfl
      rw [hshows] at hbeside ⊢
      constructor
      · rintro (⟨-, hlog⟩ | ⟨hnone, -⟩)
        · exact ⟨fun _ => ⟨file, rfl, hbeside.mpr hlog⟩, nofun⟩
        · cases hnone
      · rintro ⟨hsnapshot, -⟩
        obtain ⟨file', heq, hopened⟩ := hsnapshot rfl
        cases heq
        refine .inl ⟨?_, hbeside.mp hopened⟩
        have hsome : ((S.tables? file).map createSchema).isSome :=
          (congrArg Option.isSome hopened).symm
        simpa using hsome
  | none =>
      have hclosed : S.read (openDatabase S ⟨⟨some file, files.wal⟩, none⟩).2.files = none := by
        unfold openDatabase
        rw [hread]
        exact hS.read_closed _ hread
      have hshows : shows S ⟨some file, files.wal⟩ = none := by
        unfold shows
        rw [hread]
        rfl
      rw [hshows] at hbeside
      constructor
      · rintro (⟨hwell, hlog⟩ | ⟨-, hlocal⟩)
        · have hmalformed : (S.tables? file).map createSchema = none :=
            (hbeside.mpr hlog).symm
          rw [Option.map_eq_none_iff] at hmalformed
          rw [hmalformed] at hwell
          cases hwell
        · exact ⟨nofun, fun _ => hclosed.trans hlocal.symm⟩
      · rintro ⟨-, hsame⟩
        exact .inr ⟨rfl, (hsame rfl).symm.trans hclosed⟩

/-- **A restore is all or nothing exactly where it is safe.** -/
theorem restoreFrom_iff (hS : S.Lawful) (snapshot : Option F) (copy : Copy F) (files : Files F) :
    Safe S snapshot copy files ↔
      AllOrNothing S snapshot files (restoreFrom S snapshot copy { files }) := by
  cases snapshot with
  | none =>
      exact ⟨fun _ => ⟨nofun, fun _ => rfl⟩, fun _ => trivial⟩
  | some file =>
      cases copy with
      | done => exact restoreFrom_copied hS file files
      | failed left =>
          exact ⟨fun h => ⟨nofun, fun _ => h⟩, fun h => h.2 rfl⟩

/-! ## Where it is not -/

/-- A library with two kinds of files: one database is in them, or they are
torn. A log has the whole database in it. -/
inductive Page
  | tables (t : Tables)
  | torn

def pages : Sqlite Page where
  tables?
    | .tables t => some t
    | .torn => none
  validLog
    | .tables _ => true
    | .torn => false
  replay log _ := log
  stored _ db := ⟨some (.tables { db }), none⟩
  closed files := files

theorem pages_lawful : pages.Lawful where
  read_stored _ _ := rfl
  read_closed _ h := h

/-- An empty database of this version. -/
def emptyPage : Page := .tables { db := Db.empty }

/-- A database with one job. -/
def shotPage : Page :=
  .tables { db := (Db.empty.insertJobRow
    { jobId := "shot", manifestJson := "", submittedAtMs := 0 }).getD Db.empty }

/-- A snapshot with no log beside the local database. -/
theorem restoreFrom_shot :
    Safe pages (some shotPage) .done ⟨some emptyPage, none⟩ ↔
      AllOrNothing pages (some shotPage) ⟨some emptyPage, none⟩
        (restoreFrom pages (some shotPage) .done { files := ⟨some emptyPage, none⟩ }) :=
  restoreFrom_iff pages_lawful _ _ _

/-- **Both databases can be lost**: a torn snapshot takes the place of a local
database that could be opened, and a log left by a crash takes the place of the
snapshot. -/
theorem restore_loses_both_ways :
    ¬ AllOrNothing pages (some .torn) ⟨some shotPage, none⟩
        (restoreFrom pages (some .torn) .done { files := ⟨some shotPage, none⟩ }) ∧
      ¬ AllOrNothing pages (some emptyPage) ⟨some emptyPage, some shotPage⟩
        (restoreFrom pages (some emptyPage) .done
          { files := ⟨some emptyPage, some shotPage⟩ }) := by
  constructor
  · rintro ⟨-, hfalse⟩
    have hlocal := hfalse rfl
    cases hlocal
  · rintro ⟨htrue, -⟩
    obtain ⟨file, hfile, hopened⟩ := htrue rfl
    cases hfile
    have hjobs := congrArg (Option.map fun db => db.jobs.length) hopened
    revert hjobs
    decide

end MinRender.SnapshotRestore
