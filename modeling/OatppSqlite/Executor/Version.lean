import OatppSqlite.Lib.Prog
import OatppSqlite.Sqlite.Database

/-!
# `Executor.cpp`: transactions and schema versions

What the executor does with statements of its own, as programs over the connections they run
on. `exec` is the one way to run such a statement; `sqlite3_exec` runs a migration script, one
statement after the other. `migrateSchema` keeps an `orm::Transaction` of oatpp over the script
and the update; that class is not code of this repository, so it is a parameter, relied on
through its documentation (`LawfulTransaction`).
-/

set_option autoImplicit false

namespace OatppSqlite.Executor

open Sqlite

/-! ## Requests -/

/-- What the programs ask for: a connection of the provider, a statement run on a connection, or
    a statement of a script. -/
inductive Request (ι σ : Type) where
  | getConnection
  | exec (connection : ι) (query : Query)
  | scriptStatement (connection : ι) (statement : σ)
  deriving DecidableEq

variable {ι σ : Type}

/-- The provider may throw, or return nothing; a failed script statement has a message. -/
def Reply : Request ι σ → Type
  | .getConnection => Except String (Option ι)
  | .exec _ _ => Answer
  | .scriptStatement _ _ => Option String

/-- A program of the executor; what it throws are `std::runtime_error`s. -/
abbrev Program (ι σ α : Type) := Prog (Request ι σ) Reply String α

/-- The text of a statement. -/
def queryText : Query → Text
  | .createTable table =>
    "CREATE TABLE IF NOT EXISTS ".toList ++ table ++ " (version BIGINT)".toList
  | .select table => "SELECT * FROM ".toList ++ table
  | .insertZero table => "INSERT INTO ".toList ++ table ++ " (version) VALUES (0)".toList
  | .update table version =>
    "UPDATE ".toList ++ table ++ " SET version=".toList ++ (toString version).toList ++ [';']
  | .begin => "BEGIN".toList
  | .commit => "COMMIT".toList
  | .rollback => "ROLLBACK".toList

/-- The `QueryResult` of such a statement, and the connection it holds. -/
structure Executed (ι : Type) where
  answer : Answer
  connection : ι

/-- `Executor::getConnection`. -/
def getConnection : Program ι σ ι :=
  .ask .getConnection fun
    | .error what => .throw what
    | .ok (some connection) => .pure connection
    | .ok none => .throw "[oatpp::sqlite::Executor::getConnection()]: Error. Can't connect."

/-- `Executor::exec`. -/
def exec (query : Query) (connection : Option ι) : Program ι σ (Executed ι) := do
  let connection ← match connection with
    | some connection => pure connection
    | none => getConnection
  .ask (.exec connection query) fun answer => .pure ⟨answer, connection⟩

@[simp] theorem exec_bind {α : Type} (query : Query) (connection : ι)
    (f : Executed ι → Program ι σ α) :
    (exec query (some connection) >>= f)
      = .ask (.exec connection query) fun answer => f ⟨answer, connection⟩ := rfl

def begin (connection : Option ι) : Program ι σ (Executed ι) := exec .begin connection

def commit (connection : Option ι) : Program ι σ (Executed ι) :=
  match connection with
  | none => .throw "[oatpp::sqlite::Executor::commit()]: Error. Can't COMMIT - NULL connection."
  | some connection => exec .commit (some connection)

/-- The message names `commit`, too. -/
def rollback (connection : Option ι) : Program ι σ (Executed ι) :=
  match connection with
  | none => .throw "[oatpp::sqlite::Executor::commit()]: Error. Can't ROLLBACK - NULL connection."
  | some connection => exec .rollback (some connection)

/-! ## Schema versions -/

def getSchemaVersionTableName (suffix : Option Text) : Text :=
  match suffix with
  | some suffix =>
    if suffix.length > 0 then "oatpp_schema_version".toList ++ '_' :: suffix
    else "oatpp_schema_version".toList
  | none => "oatpp_schema_version".toList

def updateSchemaVersion (newVersion : Int) (suffix : Option Text) (connection : Option ι) :
    Program ι σ (Executed ι) :=
  exec (.update (getSchemaVersionTableName suffix) newVersion) connection

/-- What is thrown over a version table with several rows. -/
def multipleVersionRows : String := "[oatpp::sqlite::Executor::getSchemaVersion()]: "
  ++ "Error. The schema version table is corrupted - multiple version rows."

/-- `Executor::getSchemaVersion`. -/
def getSchemaVersion (suffix : Option Text) (connection : Option ι) : Program ι σ Int := do
  let result ← exec (.createTable (getSchemaVersionTableName suffix)) connection
  if result.answer.isSuccess then do
    let result ← exec (.select (getSchemaVersionTableName suffix)) (some result.connection)
    if result.answer.isSuccess then
      match result.answer.versions with
      | [] => do
        let result ← exec (.insertZero (getSchemaVersionTableName suffix)) (some result.connection)
        if result.answer.isSuccess then pure 0
        else .throw ("[oatpp::sqlite::Executor::getSchemaVersion()]: "
          ++ "Error. Can't init schema version. " ++ result.answer.errorMessage)
      | [some version] => pure version
      | [none] => .throw ("[oatpp::sqlite::Executor::getSchemaVersion()]: "
          ++ "Error. The schema version table is corrupted - version is null.")
      | _ => .throw multipleVersionRows
    else .throw ("[oatpp::sqlite::Executor::getSchemaVersion()]: "
      ++ "Error. Can't get schema version. " ++ result.answer.errorMessage)
  else .throw ("[oatpp::sqlite::Executor::getSchemaVersion()]: "
    ++ "Error. Can't create schema version table. " ++ result.answer.errorMessage)

/-- The rows of the version table at version `n`; there may be none yet, at version 0. -/
inductive Versioned : Int → Option (List (Option Int)) → Prop
  | absent : Versioned 0 none
  | empty : Versioned 0 (some [])
  | row (n : Int) : Versioned n (some [some n])

/-- The stored version is that of the first row. -/
def storedVersion : Option (List (Option Int)) → Int
  | some (some version :: _) => version
  | _ => 0

theorem Versioned.storedVersion_eq {n : Int} {rows : Option (List (Option Int))}
    (h : Versioned n rows) : storedVersion rows = n := by
  cases h with
  | absent => rfl
  | empty => rfl
  | row => rfl

/-! ## Migrations -/

/-- oatpp's `orm::Transaction` over an executor: a transaction object, as it is while the
    transaction is open and when it is over, and what constructing it, `commit` and destroying
    it do. -/
structure TransactionClass (ι σ : Type) where
  Transaction : Type
  opened : ι → Transaction
  closed : Transaction
  construct : ι → Program ι σ Transaction
  commit : Transaction → Program ι σ (Executed ι × Transaction)
  destroy : Transaction → Program ι σ Unit

/-- **What is relied on of it**: the constructor begins the transaction, and throws an error of
    its own if that fails; `commit` commits, and the transaction is over if that succeeds; and
    the destructor rolls back a transaction that is not over. -/
structure LawfulTransaction (C : TransactionClass ι σ) : Prop where
  construct_eq : ∃ what, what ≠ multipleVersionRows ∧ ∀ c, C.construct c =
    begin (some c) >>= fun result =>
      if result.answer.isSuccess then pure (C.opened c) else .throw what
  commit_eq : ∀ c, C.commit (C.opened c) = commit (some c) >>= fun result =>
    pure (result, if result.answer.isSuccess then C.closed else C.opened c)
  destroy_opened : ∀ c, C.destroy (C.opened c) = rollback (some c) >>= fun _ => pure ()
  destroy_closed : C.destroy C.closed = pure ()

/-- A transaction class that does what is relied on. -/
def plainTransaction : TransactionClass ι σ where
  Transaction := Option ι
  opened := some
  closed := none
  construct c := begin (some c) >>= fun result =>
    if result.answer.isSuccess then pure (some c)
    else .throw "[oatpp::orm::Transaction::Transaction()]: Error. Can't begin transaction."
  commit transaction := commit transaction >>= fun result =>
    pure (result, if result.answer.isSuccess then none else transaction)
  destroy transaction := match transaction with
    | none => pure ()
    | some c => rollback (some c) >>= fun _ => pure ()

theorem plainTransaction_lawful : LawfulTransaction (plainTransaction : TransactionClass ι σ) where
  construct_eq := ⟨_, by decide, fun _ => rfl⟩
  commit_eq _ := rfl
  destroy_opened _ := rfl
  destroy_closed := rfl

/-- `sqlite3_exec` of a script: it stops at the first statement that fails. -/
def sqlite3_exec (connection : ι) : List σ → Program ι σ (Option String)
  | [] => pure none
  | statement :: script =>
    .ask (.scriptStatement connection statement) fun
      | some errmsg => .pure (some errmsg)
      | none => sqlite3_exec connection script

/-- The part of `migrateSchema` that runs while the transaction object exists: how it leaves the
    scope, and the object at that moment. -/
def migrateInTransaction (C : TransactionClass ι σ) (script : List σ) (newVersion : Int)
    (suffix : Option Text) (connection : ι) (transaction : C.Transaction) :
    Program ι σ (Except String Unit × C.Transaction) := do
  let errmsg ← sqlite3_exec connection script
  match errmsg with
  | some errmsg =>
    pure (.error ("[oatpp::sqlite::Executor::migrateSchema()]: Error. Migration failed. "
      ++ errmsg), transaction)
  | none => do
    let result ← updateSchemaVersion newVersion suffix (some connection)
    if !result.answer.isSuccess || result.answer.hasMoreToFetch then
      pure (.error ("[oatpp::sqlite::Executor::migrateSchema()]: "
        ++ "Error. Migration failed. Can't set new version."), transaction)
    else do
      let (result, transaction) ← C.commit transaction
      if !result.answer.isSuccess then
        pure (.error ("[oatpp::sqlite::Executor::migrateSchema()]: "
          ++ "Error. Migration failed. Can't commit."), transaction)
      else pure (.ok (), transaction)

/-- `Executor::migrateSchema`; leaving the scope of the transaction destroys it, on the way of
    an exception, too. -/
def migrateSchema (C : TransactionClass ι σ) (script : Option (List σ)) (newVersion : Int)
    (suffix : Option Text) (connection : Option ι) : Program ι σ Unit :=
  match script with
  | none => .throw "[oatpp::sqlite::Executor::migrateSchema()]: Error. Script is null."
  | some script =>
    match connection with
    | none => .throw "[oatpp::sqlite::Executor::migrateSchema()]: Error. Connection is null."
    | some connection => do
      let currVersion ← getSchemaVersion suffix (some connection)
      if newVersion ≤ currVersion then pure ()
      else if newVersion > currVersion + 1 then
        .throw ("[oatpp::sqlite::Executor::migrateSchema()]: "
          ++ "Error. +1 version increment is allowed only.")
      else do
        let transaction ← C.construct connection
        let (outcome, transaction) ←
          migrateInTransaction C script newVersion suffix connection transaction
        C.destroy transaction
        match outcome with
        | .ok () => pure ()
        | .error what => .throw what

/-! ## The database serves them -/

/-- The answer of the database to a request, as the choice says; clients bring their
    connections. -/
def serve {δ : Type} [DecidableEq ι] (effect : σ → δ → Effect δ) (choice : Choice)
    (db : Db ι δ) : (q : Request ι σ) → Option (Reply q × Db ι δ)
  | .getConnection => none
  | .exec connection query => perform connection db query choice
  | .scriptStatement connection statement => performScript effect connection db statement choice

/-- Statements are numbers, and the data are the ones that wrote; 0 only reads. -/
def logged (statement : Nat) (d : List Nat) : Effect (List Nat) :=
  if statement = 0 then .reads else .writes (d ++ [statement])

def emptyDb : Db ι (List Nat) := ⟨⟨[], fun _ => none⟩, fun _ => false, none⟩

end OatppSqlite.Executor
