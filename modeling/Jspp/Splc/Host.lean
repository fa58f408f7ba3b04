/-
# Splc.Host -- the server's state and what lies outside it

`Host` is what the server calls: SQLite, the transaction manager TMF and the
embedded SQL of NonStop SQL.  It is a parameter; `W` is the state of that world.
The server's own state is `Server`; its functions are `Srv` acts, which crash
where C leaves a step undefined, such as a NULL pointer read.

Prepared statements live on a heap: a pointer is an index, a deleted statement
is `none`.
-/
import Jspp.Theory.Act
import Jspp.Splc.Sqllex

namespace Jspp.Splc

open Jspp.Theory

set_option autoImplicit false

/-- A column of a result row. -/
structure Column where
  name : Bytes
  text : Option Bytes
  int : Int
  deriving DecidableEq, Repr

/-- The result of `sqlite3_step`. -/
inductive Stepped where
  | row (columns : List Column)
  | done
  | error

/-- A prepared SQLite statement with its text. -/
structure Sqlitecommand where
  m_sql : Bytes
  m_stmt : Nat

structure Host (W : Type) where
  sqlite3_open : W → Bool × W
  sqlite3_prepare_v2 : Bytes → W → Option Nat × W
  sqlite3_bind_text : Sqlitecommand → Bytes → Bytes → W → Bool × W
  sqlite3_bind_int : Sqlitecommand → Bytes → Int → W → Bool × W
  sqlite3_step : Sqlitecommand → W → Stepped × W
  /-- Each call of TMF yields its status, then its out parameter. -/
  TMF_RESUME_ : Int → W → Int × W
  TMF_SUSPEND_ : Int → W → Int × W
  ENDTRANSACTION : W → Int × W
  ABORTTRANSACTION : W → Int × W
  TMF_TXBEGIN_ : W → (Int × Int) × W
  TMF_TXHANDLE_FROM_BEGINTAG_ : Int → W → (Int × Int) × W
  TMF_GET_TX_ID_ : Int → W → (Int × Int) × W
  /-- Whether the parameter list and the body behind a procedure's head are accepted. -/
  sqlprocParse : Sqllex → Str → Option Bool
  /-- PREPARE and DESCRIBE: an error code, unless they succeed. -/
  prepare : Sqlproc → W → Option Int × W
  /-- The embedded SQL of `preparedstatementExec`, with the answer it writes.  It reads the
  items of the request through the `switch` over their types. -/
  exec : Sqlproc → Request → W → Bytes × W
  statsWriteRecord : W → Bytes × W
  fileLoadText : W → Option Bytes × W
  /-- `%.15lf` of a number. -/
  realText : Bytes → Bytes

/-- A `preparedstatement`. -/
structure Statement where
  m_id : Int
  m_procDef : Sqlproc
  m_system : Str
  m_name : Str
  m_fqname : Str

structure Users where
  m_uid2pw : Hashtable Str
  m_uid2perms : Hashtable (Hashtable Unit)
  m_perms : Hashtable Unit

structure Server (W : Type) where
  g_running : Bool
  users : Users
  m_stmts : Hashtable (Option Nat)
  heap : List (Option Statement)
  xml : Bytes
  world : W

/-- What a run is judged by. -/
inductive Event where
  /-- A member of the union read, and the tag of the item. -/
  | read (member tag : UInt8)
  /-- A missing item read. -/
  | nullItem
  | shutdown
  | usersListed
  | permsListed
  /-- The tables of users and permissions written. -/
  | usersPut
  /-- `usersAddPerm` called for a user and a permission. -/
  | permAdded (userId perm : Bytes)
  /-- A statement other than a SELECT run by SQLite. -/
  | stored
  | resumed (ok : Bool)
  | suspended
  | ended
  /-- `preparedstatementExec` on a statement, for a user. -/
  | exec (stmt : Nat) (userId : Bytes)
  deriving DecidableEq

abbrev Srv (W : Type) := Act (Server W) Event

namespace Srv

variable {W α : Type}

/-- A call to the host. -/
def call (f : W → α × W) : Srv W α :=
  Act.update fun s => ((f s.world).1, { s with world := (f s.world).2 })

def append (text : Bytes) : Srv W Unit := Act.modify fun s => { s with xml := s.xml ++ text }

def say (text : String) : Srv W Unit := append (lit text)

def intText (n : Int) : Bytes := lit (toString n)

def _writeError (cp1 : String) (cp2 : Bytes) : Srv W Unit := do
  say "<error>"
  say cp1
  append cp2
  say "</error>\r\n"

def _writeErrorCode (cp1 : String) (i : Int) : Srv W Unit := do
  say "<error>"
  say cp1
  say " "
  append (intText i)
  say "</error>\r\n"

/-! ## Statements on the heap -/

def allocate (stmt : Statement) : Srv W Nat :=
  Act.update fun s => (s.heap.length, { s with heap := s.heap ++ [some stmt] })

/-- The statement behind a pointer that may be NULL or dangling. -/
def deref (pointer : Option Nat) : Srv W Statement := do
  let s ← Act.get
  Act.ofOption (pointer.bind fun p => (s.heap[p]?).bind id)

def preparedstatementDelete (pointer : Option Nat) : Srv W Unit := do
  let _ ← deref pointer
  Act.modify fun s => { s with heap := s.heap.set (pointer.getD 0) none }

/-! ## SQLite -/

variable [Copying] (host : Host W)

/-- `sqliteconnOpen` on a new connection. -/
def sqliteconnOpen : Srv W Bool := call host.sqlite3_open

/-- `sqliteconnCreateCommand`: the text is kept, and prepared, as a `stringNew` copy. -/
def sqliteconnCreateCommand (sql : String) : Srv W (Option Sqlitecommand) := do
  let text := (stringNew (lit sql)).m_cstr
  let stmt ← call (host.sqlite3_prepare_v2 text)
  pure (stmt.map fun stmt => { m_sql := text, m_stmt := stmt })

def sqlitecommandSetParameterText (cmd : Sqlitecommand) (paramName : String) (val : Bytes) :
    Srv W Bool :=
  call (host.sqlite3_bind_text cmd (lit paramName) val)

def sqlitecommandSetParameterInt (cmd : Sqlitecommand) (paramName : String) (val : Int) :
    Srv W Bool :=
  call (host.sqlite3_bind_int cmd (lit paramName) val)

/-- `sqlitecommandExecuteNonQuery( cmd ) > 0`. -/
def sqlitecommandExecuteNonQuery (cmd : Sqlitecommand) : Srv W Bool := do
  let stepped ← call (host.sqlite3_step cmd)
  Act.tell .stored
  match stepped with
  | .done => pure true
  | _ => pure false

/-- `sqlitereaderRead`, with the columns of the row. -/
def sqlitereaderRead (cmd : Sqlitecommand) : Srv W (Option (List Column)) := do
  match ← call (host.sqlite3_step cmd) with
  | .row columns => pure (some columns)
  | _ => pure none

end Srv

/-- `m_colIdx`: the position of a column by its name. -/
def colIdx [Copying] (columns : List Column) : Hashtable Nat :=
  (columns.zipIdx).foldl (fun ht column => ht.hashtablePut column.1.name column.2)
    (hashtableNew false)

/-- `sqlitereaderText`: NULL for a name the table does not know. -/
def sqlitereaderText [Copying] (columns : List Column) (colName : String) : Option Bytes :=
  match (colIdx columns).hashtableGet (lit colName) with
  | none => none
  | some x => (columns[x]?).bind (·.text)

/-- `sqlitereaderInt`: -1 for a name the table does not know. -/
def sqlitereaderInt [Copying] (columns : List Column) (colName : String) : Int :=
  match (colIdx columns).hashtableGet (lit colName) with
  | none => -1
  | some x => (columns[x]?.map (·.int)).getD 0

/-- `sqlitereaderIntAt`. -/
def sqlitereaderIntAt (columns : List Column) (colNum : Nat) : Int :=
  (columns[colNum]?.map (·.int)).getD 0

end Jspp.Splc
