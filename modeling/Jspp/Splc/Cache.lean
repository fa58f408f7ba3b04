/-
# Splc.Cache -- the table of stored procedures over a run

`m_stmts` begins empty and no request fills it: a CREATE text is refused by the
parser, and a row of SPROCS ends the server, because its columns are looked up by
names that the column table has cut (`sysCode_unknown`).  So nothing is ever
executed from the cache, and nothing in it can be dead.

* `NamesColumns`: what SQLite says of the columns of SPROCS.
* `handleRequest_others`: a request keeps what DROP and the execution of a procedure keep.
* `handleRequest_unfilled`: it keeps the table empty and executes nothing.
* `LiveEntry`, `UnderOwnGrant`: what is said of an entry, and of an execution.
-/
import Jspp.Splc.Brackets

namespace Jspp.Splc

open Jspp.Theory
open Jspp.Theory.Act
open Srv

set_option autoImplicit false

variable {W : Type}

/-- The columns of SPROCS in its CREATE TABLE. -/
def sprocsColumns : List Bytes := [lit "SYS_CODE", lit "SP_NAME", lit "SP_TEXT"]

/-- SQLite names the columns of `SELECT * FROM SPROCS` as the table does. -/
def NamesColumns (host : Host W) : Prop :=
  ∀ (cmd : Sqlitecommand) (w : W) (columns : List Column) (w' : W), ReadsSprocs cmd →
    host.sqlite3_step cmd w = (.row columns, w') → columns.map (·.name) = sprocsColumns

/-- The column table knows `SYS_CODE` under a shorter key and in another chain. -/
theorem sysCode_unknown {columns : List Column} (names : columns.map (·.name) = sprocsColumns) :
    sqlitereaderText columns "SYS_CODE" = none := by
  have table : colIdx columns =
      (sprocsColumns.zipIdx).foldl (fun ht column => ht.hashtablePut column.1 column.2)
        (hashtableNew false) := by
    rw [← names, List.zipIdx_map, List.foldl_map]
    rfl
  have unknown : (colIdx columns).hashtableGet (lit "SYS_CODE") = none := by
    rw [table]
    decide
  simp only [sqlitereaderText, unknown]

/-! ## One request -/

def NotExecuted (e : Event) : Prop := ∀ stmt userId, e ≠ .exec stmt userId

theorem notExecuted_read (member tag : UInt8) : NotExecuted (.read member tag) := fun _ _ => nofun

section

variable {I : Server W → Prop} {P : Event → Prop} (steady : Steady I)
variable {host : Host W} (rounds : Nat)
include steady

section Names

variable (names : NamesColumns host)
include names

theorem sqlitereaderRead_names {cmd : Sqlitecommand} (reads : ReadsSprocs cmd) :
    Runs I P (sqlitereaderRead host cmd)
      fun row => ∀ columns, row = some columns → columns.map (·.name) = sprocsColumns := by
  refine Runs.bind (Q := fun stepped => ∀ columns, stepped = .row columns →
    columns.map (·.name) = sprocsColumns)
    (Runs.update fun s inside => ⟨steady s s.xml _ inside, fun columns row => ?_⟩)
    fun stepped named => ?_
  · exact names cmd s.world columns _ reads (Prod.ext row rfl)
  · cases stepped with
    | row columns =>
        exact Runs.pure fun columns' same => named columns' (by rw [Option.some.inj same])
    | done => exact Runs.pure nofun
    | error => exact Runs.pure nofun

/-- No row of SPROCS reaches the table: its first column reads NULL. -/
theorem load_unread (cmd : Sqlitecommand) (reads : ReadsSprocs cmd) :
    Runs I P (_loadProcedureInner host cmd rounds) fun _ => True := by
  induction rounds with
  | zero => exact Runs.pure trivial
  | succ rounds ih =>
      refine (sqlitereaderRead_names steady names reads).bind fun row named => ?_
      cases row with
      | none => exact Runs.pure trivial
      | some columns =>
          refine Runs.bind (Q := fun _ => True) ?_ fun _ _ => Runs.ite (fun _ => ih) fun _ =>
            Runs.pure trivial
          unfold loadRow
          rw [sysCode_unknown (named columns rfl)]
          exact Runs.bind (Q := fun _ => False) Runs.crash fun _ none => none.elim

/-- The lookup finds what the table has, and nothing that it loads. -/
theorem stmtmgrGetStmt_looked {found : Option Nat} (system name fqname : Str)
    (looked : ∀ s, I s → (s.m_stmts.hashtableGet fqname.m_cstr).join = found) :
    Runs I P (stmtmgrGetStmt host rounds system name fqname) fun stmt => stmt = found := by
  refine Runs.bind Runs.get fun s inside => ?_
  have here := looked s inside
  cases same : (s.m_stmts.hashtableGet fqname.m_cstr).join with
  | some pointer => exact Runs.pure (same.symm.trans here)
  | none =>
      refine Runs.seq (updateProcedure_runs steady host rounds (load_unread steady rounds names) _ _)
        fun _ => Runs.ite (fun _ => ?_) fun _ => Runs.pure (same.symm.trans here)
      exact Runs.bind Runs.get fun s' inside' => Runs.pure (looked s' inside')

end Names

variable (other : ∀ e, NotExecuted e → P e)
include other

theorem invokeRequest_others (req : Request) :
    Runs I P (invokeRequest host req) fun _ => True := by
  unfold invokeRequest
  split
  case h_1 => exact writeError_runs steady _ _
  case h_2 item _ =>
    refine (m_str_runs (other _ (notExecuted_read _ _))).bind fun define _ =>
      (preparedstatementNew_refused host rfl _ _).bind fun new refused => ?_
    rw [refused]
    exact writeErrorCode_runs steady _ _

/-- An SQL request executes nothing: EXEC texts and immediate ones are refused. -/
theorem sqlRequest_others (users : ∀ s u, UsersStep s.users u → I s → I { s with users := u })
    (drop : ∀ userId sql, Runs I P (dropSql host userId sql) fun _ => True) (req : Request) :
    Runs I P (sqlRequest host rounds req) fun _ => True := by
  have told (item : RequestItem) (message : String) :
      Runs I P (complain (W := W) item message) fun _ => True :=
    Runs.ite (fun _ => writeError_runs steady _ _) fun _ => Runs.pure trivial
  refine Runs.seq ((logonAdminUser_runs steady req).weaken fun _ _ => trivial) fun _ =>
    Runs.ite (fun _ => Runs.pure trivial) fun _ => ?_
  split
  case h_1 => exact writeError_runs steady _ _
  case h_2 sql _ =>
    refine Runs.seq (told _ _) fun _ => ?_
    split
    case h_1 => exact writeError_runs steady _ _
    case h_2 sys _ =>
      refine Runs.seq (told _ _) fun _ => (m_str_runs (other _ (notExecuted_read _ _))).bind fun _ _ =>
        (m_str_runs (other _ (notExecuted_read _ _))).bind fun _ _ => ?_
      exact stmtmgrProcessSql_runs steady host rounds (fun _ => other _ fun _ _ => nofun)
        (other _ fun _ _ => nofun) (other _ fun _ _ => nofun) (other _ fun _ _ => nofun)
        (other _ fun _ _ => nofun) (fun _ _ => other _ fun _ _ => nofun) users (drop _ _)

theorem adminRequest_others (names : NamesColumns host)
    (running : ∀ s, I s → I { s with g_running := false }) (req : Request) :
    Runs I P (adminRequest host rounds req) fun _ => True := by
  refine Runs.seq (Runs.ite (fun _ => writeError_runs steady _ _) fun _ => Runs.pure trivial)
    fun _ => (present_runs (other .nullItem fun _ _ => nofun) _).bind fun item _ =>
      (m_str_runs (other _ (notExecuted_read _ _))).bind fun text _ => ?_
  exact runCommand_runs steady host rounds (fun _ => other _ (notExecuted_read _ _))
    (fun _ => shutdownRequest_runs steady (other .shutdown fun _ _ => nofun) running req)
    (fun _ => invokeRequest_others steady other req)
    (proclistRequest_runs steady host rounds (load_unread steady rounds names))
    (fun _ => userlistRequest_runs steady (other .usersListed fun _ _ => nofun) req)
    (fun _ => userlistPermsRequest_runs steady (other _ (notExecuted_read _ _))
      (other .permsListed fun _ _ => nofun) req)
    (fun _ => proccodeRequest_runs steady fun _ _ =>
      ⟨other _ (notExecuted_read _ _), fun _ _ => other _ (notExecuted_read _ _)⟩)

/-- A request keeps what its parts keep, the execution of a procedure among them. -/
theorem handleRequest_others (names : NamesColumns host)
    (users : ∀ s u, UsersStep s.users u → I s → I { s with users := u })
    (running : ∀ s, I s → I { s with g_running := false })
    (drop : ∀ userId sql, Runs I P (dropSql host userId sql) fun _ => True) (req : Request)
    (exec : ∀ system, Runs I P (stmtmgrExec host rounds system req) fun _ => True) :
    Runs I P (handleRequest host rounds req) fun _ => True := by
  refine handleRequest_runs steady host rounds fun s _ =>
    Runs.ite (fun _ => writeError_runs steady _ _) fun _ => ?_
  unfold dispatch
  split
  case h_1 => exact sqlRequest_others steady rounds other users drop req
  case h_2 => exact adminRequest_others steady rounds other names running req
  case h_3 =>
    refine Runs.seq ?_ fun _ => Runs.ite (fun _ => Runs.pure trivial) fun _ =>
      writeError_runs steady _ _
    unfold executeDynamic
    split
    case h_1 => exact Runs.seq (writeError_runs steady _ _) fun _ => Runs.pure trivial
    case h_2 sys _ =>
      refine Runs.ite
        (fun _ => Runs.seq (writeError_runs steady _ _) fun _ => Runs.pure trivial) fun _ => ?_
      exact (m_str_runs (other _ (notExecuted_read _ _))).bind fun _ _ => exec _

end

/-! ## An empty table -/

def Unfilled (s : Server W) : Prop := s.m_stmts.m_table = []

theorem unfilled_steady : Steady (Unfilled (W := W)) := fun _ _ _ unfilled => unfilled

section

variable {host : Host W} (names : NamesColumns host) (rounds : Nat)

include names in
theorem stmtmgrGetStmt_none {P : Event → Prop} (system name fqname : Str) :
    Runs Unfilled P (stmtmgrGetStmt host rounds system name fqname) fun stmt => stmt = none := by
  refine stmtmgrGetStmt_looked unfilled_steady rounds names _ _ _ fun s unfilled => ?_
  rw [Hashtable.hashtableGet_empty _ unfilled]
  rfl

include names in
/-- A procedure request finds no procedure. -/
theorem stmtmgrExec_unfilled {P : Event → Prop} (system : Str) (req : Request) :
    Runs Unfilled P (stmtmgrExec host rounds system req) fun _ => True := by
  refine Runs.seq (usersHasPerm_runs unfilled_steady host _ _) fun _ => Runs.ite
    (fun _ => Runs.seq (writeError_runs unfilled_steady _ _) fun _ => Runs.pure trivial) fun _ =>
      (stmtmgrGetStmt_none names rounds _ _ _).bind fun stmt absent => ?_
  rw [absent]
  exact Runs.seq (writeError_runs unfilled_steady _ _) fun _ => Runs.pure trivial

theorem dropSql_unfilled {P : Event → Prop} (userId sql : Str) :
    Runs Unfilled P (dropSql host userId sql) fun _ => True := by
  refine Runs.seq (usersIsAdmin_runs unfilled_steady host _) fun _ => Runs.ite
    (fun _ => writeError_runs unfilled_steady _ _) fun _ => ?_
  split
  case h_1 => exact writeError_runs unfilled_steady _ _
  case h_2 pos _ =>
    refine Runs.bind Runs.get fun s unfilled => ?_
    rw [Hashtable.hashtableGet_empty _ unfilled]
    exact writeError_runs unfilled_steady _ _

include names in
/-- A request keeps the table empty, and executes no statement. -/
theorem handleRequest_unfilled (req : Request) :
    Runs Unfilled NotExecuted (handleRequest host rounds req) fun _ => True :=
  handleRequest_others unfilled_steady rounds (fun _ not => not) names
    (fun _ _ _ unfilled => unfilled) (fun _ unfilled => unfilled) dropSql_unfilled req
    fun system => stmtmgrExec_unfilled names rounds system req

end

/-! ## Runs -/

/-- The server when its loop begins: `stmtmgrNew` loads users, and no procedure. -/
def startServer (users : Users) (world : W) : Server W where
  g_running := true
  users := users
  m_stmts := hashtableNew true
  heap := []
  xml := []
  world := world

/-- A step of a run keeps the table empty and executes nothing. -/
theorem step_unfilled {host : Host W} (names : NamesColumns host) {rounds : Nat} {users : Users}
    {world : W} {reqs : List Request} {step : ServerStep W}
    (mem : step ∈ runServer host rounds reqs (startServer users world)) :
    Unfilled step.after ∧ ∀ e ∈ step.log, NotExecuted e := by
  have start : Unfilled (startServer users world) := rfl
  have unfilled := serve_invariant
    (fun req s unfilled => (handleRequest_unfilled names rounds req s unfilled).keeps) start mem
  obtain ⟨-, -, log⟩ := serve_mem mem
  refine ⟨unfilled.2, ?_⟩
  rw [log]
  exact (handleRequest_unfilled names rounds _ _ unfilled.1).events

/-- The entry's statement has been created and not deleted, and its name is the key. -/
def LiveEntry (s : Server W) (hi : HashItem (Option Nat)) : Prop :=
  ∃ pointer stmt, hi.m_value = some pointer ∧ s.heap[pointer]? = some (some stmt) ∧
    stringIsEqual hi.m_key stmt.m_fqname.m_cstr true = true

/-- `u` is an administrator for SQLite. -/
def IsAdmin (host : Host W) (s : Server W) (userId : Str) : Prop :=
  (usersIsAdmin host userId).result s = some true

/-- The permission was loaded at the start, or added by an earlier step of the run. -/
def Granted (users : Users) (earlier : List (ServerStep W)) (userId fqname : Bytes) : Prop :=
  users.hasPerm userId fqname = true ∨
    ∃ step ∈ earlier, ∃ perm, .permAdded userId perm ∈ step.log ∧ sameText true perm fqname = true

/-- The user of the request was accepted, and may execute the statement under its own name. -/
def UnderOwnGrant (host : Host W) (users : Users) (earlier : List (ServerStep W))
    (step : ServerStep W) (stmt : Statement) : Prop :=
  userLogon step.before.users step.request.m_userId step.request.m_password = true ∧
    (IsAdmin host step.before step.request.m_userId ∨
      Granted users earlier step.request.m_userId.m_cstr stmt.m_fqname.m_cstr)

/-! ## A host with a table -/

/-- A row of SPROCS with its columns. -/
def sprocsRow (row : Bytes × Bytes × Bytes) : List Column :=
  [⟨lit "SYS_CODE", some row.1, 0⟩, ⟨lit "SP_NAME", some row.2.1, 0⟩,
    ⟨lit "SP_TEXT", some row.2.2, 0⟩]

/-- SQLite with the rows of SPROCS and the position of the query over them. -/
def tableHost : Host (List (Bytes × Bytes × Bytes) × Nat) where
  sqlite3_open := fun w => (true, w)
  sqlite3_prepare_v2 := fun _ w => (some 0, w.1, 0)
  sqlite3_bind_text := fun _ _ _ w => (true, w)
  sqlite3_bind_int := fun _ _ _ w => (true, w)
  sqlite3_step := fun cmd w =>
    if (lit "SELECT * FROM SPROCS").isPrefixOf cmd.m_sql then
      match w.1[w.2]? with
      | some row => (.row (sprocsRow row), w.1, w.2 + 1)
      | none => (.done, w.1, 0)
    else (.done, w)
  TMF_RESUME_ := fun _ w => (1, w)
  TMF_SUSPEND_ := fun _ w => (1, w)
  ENDTRANSACTION := fun w => (1, w)
  ABORTTRANSACTION := fun w => (1, w)
  TMF_TXBEGIN_ := fun w => ((1, 0), w)
  TMF_TXHANDLE_FROM_BEGINTAG_ := fun _ w => ((1, 0), w)
  TMF_GET_TX_ID_ := fun _ w => ((1, 0), w)
  sqlprocParse := fun _ _ => none
  prepare := fun _ w => (some 1, w)
  exec := fun _ _ w => ([], w)
  statsWriteRecord := fun w => ([], w)
  fileLoadText := fun w => (none, w)
  realText := id

theorem tableHost_names : NamesColumns tableHost := by
  intro cmd w columns w' reads step
  simp only [tableHost, show (lit "SELECT * FROM SPROCS").isPrefixOf cmd.m_sql = true from reads,
    if_true] at step
  split at step
  · cases step
    rfl
  · cases step

/-- An ADMIN request without a password, for one command. -/
def asksFor (command : String) : Request where
  m_name := text "ADMIN"
  m_transid := 0
  m_userId := text "ann"
  m_password := text ""
  m_items := [{ m_name := some (text "COMMAND"), m_data := .str (text command) }]
  m_itemCount := 1
  m_bytes := 0

end Jspp.Splc
