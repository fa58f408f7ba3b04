/-
# Splc.Loading -- loading procedures on use, or all of them at the start

`stmtmgrNew` leaves the call of `loadAllProcedures` out, so that a procedure is
loaded by the first request that needs it.  As a row of SPROCS ends the server
that loads it, a server that loads all of them does not come up where there is a
row, and one that loads on use answers until a request makes it load.

* `StoreRequest`: the requests about stored procedures.
* `firstRow`: the row that `updateProcedure` reads first.
* `Loads`: a request that makes a server load which has just started.
* `loads_dies`, `spared_answers`: it ends that server, and every other is answered.
* `loadTransparent_iff`: when loading on use cannot be told from loading before.
-/
import Jspp.Splc.Cache

namespace Jspp.Splc

open Jspp.Theory
open Jspp.Theory.Act
open Srv

set_option autoImplicit false

variable {W : Type}

/-! ## Loading at the start -/

/-- The rows of SPROCS as SQLite hands them out when nothing fails. -/
structure QueriesTable (host : Host W) (sprocs : W → List (List Column)) (world : W) : Prop where
  names : NamesColumns host
  opens : host.sqlite3_open world = (true, world)
  prepares : ∃ stmt, host.sqlite3_prepare_v2 (lit "SELECT * FROM SPROCS") world = (some stmt, world)
  empty : sprocs world = [] →
    ∀ stmt, host.sqlite3_step ⟨lit "SELECT * FROM SPROCS", stmt⟩ world = (.done, world)
  rows : ∀ columns rest, sprocs world = columns :: rest →
    ∀ stmt, (host.sqlite3_step ⟨lit "SELECT * FROM SPROCS", stmt⟩ world).1 = .row columns

/-- The server that loads all procedures first, if it gets through. -/
def eagerServer (host : Host W) (rounds : Nat) (users : Users) (world : W) : Option (Server W) :=
  if (loadAllProcedures host rounds).result (startServer users world) = some true then
    some ((loadAllProcedures host rounds).final (startServer users world))
  else none

/-- What a run shows of its requests: the answer of each that is handled to its end, and SPROCS
behind it.  A request during which the server ends gets no answer, and neither does a later one. -/
def outcomes (host : Host W) (rounds : Nat) (sprocs : W → List (List Column))
    (steps : List (Act.Step (Server W) Event Request)) : List (Bytes × List (List Column)) :=
  steps.filterMap fun step =>
    ((handleRequest host rounds step.request).result step.before).map fun _ =>
      (step.after.xml, sprocs step.after.world)

/-- The requests on the server that loads on use, and on the one that loaded before. -/
def LoadTransparent (host : Host W) (sprocs : W → List (List Column)) (rounds : Nat)
    (users : Users) (world : W) (reqs : List Request) : Prop :=
  outcomes host rounds sprocs (runServer host rounds reqs (startServer users world)) =
    match eagerServer host rounds users world with
    | none => []
    | some s => outcomes host rounds sprocs (runServer host rounds reqs s)

/-- A call that leaves the world as it was. -/
theorem call_same {α : Type} {f : W → α × W} {s : Server W} {a : α}
    (same : f s.world = (a, s.world)) : call f s = (some a, s, []) := by
  show (some (f s.world).1, { s with world := (f s.world).2 }, []) = _
  rw [same]

theorem sqliteconnCreateCommand_same {host : Host W} {sql : String} {s : Server W} {stmt : Nat}
    (prepared : host.sqlite3_prepare_v2 (stringNew (lit sql)).m_cstr s.world =
      (some stmt, s.world)) :
    sqliteconnCreateCommand host sql s =
      (some (some ⟨(stringNew (lit sql)).m_cstr, stmt⟩), s, []) := by
  show (call _ >>= _ : Srv W (Option Sqlitecommand)) s = _
  rw [bind_quiet (call_same prepared)]
  rfl

section

variable {host : Host W} {sprocs : W → List (List Column)} {s : Server W}

/-- The rows are read as the query yields them. -/
theorem loadAllProcedures_reads (table : QueriesTable host sprocs s.world) (rounds : Nat) :
    ∃ stmt, loadAllProcedures host rounds s =
      _loadProcedureInner host ⟨lit "SELECT * FROM SPROCS", stmt⟩ rounds s := by
  obtain ⟨stmt, prepared⟩ := table.prepares
  refine ⟨stmt, ?_⟩
  have opened : sqliteconnOpen host s = (some true, s, []) := call_same table.opens
  have command : sqliteconnCreateCommand host "SELECT * FROM SPROCS;" s =
      (some (some ⟨lit "SELECT * FROM SPROCS", stmt⟩), s, []) :=
    sqliteconnCreateCommand_same prepared
  unfold loadAllProcedures
  rw [bind_quiet opened, if_neg (by simp), bind_quiet command]

/-- With no row there is nothing to load, and the server starts. -/
theorem eagerServer_empty {world : W} (table : QueriesTable host sprocs world)
    (empty : sprocs world = []) (users : Users) (rounds : Nat) :
    eagerServer host (rounds + 1) users world = some (startServer users world) := by
  obtain ⟨stmt, load⟩ := loadAllProcedures_reads (s := startServer users world) table (rounds + 1)
  have loaded : loadAllProcedures host (rounds + 1) (startServer users world) =
      (some true, startServer users world, []) := by
    rw [load, _loadProcedureInner, sqlitereaderRead]
    have done := call_same (s := startServer users world) (table.empty empty stmt)
    rw [bind_quiet (a := none) (by rw [bind_quiet done]; rfl)]
    rfl
  simp only [eagerServer, result, final, loaded, if_pos]

/-- A row of SPROCS ends the server that loads it. -/
theorem load_row_dies (names : NamesColumns host) {cmd : Sqlitecommand} (reads : ReadsSprocs cmd)
    {columns : List Column} (rounds : Nat)
    (row : (host.sqlite3_step cmd s.world).1 = .row columns) :
    (_loadProcedureInner host cmd (rounds + 1)).result s = none := by
  have named := names cmd s.world columns _ reads (Prod.ext row rfl)
  have read : sqlitereaderRead host cmd s = (some (some columns), { s with
      world := (host.sqlite3_step cmd s.world).2 }, []) := by
    have stepped : call (host.sqlite3_step cmd) s = (some (.row columns), { s with
        world := (host.sqlite3_step cmd s.world).2 }, []) := by
      rw [← row]
      rfl
    rw [sqlitereaderRead, bind_quiet stepped]
    rfl
  rw [result, _loadProcedureInner, bind_quiet read]
  have null (t : Server W) : (loadRow host columns).result t = none := by
    rw [loadRow, sysCode_unknown named]
    rfl
  show (((loadRow host columns) >>= _ : Srv W Bool) _).1 = none
  rw [bind_none (null _)]

/-- All of them are loaded only where there is none. -/
theorem loadAllProcedures_dies (table : QueriesTable host sprocs s.world)
    (rows : sprocs s.world ≠ []) (rounds : Nat) :
    (loadAllProcedures host (rounds + 1)).result s = none := by
  obtain ⟨stmt, load⟩ := loadAllProcedures_reads table (rounds + 1)
  obtain ⟨columns, rest, filled⟩ := List.exists_cons_of_ne_nil rows
  rw [result, load]
  exact load_row_dies table.names (by rfl) rounds (table.rows columns rest filled stmt)

/-- With a row a server that loads at once does not start. -/
theorem eagerServer_rows {world : W} (table : QueriesTable host sprocs world)
    (rows : sprocs world ≠ []) (users : Users) (rounds : Nat) :
    eagerServer host (rounds + 1) users world = none := by
  rw [eagerServer, loadAllProcedures_dies (s := startServer users world) table rows]
  exact if_neg (by simp)

end

/-! ## The requests of stored procedures -/

/-- The items of this name hold a string. -/
def HoldsString (req : Request) (name : String) : Prop :=
  ∀ item, requestGetItem req (lit name) = some item → ∃ t, item.m_data = .str t

/-- An ADMIN request for a command. -/
def Commands (req : Request) (wanted : Command) : Prop :=
  ∃ item t, requestGetItem req (lit "COMMAND") = some item ∧ item.m_data = .str t ∧
    command t = wanted

/-- CREATE, DROP and EXEC texts, the list and display commands, and procedure requests, with
strings where the server reads strings. -/
inductive StoreRequest (req : Request) : Prop where
  | text (way : route req = .sql) (sql : ∀ item, requestGetItem req (lit "sql") = some item →
      ∃ t, item.m_data = .str t ∧
        (sqlBranch t = .create ∨ sqlBranch t = .drop ∨ sqlBranch t = .exec))
      (system : HoldsString req "system")
  | proclist (way : route req = .admin) (asks : Commands req .proclist)
  | displaysql (way : route req = .admin) (asks : Commands req .displaysql)
      (system : HoldsString req "system") (procedure : HoldsString req "procedure")
  | procedure (way : route req = .procedure)

/-- The row that the query of `updateProcedure` reads first. -/
def firstRow (host : Host W) (system name : Str) : Srv W (Option (List Column)) := do
  if ¬ (← sqliteconnOpen host) then Pure.pure none
  else
    match ← sqliteconnCreateCommand host
        "SELECT * FROM SPROCS WHERE SYS_CODE = @SYS_CODE AND SP_NAME = @SP_NAME;" with
    | none => Pure.pure none
    | some cmd =>
        if ← sqlitecommandSetParameterText host cmd "@SYS_CODE" system.m_cstr then
          if ← sqlitecommandSetParameterText host cmd "@SP_NAME" name.m_cstr then
            sqlitereaderRead host cmd
          else Pure.pure none
        else Pure.pure none

/-- The name behind the dot, if there is one, as `stmtmgrGetStmt` looks it up. -/
def storedName (name : Str) : Str :=
  match stringIndexOfCh name 46 0 with
  | some pos => stringNew (name.m_cstr.drop (pos + 1))
  | none => name

/-- A request that makes the server load: the list command, or the procedure request of a user
who may execute it and whose procedure has a row. -/
def Loads (host : Host W) (s : Server W) (req : Request) : Prop :=
  match route req with
  | .sql => False
  | .admin => Commands req .proclist
  | .procedure => ∃ sys system, requestGetItem req (lit "%%system%%") = some sys ∧
      sys.m_data = .str system ∧ userLogon s.users req.m_userId req.m_password = true ∧
        (usersHasPerm host req.m_userId (qualify system req.m_name).2.2).result s = some true ∧
          ∃ columns, (firstRow host (qualify system req.m_name).1
            (storedName (qualify system req.m_name).2.1)).result
              ((usersHasPerm host req.m_userId (qualify system req.m_name).2.2).final s) =
                some (some columns)

/-- The server that begins to answer a request. -/
def Server.greeting (s : Server W) : Server W :=
  { s with xml := lit "<?xml version='1.0'?>\r\n<ROWS>\r\n" }

/-! ## Acts that come to their end -/

/-- From a table without entries the act has a result, and leaves the table so. -/
def Lives {α : Type} (m : Srv W α) (Q : α → Prop) : Prop :=
  ∀ s, Unfilled s → Ends m s fun a s' => Unfilled s' ∧ Q a

section Lives

variable {α β : Type} {m : Srv W α} {Q : α → Prop} {R : β → Prop}

theorem Lives.pure {a : α} (holds : Q a) : Lives (Pure.pure a : Srv W α) Q :=
  fun _ unfilled => Ends.pure ⟨unfilled, holds⟩

/-- What lives goes on in a step that lives on its result. -/
theorem Lives.bind {f : α → Srv W β} (first : Lives m Q) (second : ∀ a, Q a → Lives (f a) R) :
    Lives (m >>= f) R := fun s unfilled =>
  Ends.bind (first s unfilled) fun a s' ⟨unfilled', holds⟩ => second a holds s' unfilled'

theorem Lives.seq {f : α → Srv W β} (first : Lives m fun _ => True)
    (second : ∀ a, Lives (f a) R) : Lives (m >>= f) R := first.bind fun a _ => second a

theorem Lives.ite {c : Prop} [Decidable c] {m' : Srv W α} (yes : c → Lives m Q)
    (no : ¬ c → Lives m' Q) : Lives (if c then m else m') Q := fun s unfilled =>
  Ends.ite (fun holds => yes holds s unfilled) fun fails => no fails s unfilled

theorem Lives.get : Lives (Act.get : Srv W (Server W)) Unfilled :=
  fun _ unfilled => Ends.get ⟨unfilled, unfilled⟩

theorem call_lives (f : W → α × W) : Lives (call f) fun _ => True :=
  fun _ unfilled => Ends.update ⟨unfilled, trivial⟩

theorem tell_lives (e : Event) : Lives (Act.tell e : Srv W Unit) fun _ => True :=
  fun _ unfilled => Ends.tell ⟨unfilled, trivial⟩

theorem append_lives (text : Bytes) : Lives (append (W := W) text) fun _ => True :=
  fun _ unfilled => Ends.modify ⟨unfilled, trivial⟩

theorem writeError_lives (cp1 : String) (cp2 : Bytes) :
    Lives (_writeError (W := W) cp1 cp2) fun _ => True :=
  (append_lives _).seq fun _ => (append_lives _).seq fun _ => (append_lives _).seq fun _ =>
    append_lives _

theorem writeErrorCode_lives (cp1 : String) (i : Int) :
    Lives (_writeErrorCode (W := W) cp1 i) fun _ => True :=
  (append_lives _).seq fun _ => (append_lives _).seq fun _ => (append_lives _).seq fun _ =>
    (append_lives _).seq fun _ => append_lives _

variable (host : Host W)

theorem createCommand_lives (sql : String) : Lives (sqliteconnCreateCommand host sql) fun _ => True :=
  (call_lives _).seq fun _ => .pure trivial

/-- The question for an administrator touches neither table nor list. -/
theorem usersIsAdmin_lives (uid : Str) : Lives (usersIsAdmin host uid) fun _ => True := by
  refine (call_lives _).seq fun _ => .ite (fun _ => .pure trivial) fun _ =>
    (createCommand_lives host _).seq fun cmd => ?_
  cases cmd with
  | none => exact .pure trivial
  | some cmd =>
      refine (call_lives _).seq fun _ => .ite (fun _ => ?_) fun _ => .pure trivial
      refine .seq ((call_lives _).seq fun stepped => ?_) fun row => ?_
      · cases stepped <;> exact .pure trivial
      · cases row <;> exact .pure trivial

theorem usersHasPerm_lives (uid perm : Str) : Lives (usersHasPerm host uid perm) fun _ => True :=
  Lives.get.bind fun _ _ => .ite (fun _ => .pure trivial) fun _ => usersIsAdmin_lives host uid

theorem resumeIf_lives (transId : Int) (b : Bool) :
    Lives (resumeIf host transId b) fun _ => True :=
  .ite (fun _ => (call_lives _).seq fun _ => (tell_lives _).seq fun _ =>
    .ite (fun _ => (writeErrorCode_lives _ _).seq fun _ => .pure trivial) fun _ => .pure trivial)
    fun _ => .pure trivial

theorem logonAdminUser_lives (req : Request) : Lives (logonAdminUser (W := W) req) fun _ => True :=
  .ite (fun _ => (writeError_lives _ _).seq fun _ => .pure trivial) fun _ => .pure trivial

/-- The string of an item that holds one. -/
theorem m_str_lives {item : RequestItem} {t : Str} (holds : item.m_data = .str t) :
    Lives (item.m_str (W := W)) (· = t) := by
  refine (tell_lives _).seq fun _ => ?_
  rw [holds]
  exact .pure rfl

variable (rounds : Nat)

/-- CREATE PROCEDURE through a request never gets behind its parser. -/
theorem createSql_lives {sql : Str} (way : sqlBranch sql = .create) (system userId : Str) :
    Lives (createSql host system userId sql) fun _ => True := by
  have parsed (count : Int) : preparedstatementNew host system sql count =
      Pure.pure (.error SQLE_SYNTAX) := by
    unfold preparedstatementNew
    rw [sqlprocNew_create _ (create_starts way)]
    rfl
  refine (usersIsAdmin_lives host userId).seq fun _ => .ite (fun _ => writeError_lives _ _) fun _ =>
    Lives.get.bind fun s _ => ?_
  rw [parsed]
  exact writeErrorCode_lives "prepared statement failed" SQLE_SYNTAX

/-- DROP PROCEDURE finds nothing in an empty table. -/
theorem dropSql_lives (userId sql : Str) : Lives (dropSql host userId sql) fun _ => True := by
  refine (usersIsAdmin_lives host userId).seq fun _ => .ite (fun _ => writeError_lives _ _) fun _ => ?_
  split
  case h_1 => exact writeError_lives _ _
  case h_2 pos _ =>
    refine Lives.get.bind fun s unfilled => ?_
    rw [Hashtable.hashtableGet_empty _ unfilled]
    exact writeError_lives _ _

/-- EXEC in a text is answered with an error. -/
theorem execSql_lives {sql : Str} (way : sqlBranch sql = .exec) (system userId : Str)
    (transId : Int) : Lives (execSql host rounds system userId sql transId) fun _ => True := by
  unfold execSql
  rw [requestNewFromExecSql_exec (exec_starts way)]
  exact (resumeIf_lives host _ _).seq fun _ => .ite (fun _ => .pure trivial) fun _ =>
    writeError_lives _ _

theorem complain_lives (item : RequestItem) (message : String) :
    Lives (complain (W := W) item message) fun _ => True :=
  .ite (fun _ => writeError_lives _ _) fun _ => .pure trivial

/-- An SQL request loads nothing. -/
theorem sqlRequest_lives {req : Request} (sql : ∀ item, requestGetItem req (lit "sql") = some item →
      ∃ t, item.m_data = .str t ∧
        (sqlBranch t = .create ∨ sqlBranch t = .drop ∨ sqlBranch t = .exec))
    (system : HoldsString req "system") : Lives (sqlRequest host rounds req) fun _ => True := by
  refine (logonAdminUser_lives req).seq fun _ => .ite (fun _ => .pure trivial) fun _ => ?_
  split
  case h_1 => exact writeError_lives _ _
  case h_2 item found =>
    obtain ⟨t, holds, way⟩ := sql item found
    refine (complain_lives _ _).seq fun _ => ?_
    split
    case h_1 => exact writeError_lives _ _
    case h_2 sys found' =>
      obtain ⟨name, holds'⟩ := system sys found'
      refine (complain_lives _ _).seq fun _ => (m_str_lives holds').bind fun _ _ =>
        (m_str_lives holds).bind fun t' same => ?_
      subst same
      unfold stmtmgrProcessSql
      rcases way with way | way | way <;> rw [way]
      · exact createSql_lives host way _ _
      · exact dropSql_lives host _ _
      · exact execSql_lives host rounds way _ _ _

/-- A request for the code of a procedure loads nothing. -/
theorem proccodeRequest_lives {req : Request} (system : HoldsString req "system")
    (procedure : HoldsString req "procedure") :
    Lives (proccodeRequest (W := W) req) fun _ => True := by
  unfold proccodeRequest
  split
  case h_1 => exact writeError_lives _ _
  case h_2 item found =>
    obtain ⟨_, holds⟩ := system item found
    refine (m_str_lives holds).bind fun _ _ => ?_
    split
    case h_1 => exact writeError_lives _ _
    case h_2 proc found' =>
      obtain ⟨_, holds'⟩ := procedure proc found'
      refine (m_str_lives holds').bind fun name _ => .bind (Q := (· = none)) ?_ fun found none => ?_
      · refine Lives.get.bind fun s unfilled => .pure ?_
        rw [Hashtable.hashtableGet_empty _ unfilled]
        rfl
      · rw [none]
        exact writeError_lives _ _

end Lives

/-! ## What the first request does -/

section First

variable {host : Host W} {sprocs : W → List (List Column)}

/-- A prepared command, with the world behind its preparation. -/
theorem createCommand_bind {β : Type} (sql : String) (g : Option Sqlitecommand → Srv W β)
    (s : Server W) : (sqliteconnCreateCommand host sql >>= g) s =
      g ((host.sqlite3_prepare_v2 (stringNew (lit sql)).m_cstr s.world).1.map fun stmt =>
          ⟨(stringNew (lit sql)).m_cstr, stmt⟩)
        { s with world := (host.sqlite3_prepare_v2 (stringNew (lit sql)).m_cstr s.world).2 } :=
  bind_quiet rfl g

/-- Rows are loaded exactly if there is one, and then the server ends. -/
theorem load_dies (names : NamesColumns host) {cmd : Sqlitecommand} (reads : ReadsSprocs cmd)
    (rounds : Nat) (s : Server W) : (_loadProcedureInner host cmd (rounds + 1)).result s = none ↔
      ∃ columns, (sqlitereaderRead host cmd).result s = some (some columns) := by
  cases row : (host.sqlite3_step cmd s.world).1 with
  | row columns =>
      refine iff_of_true (load_row_dies names reads rounds row) ⟨columns, ?_⟩
      rw [result, sqlitereaderRead, call_bind, row]
      rfl
  | done | error =>
      have read : sqlitereaderRead host cmd s = (some none, { s with
          world := (host.sqlite3_step cmd s.world).2 }, []) := by
        rw [sqlitereaderRead, call_bind, row]
        rfl
      refine iff_of_false ?_ ?_
      · rw [result, _loadProcedureInner, bind_quiet read]
        intro dead
        cases dead
      · rw [result, read]
        rintro ⟨columns, same⟩
        cases same

/-- The load of one procedure ends the server exactly if its query reads a row. -/
theorem updateProcedure_dies (names : NamesColumns host) (rounds : Nat) (system name : Str)
    (s : Server W) : (updateProcedure host (rounds + 1) system name).result s = none ↔
      ∃ columns, (firstRow host system name).result s = some (some columns) := by
  simp only [result, updateProcedure, firstRow, sqliteconnOpen, sqlitecommandSetParameterText,
    call_bind]
  split
  case isTrue => exact iff_of_false nofun nofun
  case isFalse =>
    simp only [createCommand_bind]
    cases (host.sqlite3_prepare_v2 _ _).1 with
    | none => exact iff_of_false nofun nofun
    | some stmt =>
        simp only [Option.map_some, call_bind]
        split
        case isFalse => exact iff_of_false nofun nofun
        case isTrue =>
          simp only [call_bind]
          split
          case isFalse => exact iff_of_false nofun nofun
          case isTrue => exact load_dies names (by rfl) rounds _

theorem dies_seq {α β : Type} {m : Srv W α} {f : α → Srv W β} {s : Server W}
    (ends : Ends m s fun a s' => (f a).result s' = none) : (m >>= f).result s = none := by
  obtain ⟨a, ended, dead⟩ := ends
  rw [result_bind ended]
  exact dead

theorem dies_first {α β : Type} {m : Srv W α} {f : α → Srv W β} {s : Server W}
    (dead : m.result s = none) : (m >>= f).result s = none := by
  rw [result, bind_none dead]

/-- A request ends the server exactly if its answer does. -/
theorem handleRequest_dies {rounds : Nat} {req : Request} {s : Server W} :
    (handleRequest host rounds req).result s = none ↔
      (answer host rounds s.users req).result s.greeting = none := by
  have run : handleRequest host rounds req s =
      ((answer host rounds s.users req) >>= fun _ => say "</ROWS>\r\n") s.greeting := rfl
  rw [result, run]
  constructor
  · intro dead
    cases ended : (answer host rounds s.users req).result s.greeting with
    | none => rfl
    | some a =>
        rw [bind_some ended] at dead
        cases dead
  · exact fun dead => dies_first dead

/-- The list command loads all procedures, and dies of the first. -/
theorem proclistRequest_dies {s : Server W} (table : QueriesTable host sprocs s.world)
    (empty : s.m_stmts.hashtableCount = 0) (rows : sprocs s.world ≠ []) (rounds : Nat) :
    (proclistRequest host (rounds + 1)).result s = none := by
  have loads : (loadIfEmpty host (rounds + 1)).result s = none := by
    refine dies_seq ⟨s, rfl, ?_⟩
    show Act.result (if s.m_stmts.hashtableCount = 0 then _ else _) s = none
    rw [if_pos empty]
    exact loadAllProcedures_dies table rows rounds
  exact dies_first (dies_first loads)

theorem adminRequest_command {rounds : Nat} {req : Request} {item : RequestItem} {t : Str}
    (found : requestGetItem req (lit "COMMAND") = some item) (holds : item.m_data = .str t)
    (s : Server W) : Act.result (adminRequest host rounds req) s =
      (runCommand host rounds req t).result s := by
  have read : (item.m_str (W := W)).result s = some t ∧ (item.m_str (W := W)).final s = s := by
    unfold RequestItem.m_str
    rw [holds]
    exact ⟨rfl, rfl⟩
  have run : adminRequest host rounds req = (do
      expectCommand (some item)
      let item ← present (some item)
      let text ← item.m_str
      runCommand host rounds req text) := by
    unfold adminRequest
    rw [found]
  rw [run, result_bind (a := ()) rfl, result_bind (a := item) rfl]
  show Act.result (item.m_str >>= fun text => runCommand host rounds req text) s = _
  rw [result_bind read.1, read.2]

/-- The lookup ends the server exactly if the load does: the table has no entry. -/
theorem stmtmgrGetStmt_dies {rounds : Nat} {system name fqname : Str} {s : Server W}
    (unfilled : Unfilled s) : (stmtmgrGetStmt host rounds system name fqname).result s = none ↔
      (updateProcedure host rounds system (storedName name)).result s = none := by
  have absent : (s.m_stmts.hashtableGet fqname.m_cstr).join = none := by
    rw [Hashtable.hashtableGet_empty _ unfilled]
    rfl
  have run : (stmtmgrGetStmt host rounds system name fqname).result s =
      Act.result (updateProcedure host rounds system (storedName name) >>= fun ok =>
        if ok then Act.get >>= fun s => Pure.pure (s.m_stmts.hashtableGet fqname.m_cstr).join
        else Pure.pure none) s := by
    show Act.result (match (s.m_stmts.hashtableGet fqname.m_cstr).join with
      | some pointer => Pure.pure (some pointer)
      | none => _) s = _
    rw [absent]
    rfl
  rw [run]
  constructor
  · intro dead
    cases ended : (updateProcedure host rounds system (storedName name)).result s with
    | none => rfl
    | some ok =>
        rw [result_bind ended] at dead
        cases ok <;> cases dead
  · exact fun dead => dies_first dead

/-- `stmtmgrExec` ends the server exactly if the user may execute the procedure and it has a row. -/
theorem stmtmgrExec_dies (names : NamesColumns host) (rounds : Nat) {system : Str} {req : Request}
    {s : Server W} (unfilled : Unfilled s) :
    (stmtmgrExec host (rounds + 1) system req).result s = none ↔
      (usersHasPerm host req.m_userId (qualify system req.m_name).2.2).result s = some true ∧
        ∃ columns, (firstRow host (qualify system req.m_name).1
          (storedName (qualify system req.m_name).2.1)).result
            ((usersHasPerm host req.m_userId (qualify system req.m_name).2.2).final s) =
              some (some columns) := by
  generalize named : qualify system req.m_name = q
  obtain ⟨sys, name, fqname⟩ := q
  have told (cp1 : String) (cp2 : Bytes) (b : Bool) (t : Server W) (unfilled : Unfilled t) :
      Act.result (_writeError cp1 cp2 >>= fun _ => Pure.pure b : Srv W Bool) t ≠ none := by
    obtain ⟨a, ended, -⟩ := ((writeError_lives cp1 cp2).seq fun _ =>
      Lives.pure (Q := fun _ => True) (a := b) trivial) t unfilled
    rw [ended]
    exact Option.some_ne_none a
  obtain ⟨ok, ended, unfilled', -⟩ := usersHasPerm_lives host req.m_userId fqname s unfilled
  unfold stmtmgrExec
  rw [named]
  simp only
  rw [result_bind ended, ended, ← updateProcedure_dies names rounds]
  generalize (usersHasPerm host req.m_userId fqname).final s = s₁ at unfilled'
  cases ok with
  | false =>
      refine iff_of_false (told _ _ _ _ unfilled') ?_
      rintro ⟨granted, -⟩
      cases granted
  | true =>
      rw [and_iff_right rfl, ← stmtmgrGetStmt_dies unfilled']
      have none := stmtmgrGetStmt_none (P := fun _ => True) names (rounds + 1) sys name fqname s₁
        unfilled'
      constructor
      · intro dead
        cases found : (stmtmgrGetStmt host (rounds + 1) sys name fqname).result s₁ with
        | none => rfl
        | some stmt =>
            obtain rfl := none.result stmt found
            rw [if_neg (by simp), result_bind found] at dead
            exact absurd dead (told _ _ _ _ none.keeps)
      · intro dead
        rw [if_neg (by simp)]
        exact dies_first dead

theorem answer_admin {rounds : Nat} {req : Request} (way : route req = .admin) (u : Users) :
    answer host rounds u req = adminRequest host rounds req := by
  have admin : stringIsEqual req.m_name (lit "ADMIN") true = true := by
    unfold route at way
    split_ifs at way with _ yes
    exact yes
  rw [answer, logonOk, admin, Bool.true_or, if_neg (by simp), dispatch, way]

theorem answer_procedure {rounds : Nat} {req : Request} (way : route req = .procedure) (u : Users) :
    answer host rounds u req =
      if ¬ userLogon u req.m_userId req.m_password then _writeError "logon failed" []
      else (do
        if ← executeDynamic host rounds req then Pure.pure ()
        else _writeError "unknown procedure " req.m_name.m_cstr) := by
  have other : stringIsEqual req.m_name (lit "ADMIN") true = false := by
    unfold route at way
    split_ifs at way with _ no
    simpa using no
  rw [answer, logonOk, other, Bool.false_or, dispatch, way]

/-- A procedure request ends the server where `stmtmgrExec` does. -/
theorem executeDynamic_dies {rounds : Nat} {req : Request} {s : Server W} (unfilled : Unfilled s) :
    (executeDynamic host rounds req).result s = none ↔
      ∃ sys system, requestGetItem req (lit "%%system%%") = some sys ∧ sys.m_data = .str system ∧
        (stmtmgrExec host rounds system req).result s = none := by
  have told (message : String) :
      Act.result (_writeError message [] >>= fun _ => Pure.pure true : Srv W Bool) s ≠ none := by
    obtain ⟨a, ended, -⟩ := ((writeError_lives message []).seq fun _ =>
      Lives.pure (Q := fun _ => True) (a := true) trivial) s unfilled
    rw [ended]
    exact nofun
  unfold executeDynamic
  split
  case h_1 absent =>
    refine iff_of_false (told _) ?_
    rintro ⟨sys, _, found, -⟩
    rw [absent] at found
    cases found
  case h_2 sys found =>
    by_cases isStr : sys.m_type = tagS
    · obtain ⟨system, holds⟩ : ∃ system, sys.m_data = .str system := by
        cases data : sys.m_data with
        | str system => exact ⟨system, rfl⟩
        | real | long | int =>
            rw [RequestItem.m_type, data] at isStr
            cases isStr
      have read : (sys.m_str (W := W)).result s = some system ∧
          (sys.m_str (W := W)).final s = s := by
        unfold RequestItem.m_str
        rw [holds]
        exact ⟨rfl, rfl⟩
      rw [if_neg (not_not.mpr isStr), result_bind read.1, read.2]
      constructor
      · exact fun dead => ⟨sys, system, found, holds, dead⟩
      · rintro ⟨sys', system', found', holds', dead⟩
        cases found.symm.trans found'
        cases holds.symm.trans holds'
        exact dead
    · rw [if_pos isStr]
      refine iff_of_false (told _) ?_
      rintro ⟨sys', system', found', holds', -⟩
      cases found.symm.trans found'
      exact isStr (by rw [RequestItem.m_type, holds']; rfl)

/-- Of the requests about procedures those end a server that has just started that make it load. -/
theorem first_dies {users : Users} {world : W} (table : QueriesTable host sprocs world)
    (rows : sprocs world ≠ []) (rounds : Nat) {req : Request} (asks : StoreRequest req) :
    (handleRequest host (rounds + 1) req).result (startServer users world) = none ↔
      Loads host (startServer users world).greeting req := by
  have unfilled : Unfilled (startServer users world).greeting := rfl
  rw [handleRequest_dies]
  generalize same : (startServer users world).greeting = s at unfilled
  have here : (startServer users world).users = s.users := by rw [← same]; rfl
  have loaded : s.m_stmts.hashtableCount = 0 ∧ sprocs s.world ≠ [] ∧
      QueriesTable host sprocs s.world := by
    rw [← same]
    exact ⟨rfl, rows, table⟩
  rw [here]
  have lives {m : Srv W Unit} (lives : Lives m fun _ => True) : m.result s ≠ none := by
    obtain ⟨a, ended, -⟩ := lives s unfilled
    rw [ended]
    exact nofun
  cases asks with
  | text way sql system =>
      refine iff_of_false (lives (.ite (fun _ => writeError_lives _ _) fun _ => ?_)) ?_
      · unfold dispatch
        rw [way]
        exact sqlRequest_lives host _ sql system
      · unfold Loads
        rw [way]
        exact not_false
  | proclist way asks =>
      refine iff_of_true ?_ (by unfold Loads; rw [way]; exact asks)
      obtain ⟨item, t, found, holds, wanted⟩ := asks
      rw [answer_admin way, adminRequest_command found holds, runCommand, wanted]
      exact proclistRequest_dies loaded.2.2 loaded.1 loaded.2.1 rounds
  | displaysql way asks system procedure =>
      obtain ⟨item, t, found, holds, wanted⟩ := asks
      refine iff_of_false ?_ ?_
      · rw [answer_admin way, adminRequest_command found holds, runCommand, wanted]
        exact lives (proccodeRequest_lives system procedure)
      · unfold Loads
        rw [way]
        rintro ⟨item', t', found', holds', other⟩
        cases found.symm.trans found'
        cases holds.symm.trans holds'
        cases wanted.symm.trans other
  | procedure way =>
      rw [answer_procedure way, Loads, way]
      simp only
      by_cases logon : userLogon s.users req.m_userId req.m_password = true
      · rw [if_neg (not_not.mpr logon)]
        have both : Act.result (executeDynamic host (rounds + 1) req >>= fun known =>
            if known then Pure.pure () else _writeError "unknown procedure " req.m_name.m_cstr) s =
              none ↔ (executeDynamic host (rounds + 1) req).result s = none := by
          refine ⟨fun dead => ?_, dies_first⟩
          cases ended : (executeDynamic host (rounds + 1) req).result s with
          | none => rfl
          | some known =>
              rw [result_bind ended] at dead
              cases known <;> cases dead
        rw [both, executeDynamic_dies unfilled]
        simp only [stmtmgrExec_dies table.names rounds unfilled, logon, true_and]
      · rw [if_pos logon]
        refine iff_of_false (lives (writeError_lives _ _)) ?_
        rintro ⟨_, _, _, _, yes, _⟩
        exact logon yes

end First

/-- Nothing is answered exactly if the first request ends the server. -/
theorem outcomes_nil {host : Host W} {sprocs : W → List (List Column)} {rounds : Nat}
    {users : Users} {world : W} {req : Request} {rest : List Request} :
    outcomes host rounds sprocs (runServer host rounds (req :: rest) (startServer users world)) =
      [] ↔ (handleRequest host rounds req).result (startServer users world) = none := by
  obtain ⟨later, first, ends⟩ : ∃ later,
      runServer host rounds (req :: rest) (startServer users world) =
        ⟨startServer users world, req,
          (handleRequest host rounds req).final (startServer users world),
          (handleRequest host rounds req).log (startServer users world)⟩ :: later ∧
      ((handleRequest host rounds req).result (startServer users world) = none → later = []) :=
    ⟨_, rfl, fun ended => by rw [ended]⟩
  rw [first]
  cases ended : (handleRequest host rounds req).result (startServer users world) with
  | none => exact iff_of_true (by simp [outcomes, ended, ends ended]) rfl
  | some a => exact iff_of_false (by simp [outcomes, ended]) (Option.some_ne_none a)

/-- Loading on use cannot be told from loading before exactly if there is nothing to load, or
nobody asks, or the first who asks makes the server load. -/
theorem loadTransparent_iff (host : Host W) (sprocs : W → List (List Column)) (rounds : Nat)
    (users : Users) (world : W) (reqs : List Request) (table : QueriesTable host sprocs world)
    (enough : (sprocs world).length < rounds) (asks : ∀ req ∈ reqs, StoreRequest req) :
    LoadTransparent host sprocs rounds users world reqs ↔
      sprocs world = [] ∨ reqs = [] ∨
        ∃ req rest, reqs = req :: rest ∧ Loads host (startServer users world).greeting req := by
  obtain ⟨rounds, rfl⟩ := Nat.exists_eq_succ_of_ne_zero (Nat.ne_of_gt (Nat.zero_lt_of_lt enough))
  unfold LoadTransparent
  by_cases empty : sprocs world = []
  · rw [eagerServer_empty table empty]
    exact ⟨fun _ => .inl empty, fun _ => rfl⟩
  rw [eagerServer_rows table empty, or_iff_right empty]
  cases reqs with
  | nil => exact iff_of_true rfl (.inl rfl)
  | cons req rest =>
      rw [outcomes_nil, first_dies table empty rounds (asks req List.mem_cons_self)]
      refine ⟨fun loads => .inr ⟨req, rest, rfl, loads⟩, ?_⟩
      rintro (none | ⟨req', rest', same, loads⟩)
      · cases none
      · cases same
        exact loads

/-! ## A table with two procedures -/

theorem tableHost_queries (rows : List (Bytes × Bytes × Bytes)) :
    QueriesTable tableHost (fun w => w.1.map sprocsRow) (rows, 0) where
  names := tableHost_names
  opens := rfl
  prepares := ⟨0, rfl⟩
  empty := by
    intro none stmt
    cases List.map_eq_nil_iff.mp none
    rfl
  rows := by
    intro columns rest filled stmt
    cases rows with
    | nil => cases filled
    | cons row rows =>
        cases filled
        rfl

def twoRows : List (Bytes × Bytes × Bytes) :=
  [(lit "SYS", lit "ONE", lit "CREATE PROCEDURE one () SELECT a FROM t"),
    (lit "SYS", lit "TWO", lit "CREATE PROCEDURE two () SELECT b FROM t")]

/-- `displaysql` of a procedure. -/
def displaysql (procedure : String) : Request := { asksFor "displaysql" with
  m_items := [{ m_name := some (text "COMMAND"), m_data := .str (text "displaysql") },
    { m_name := some (text "system"), m_data := .str (text "SYS") },
    { m_name := some (text "procedure"), m_data := .str (text procedure) }]
  m_itemCount := 3 }

theorem proclist_asks : StoreRequest (asksFor "proclist") :=
  .proclist (by decide) ⟨_, _, rfl, rfl, by decide⟩

theorem displaysql_asks (procedure : String) : StoreRequest (displaysql procedure) := by
  have system : requestGetItem (displaysql procedure) (lit "system") =
      some { m_name := some (text "system"), m_data := .str (text "SYS") } := rfl
  have named : requestGetItem (displaysql procedure) (lit "procedure") =
      some { m_name := some (text "procedure"), m_data := .str (text procedure) } := rfl
  refine .displaysql rfl ⟨_, _, rfl, rfl, by decide⟩ ?_ ?_
  · intro item found
    cases system.symm.trans found
    exact ⟨_, rfl⟩
  · intro item found
    cases named.symm.trans found
    exact ⟨_, rfl⟩

/-- The list command first: either server answers nothing, the request behind it included. -/
theorem listed_transparent :
    LoadTransparent tableHost (fun w => w.1.map sprocsRow) 3 (emptyServer ()).users (twoRows, 0)
      [asksFor "proclist", displaysql "ONE"] := by
  have asks : ∀ req ∈ [asksFor "proclist", displaysql "ONE"], StoreRequest req := by
    intro req mem
    rcases List.mem_pair.mp mem with rfl | rfl
    · exact proclist_asks
    · exact displaysql_asks "ONE"
  refine (loadTransparent_iff tableHost (fun w => w.1.map sprocsRow) 3 _ _ _
    (tableHost_queries twoRows) (by decide) asks).mpr (.inr (.inr ⟨_, _, rfl, ?_⟩))
  exact ⟨_, _, rfl, rfl, by decide⟩

/-- With two procedures in SPROCS a server that loads them first does not come up to answer
`displaysql`. -/
theorem storedProcedure_opaque :
    ¬ ∀ (W : Type) (host : Host W) (sprocs : W → List (List Column)) (rounds : Nat) (users : Users)
      (world : W) (reqs : List Request), QueriesTable host sprocs world →
        (sprocs world).length < rounds → (∀ req ∈ reqs, StoreRequest req) →
          LoadTransparent host sprocs rounds users world reqs := by
  intro transparent
  have table := tableHost_queries twoRows
  have asks : ∀ req ∈ [displaysql "ONE"], StoreRequest req := fun req mem =>
    List.mem_singleton.mp mem ▸ displaysql_asks "ONE"
  have same := transparent _ tableHost _ 3 (emptyServer ()).users _ [displaysql "ONE"] table
    (by decide) asks
  have rows : (fun w : List (Bytes × Bytes × Bytes) × Nat => w.1.map sprocsRow) (twoRows, 0) ≠ [] :=
    List.cons_ne_nil _ _
  rw [LoadTransparent, eagerServer_rows table rows, outcomes_nil,
    first_dies table rows 2 (displaysql_asks "ONE")] at same
  obtain ⟨item, t, found, holds, wanted⟩ := same
  cases found
  cases holds
  exact absurd wanted (by decide)

end Jspp.Splc
