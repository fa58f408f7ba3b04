/-
# Splc.Stmtmgr -- stored procedures, SQL texts and transactions

The statements of preparedstatement.c that reach SQLite, and stmtmgr.c: the cache
`m_stmts` from fully qualified names to prepared statements, the SQL texts a
client may send, and the calls to TMF around them.  A prepared statement is a
pointer into the heap, which stays where the table has it until it is dropped or
created anew.

* `preparedstatementNew`: a statement in the heap, by its pointer.
* `stmtmgrGetStmt`, `stmtmgrExec`: a procedure by its name, from the cache or loaded.
* `sqlBranch`, `stmtmgrProcessSql`: which statement a text is, and what is done.
* `resumetrans`, `suspendtrans`: the bracket around a statement in a transaction.
-/
import Jspp.Splc.Users

namespace Jspp.Splc

open Jspp.Theory
open Srv

set_option autoImplicit false

variable [Copying] {W : Type} (host : Host W)

/-! ## Prepared statements -/

def SQLE_SYNTAX : Int := 6

/-- `preparedstatementNew`: a pointer, or the error code. -/
def preparedstatementNew (system sql : Str) (count : Int) : Srv W (Except Int Nat) := do
  match ← Act.ofOption (sqlprocNew host.sqlprocParse sql) with
  | none => pure (.error SQLE_SYNTAX)
  | some procDef =>
      let m_system := stringDup system
      let m_name := stringDup procDef.m_name
      let pointer ← allocate {
        m_id := count
        m_procDef := procDef
        m_system := m_system
        m_name := m_name
        m_fqname := stringCat (stringCat m_system (lit ".") 1) m_name.m_cstr m_name.m_len }
      match ← call (host.prepare procDef) with
      | none => pure (.ok pointer)
      | some errorcode => do
          preparedstatementDelete (some pointer)
          pure (.error errorcode)

def preparedstatementNewImmediate (system sql : Str) : Srv W (Except Int Nat) :=
  preparedstatementNew host system
    (Packet.stringbufferToString (lit "CREATE CURSOR ZZTMP () " ++ sql.m_cstr)) (-1)

def preparedstatementExec (pointer : Option Nat) (req : Request) : Srv W Unit := do
  let stmt ← deref pointer
  Act.tell (.exec (pointer.getD 0) req.m_userId.m_cstr)
  append (← call (host.exec stmt.m_procDef req))

/-- One row of SPROCS into the cache; a NULL column ends the server. -/
def loadRow (columns : List Column) : Srv W Bool := do
  let cpsys ← Act.ofOption (sqlitereaderText columns "SYS_CODE")
  let cpsql ← Act.ofOption (sqlitereaderText columns "SP_TEXT")
  let s ← Act.get
  match ← preparedstatementNew host (stringNew cpsys) (stringNew cpsql) s.m_stmts.hashtableCount with
  | .error _ => pure false
  | .ok pointer =>
      let stmt ← deref (some pointer)
      Act.modify fun s => { s with
        m_stmts := s.m_stmts.hashtablePut stmt.m_fqname.m_cstr (some pointer) }
      pure true

/-- `_loadProcedureInner`; a result set has finitely many rows, `rounds` bounds them. -/
def _loadProcedureInner (cmd : Sqlitecommand) : Nat → Srv W Bool
  | 0 => pure true
  | rounds + 1 => do
      match ← sqlitereaderRead host cmd with
      | none => pure true
      | some columns =>
          if ← loadRow host columns then _loadProcedureInner cmd rounds else pure false

variable (rounds : Nat)

def loadAllProcedures : Srv W Bool := do
  if ¬ (← sqliteconnOpen host) then pure false
  else
    match ← sqliteconnCreateCommand host "SELECT * FROM SPROCS;" with
    | none => pure false
    | some cmd => _loadProcedureInner host cmd rounds

def updateProcedure (system name : Str) : Srv W Bool := do
  if ¬ (← sqliteconnOpen host) then pure false
  else
    match ← sqliteconnCreateCommand host
        "SELECT * FROM SPROCS WHERE SYS_CODE = @SYS_CODE AND SP_NAME = @SP_NAME;" with
    | none => pure false
    | some cmd =>
        if ← sqlitecommandSetParameterText host cmd "@SYS_CODE" system.m_cstr then
          if ← sqlitecommandSetParameterText host cmd "@SP_NAME" name.m_cstr then
            _loadProcedureInner host cmd rounds
          else pure true
        else pure true

def saveProcedure (system name sql : Str) : Srv W Bool := do
  if ¬ (← sqliteconnOpen host) then pure false
  else
    match ← sqliteconnCreateCommand host
        "INSERT INTO SPROCS (SYS_CODE, SP_NAME, SP_TEXT) VALUES (@SYS_CODE, @SP_NAME, @SP_TEXT)" with
    | none => pure false
    | some cmd =>
        if ← sqlitecommandSetParameterText host cmd "@SYS_CODE" system.m_cstr then
          if ← sqlitecommandSetParameterText host cmd "@SP_NAME" name.m_cstr then
            if ← sqlitecommandSetParameterText host cmd "@SP_TEXT" sql.m_cstr then
              sqlitecommandExecuteNonQuery host cmd
            else pure false
          else pure false
        else pure false

def deleteProcedure (system name : Str) : Srv W Bool := do
  if ¬ (← sqliteconnOpen host) then pure false
  else
    match ← sqliteconnCreateCommand host
        "DELETE FROM SPROCS WHERE SYS_CODE = @SYS_CODE AND SP_NAME = @SP_NAME;" with
    | none => pure false
    | some cmd =>
        if ← sqlitecommandSetParameterText host cmd "@SYS_CODE" system.m_cstr then
          if ← sqlitecommandSetParameterText host cmd "@SP_NAME" name.m_cstr then
            sqlitecommandExecuteNonQuery host cmd
          else pure false
        else pure false

/-- The rows of `loadAllSystems`; a NULL system name ends the server. -/
def systemRows (cmd : Sqlitecommand) : Nat → Srv W (List Str)
  | 0 => pure []
  | rounds + 1 => do
      match ← sqlitereaderRead host cmd with
      | none => pure []
      | some columns =>
          let cpsys ← Act.ofOption (sqlitereaderText columns "SYS_CODE")
          let more ← systemRows cmd rounds
          pure (stringNew cpsys :: more)

/-- `loadAllSystems`; `none` is NULL. -/
def loadAllSystems : Srv W (Option (List Str)) := do
  if ¬ (← sqliteconnOpen host) then pure none
  else
    match ← sqliteconnCreateCommand host "SELECT DISTINCT SYS_CODE FROM SPROCS;" with
    | none => pure none
    | some cmd => some <$> systemRows host cmd rounds

/-! ## Transactions -/

def resumetrans (transId : Int) : Srv W Bool := do
  let status ← call (host.TMF_RESUME_ transId)
  Act.tell (.resumed (status == 0))
  if status ≠ 0 then
    _writeErrorCode "TMF_RESUME_ error " status
    pure false
  else pure true

def suspendtrans (transId : Int) : Srv W Bool := do
  let status ← call (host.TMF_SUSPEND_ transId)
  Act.tell .suspended
  if status ≠ 0 then
    _writeErrorCode "TMF_SUSPEND_ error " status
    pure false
  else pure true

/-- `if (transId != 0)` around `resumetrans`: without a transaction, `otherwise`. -/
def resumeIf (transId : Int) (otherwise : Bool) : Srv W Bool :=
  if transId ≠ 0 then resumetrans host transId else pure otherwise

def suspendIf (transId : Int) : Srv W Unit :=
  if transId ≠ 0 then do
    let _ ← suspendtrans host transId
    pure ()
  else pure ()

def begintransRequest : Srv W Unit := do
  let begun ← call host.TMF_TXBEGIN_
  if begun.1 ≠ 0 then _writeErrorCode "TMF_TXBEGIN_ error " begun.1
  else
    let txhandle ← call (host.TMF_TXHANDLE_FROM_BEGINTAG_ begun.2)
    if txhandle.1 ≠ 0 then _writeErrorCode "TMF_TXHANDLE_FROM_BEGINTAG_ error " txhandle.1
    else
      let transid ← call (host.TMF_GET_TX_ID_ txhandle.2)
      if transid.1 ≠ 0 then _writeErrorCode "TMF_GET_TX_ID_ error " transid.1
      else if ← suspendtrans host transid.2 then
        say "<row message='OK' transid='"
        append (intText transid.2)
        say "' />\r\n"
      else pure ()

/-- `aborttransRequest` and `comittransRequest`, which end the transaction with different calls. -/
def endtransRequest (endtrans : W → Int × W) (message : String) (transId : Int) : Srv W Unit := do
  if ¬ (← resumetrans host transId) then pure ()
  else
    let status ← call endtrans
    Act.tell .ended
    if status ≠ 0 then _writeErrorCode message status
    else say "<row message='OK' />\r\n"

def aborttransRequest : Int → Srv W Unit :=
  endtransRequest host host.ABORTTRANSACTION "ABORTTRANSACTION error "

def comittransRequest : Int → Srv W Unit :=
  endtransRequest host host.ENDTRANSACTION "ENDTRANSACTION error "

/-! ## Executing a stored procedure -/

/-- `stmtmgrGetStmt`: the cache, then SQLite, then the cache again. -/
def stmtmgrGetStmt (system name fqname : Str) : Srv W (Option Nat) := do
  let s ← Act.get
  match (s.m_stmts.hashtableGet fqname.m_cstr).join with
  | some pointer => pure (some pointer)
  | none =>
      let name :=
        match stringIndexOfCh name 46 0 with
        | some pos => stringNew (name.m_cstr.drop (pos + 1))
        | none => name
      if ← updateProcedure host rounds system name then
        let s ← Act.get
        pure (s.m_stmts.hashtableGet fqname.m_cstr).join
      else pure none

/-- The name a request executes: system, name and fully qualified name. -/
def qualify (system reqName : Str) : Str × Str × Str :=
  match stringIndexOfCh reqName 46 0 with
  | none =>
      let system := stringDup system
      let name := stringDup reqName
      (system, name, stringCat (stringCat system (lit ".") 1) name.m_cstr name.m_len)
  | some pos =>
      let fqname := stringDup reqName
      (stringSubstring fqname 0 pos, stringSubstringFrom fqname (pos + 1), fqname)

def stmtmgrExec (_system : Str) (req : Request) : Srv W Bool := do
  let (system, name, fqname) := qualify _system req.m_name
  if ¬ (← usersHasPerm host req.m_userId fqname) then
    _writeError "permission denied" []
    pure true
  else
    match ← stmtmgrGetStmt host rounds system name fqname with
    | none =>
        _writeError "procedure not found " fqname.m_cstr
        pure false
    | some stmt =>
        if ¬ (← resumeIf host req.m_transid true) then pure false
        else
          preparedstatementExec host (some stmt) req
          suspendIf host req.m_transid
          pure true

/-! ## SQL texts -/

def execSql (system userId sql : Str) (transId : Int) : Srv W Unit := do
  if ¬ (← resumeIf host transId true) then pure ()
  else
    match ← Act.ofOption (requestNewFromExecSql sql) with
    | none => _writeError "syntax error or out of memory" []
    | some req =>
        let _ ← stmtmgrExec host rounds system { req with m_userId := stringDup userId }
        suspendIf host transId

/-- A CREATE of a name in the cache deletes the statement there, and its row. -/
def replaceOld (s : Server W) (system : Str) (stmt : Statement) : Srv W Unit :=
  if s.m_stmts.hashtableContainsKey stmt.m_fqname.m_cstr then do
    preparedstatementDelete (s.m_stmts.hashtableGet stmt.m_fqname.m_cstr).join
    let _ ← deleteProcedure host system stmt.m_name
    pure ()
  else pure ()

def createSql (system userId sql : Str) : Srv W Unit := do
  if ¬ (← usersIsAdmin host userId) then _writeError "unauthorized" []
  else
    let s ← Act.get
    match ← preparedstatementNew host system sql s.m_stmts.hashtableCount with
    | .error errorcode => _writeErrorCode "prepared statement failed" errorcode
    | .ok pointer =>
        let stmt ← deref (some pointer)
        let s ← Act.get
        replaceOld host s system stmt
        Act.modify fun s => { s with
          m_stmts := s.m_stmts.hashtablePut stmt.m_fqname.m_cstr (some pointer) }
        if ¬ (← saveProcedure host system stmt.m_name sql) then
          _writeError "error writing procedure to local database" []
          preparedstatementDelete (some pointer)
        else say "<row message='OK' />\r\n"

def dropSql (userId sql : Str) : Srv W Unit := do
  let name := stringSubstringFrom sql ((stringIndexOfCh sql 32 6).elim 0 (· + 1))
  if ¬ (← usersIsAdmin host userId) then _writeError "unauthorized" []
  else
    match stringIndexOfCh name 46 0 with
    | none => _writeError "procedure name must be in the format SYSTEM.PROCNAME" []
    | some pos =>
        let fqname := stringDup name
        let system := stringSubstring fqname 0 pos
        let name := stringSubstringFrom fqname (pos + 1)
        let s ← Act.get
        match (s.m_stmts.hashtableGet fqname.m_cstr).join with
        | none => _writeError "procedure not found " fqname.m_cstr
        | some stmt =>
            Act.modify fun s => { s with m_stmts := s.m_stmts.hashtablePut fqname.m_cstr none }
            if ¬ (← deleteProcedure host system name) then
              _writeError "couldn't delete in sqlite, system in inconsistant state " fqname.m_cstr
            else
              preparedstatementDelete (some stmt)
              say "<row message='OK' />\r\n"

def immediateSql (system userId sql : Str) (transId : Int) : Srv W Unit := do
  if ¬ (← usersIsAdmin host userId) then _writeError "unauthorized" []
  else
    match ← preparedstatementNewImmediate host system sql with
    | .error errorcode => _writeErrorCode "prepared statement failed" errorcode
    | .ok stmt =>
        match ← Act.ofOption (requestNewFromExecSql (stringNew (lit "EXEC IMM"))) with
        | none =>
            preparedstatementDelete (some stmt)
            _writeError "out of memeory" []
        | some req =>
            -- here the branch is left when the transaction could be resumed
            if ← resumeIf host transId false then preparedstatementDelete (some stmt)
            else
              preparedstatementExec host (some stmt) req
              suspendIf host transId
              preparedstatementDelete (some stmt)

/-- The branches of `stmtmgrProcessSql`. -/
inductive SqlBranch where
  | begin | commit | abort | grant | createLogon | exec | create | drop | immediate
  deriving DecidableEq, Repr

/-- The `if` cascade of `stmtmgrProcessSql`. -/
def sqlBranch (sql : Str) : SqlBranch :=
  if stringIsEqual sql (lit "BEGIN TRANSACTION") true then .begin
  else if stringIsEqual sql (lit "COMMIT TRANSACTION") true then .commit
  else if stringIsEqual sql (lit "ABORT TRANSACTION") true then .abort
  else if stringStartsWith sql (lit "GRANT ") true then .grant
  else if stringStartsWith sql (lit "CREATE LOGON") true then .createLogon
  else if stringStartsWith sql (lit "EXEC ") true then .exec
  else if stringStartsWith sql (lit "CREATE CURSOR") true ∨
      stringStartsWith sql (lit "CREATE PROCEDURE") true ∨
      stringStartsWith sql (lit "CREATE PROC") true then .create
  else if stringStartsWith sql (lit "DROP PROCEDURE") true ∨
      stringStartsWith sql (lit "DROP PROC") true then .drop
  else .immediate

/-- An error that is reported in front of the OK row. -/
def reportIf (ok : Bool) (message : String) : Srv W Unit :=
  if ok then pure () else _writeError message []

def stmtmgrProcessSql (system userId sql : Str) (transId : Int) : Srv W Unit :=
  match sqlBranch sql with
  | .begin =>
      if transId ≠ 0 then _writeError "Nested transactions not supported" []
      else begintransRequest host
  | .commit =>
      if transId = 0 then _writeError "Transaction not in progress" []
      else comittransRequest host transId
  | .abort =>
      if transId = 0 then _writeError "Transaction not in progress" []
      else aborttransRequest host transId
  | .grant => do
      let ok ← usersParseGrant host system sql
      reportIf ok "GRANT failed"
      say "<row message='OK' />\r\n"
  | .createLogon => do
      let ok ← usersParseCreateLogon host sql
      reportIf ok "CREATE LOGON failed"
      say "<row message='OK' />\r\n"
  | .exec => execSql host rounds system userId sql transId
  | .create => createSql host system userId sql
  | .drop => dropSql host userId sql
  | .immediate => immediateSql host system userId sql transId

/-! ## The cache read by other requests -/

/-- The list request loads the procedures only into an empty table. -/
def loadIfEmpty : Srv W Bool := do
  let s ← Act.get
  if s.m_stmts.hashtableCount = 0 then loadAllProcedures host rounds else pure true

/-- `stmtmgrGetProcedures`; `none` is NULL. -/
def stmtmgrGetProcedures : Srv W (Option (List (Option Nat))) := do
  if ¬ (← loadIfEmpty host rounds) then pure none
  else
    let s ← Act.get
    pure (some (s.m_stmts.entries.map (·.m_value)))

def stmtmgrGetProcedure (system name : Str) : Srv W (Option Nat) := do
  let fqname := stringCat (stringCat system (lit ".") 1) name.m_cstr name.m_len
  let s ← Act.get
  pure (s.m_stmts.hashtableGet fqname.m_cstr).join

end Jspp.Splc
