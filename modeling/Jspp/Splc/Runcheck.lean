/-
# Splc.Runcheck -- the server loop

`handleRequest` is the body of the loop for one accepted request: the logon, the
dispatch on its name, and for ADMIN on its command.  Items are read through
`RequestItem.m_str`, which writes the read and its tag into the log; reading a
string that is none, or a missing item, crashes.
-/
import Jspp.Splc.Stmtmgr

namespace Jspp.Splc

open Jspp.Theory
open Srv

set_option autoImplicit false

variable {W : Type}

namespace RequestItem

def m_type (item : RequestItem) : UInt8 := item.m_data.m_type

/-- `item->m_data.m_str`, dereferenced. -/
def m_str (item : RequestItem) : Srv W Str := do
  Act.tell (.read tagS item.m_type)
  match item.m_data with
  | .str s => pure s
  | _ => Act.crash

end RequestItem

/-- An item that is used without a test for NULL. -/
def present (item : Option RequestItem) : Srv W RequestItem :=
  match item with
  | some item => pure item
  | none => do
      Act.tell .nullItem
      Act.crash

def logonAdminUser (req : Request) : Srv W Bool := do
  if ¬ stringIsEqual req.m_userId (lit "sa") true then
    _writeError "logon denied " req.m_userId.m_cstr
    pure false
  else pure true

def writeRows {α : Type} (write : α → Srv W Unit) : List α → Srv W Unit
  | [] => pure ()
  | x :: rest => do
      write x
      writeRows write rest

def shutdownRequest (req : Request) : Srv W Unit := do
  if ← logonAdminUser req then
    Act.tell .shutdown
    Act.modify fun s => { s with g_running := false }
    say "<row message='shuting down' />\r\n"
  else pure ()

/-- The keys of a table, as `usersList` and `usersListPerms` collect them. -/
def keysOf {α : Type} (ht : Hashtable α) : List Str := ht.entries.map (·.m_key)

def userlistRequest (req : Request) : Srv W Unit := do
  if ¬ (← logonAdminUser req) then _writeError "unauthorized" []
  else
    let s ← Act.get
    Act.tell .usersListed
    writeRows
      (fun key : Str => do
        say "<row userid='"
        append key.m_cstr
        say "' />\r\n")
      (keysOf s.users.m_uid2pw)

def userlistPermsRequest (req : Request) : Srv W Unit := do
  if ¬ (← logonAdminUser req) then _writeError "unauthorized" []
  else
    match requestGetItem req (lit "userid") with
    | none => _writeError "parameter not found " (lit "userid")
    | some item =>
        if item.m_type ≠ tagS then _writeError "userid must be a string" []
        else
          let userid ← item.m_str
          let s ← Act.get
          Act.tell .permsListed
          let perms :=
            match s.users.m_uid2perms.hashtableGet userid.m_cstr with
            | none => []
            | some ht => keysOf ht
          writeRows
            (fun key : Str => do
              say "<row perm='"
              append key.m_cstr
              say "' />\r\n")
            perms

/-- The value of an item by the `if` cascade over its type. -/
def echoItem (host : Host W) (item : RequestItem) : Srv W Unit := do
  say "<row "
  append ((item.m_name.map (·.m_cstr)).getD [])
  say "='"
  match item.m_data with
  | .str s =>
      Act.tell (.read tagS item.m_type)
      append s.m_cstr
  | .real text =>
      Act.tell (.read tagD item.m_type)
      append (host.realText text)
  | .long n =>
      Act.tell (.read tagL item.m_type)
      append (intText n)
  | .int n =>
      Act.tell (.read tagI item.m_type)
      append (intText n)
  say "' />\r\n"

def echoRequest (host : Host W) (req : Request) : Srv W Unit := do
  say "<row data='"
  append req.m_name.m_cstr
  say "' />\r\n"
  writeRows (echoItem host) (req.m_items.takeWhile fun item => item.m_name.isSome)

variable [Copying] (host : Host W) (rounds : Nat)

def infodefinesRequest (req : Request) : Srv W Unit := do
  match ← call host.fileLoadText with
  | none => _writeError "error loading defines.xml" req.m_userId.m_cstr
  | some text => append text

def syslistRequest : Srv W Unit := do
  let systems ← loadAllSystems host rounds
  let systems ← Act.ofOption systems
  writeRows
    (fun system : Str => do
      say "<row system='"
      append system.m_cstr
      say "' />\r\n")
    systems

def proclistRequest : Srv W Unit := do
  let procs ← stmtmgrGetProcedures host rounds
  let procs ← Act.ofOption procs
  writeRows
    (fun pointer : Option Nat => do
      let stmt ← deref pointer
      say "<row system='"
      append stmt.m_system.m_cstr
      say "' procedure='"
      append stmt.m_name.m_cstr
      say "' />\r\n")
    procs

/-- `stringbufferAppendXmlEncode` in an attribute. -/
def xmlEncode (text : Bytes) : Bytes :=
  text.flatMap fun c =>
    if c = 38 then lit "&amp;"
    else if c = 39 then lit "&#39;"
    else if c = 60 then lit "&lt;"
    else if c = 62 then lit "&gt;"
    else if c = 34 then lit "&quot;"
    else if c = 13 then lit "&#10;"
    else if c = 10 then lit "&#13;"
    else [c]

def proccodeRequest (req : Request) : Srv W Unit := do
  match requestGetItem req (lit "system") with
  | none => _writeError "parameter not found " (lit "system")
  | some item =>
      -- `system = item->m_data.m_str` reads the member before `procedure` is looked for
      let system ← item.m_str
      match requestGetItem req (lit "procedure") with
      | none => _writeError "parameter not found " (lit "procedure")
      | some item =>
          let name ← item.m_str
          match ← stmtmgrGetProcedure system name with
          | none => _writeError "procedure not found " name.m_cstr
          | some pointer =>
              let stmt ← deref (some pointer)
              say "<row sql='"
              append (xmlEncode stmt.m_procDef.m_text.m_cstr)
              say "' />\r\n"

def invokeRequest (req : Request) : Srv W Unit := do
  match requestGetItem req (lit "define") with
  | none => _writeError "parameter not found " (lit "define")
  | some item =>
      let define ← item.m_str
      let sql := Packet.stringbufferToString
        (lit "CREATE CURSOR TMP () SELECT * FROM " ++ define.m_cstr ++
          lit " WHERE 1 = 0 FOR BROWSE ACCESS")
      match ← preparedstatementNew host (stringNew (lit "*")) sql (-1) with
      | .error errorcode => _writeErrorCode "invoke internal error" errorcode
      | .ok stmt =>
          preparedstatementExec host (some stmt) req
          preparedstatementDelete (some stmt)

/-- A type error is reported, and the request goes on. -/
def complain (item : RequestItem) (message : String) : Srv W Unit :=
  if item.m_type ≠ tagS then _writeError message [] else pure ()

def sqlRequest (req : Request) : Srv W Unit := do
  if ¬ (← logonAdminUser req) then pure ()
  else
    match requestGetItem req (lit "sql") with
    | none => _writeError "expected parameter sql" []
    | some sql =>
        complain sql "sql parameter must be a string"
        match requestGetItem req (lit "system") with
        | none => _writeError "expected parameter system" []
        | some sys =>
            complain sys "system parameter must be a string"
            let system ← sys.m_str
            let text ← sql.m_str
            stmtmgrProcessSql host rounds system req.m_userId text req.m_transid

def executeDynamic (req : Request) : Srv W Bool := do
  match requestGetItem req (lit "%%system%%") with
  | none =>
      _writeError "expected parameter system" []
      pure true
  | some sys =>
      if sys.m_type ≠ tagS then
        _writeError "system parameter must be a string" []
        pure true
      else
        let system ← sys.m_str
        stmtmgrExec host rounds system req

/-- The commands of an ADMIN request. -/
inductive Command where
  | stats | ping | shutdown | infoDefines | invoke | systemslist | proclist | userlist | userperms
  | displaysql | unknown
  deriving DecidableEq, Repr

def command (text : Str) : Command :=
  if stringIsEqual text (lit "stats") true then .stats
  else if stringIsEqual text (lit "ping") true then .ping
  else if stringIsEqual text (lit "shutdown") true then .shutdown
  else if stringIsEqual text (lit "info_defines") true then .infoDefines
  else if stringIsEqual text (lit "invoke") true then .invoke
  else if stringIsEqual text (lit "systemslist") true then .systemslist
  else if stringIsEqual text (lit "proclist") true then .proclist
  else if stringIsEqual text (lit "userlist") true then .userlist
  else if stringIsEqual text (lit "userperms") true then .userperms
  else if stringIsEqual text (lit "displaysql") true then .displaysql
  else .unknown

def runCommand (req : Request) (text : Str) : Srv W Unit :=
  match command text with
  | .stats => do append (← call host.statsWriteRecord)
  | .ping => echoRequest host req
  | .shutdown => shutdownRequest req
  | .infoDefines => infodefinesRequest host req
  | .invoke => invokeRequest host req
  | .systemslist => syslistRequest host rounds
  | .proclist => proclistRequest host rounds
  | .userlist => userlistRequest req
  | .userperms => userlistPermsRequest req
  | .displaysql => proccodeRequest req
  | .unknown => _writeError "unknown admin command " text.m_cstr

def expectCommand (item : Option RequestItem) : Srv W Unit :=
  if item.isNone then _writeError "expected COMMAND parameter" [] else pure ()

/-- The ADMIN branch: the COMMAND item is used even when the error says it is missing. -/
def adminRequest (req : Request) : Srv W Unit := do
  let item := requestGetItem req (lit "COMMAND")
  expectCommand item
  let item ← present item
  let text ← item.m_str
  runCommand host rounds req text

/-- How a request is dispatched: to ADMIN, to SQL, or by its procedure name. -/
inductive Route where
  | admin | sql | procedure
  deriving DecidableEq, Repr

def route (req : Request) : Route :=
  if stringIsEqual req.m_name (lit "SQL") true then .sql
  else if stringIsEqual req.m_name (lit "ADMIN") true then .admin
  else .procedure

/-- `logonOk` of the main loop: an ADMIN request needs no logon there. -/
def logonOk (u : Users) (req : Request) : Bool :=
  stringIsEqual req.m_name (lit "ADMIN") true || userLogon u req.m_userId req.m_password

def dispatch (req : Request) : Srv W Unit :=
  match route req with
  | .sql => sqlRequest host rounds req
  | .admin => adminRequest host rounds req
  | .procedure => do
      if ← executeDynamic host rounds req then pure ()
      -- `serviceRequest` of runcheck.c always returns false
      else _writeError "unknown procedure " req.m_name.m_cstr

/-- Both branches of the logon end in the closing tag. -/
def answer (u : Users) (req : Request) : Srv W Unit := do
  if ¬ logonOk u req then _writeError "logon failed" []
  else dispatch host rounds req

/-- The answer to one request, from the logon on. -/
def handleRequest (req : Request) : Srv W Unit := do
  Act.modify fun s => { s with xml := lit "<?xml version='1.0'?>\r\n<ROWS>\r\n" }
  let s ← Act.get
  answer host rounds s.users req
  say "</ROWS>\r\n"

/-- The loop of `main` over accepted requests. -/
def runServer (reqs : List Request) (s : Server W) : List (Act.Step (Server W) Event Request) :=
  Act.serve (handleRequest host rounds) (·.g_running) reqs s

end Jspp.Splc
