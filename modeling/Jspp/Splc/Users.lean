/-
# Splc.Users -- users and their permissions

The tables `m_uid2pw` and `m_uid2perms` with the SQLite tables behind them.  A
logon looks at the tables in memory alone; `usersIsAdmin` asks SQLite every time.
Users and permissions are put in memory first or last, according to the call, and
inserted into the database where its own query finds no row.

* `userLogon`, `usersHasPerm`: what a request is asked for.
* `usersAdd`, `usersAddPerm`: a user and a permission, in memory and in the database;
  `Users.putPerm` is what the latter leaves in memory.
* `usersNew`: both tables, read from the database when the server starts.
-/
import Jspp.Splc.Host

namespace Jspp.Splc

open Jspp.Theory
open Srv

set_option autoImplicit false

variable [Copying] {W : Type}

/-- `userLogon`: the password is compared ignoring case. -/
def userLogon (u : Users) (uid pw : Str) : Bool :=
  match u.m_uid2pw.hashtableGet uid.m_cstr with
  | none => false
  | some upw => stringIsEqual upw pw.m_cstr true

variable (host : Host W)

/-- `insert` of `usersAdd`: the SELECT finds no row. -/
def userMissing (cmd : Sqlitecommand) (uid : Bytes) : Srv W Bool := do
  if ← sqlitecommandSetParameterText host cmd "@UID_NAME" uid then
    (fun row => row.isNone) <$> sqlitereaderRead host cmd
  else pure false

/-- `insert` of `usersAddPerm`. -/
def permMissing (cmd : Sqlitecommand) (uid perm : Bytes) : Srv W Bool := do
  if ← sqlitecommandSetParameterText host cmd "@UID_NAME" uid then
    if ← sqlitecommandSetParameterText host cmd "@PERM_NAME" perm then
      (fun row => row.isNone) <$> sqlitereaderRead host cmd
    else pure false
  else pure false

/-- The INSERT of `usersAddPerm`; only a command that fails ends the function. -/
def insertPerm (uid perm : Bytes) : Srv W Bool := do
  match ← sqliteconnCreateCommand host
      "INSERT INTO PERMS (UID_NAME, PERM_NAME) VALUES (@UID_NAME, @PERM_NAME)" with
  | none => pure false
  | some cmd =>
      if ← sqlitecommandSetParameterText host cmd "@UID_NAME" uid then
        if ← sqlitecommandSetParameterText host cmd "@PERM_NAME" perm then
          sqlitecommandExecuteNonQuery host cmd
        else pure true
      else pure true

def insertIf (insert : Bool) (uid perm : Bytes) : Srv W Bool :=
  if insert then insertPerm host uid perm else pure true

def usersAdd (uid pw : Bytes) (isadmin : Bool) : Srv W Bool := do
  if ¬ (← sqliteconnOpen host) then pure false
  else
    let s ← Act.get
    if s.users.m_uid2pw.hashtableContainsKey uid then pure true
    else
      Act.tell .usersPut
      Act.modify fun s => { s with users := { s.users with
        m_uid2pw := s.users.m_uid2pw.hashtablePut uid (stringNew pw) } }
      match ← sqliteconnCreateCommand host "SELECT * FROM USERS WHERE UID_NAME = @UID_NAME;" with
      | none => pure false
      | some cmd =>
          if ¬ (← userMissing host cmd uid) then pure true
          else
            match ← sqliteconnCreateCommand host
                "INSERT INTO USERS (UID_NAME, PW_TEXT, ADMIN_FL) VALUES (@UID_NAME, @PW_TEXT, @ADMIN_FL)"
              with
            | none => pure false
            | some cmd =>
                if ← sqlitecommandSetParameterText host cmd "@UID_NAME" uid then
                  if ← sqlitecommandSetParameterText host cmd "@PW_TEXT" pw then
                    if ← sqlitecommandSetParameterInt host cmd "@ADMIN_FL" (if isadmin then 1 else 0)
                    then sqlitecommandExecuteNonQuery host cmd
                    else pure true
                  else pure true
                else pure true

/-- The last lines of `usersAddPerm`, on the table of the user. -/
def putMissing (ht : Hashtable Unit) (perm : Bytes) : Hashtable Unit :=
  if ht.hashtableContainsKey perm then ht else ht.hashtablePut perm ()

/-- The end of `usersAddPerm`: the tables in memory. -/
def Users.putPerm (u : Users) (uid perm : Bytes) : Users :=
  match u.m_uid2perms.hashtableGet uid with
  | none =>
      -- a new table is put under `uid`, and the permission into it; a permission that
      -- others have is looked for in the table again, and put once more if its key was cut
      let ht := (hashtableNew false).hashtablePut perm ()
      if u.m_perms.hashtableContainsKey perm then
        { u with m_uid2perms := u.m_uid2perms.hashtablePut uid (putMissing ht perm) }
      else { u with
        m_uid2perms := u.m_uid2perms.hashtablePut uid ht
        m_perms := u.m_perms.hashtablePut perm () }
  | some ht =>
      if ht.hashtableContainsKey perm then u
      else { u with m_uid2perms := { u.m_uid2perms with
        m_table := Hashtable.setFirst (u.m_uid2perms.hits uid) (·.hashtablePut perm ())
          u.m_uid2perms.m_table } }

/-- The result is `false` where SQLite fails; then the tables in memory are left alone. -/
def usersAddPerm (uid perm : Bytes) : Srv W Bool := do
  Act.tell (.permAdded uid perm)
  if ¬ (← sqliteconnOpen host) then pure false
  else
    match ← sqliteconnCreateCommand host
        "SELECT * FROM PERMS WHERE UID_NAME = @UID_NAME AND PERM_NAME = @PERM_NAME;" with
    | none => pure false
    | some cmd =>
        let insert ← permMissing host cmd uid perm
        let ok ← insertIf host insert uid perm
        if ¬ ok then pure false
        else
          Act.tell .usersPut
          Act.modify fun s => { s with users := s.users.putPerm uid perm }
          pure true

/-- `usersAdd` on the columns of a row: a NULL user is read by the hash, a NULL password by
`stringNew`, once the database is open. -/
def addUserRow (uid pw : Option Bytes) (isadmin : Bool) : Srv W Bool :=
  match uid, pw with
  | some uid, some pw => usersAdd host uid pw isadmin
  | uid, _ => do
      if ¬ (← sqliteconnOpen host) then pure false
      else
        let s ← Act.get
        if uid.any s.users.m_uid2pw.hashtableContainsKey then pure true else Act.crash

/-- The rows of USERS; a result set has finitely many, `rounds` bounds them. -/
def userRows (cmd : Sqlitecommand) : Nat → Srv W Bool
  | 0 => pure true
  | rounds + 1 => do
      match ← sqlitereaderRead host cmd with
      | none => pure true
      | some columns =>
          if ← addUserRow host (sqlitereaderText columns "UID_NAME")
              (sqlitereaderText columns "PW_TEXT") (sqlitereaderInt columns "ADMIN_FL" != 0) then
            userRows cmd rounds
          else pure false

/-- The rows of PERMS.  A NULL user is read by the hash at once.  Only `usersAddPerm` writes
the table, so no permission in it is NULL. -/
def permRows (cmd : Sqlitecommand) : Nat → Srv W Bool
  | 0 => pure true
  | rounds + 1 => do
      match ← sqlitereaderRead host cmd with
      | none => pure true
      | some columns =>
          let uid ← Act.ofOption (sqlitereaderText columns "UID_NAME")
          let perm ← Act.ofOption (sqlitereaderText columns "PERM_NAME")
          if ← usersAddPerm host uid perm then permRows cmd rounds else pure false

/-- Tables without an entry. -/
def noUsers : Users where
  m_uid2pw := hashtableNew true
  m_uid2perms := hashtableNew true
  m_perms := hashtableNew true

/-- `usersNew`, into the users of the server; NULL is `false`. -/
def usersNew (rounds : Nat) : Srv W Bool := do
  Act.modify fun s => { s with users := noUsers }
  if ¬ (← sqliteconnOpen host) then pure false
  else
    match ← sqliteconnCreateCommand host "SELECT * FROM USERS;" with
    | none => pure false
    | some cmd =>
        if ¬ (← userRows host cmd rounds) then pure false
        else
          match ← sqliteconnCreateCommand host "SELECT * FROM PERMS;" with
          | none => pure false
          | some cmd => permRows host cmd rounds

def usersIsAdmin (uid : Str) : Srv W Bool := do
  if ¬ (← sqliteconnOpen host) then pure false
  else
    match ← sqliteconnCreateCommand host
        "SELECT ADMIN_FL FROM USERS WHERE UID_NAME = @UID_NAME;" with
    | none => pure false
    | some cmd =>
        if ← sqlitecommandSetParameterText host cmd "@UID_NAME" uid.m_cstr then
          match ← sqlitereaderRead host cmd with
          | none => pure false
          | some columns => pure (sqlitereaderIntAt columns 0 != 0)
        else pure false

/-- Whether the table of a user has a permission. -/
def Users.hasPerm (u : Users) (uid perm : Bytes) : Bool :=
  match u.m_uid2perms.hashtableGet uid with
  | none => false
  | some ht => ht.hashtableContainsKey perm

def usersHasPerm (uid perm : Str) : Srv W Bool := do
  let s ← Act.get
  if s.users.hasPerm uid.m_cstr perm.m_cstr then pure true else usersIsAdmin host uid

/-! ## GRANT and CREATE LOGON -/

/-- The user and the permission of a GRANT text; a syntax error is an inner `none`. -/
def parseGrant (system sql : Str) : Option (Option (Bytes × Bytes)) := do
  let lex ← Sqllex.sqllexNew sql
  if lex.m_token = .eof then some none
  else if ¬ (← lex.lexumIs (lit "GRANT")) then some none
  else
    let (ok, lex) ← lex.sqllexNext
    if ok = false then some none
    else
      let exec ← lex.lexumIs (lit "EXEC")
      let execute ← lex.lexumIs (lit "EXECUTE")
      if exec = false ∧ execute = false then some none
      else
        let (ok, lex) ← lex.sqllexMatch (if exec then lit "EXEC" else lit "EXECUTE")
        if ok = false then some none
        else
          let (ok, lex) ← lex.sqllexMatch (lit "ON")
          if ok = false then some none
          else
            let spname ← lex.m_lexum.map stringDup
            let (ok, lex) ← lex.sqllexNext
            if ok = false then some none
            else
              let (spname, lex) ←
                if lex.m_token = .dot then do
                  let s := stringCat spname (lit ".") 1
                  let (_, lex) ← lex.sqllexNext
                  let lexum ← lex.m_lexum
                  let spname := stringCat s lexum.m_cstr lexum.m_len
                  let (ok, lex) ← lex.sqllexMatchToken .id
                  -- the error path deletes `s` a second time
                  if ok = false then none else some (spname, lex)
                else some (spname, lex)
              let (ok, lex) ← lex.sqllexMatch (lit "TO")
              if ok = false then some none
              else
                let userId ← lex.m_lexum.map stringDup
                match stringIndexOfCh spname 46 0 with
                | none =>
                    let fqname := stringCat (stringCat system (lit ".") 1) spname.m_cstr spname.m_len
                    some (some (userId.m_cstr, fqname.m_cstr))
                | some _ => some (some (userId.m_cstr, spname.m_cstr))

/-- A syntax error makes the call false; an undefined step ends the server. -/
def usersParseGrant (system sql : Str) : Srv W Bool := do
  match ← Act.ofOption (parseGrant system sql) with
  | none => pure false
  | some (userId, perm) => usersAddPerm host userId perm

/-- The user and the password of a CREATE LOGON text. -/
def parseCreateLogon (sql : Str) : Option (Option (Bytes × Bytes)) := do
  let lex ← Sqllex.sqllexNew sql
  if lex.m_token = .eof then some none
  else if ¬ (← lex.lexumIs (lit "CREATE")) then some none
  else
    let (ok, lex) ← lex.sqllexNext
    if ok = false then some none
    else if ¬ (← lex.lexumIs (lit "LOGON")) then some none
    else
      let (ok, lex) ← lex.sqllexNext
      if ok = false then some none
      else
        let userId ← lex.m_lexum.map stringDup
        let (ok, lex) ← lex.sqllexNext
        if ok = false then some none
        else if ¬ (← lex.lexumIs (lit "PASSWORD")) then some none
        else
          let (ok, lex) ← lex.sqllexNext
          if ok = false then some none
          else if lex.m_token ≠ .strlit then some none
          else
            let lexum ← lex.m_lexum
            if lexum.m_cstr.headD 0 = 39 ∨ lexum.m_cstr.headD 0 = 34 then
              some (some (userId.m_cstr, (lexum.m_cstr.take (lexum.m_len - 1)).drop 1))
            else some (some (userId.m_cstr, lexum.m_cstr))

def usersParseCreateLogon (sql : Str) : Srv W Bool := do
  match ← Act.ofOption (parseCreateLogon sql) with
  | none => pure false
  | some (userId, pw) => usersAdd host userId pw false

end Jspp.Splc
