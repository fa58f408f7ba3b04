/-
# Splc.Memory -- SQL texts when memory runs out

`stmtmgrProcessSql` once more, with the allocations behind its strings and its
parsers.  Each of them is made at most once for a text, so that a pattern of
success and failure says for each `Site` how it goes there.  Where the code tests
for NULL the branch ends with an error or `false`; where it does not, NULL is read.

A CREATE, GRANT or CREATE LOGON text goes no further than its first word, so the
strings behind that word are not among the sites.  The connection to SQLite is
allocated where it is opened, and fails with it.

* `dropSqlIn`, `createSqlIn`, `stmtmgrProcessSqlIn`: the branches with their sites.
* `stmtmgrProcessSqlIn_all`: with memory for all of them they are the ones of `Stmtmgr`.
-/
import Jspp.Splc.Stmtmgr

namespace Jspp.Splc

open Jspp.Theory
open Srv

set_option autoImplicit false

/-- Where memory is asked for: a lexer and its first lexeme, the statement and the procedure
that `preparedstatementNew` makes, and the four strings of DROP. -/
inductive Site where
  | lexer | lexeme | stmt | procDef | dropName | fqname | dropSystem | procName
  deriving DecidableEq, Repr

/-- Whether there is memory for a site; the answer may depend on the world. -/
abbrev Memory (W : Type) := Site → W → Bool × W

/-- The memory that a fixed pattern of successes and failures describes. -/
def Memory.of {W : Type} (pattern : Site → Bool) : Memory W := fun site w => (pattern site, w)

variable [Copying] {W : Type} (host : Host W) (mem : Memory W)

/-- A string that is NULL without memory for it. -/
def newString (site : Site) (made : Str) : Srv W (Option Str) := do
  if ← call (mem site) then pure (some made) else pure none

/-- `sqllexNew` in front of a parser: NULL is reported, a lexeme that is NULL is read. -/
def firstWord {α : Type} (failed : α) (parse : Srv W α) : Srv W α := do
  if ¬ (← call (mem .lexer)) then pure failed
  else if ¬ (← call (mem .lexeme)) then Act.crash
  else parse

def SQLE_OUTOFMEM : Int := 1

/-- `_preparedstatementNew`: the statement, then its procedure, each with an error of its own. -/
def preparedstatementNewIn (system sql : Str) (count : Int) : Srv W (Except Int Nat) := do
  if ¬ (← call (mem .stmt)) then pure (.error SQLE_OUTOFMEM)
  else if ¬ (← call (mem .procDef)) then pure (.error SQLE_SYNTAX)
  else if (_sqlprocScanForBody (stringDup sql)).isSome then
    firstWord mem (.error SQLE_SYNTAX) (preparedstatementNew host system sql count)
  else preparedstatementNew host system sql count

/-- The branch of CREATE PROCEDURE; behind the statement it is `createSql`. -/
def createSqlIn (system userId sql : Str) : Srv W Unit := do
  if ¬ (← usersIsAdmin host userId) then _writeError "unauthorized" []
  else
    let s ← Act.get
    match ← preparedstatementNewIn host mem system sql s.m_stmts.hashtableCount with
    | .error errorcode => _writeErrorCode "prepared statement failed" errorcode
    | .ok pointer =>
        let stmt ← deref (some pointer)
        let s ← Act.get
        replaceOld host s system stmt
        Act.modify fun s => { s with
          m_stmts := s.m_stmts.hashtablePut stmt.m_fqname.m_cstr (some pointer) }
        if ¬ (← saveProcedure host system stmt.m_name sql) then
          _writeError "error writing procedure to local database" []
          preparedstatementDelete (some pointer)
        else say "<row message='OK' />\r\n"

/-- `deleteProcedure`, which reads its strings where it binds them. -/
def deleteProcedureIn (system name : Option Str) : Srv W Bool := do
  if ¬ (← sqliteconnOpen host) then pure false
  else
    match ← sqliteconnCreateCommand host
        "DELETE FROM SPROCS WHERE SYS_CODE = @SYS_CODE AND SP_NAME = @SP_NAME;" with
    | none => pure false
    | some cmd =>
        let system ← Act.ofOption system
        if ← sqlitecommandSetParameterText host cmd "@SYS_CODE" system.m_cstr then
          let name ← Act.ofOption name
          if ← sqlitecommandSetParameterText host cmd "@SP_NAME" name.m_cstr then
            sqlitecommandExecuteNonQuery host cmd
          else pure false
        else pure false

/-- `stringDelete`, which reads `m_isintern` of what it frees. -/
def freeStrings (system name : Option Str) : Srv W Unit := do
  let _ ← Act.ofOption name
  let _ ← Act.ofOption system
  pure ()

/-- The branch of DROP PROCEDURE, with its four strings. -/
def dropSqlIn (userId sql : Str) : Srv W Unit := do
  let name ← newString mem .dropName
    (stringSubstringFrom sql ((stringIndexOfCh sql 32 6).elim 0 (· + 1)))
  -- the dot is looked for at once
  let name ← Act.ofOption name
  if ¬ (← usersIsAdmin host userId) then _writeError "unauthorized" []
  else
    match stringIndexOfCh name 46 0 with
    | none => _writeError "procedure name must be in the format SYSTEM.PROCNAME" []
    | some pos =>
        let fqname ← newString mem .fqname (stringDup name)
        let fqname ← Act.ofOption fqname
        let system ← newString mem .dropSystem (stringSubstring fqname 0 pos)
        let name ← newString mem .procName (stringSubstringFrom fqname (pos + 1))
        let s ← Act.get
        match (s.m_stmts.hashtableGet fqname.m_cstr).join with
        | none =>
            _writeError "procedure not found " fqname.m_cstr
            freeStrings system name
        | some stmt =>
            Act.modify fun s => { s with m_stmts := s.m_stmts.hashtablePut fqname.m_cstr none }
            if ¬ (← deleteProcedureIn host system name) then
              _writeError "couldn't delete in sqlite, system in inconsistant state " fqname.m_cstr
              freeStrings system name
            else
              freeStrings system name
              preparedstatementDelete (some stmt)
              say "<row message='OK' />\r\n"

variable (rounds : Nat)

/-- The branches that answer with a row or an error; the others are those of `Stmtmgr`. -/
def stmtmgrProcessSqlIn (system userId sql : Str) (transId : Int) : Srv W Unit :=
  match sqlBranch sql with
  | .grant => do
      let ok ← firstWord mem false (usersParseGrant host system sql)
      reportIf ok "GRANT failed"
      say "<row message='OK' />\r\n"
  | .createLogon => do
      let ok ← firstWord mem false (usersParseCreateLogon host sql)
      reportIf ok "CREATE LOGON failed"
      say "<row message='OK' />\r\n"
  | .create => createSqlIn host mem system userId sql
  | .drop => dropSqlIn host mem userId sql
  | _ => stmtmgrProcessSql host rounds system userId sql transId

/-! ## With memory for everything -/

section All

variable {mem} {α β : Type}

omit [Copying] in
/-- An act that has a result, leaves the state and says nothing. -/
theorem bind_still {m : Srv W α} {a : α} (still : m = Pure.pure a) (f : α → Srv W β) :
    m >>= f = f a := by
  subst still
  funext s
  exact Act.bind_quiet rfl f

omit [Copying] in
theorem ofOption_some_bind (a : α) (f : α → Srv W β) : Act.ofOption (some a) >>= f = f a :=
  bind_still rfl f

omit [Copying] in
theorem call_granted {site : Site} (granted : ∀ w, mem site w = (true, w)) :
    call (mem site) = Pure.pure true := by
  funext s
  show (some (mem site s.world).1, { s with world := (mem site s.world).2 }, []) = _
  rw [granted]
  rfl

omit [Copying] in
/-- With memory a string is the one that the code makes. -/
theorem newString_granted {site : Site} (granted : ∀ w, mem site w = (true, w)) (made : Str) :
    newString mem site made = Pure.pure (some made) := by
  rw [newString, bind_still (call_granted granted), if_pos rfl]

omit [Copying] in
/-- With memory for the lexer and its lexeme the parse is the one of `Stmtmgr`. -/
theorem firstWord_granted (lexer : ∀ w, mem .lexer w = (true, w))
    (lexeme : ∀ w, mem .lexeme w = (true, w)) (failed : α) (parse : Srv W α) :
    firstWord mem failed parse = parse := by
  rw [firstWord, bind_still (call_granted lexer), if_neg (by simp),
    bind_still (call_granted lexeme), if_neg (by simp)]

/-- DROP with memory for its strings. -/
theorem dropSqlIn_granted (userId sql : Str) (name : ∀ w, mem .dropName w = (true, w))
    (fqname : ∀ w, mem .fqname w = (true, w)) (system : ∀ w, mem .dropSystem w = (true, w))
    (procName : ∀ w, mem .procName w = (true, w)) :
    dropSqlIn host mem userId sql = dropSql host userId sql := by
  unfold dropSqlIn dropSql
  simp only [bind_still (newString_granted name _), bind_still (newString_granted fqname _),
    bind_still (newString_granted system _), bind_still (newString_granted procName _)]
  rfl

theorem preparedstatementNewIn_granted (granted : ∀ site w, mem site w = (true, w))
    (system sql : Str) (count : Int) :
    preparedstatementNewIn host mem system sql count =
      preparedstatementNew host system sql count := by
  rw [preparedstatementNewIn, bind_still (call_granted (granted .stmt)), if_neg (by simp),
    bind_still (call_granted (granted .procDef)), if_neg (by simp)]
  split
  case isTrue => exact firstWord_granted (granted .lexer) (granted .lexeme) _ _
  case isFalse => rfl

/-- With memory at every site these are the branches of `stmtmgrProcessSql`. -/
theorem stmtmgrProcessSqlIn_all (granted : ∀ site w, mem site w = (true, w)) (rounds : Nat)
    (system userId sql : Str) (transId : Int) :
    stmtmgrProcessSqlIn host mem rounds system userId sql transId =
      stmtmgrProcessSql host rounds system userId sql transId := by
  unfold stmtmgrProcessSqlIn
  cases way : sqlBranch sql with
  | grant =>
      simp only [firstWord_granted (granted .lexer) (granted .lexeme)]
      unfold stmtmgrProcessSql
      rw [way]
  | createLogon =>
      simp only [firstWord_granted (granted .lexer) (granted .lexeme)]
      unfold stmtmgrProcessSql
      rw [way]
  | create =>
      simp only [createSqlIn, preparedstatementNewIn_granted host granted]
      unfold stmtmgrProcessSql
      rw [way]
      rfl
  | drop =>
      simp only [dropSqlIn_granted host _ _ (granted .dropName) (granted .fqname)
        (granted .dropSystem) (granted .procName)]
      unfold stmtmgrProcessSql
      rw [way]
  | begin | commit | abort | exec | immediate => rfl

end All

/-! ## Without -/

section Without

variable {α β : Type} {mem}

/-- An act that never has a result. -/
def Crashes (m : Srv W α) : Prop := ∀ s, m.result s = none

omit [Copying] in
theorem Crashes.crash : Crashes (Act.crash : Srv W α) := fun _ => rfl

omit [Copying] in
/-- What crashes on every result crashes behind any first step. -/
theorem Crashes.behind {m : Srv W α} {f : α → Srv W β} (rest : ∀ a, Crashes (f a)) :
    Crashes (m >>= f) := by
  intro s
  cases ended : m.result s with
  | none => rw [Act.result, Act.bind_none ended]
  | some a => rw [Act.result_bind ended, rest a]

omit [Copying] in
theorem Crashes.first {m : Srv W α} {f : α → Srv W β} (first : Crashes m) :
    Crashes (m >>= f) := by
  intro s
  rw [Act.result, Act.bind_none (first s)]

omit [Copying] in
/-- What crashes on the result of a first step crashes behind it. -/
theorem crashes_behind {m : Srv W α} {f : α → Srv W β} {s : Server W} {a : α}
    (ended : m.result s = some a) (dead : Crashes (f a)) : (m >>= f).result s = none := by
  rw [Act.result_bind ended]
  exact dead _

omit [Copying] in
theorem Crashes.ite {c : Prop} [Decidable c] {m m' : Srv W α} (yes : Crashes m)
    (no : Crashes m') : Crashes (if c then m else m') := by
  split
  · exact yes
  · exact no

omit [Copying] in
theorem freeStrings_none {system name : Option Str} (missing : system = none ∨ name = none) :
    Crashes (freeStrings (W := W) system name) := by
  rcases missing with rfl | rfl
  · exact .behind fun _ => .first .crash
  · exact .first .crash

end Without

end Jspp.Splc
