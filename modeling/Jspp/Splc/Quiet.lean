/-
# Splc.Quiet -- which events the server's functions write down

One lemma for each function: under an invariant that neither the answer, the
heap nor the world outside matters to (`Steady`), it keeps the invariant, and
its events satisfy `P` as soon as the few it can write do.
-/
import Jspp.Splc.Runcheck

namespace Jspp.Splc

open Jspp.Theory
open Jspp.Theory.Act
open Srv

set_option autoImplicit false

set_option linter.unusedSectionVars false

variable {W : Type}

/-- An invariant about users, cache, statements and the running flag alone. -/
def Steady (I : Server W → Prop) : Prop :=
  ∀ s xml world, I s → I { s with xml := xml, world := world }

/-- What requests do to the users: an unknown user is added, or a permission. -/
inductive UsersStep [Copying] (u : Users) : Users → Prop
  | user (uid pw : Bytes) (unknown : u.m_uid2pw.hashtableContainsKey uid = false) :
      UsersStep u { u with m_uid2pw := u.m_uid2pw.hashtablePut uid (stringNew pw) }
  | perm (uid perm : Bytes) : UsersStep u (u.putPerm uid perm)

/-- The queries `_loadProcedureInner` reads from. -/
def ReadsSprocs (cmd : Sqlitecommand) : Prop :=
  (lit "SELECT * FROM SPROCS").isPrefixOf cmd.m_sql = true

/-- A call in front of the rest. -/
theorem call_bind {α β : Type} (f : W → α × W) (g : α → Srv W β) (s : Server W) :
    (call f >>= g) s = g (f s.world).1 { s with world := (f s.world).2 } :=
  bind_quiet rfl g

section Quiet

variable {I : Server W → Prop} {P : Event → Prop} (steady : Steady I)
variable (host : Host W) (rounds : Nat)
include steady

theorem call_runs {α : Type} (f : W → α × W) : Runs I P (call f) fun _ => True :=
  Runs.update fun s inside => ⟨steady s s.xml _ inside, trivial⟩

theorem append_runs (text : Bytes) : Runs I P (append (W := W) text) fun _ => True :=
  Runs.modify fun s inside => steady s _ s.world inside

theorem say_runs (text : String) : Runs I P (say (W := W) text) fun _ => True :=
  append_runs steady _

theorem writeError_runs (cp1 : String) (cp2 : Bytes) :
    Runs I P (_writeError (W := W) cp1 cp2) fun _ => True :=
  Runs.seq (say_runs steady _) fun _ => Runs.seq (say_runs steady _) fun _ =>
    Runs.seq (append_runs steady _) fun _ => say_runs steady _

theorem writeErrorCode_runs (cp1 : String) (i : Int) :
    Runs I P (_writeErrorCode (W := W) cp1 i) fun _ => True :=
  Runs.seq (say_runs steady _) fun _ => Runs.seq (say_runs steady _) fun _ =>
    Runs.seq (say_runs steady _) fun _ => Runs.seq (append_runs steady _) fun _ =>
      say_runs steady _

omit steady in
theorem deref_runs (pointer : Option Nat) : Runs I P (deref (W := W) pointer) fun _ => True :=
  Runs.bind Runs.get fun _ _ => Runs.ofOption fun _ _ => trivial

section Heap

variable (heap : ∀ s h, I s → I { s with heap := h })
include heap

omit steady in
theorem allocate_runs (stmt : Statement) : Runs I P (allocate (W := W) stmt) fun _ => True :=
  Runs.update fun s inside => ⟨heap s _ inside, trivial⟩

omit steady in
theorem preparedstatementDelete_runs (pointer : Option Nat) :
    Runs I P (preparedstatementDelete (W := W) pointer) fun _ => True :=
  Runs.seq (deref_runs pointer) fun _ => Runs.modify fun s inside => heap s _ inside

end Heap

section Copies

variable [Copying]

theorem sqliteconnOpen_runs : Runs I P (sqliteconnOpen host) fun _ => True := call_runs steady _

/-- A command keeps its text, a copy. -/
theorem sqliteconnCreateCommand_runs (sql : String) :
    Runs I P (sqliteconnCreateCommand host sql)
      fun made => ∀ cmd, made = some cmd → cmd.m_sql = (stringNew (lit sql)).m_cstr := by
  refine Runs.seq (call_runs steady _) fun stmt => Runs.pure fun cmd made => ?_
  cases stmt with
  | none => cases made
  | some stmt =>
      cases made
      rfl

theorem setParameterText_runs (cmd : Sqlitecommand) (paramName : String) (val : Bytes) :
    Runs I P (sqlitecommandSetParameterText host cmd paramName val) fun _ => True :=
  call_runs steady _

theorem sqlitereaderRead_runs (cmd : Sqlitecommand) :
    Runs I P (sqlitereaderRead host cmd) fun _ => True := by
  refine Runs.seq (call_runs steady _) fun stepped => ?_
  cases stepped <;> exact Runs.pure trivial

theorem executeNonQuery_runs (stored : P .stored) (cmd : Sqlitecommand) :
    Runs I P (sqlitecommandExecuteNonQuery host cmd) fun _ => True := by
  refine Runs.seq (call_runs steady _) fun stepped => ?_
  refine Runs.seq (Runs.tell stored) fun _ => ?_
  cases stepped <;> exact Runs.pure trivial

/-! ## Users -/

theorem usersIsAdmin_runs (uid : Str) : Runs I P (usersIsAdmin host uid) fun _ => True := by
  refine Runs.seq (sqliteconnOpen_runs steady host) fun ok => Runs.ite (fun _ => Runs.pure trivial)
    fun _ => (sqliteconnCreateCommand_runs steady host _).bind fun cmd _ => ?_
  cases cmd with
  | none => exact Runs.pure trivial
  | some cmd =>
      refine Runs.seq (setParameterText_runs steady host _ _ _) fun _ => Runs.ite (fun _ => ?_)
        fun _ => Runs.pure trivial
      refine Runs.seq (sqlitereaderRead_runs steady host cmd) fun row => ?_
      cases row <;> exact Runs.pure trivial

theorem usersHasPerm_runs (uid perm : Str) : Runs I P (usersHasPerm host uid perm) fun _ => True :=
  Runs.bind Runs.get fun _ _ => Runs.ite (fun _ => Runs.pure trivial) fun _ =>
    usersIsAdmin_runs steady host uid

/-- Whether a row is missing, if the parameter could be bound. -/
theorem isNone_runs (cmd : Sqlitecommand) :
    Runs I P ((fun row => row.isNone) <$> sqlitereaderRead host cmd) fun _ => True :=
  Runs.seq (sqlitereaderRead_runs steady host cmd) fun _ => Runs.pure trivial

/-- A chain of parameters: the act behind them runs if all could be bound. -/
theorem bound_runs {α : Type} {cmd : Sqlitecommand} {paramName : String} {val : Bytes}
    {yes no : Srv W α} {Q : α → Prop} (behind : Runs I P yes Q) (otherwise : Runs I P no Q) :
    Runs I P (do if ← sqlitecommandSetParameterText host cmd paramName val then yes else no) Q :=
  Runs.seq (setParameterText_runs steady host _ _ _) fun _ =>
    Runs.ite (fun _ => behind) fun _ => otherwise

/-- A command that may fail to be prepared. -/
theorem command_runs {α : Type} {sql : String} {none : Srv W α} {some : Sqlitecommand → Srv W α}
    {Q : α → Prop} (failed : Runs I P none Q)
    (prepared : ∀ cmd, cmd.m_sql = (stringNew (lit sql)).m_cstr → Runs I P (some cmd) Q) :
    Runs I P
      (do match ← sqliteconnCreateCommand host sql with
        | Option.none => none
        | Option.some cmd => some cmd) Q :=
  (sqliteconnCreateCommand_runs steady host _).bind fun cmd made => by
    cases cmd with
    | none => exact failed
    | some cmd => exact prepared cmd (made cmd rfl)

/-- A connection that may fail to open. -/
theorem opened_runs {α : Type} {failed opened : Srv W α} {Q : α → Prop} (no : Runs I P failed Q)
    (yes : Runs I P opened Q) :
    Runs I P (do if ¬ (← sqliteconnOpen host) then failed else opened) Q :=
  Runs.seq (sqliteconnOpen_runs steady host) fun _ => Runs.ite (fun _ => no) fun _ => yes

theorem userMissing_runs (cmd : Sqlitecommand) (uid : Bytes) :
    Runs I P (userMissing host cmd uid) fun _ => True :=
  bound_runs steady host (isNone_runs steady host cmd) (Runs.pure trivial)

theorem permMissing_runs (cmd : Sqlitecommand) (uid perm : Bytes) :
    Runs I P (permMissing host cmd uid perm) fun _ => True :=
  bound_runs steady host
    (bound_runs steady host (isNone_runs steady host cmd) (Runs.pure trivial)) (Runs.pure trivial)

section Puts

variable (stored : P .stored) (put : P .usersPut)
variable (granted : ∀ userId perm, P (.permAdded userId perm))
variable (users : ∀ s u, UsersStep s.users u → I s → I { s with users := u })
include stored put users

omit put users in
/-- The row of a user, if there is none. -/
theorem insertUser_runs (uid pw : Bytes) (isadmin : Bool) :
    Runs I P (do
      match ← sqliteconnCreateCommand host "SELECT * FROM USERS WHERE UID_NAME = @UID_NAME;" with
      | none => Pure.pure false
      | some cmd =>
          if ¬ (← userMissing host cmd uid) then Pure.pure true
          else
            match ← sqliteconnCreateCommand host
                "INSERT INTO USERS (UID_NAME, PW_TEXT, ADMIN_FL) VALUES (@UID_NAME, @PW_TEXT, @ADMIN_FL)"
              with
            | none => Pure.pure false
            | some cmd =>
                if ← sqlitecommandSetParameterText host cmd "@UID_NAME" uid then
                  if ← sqlitecommandSetParameterText host cmd "@PW_TEXT" pw then
                    if ← sqlitecommandSetParameterInt host cmd "@ADMIN_FL" (if isadmin then 1 else 0)
                    then sqlitecommandExecuteNonQuery host cmd
                    else Pure.pure true
                  else Pure.pure true
                else Pure.pure true) fun _ => True := by
  have done (b : Bool) : Runs I P (Pure.pure b : Srv W Bool) fun _ => True := Runs.pure trivial
  refine command_runs steady host (done _) fun cmd _ => ?_
  refine Runs.seq (userMissing_runs steady host cmd uid) fun _ => Runs.ite (fun _ => done _) fun _ =>
    command_runs steady host (done _) fun cmd _ => ?_
  refine bound_runs steady host (bound_runs steady host ?_ (done _)) (done _)
  exact Runs.seq (call_runs steady _) fun _ =>
    Runs.ite (fun _ => executeNonQuery_runs steady host stored cmd) fun _ => done _

theorem usersAdd_runs (uid pw : Bytes) (isadmin : Bool) :
    Runs I P (usersAdd host uid pw isadmin) fun _ => True := by
  have done (b : Bool) : Runs I P (Pure.pure b : Srv W Bool) fun _ => True := Runs.pure trivial
  refine opened_runs steady host (done _) (Runs.read fun s inside => ?_)
  split
  case isTrue => exact done _ s inside
  case isFalse unknown =>
  exact RunsAt.put put (users s _ (.user uid pw (by simpa using unknown)) inside)
    (insertUser_runs steady host stored uid pw isadmin)

omit put granted users in
theorem insertPerm_runs (uid perm : Bytes) :
    Runs I P (insertPerm host uid perm) fun _ => True :=
  command_runs steady host (Runs.pure trivial) fun cmd _ =>
    bound_runs steady host (bound_runs steady host (executeNonQuery_runs steady host stored cmd)
      (Runs.pure trivial)) (Runs.pure trivial)

include granted in
theorem usersAddPerm_runs (uid perm : Bytes) :
    Runs I P (usersAddPerm host uid perm) fun _ => True := by
  have done (b : Bool) : Runs I P (Pure.pure b : Srv W Bool) fun _ => True := Runs.pure trivial
  refine Runs.seq (Runs.tell (granted uid perm)) fun _ =>
    opened_runs steady host (done _) (command_runs steady host (done _) fun cmd _ => ?_)
  exact Runs.seq (permMissing_runs steady host cmd uid perm) fun _ =>
    Runs.seq (Runs.ite (fun _ => insertPerm_runs steady host stored uid perm) fun _ => done _)
      fun _ => Runs.ite (fun _ => done _) fun _ => Runs.seq (Runs.tell put) fun _ =>
        Runs.seq (Runs.modify fun s inside => users s _ (.perm uid perm) inside) fun _ => done _

include granted in
theorem usersParseGrant_runs (system sql : Str) :
    Runs I P (usersParseGrant host system sql) fun _ => True := by
  refine Runs.seq (Runs.ofOption fun _ _ => trivial) fun parsed => ?_
  cases parsed with
  | none => exact Runs.pure trivial
  | some grant => exact usersAddPerm_runs steady host stored put granted users _ _

theorem usersParseCreateLogon_runs (sql : Str) :
    Runs I P (usersParseCreateLogon host sql) fun _ => True := by
  refine Runs.seq (Runs.ofOption fun _ _ => trivial) fun parsed => ?_
  cases parsed with
  | none => exact Runs.pure trivial
  | some logon => exact usersAdd_runs steady host stored put users _ _ _

end Puts

/-! ## Statements and procedures -/

theorem preparedstatementNew_runs (heap : ∀ s h, I s → I { s with heap := h }) (system sql : Str)
    (count : Int) : Runs I P (preparedstatementNew host system sql count) fun _ => True := by
  refine Runs.seq (Runs.ofOption fun _ _ => trivial) fun procDef => ?_
  cases procDef with
  | none => exact Runs.pure trivial
  | some procDef =>
      refine Runs.seq (allocate_runs heap _) fun pointer => Runs.seq (call_runs steady _) fun code => ?_
      cases code with
      | none => exact Runs.pure trivial
      | some code =>
          exact Runs.seq (preparedstatementDelete_runs heap _) fun _ => Runs.pure trivial

end Copies

omit steady in
/-- A text that starts with CREATE is never prepared. -/
theorem preparedstatementNew_refused {sql : Str}
    (starts : startsText true sql.m_cstr (lit "CREATE ") = true) (system : Str) (count : Int) :
    Runs I P (preparedstatementNew host system sql count) fun new => new = .error SQLE_SYNTAX := by
  unfold preparedstatementNew
  rw [sqlprocNew_create _ starts]
  exact Runs.pure rfl

section Copies

variable [Copying]

theorem preparedstatementExec_runs {req : Request} (exec : ∀ p, P (.exec p req.m_userId.m_cstr))
    (pointer : Option Nat) : Runs I P (preparedstatementExec host pointer req) fun _ => True :=
  Runs.seq (deref_runs pointer) fun _ => Runs.seq (Runs.tell (exec _)) fun _ =>
    Runs.seq (call_runs steady _) fun _ => append_runs steady _

theorem deleteProcedure_runs (stored : P .stored) (system name : Str) :
    Runs I P (deleteProcedure host system name) fun _ => True := by
  have done (b : Bool) : Runs I P (Pure.pure b : Srv W Bool) fun _ => True := Runs.pure trivial
  refine opened_runs steady host (done _) (command_runs steady host (done _) fun cmd _ => ?_)
  exact bound_runs steady host
    (bound_runs steady host (executeNonQuery_runs steady host stored cmd) (done _)) (done _)

theorem systemRows_runs (cmd : Sqlitecommand) (rounds : Nat) :
    Runs I P (systemRows host cmd rounds) fun _ => True := by
  induction rounds with
  | zero => exact Runs.pure trivial
  | succ rounds ih =>
      refine Runs.seq (sqlitereaderRead_runs steady host cmd) fun row => ?_
      cases row with
      | none => exact Runs.pure trivial
      | some columns =>
          exact Runs.seq (Runs.ofOption fun _ _ => trivial) fun _ =>
            Runs.seq ih fun _ => Runs.pure trivial

theorem loadAllSystems_runs : Runs I P (loadAllSystems host rounds) fun _ => True := by
  refine opened_runs steady host (Runs.pure trivial)
    (command_runs steady host (Runs.pure trivial) fun cmd _ => ?_)
  exact Runs.seq (systemRows_runs steady host cmd rounds) fun _ => Runs.pure trivial

/-! ## Transactions -/

theorem resumetrans_runs (resumed : ∀ ok, P (.resumed ok)) (transId : Int) :
    Runs I P (resumetrans host transId) fun _ => True :=
  Runs.seq (call_runs steady _) fun _ => Runs.seq (Runs.tell (resumed _)) fun _ =>
    Runs.ite (fun _ => Runs.seq (writeErrorCode_runs steady _ _) fun _ => Runs.pure trivial)
      fun _ => Runs.pure trivial

theorem suspendtrans_runs (suspended : P .suspended) (transId : Int) :
    Runs I P (suspendtrans host transId) fun _ => True :=
  Runs.seq (call_runs steady _) fun _ => Runs.seq (Runs.tell suspended) fun _ =>
    Runs.ite (fun _ => Runs.seq (writeErrorCode_runs steady _ _) fun _ => Runs.pure trivial)
      fun _ => Runs.pure trivial

/-- A transaction is resumed if the request names one. -/
theorem resumeIf_runs {transId : Int} (resumed : ∀ ok, P (.resumed ok)) (b : Bool) :
    Runs I P (resumeIf host transId b) fun _ => True :=
  Runs.ite (fun _ => resumetrans_runs steady host resumed _) fun _ => Runs.pure trivial

theorem suspendIf_runs (suspended : P .suspended) (transId : Int) :
    Runs I P (suspendIf host transId) fun _ => True :=
  Runs.ite (fun _ => Runs.seq (suspendtrans_runs steady host suspended _) fun _ => Runs.pure trivial)
    fun _ => Runs.pure trivial

theorem begintransRequest_runs (suspended : P .suspended) :
    Runs I P (begintransRequest host) fun _ => True := by
  refine Runs.seq (call_runs steady _) fun _ => Runs.ite (fun _ => writeErrorCode_runs steady _ _)
    fun _ => Runs.seq (call_runs steady _) fun _ => Runs.ite
      (fun _ => writeErrorCode_runs steady _ _) fun _ => Runs.seq (call_runs steady _) fun _ =>
        Runs.ite (fun _ => writeErrorCode_runs steady _ _) fun _ =>
          Runs.seq (suspendtrans_runs steady host suspended _) fun _ => Runs.ite (fun _ => ?_)
            fun _ => Runs.pure trivial
  exact Runs.seq (say_runs steady _) fun _ => Runs.seq (append_runs steady _) fun _ =>
    say_runs steady _

theorem endtransRequest_runs (resumed : ∀ ok, P (.resumed ok)) (ended : P .ended)
    (endtrans : W → Int × W) (message : String) (transId : Int) :
    Runs I P (endtransRequest host endtrans message transId) fun _ => True :=
  Runs.seq (resumetrans_runs steady host resumed _) fun _ => Runs.ite (fun _ => Runs.pure trivial)
    fun _ => Runs.seq (call_runs steady _) fun _ => Runs.seq (Runs.tell ended) fun _ =>
      Runs.ite (fun _ => writeErrorCode_runs steady _ _) fun _ => say_runs steady _

end Copies

/-! ## The cache -/

section Cache

-- how rows are read into the cache is left to the invariant
variable (load : ∀ cmd, ReadsSprocs cmd → Runs I P (_loadProcedureInner host cmd rounds) fun _ => True)
include load

theorem loadAllProcedures_runs : Runs I P (loadAllProcedures host rounds) fun _ => True :=
  opened_runs steady host (Runs.pure trivial)
    (command_runs steady host (Runs.pure trivial) fun cmd text => load cmd (by rw [ReadsSprocs, text]; rfl))

theorem updateProcedure_runs (system name : Str) :
    Runs I P (updateProcedure host rounds system name) fun _ => True :=
  opened_runs steady host (Runs.pure trivial)
    (command_runs steady host (Runs.pure trivial) fun cmd text =>
      bound_runs steady host
        (bound_runs steady host (load cmd (by rw [ReadsSprocs, text]; rfl)) (Runs.pure trivial))
        (Runs.pure trivial))

theorem stmtmgrGetStmt_runs (system name fqname : Str) :
    Runs I P (stmtmgrGetStmt host rounds system name fqname) fun _ => True := by
  refine Runs.bind Runs.get fun s _ => ?_
  split
  · exact Runs.pure trivial
  · refine Runs.seq (updateProcedure_runs steady host rounds load _ _) fun _ =>
      Runs.ite (fun _ => ?_) fun _ => Runs.pure trivial
    exact Runs.bind Runs.get fun _ _ => Runs.pure trivial

theorem stmtmgrGetProcedures_runs : Runs I P (stmtmgrGetProcedures host rounds) fun _ => True := by
  refine Runs.seq ?_ fun _ => Runs.ite (fun _ => Runs.pure trivial) fun _ =>
    Runs.bind Runs.get fun _ _ => Runs.pure trivial
  exact Runs.bind Runs.get fun _ _ =>
    Runs.ite (fun _ => loadAllProcedures_runs steady host rounds load) fun _ => Runs.pure trivial

theorem stmtmgrExec_runs {req : Request} (resumed : ∀ ok, P (.resumed ok))
    (suspended : P .suspended) (exec : ∀ p, P (.exec p req.m_userId.m_cstr)) (_system : Str) :
    Runs I P (stmtmgrExec host rounds _system req) fun _ => True := by
  refine Runs.seq (usersHasPerm_runs steady host _ _) fun _ => Runs.ite
    (fun _ => Runs.seq (writeError_runs steady _ _) fun _ => Runs.pure trivial) fun _ =>
      Runs.seq (stmtmgrGetStmt_runs steady host rounds load _ _ _) fun stmt => ?_
  cases stmt with
  | none => exact Runs.seq (writeError_runs steady _ _) fun _ => Runs.pure trivial
  | some stmt =>
      exact Runs.seq (resumeIf_runs steady host resumed _) fun _ =>
        Runs.ite (fun _ => Runs.pure trivial) fun _ =>
          Runs.seq (preparedstatementExec_runs steady host exec _) fun _ =>
            Runs.seq (suspendIf_runs steady host suspended _) fun _ => Runs.pure trivial

end Cache

section Copies

variable [Copying]

/-- Reading rows keeps an invariant that does not look at the cache. -/
theorem loadProcedureInner_runs (cache : ∀ s t, I s → I { s with m_stmts := t })
    (heap : ∀ s h, I s → I { s with heap := h }) (cmd : Sqlitecommand) : Runs I P (_loadProcedureInner host cmd rounds) fun _ => True := by
  induction rounds with
  | zero => exact Runs.pure trivial
  | succ rounds ih =>
      refine Runs.seq (sqlitereaderRead_runs steady host cmd) fun row => ?_
      cases row with
      | none => exact Runs.pure trivial
      | some columns =>
          refine Runs.seq ?_ fun _ => Runs.ite (fun _ => ih) fun _ =>
            Runs.pure trivial
          refine Runs.seq (Runs.ofOption fun _ _ => trivial) fun _ =>
            Runs.seq (Runs.ofOption fun _ _ => trivial) fun _ => Runs.bind Runs.get fun _ _ =>
              Runs.seq (preparedstatementNew_runs steady host heap _ _ _) fun new => ?_
          cases new with
          | error code => exact Runs.pure trivial
          | ok pointer =>
              exact Runs.seq (deref_runs _) fun _ =>
                Runs.seq (Runs.modify fun s inside => cache s _ inside) fun _ => Runs.pure trivial

end Copies

/-! ## SQL texts -/

section Sql

variable (cache : ∀ s t, I s → I { s with m_stmts := t })
variable (resumed : ∀ ok, P (.resumed ok)) (suspended : P .suspended) (ended : P .ended)
variable (stored : P .stored)

include resumed in
/-- An EXEC text is refused behind the resumed transaction. -/
theorem execSql_refused {sql : Str} (starts : stringStartsWith sql (lit "EXEC ") true = true)
    (system userId : Str) (transId : Int) :
    Runs I P (execSql host rounds system userId sql transId) fun _ => True := by
  unfold execSql
  rw [requestNewFromExecSql_exec starts]
  exact Runs.seq (resumeIf_runs steady host resumed _) fun _ =>
    Runs.ite (fun _ => Runs.pure trivial) fun _ =>
      Runs.bind (Q := fun req => req = none) (Runs.pure rfl) fun req refused => by
        rw [refused]
        exact writeError_runs steady _ _

/-- A CREATE text is refused. -/
theorem createSql_refused {sql : Str}
    (starts : startsText true sql.m_cstr (lit "CREATE ") = true) (system userId : Str) :
    Runs I P (createSql host system userId sql) fun _ => True := by
  refine Runs.seq (usersIsAdmin_runs steady host _) fun _ => Runs.ite
    (fun _ => writeError_runs steady _ _) fun _ => Runs.bind Runs.get fun _ _ =>
      (preparedstatementNew_refused host starts _ _).bind fun new refused => ?_
  rw [refused]
  exact writeErrorCode_runs steady _ _

include cache stored in
theorem dropSql_runs [Copying] (heap : ∀ s h, I s → I { s with heap := h }) (userId sql : Str) :
    Runs I P (dropSql host userId sql) fun _ => True := by
  refine Runs.seq (usersIsAdmin_runs steady host _) fun _ => Runs.ite
    (fun _ => writeError_runs steady _ _) fun _ => ?_
  split
  case h_1 => exact writeError_runs steady _ _
  case h_2 pos _ =>
    refine Runs.bind Runs.get fun s _ => ?_
    split
    case h_1 => exact writeError_runs steady _ _
    case h_2 stmt _ =>
      refine Runs.seq (Runs.modify fun s inside => cache s _ inside) fun _ =>
        Runs.seq (deleteProcedure_runs steady host stored _ _) fun _ =>
          Runs.ite (fun _ => writeError_runs steady _ _) fun _ => ?_
      exact Runs.seq (preparedstatementDelete_runs heap _) fun _ => say_runs steady _

/-- An immediate text is refused: it is prepared as a CREATE text. -/
theorem immediateSql_refused (system userId sql : Str) (transId : Int) :
    Runs I P (immediateSql host system userId sql transId) fun _ => True := by
  refine Runs.seq (usersIsAdmin_runs steady host _) fun _ => Runs.ite
    (fun _ => writeError_runs steady _ _) fun _ =>
      (preparedstatementNew_refused host rfl system _).bind fun new refused => ?_
  rw [refused]
  exact writeErrorCode_runs steady _ _

omit steady in
theorem exec_starts {sql : Str} (way : sqlBranch sql = .exec) :
    stringStartsWith sql (lit "EXEC ") true = true := by
  unfold sqlBranch at way
  split_ifs at way with _ _ _ _ _ starts
  exact starts

omit steady in
theorem create_starts {sql : Str} (way : sqlBranch sql = .create) :
    startsText true sql.m_cstr (lit "CREATE ") = true := by
  have shorter {c : Bytes} (starts : stringStartsWith sql (lit "CREATE " ++ c) true = true) :
      startsText true sql.m_cstr (lit "CREATE ") = true := by
    unfold stringStartsWith at starts
    split_ifs at starts
    exact startsText_prefix starts
  unfold sqlBranch at way
  split_ifs at way with _ _ _ _ _ _ starts
  rcases starts with cursor | procedure | proc
  · exact shorter (c := lit "CURSOR") cursor
  · exact shorter (c := lit "PROCEDURE") procedure
  · exact shorter (c := lit "PROC") proc

include resumed suspended ended stored in
/-- Dropping a procedure is left to its own lemma. -/
theorem stmtmgrProcessSql_runs (put : P .usersPut)
    (granted : ∀ userId perm, P (.permAdded userId perm))
    (users : ∀ s u, UsersStep s.users u → I s → I { s with users := u }) {system userId sql : Str} {transId : Int}
    (drop : Runs I P (dropSql host userId sql) fun _ => True) :
    Runs I P (stmtmgrProcessSql host rounds system userId sql transId) fun _ => True := by
  have told (ok : Bool) (message : String) :
      Runs I P (if ok then Pure.pure () else _writeError message [] : Srv W Unit) fun _ => True :=
    Runs.ite (fun _ => Runs.pure trivial) fun _ => writeError_runs steady _ _
  unfold stmtmgrProcessSql
  split
  case h_1 =>
    exact Runs.ite (fun _ => writeError_runs steady _ _) fun _ =>
      begintransRequest_runs steady host suspended
  case h_2 =>
    exact Runs.ite (fun _ => writeError_runs steady _ _) fun _ =>
      endtransRequest_runs steady host resumed ended _ _ _
  case h_3 =>
    exact Runs.ite (fun _ => writeError_runs steady _ _) fun _ =>
      endtransRequest_runs steady host resumed ended _ _ _
  case h_4 =>
    exact Runs.seq (usersParseGrant_runs steady host stored put granted users _ _) fun _ =>
      Runs.seq (told _ _) fun _ => say_runs steady _
  case h_5 =>
    exact Runs.seq (usersParseCreateLogon_runs steady host stored put users _) fun _ =>
      Runs.seq (told _ _) fun _ => say_runs steady _
  case h_6 way => exact execSql_refused steady host rounds resumed (exec_starts way) _ _ _
  case h_7 way => exact createSql_refused steady host (create_starts way) _ _
  case h_8 => exact drop
  case h_9 => exact immediateSql_refused steady host _ _ _ _

end Sql

/-! ## Handlers -/

section Copies

variable [Copying]

/-- A logon as `sa` succeeds only for that user id. -/
theorem logonAdminUser_runs (req : Request) :
    Runs I P (logonAdminUser (W := W) req)
      fun ok => ok = true → stringIsEqual req.m_userId (lit "sa") true = true :=
  Runs.ite
    (fun _ => Runs.seq (writeError_runs steady _ _) fun _ => Runs.pure fun no => nomatch no)
    fun yes => Runs.pure fun _ => by simpa using yes

omit steady in
theorem writeRows_runs {α : Type} {write : α → Srv W Unit} {rows : List α}
    (row : ∀ x ∈ rows, Runs I P (write x) fun _ => True) :
    Runs I P (writeRows write rows) fun _ => True := by
  induction rows with
  | nil => exact Runs.pure trivial
  | cons x rows ih =>
      exact Runs.seq (row x List.mem_cons_self) fun _ =>
        ih fun y mem => row y (List.mem_cons_of_mem _ mem)

omit steady in
theorem present_runs (missing : P .nullItem) (item : Option RequestItem) :
    Runs I P (present (W := W) item) fun found => item = some found := by
  cases item with
  | none => exact Runs.seq (Runs.tell missing) fun _ => Runs.crash
  | some item => exact Runs.pure rfl

omit steady in
/-- The string of an item is read off an item that holds one. -/
theorem m_str_runs {item : RequestItem} (read : P (.read tagS item.m_type)) :
    Runs I P (item.m_str (W := W)) fun text => item.m_data = .str text := by
  refine Runs.seq (Runs.tell read) fun _ => ?_
  split
  case h_1 s same => exact Runs.pure same
  case h_2 => exact Runs.crash

theorem echoRequest_runs (matching : ∀ tag, P (.read tag tag)) (req : Request) :
    Runs I P (echoRequest host req) fun _ => True := by
  refine Runs.seq (say_runs steady _) fun _ => Runs.seq (append_runs steady _) fun _ =>
    Runs.seq (say_runs steady _) fun _ => writeRows_runs fun item _ => ?_
  refine Runs.seq (say_runs steady _) fun _ => Runs.seq (append_runs steady _) fun _ =>
    Runs.seq (say_runs steady _) fun _ => ?_
  have finish (text : Bytes) : Runs I P (do append text; say "' />\r\n" : Srv W Unit) fun _ => True :=
    Runs.seq (append_runs steady _) fun _ => say_runs steady _
  obtain ⟨name, data⟩ := item
  cases data <;> exact Runs.seq (Runs.tell (matching _)) fun _ => finish _

theorem infodefinesRequest_runs (req : Request) :
    Runs I P (infodefinesRequest host req) fun _ => True := by
  refine Runs.seq (call_runs steady _) fun text => ?_
  cases text with
  | none => exact writeError_runs steady _ _
  | some text => exact append_runs steady _

theorem syslistRequest_runs : Runs I P (syslistRequest host rounds) fun _ => True :=
  Runs.seq (loadAllSystems_runs steady host rounds) fun _ =>
    Runs.seq (Runs.ofOption fun _ _ => trivial) fun _ => writeRows_runs fun _ _ =>
      Runs.seq (say_runs steady _) fun _ => Runs.seq (append_runs steady _) fun _ =>
        say_runs steady _

end Copies

theorem proclistRequest_runs
    (load : ∀ cmd, ReadsSprocs cmd →
      Runs I P (_loadProcedureInner host cmd rounds) fun _ => True) :
    Runs I P (proclistRequest host rounds) fun _ => True :=
  Runs.seq (stmtmgrGetProcedures_runs steady host rounds load) fun _ =>
    Runs.seq (Runs.ofOption fun _ _ => trivial) fun _ => writeRows_runs fun _ _ =>
      Runs.seq (deref_runs _) fun _ => Runs.seq (say_runs steady _) fun _ =>
        Runs.seq (append_runs steady _) fun _ => Runs.seq (say_runs steady _) fun _ =>
          Runs.seq (append_runs steady _) fun _ => say_runs steady _

section Copies

variable [Copying]

theorem proccodeRequest_runs {req : Request}
    (system : ∀ item, requestGetItem req (lit "system") = some item →
      P (.read tagS item.m_type) ∧ ∀ proc, requestGetItem req (lit "procedure") = some proc →
        P (.read tagS proc.m_type)) :
    Runs I P (proccodeRequest (W := W) req) fun _ => True := by
  unfold proccodeRequest
  split
  case h_1 => exact writeError_runs steady _ _
  case h_2 item found =>
    refine (m_str_runs (system item found).1).bind fun _ _ => ?_
    split
    case h_1 => exact writeError_runs steady _ _
    case h_2 proc found' =>
      refine (m_str_runs ((system item found).2 proc found')).bind fun name _ =>
        Runs.seq (Runs.bind Runs.get fun _ _ => Runs.pure trivial) fun pointer => ?_
      cases pointer with
      | none => exact writeError_runs steady _ _
      | some pointer =>
        exact Runs.seq (deref_runs _) fun _ => Runs.seq (say_runs steady _) fun _ =>
          Runs.seq (append_runs steady _) fun _ => say_runs steady _

theorem invokeRequest_runs {req : Request} (heap : ∀ s h, I s → I { s with heap := h })
    (exec : ∀ p, P (.exec p req.m_userId.m_cstr))
    (define : ∀ item, requestGetItem req (lit "define") = some item → P (.read tagS item.m_type)) :
    Runs I P (invokeRequest host req) fun _ => True := by
  unfold invokeRequest
  split
  case h_1 => exact writeError_runs steady _ _
  case h_2 item found =>
    refine (m_str_runs (define item found)).bind fun _ _ =>
      Runs.seq (preparedstatementNew_runs steady host heap _ _ _) fun new => ?_
    cases new with
    | error code => exact writeErrorCode_runs steady _ _
    | ok stmt =>
        exact Runs.seq (preparedstatementExec_runs steady host exec _) fun _ =>
          preparedstatementDelete_runs heap _

end Copies

theorem executeDynamic_runs {req : Request}
    (load : ∀ cmd, ReadsSprocs cmd → Runs I P (_loadProcedureInner host cmd rounds) fun _ => True)
    (resumed : ∀ ok, P (.resumed ok)) (suspended : P .suspended)
    (exec : ∀ p, P (.exec p req.m_userId.m_cstr)) (matching : P (.read tagS tagS)) :
    Runs I P (executeDynamic host rounds req) fun _ => True := by
  unfold executeDynamic
  split
  case h_1 => exact Runs.seq (writeError_runs steady _ _) fun _ => Runs.pure trivial
  case h_2 sys found =>
    refine Runs.ite (fun _ => Runs.seq (writeError_runs steady _ _) fun _ => Runs.pure trivial)
      fun isStr => ?_
    have tag : sys.m_type = tagS := not_not.mp isStr
    exact (m_str_runs (by rw [tag]; exact matching)).bind fun _ _ =>
      stmtmgrExec_runs steady host rounds load resumed suspended exec _

section Copies

variable [Copying]

theorem shutdownRequest_runs (shutdown : P .shutdown)
    (running : ∀ s, I s → I { s with g_running := false }) (req : Request) :
    Runs I P (shutdownRequest (W := W) req) fun _ => True :=
  Runs.seq ((logonAdminUser_runs steady req).weaken fun _ _ => trivial) fun _ =>
    Runs.ite (fun _ => Runs.seq (Runs.tell shutdown) fun _ =>
      Runs.seq (Runs.modify running) fun _ => say_runs steady _) fun _ => Runs.pure trivial

theorem userlistRequest_runs (listed : P .usersListed) (req : Request) :
    Runs I P (userlistRequest (W := W) req) fun _ => True :=
  Runs.seq ((logonAdminUser_runs steady req).weaken fun _ _ => trivial) fun _ =>
    Runs.ite (fun _ => writeError_runs steady _ _) fun _ => Runs.bind Runs.get fun _ _ =>
      Runs.seq (Runs.tell listed) fun _ => writeRows_runs fun _ _ =>
        Runs.seq (say_runs steady _) fun _ => Runs.seq (append_runs steady _) fun _ =>
          say_runs steady _

theorem userlistPermsRequest_runs (matching : P (.read tagS tagS)) (listed : P .permsListed)
    (req : Request) : Runs I P (userlistPermsRequest (W := W) req) fun _ => True := by
  refine Runs.seq ((logonAdminUser_runs steady req).weaken fun _ _ => trivial) fun _ =>
    Runs.ite (fun _ => writeError_runs steady _ _) fun _ => ?_
  split
  case h_1 => exact writeError_runs steady _ _
  case h_2 item _ =>
    refine Runs.ite (fun _ => writeError_runs steady _ _) fun isStr =>
      (m_str_runs (by rw [not_not.mp isStr]; exact matching)).bind fun _ _ =>
        Runs.bind Runs.get fun _ _ => Runs.seq (Runs.tell listed) fun _ =>
          writeRows_runs fun _ _ => ?_
    exact Runs.seq (say_runs steady _) fun _ => Runs.seq (append_runs steady _) fun _ =>
      say_runs steady _

/-- The commands that list, execute or shut down are left to their own lemmas. -/
theorem runCommand_runs {req : Request} {text : Str} (matching : ∀ tag, P (.read tag tag))
    (shutdown : command text = .shutdown → Runs I P (shutdownRequest (W := W) req) fun _ => True)
    (invoke : command text = .invoke → Runs I P (invokeRequest host req) fun _ => True)
    (proclist : Runs I P (proclistRequest host rounds) fun _ => True)
    (userlist : command text = .userlist → Runs I P (userlistRequest (W := W) req) fun _ => True)
    (userperms : command text = .userperms →
      Runs I P (userlistPermsRequest (W := W) req) fun _ => True)
    (displaysql : command text = .displaysql →
      Runs I P (proccodeRequest (W := W) req) fun _ => True) :
    Runs I P (runCommand host rounds req text) fun _ => True := by
  unfold runCommand
  split
  case h_1 => exact Runs.seq (call_runs steady _) fun _ => append_runs steady _
  case h_2 => exact echoRequest_runs steady host matching req
  case h_3 same => exact shutdown same
  case h_4 => exact infodefinesRequest_runs steady host req
  case h_5 same => exact invoke same
  case h_6 => exact syslistRequest_runs steady host rounds
  case h_7 => exact proclist
  case h_8 same => exact userlist same
  case h_9 same => exact userperms same
  case h_10 same => exact displaysql same
  case h_11 => exact writeError_runs steady _ _

/-- A request keeps what its answer keeps, for the users it finds. -/
theorem handleRequest_runs {req : Request}
    (answered : ∀ s, I s → Runs I P (answer host rounds s.users req) fun _ => True) :
    Runs I P (handleRequest host rounds req) fun _ => True :=
  Runs.seq (Runs.modify fun s inside => steady s _ s.world inside) fun _ =>
    Runs.bind Runs.get fun s inside => Runs.seq (answered s inside) fun _ => say_runs steady _

end Copies

end Quiet

end Jspp.Splc
