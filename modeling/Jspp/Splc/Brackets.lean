/-
# Splc.Brackets -- a client's transaction around a statement

A request with a transaction id resumes the transaction, runs its statement and
suspends the transaction again.  `Bracket` lists what the transaction manager may
see of that; `BracketedAt` says it of an act, which may crash inside a bracket but
not return there.

* `stmtmgrExec_bracketed`: a procedure request keeps the brackets.
* `transactions_bracketed_iff`: an SQL text keeps them unless it is an EXEC text
  whose transaction could be resumed.
-/
import Jspp.Splc.Items

namespace Jspp.Splc

open Jspp.Theory
open Jspp.Theory.Act
open Srv

set_option autoImplicit false

variable {W : Type}

/-- The events a transaction is bracketed by, and what runs inside. -/
def isBracket : Event → Bool
  | .resumed _ | .suspended | .ended | .exec _ _ => true
  | _ => false

inductive Bracket : List Event → Prop
  | untouched : Bracket []
  | refused : Bracket [.resumed false]
  | executed (stmt : Nat) (userId : Bytes) : Bracket [.resumed true, .exec stmt userId, .suspended]
  | ended : Bracket [.resumed true, .ended]

section

variable {α β : Type}

def brackets (m : Srv W α) (s : Server W) : List Event := (m.log s).filter isBracket

/-- A returning act has closed its bracket; a crash may cut it short. -/
def BracketedAt (m : Srv W α) (s : Server W) : Prop :=
  ∃ rest, ((m.result s).isSome → rest = []) ∧ Bracket (brackets m s ++ rest)

def Unseen (e : Event) : Prop := isBracket e = false

/-- An act the transaction manager does not see. -/
def Silent (m : Srv W α) : Prop := Runs Any Unseen m fun _ => True

theorem brackets_bind {m : Srv W α} {s : Server W} {a : α} (ended : m.result s = some a)
    (f : α → Srv W β) : brackets (m >>= f) s = brackets m s ++ brackets (f a) (m.final s) := by
  rw [brackets, log_bind ended, List.filter_append]
  rfl

theorem brackets_bind_none {m : Srv W α} {s : Server W} (ended : m.result s = none)
    (f : α → Srv W β) : brackets (m >>= f) s = brackets m s ∧ (m >>= f).result s = none := by
  rw [brackets, log, result, bind_none ended]
  exact ⟨rfl, rfl⟩

theorem brackets_silent {m : Srv W α} (silent : Silent m) (s : Server W) : brackets m s = [] := by
  apply List.filter_eq_nil_iff.mpr
  intro e mem
  have unseen : isBracket e = false := (silent s trivial).events e mem
  rw [unseen]
  exact Bool.false_ne_true

theorem bracketed_silent {m : Srv W α} (silent : Silent m) (s : Server W) : BracketedAt m s := by
  refine ⟨[], fun _ => rfl, ?_⟩
  rw [brackets_silent silent]
  exact .untouched

/-- The rule of sequence behind an act that returns. -/
theorem bracketed_bind {m : Srv W α} {f : α → Srv W β} {s : Server W} {a : α}
    (ended : m.result s = some a) (silent : brackets m s = []) :
    BracketedAt (m >>= f) s ↔ BracketedAt (f a) (m.final s) := by
  unfold BracketedAt
  rw [brackets_bind ended, result_bind ended, silent, List.nil_append]

theorem bracketed_seq {m : Srv W α} {f : α → Srv W β} (silent : Silent m)
    (behind : ∀ a s, BracketedAt (f a) s) (s : Server W) : BracketedAt (m >>= f) s := by
  cases ended : m.result s with
  | none =>
      refine ⟨[], fun _ => rfl, ?_⟩
      rw [(brackets_bind_none ended f).1, brackets_silent silent]
      exact .untouched
  | some a => exact (bracketed_bind ended (brackets_silent silent s)).mpr (behind a _)

end

variable (host : Host W) (rounds : Nat)

/-! ## Resuming, executing and suspending -/

/-- The transaction manager is called, and a bad answer is reported. -/
theorem called_brackets (f : W → Int × W) (e : Int → Event) (message : String)
    (seen : ∀ status, isBracket (e status) = true) (s : Server W) :
    let m : Srv W Bool := do
      let status ← call f
      Act.tell (e status)
      if status ≠ 0 then
        _writeErrorCode message status
        Pure.pure false
      else Pure.pure true
    brackets m s = [e (f s.world).1] ∧ m.result s = some ((f s.world).1 == 0) := by
  intro m
  have told : brackets (W := W) (Act.tell (e (f s.world).1)) ((call f).final s) =
      [e (f s.world).1] := List.filter_cons_of_pos (seen _)
  rw [brackets_bind (a := (f s.world).1) rfl, brackets_bind (a := ()) rfl, told,
    result_bind (a := (f s.world).1) rfl, result_bind (a := ()) rfl]
  by_cases zero : (f s.world).1 = 0
  · rw [if_neg (not_not.mpr zero), zero]
    exact ⟨rfl, rfl⟩
  · rw [if_pos zero, brackets_bind (a := ()) rfl, result_bind (a := ()) rfl,
      beq_eq_false_iff_ne.mpr zero]
    refine ⟨?_, rfl⟩
    show [] ++ (_ ++ (brackets _ _ ++ [])) = _
    rw [brackets_silent (writeErrorCode_runs any_steady _ _)]
    rfl

/-- Whether the transaction manager resumes a transaction. -/
def Resumable (host : Host W) (transId : Int) (s : Server W) : Prop :=
  (host.TMF_RESUME_ transId s.world).1 = 0

theorem resumetrans_brackets (transId : Int) (s : Server W) :
    ∃ ok : Bool, (ok = true ↔ Resumable host transId s) ∧
      brackets (resumetrans host transId) s = [.resumed ok] ∧
        (resumetrans host transId).result s = some ok := by
  refine ⟨(host.TMF_RESUME_ transId s.world).1 == 0, beq_iff_eq, ?_⟩
  exact called_brackets (host.TMF_RESUME_ transId) (fun status => .resumed (status == 0)) _
    (fun _ => rfl) s

theorem suspendtrans_brackets (transId : Int) (s : Server W) :
    brackets (suspendtrans host transId) s = [.suspended] ∧
      ∃ ok, (suspendtrans host transId).result s = some ok := by
  obtain ⟨seen, returned⟩ := called_brackets (host.TMF_SUSPEND_ transId) (fun _ => .suspended)
    "TMF_SUSPEND_ error " (fun _ => rfl) s
  exact ⟨seen, _, returned⟩

/-- The statement runs, or its pointer is bad. -/
theorem preparedstatementExec_brackets (pointer : Option Nat) (req : Request) (s : Server W) :
    (preparedstatementExec host pointer req).result s = none ∧
        brackets (preparedstatementExec host pointer req) s = [] ∨
      (preparedstatementExec host pointer req).result s = some () ∧
        brackets (preparedstatementExec host pointer req) s =
          [.exec (pointer.getD 0) req.m_userId.m_cstr] := by
  have silent := brackets_silent (m := deref (W := W) pointer) (deref_runs pointer) s
  unfold preparedstatementExec
  cases ended : (deref (W := W) pointer).result s with
  | none =>
      obtain ⟨same, crashed⟩ := brackets_bind_none ended
        fun stmt => (do Act.tell _; append (← call (host.exec stmt.m_procDef req)) : Srv W Unit)
      exact .inl ⟨crashed, same.trans silent⟩
  | some stmt =>
      refine .inr ⟨?_, ?_⟩
      · rw [result_bind ended]
        rfl
      · rw [brackets_bind ended, silent]
        rfl

/-- A procedure request that carries a transaction keeps its brackets. -/
theorem stmtmgrExec_bracketed {req : Request} (carried : req.m_transid ≠ 0) (system : Str)
    (s : Server W) : BracketedAt (stmtmgrExec host rounds system req) s := by
  have failed (message : String) (detail : Bytes) (b : Bool) (s : Server W) :
      BracketedAt (do _writeError message detail; Pure.pure b : Srv W Bool) s :=
    bracketed_silent (Runs.seq (writeError_runs any_steady _ _) fun _ => Runs.pure trivial) s
  unfold stmtmgrExec
  refine bracketed_seq (usersHasPerm_runs any_steady host _ _) (fun permitted s => ?_) s
  split
  case isTrue => exact failed _ _ _ _
  case isFalse =>
    refine bracketed_seq
      (stmtmgrGetStmt_runs any_steady host rounds (load_any _) _ _ _) (fun stmt s => ?_) s
    cases stmt with
    | none => exact failed _ _ _ _
    | some stmt =>
        simp only [resumeIf, suspendIf, if_pos carried]
        obtain ⟨ok, -, resumed, returned⟩ := resumetrans_brackets host req.m_transid s
        cases ok with
        | false =>
            refine ⟨[], fun _ => rfl, ?_⟩
            rw [brackets_bind returned, resumed]
            exact .refused
        | true =>
            rcases preparedstatementExec_brackets host (some stmt) req
              ((resumetrans host req.m_transid).final s) with ⟨crashed, nothing⟩ | ⟨ran, executed⟩
            · refine ⟨[.exec stmt [], .suspended], fun returns => ?_, ?_⟩
              · rw [result_bind returned, if_neg (by simp), (brackets_bind_none crashed _).2] at returns
                cases returns
              · rw [brackets_bind returned, resumed, if_neg (by simp),
                  (brackets_bind_none crashed _).1, nothing]
                exact .executed _ _
            · obtain ⟨suspended, done, closed⟩ := suspendtrans_brackets host req.m_transid
                ((preparedstatementExec host (some stmt) req).final
                  ((resumetrans host req.m_transid).final s))
              refine ⟨[], fun _ => rfl, ?_⟩
              rw [brackets_bind returned, resumed, if_neg (by simp), brackets_bind ran, executed,
                brackets_bind (a := ()) (by rw [result_bind closed]; rfl), brackets_bind closed,
                suspended]
              exact .executed _ _

/-! ## SQL texts -/

theorem endtransRequest_bracketed (endtrans : W → Int × W) (message : String) (transId : Int)
    (s : Server W) : BracketedAt (endtransRequest host endtrans message transId) s := by
  obtain ⟨ok, -, resumed, returned⟩ := resumetrans_brackets host transId s
  unfold endtransRequest
  refine ⟨[], fun _ => rfl, ?_⟩
  rw [brackets_bind returned, resumed]
  cases ok with
  | false => exact .refused
  | true =>
      rw [if_neg (by simp), brackets_bind (a := (endtrans _).1) rfl, brackets_bind (a := ()) rfl]
      have answered (status : Int) (s : Server W) :
          brackets (if status ≠ 0 then _writeErrorCode message status
            else say "<row message='OK' />\r\n" : Srv W Unit) s = [] :=
        brackets_silent (Runs.ite (fun _ => writeErrorCode_runs any_steady _ _)
          fun _ => say_runs any_steady _) s
      rw [answered]
      exact .ended

/-- An EXEC text is refused, after its transaction was resumed. -/
theorem execSql_bracketed_iff {sql : Str} {transId : Int} (carried : transId ≠ 0)
    (starts : stringStartsWith sql (lit "EXEC ") true = true) (system userId : Str) (s : Server W) :
    BracketedAt (execSql host rounds system userId sql transId) s ↔
      ¬ Resumable host transId s := by
  obtain ⟨ok, resumable, resumed, returned⟩ := resumetrans_brackets host transId s
  rw [← resumable]
  simp only [execSql, resumeIf, if_pos carried, requestNewFromExecSql_exec starts]
  cases ok with
  | false =>
      refine ⟨fun _ => Bool.false_ne_true, fun _ => ⟨[], fun _ => rfl, ?_⟩⟩
      rw [brackets_bind returned, resumed]
      exact .refused
  | true =>
      refine ⟨fun ⟨rest, closed, bracket⟩ => ?_, fun refused => absurd rfl refused⟩
      have silent (s : Server W) :
          brackets (_writeError (W := W) "syntax error or out of memory" []) s = [] :=
        brackets_silent (writeError_runs any_steady _ _) s
      rw [closed (by rw [result_bind returned]; rfl), brackets_bind returned, resumed,
        if_neg (by simp), brackets_bind (a := none) rfl] at bracket
      change Bracket ([.resumed true] ++ ([] ++ brackets (_writeError _ _) _) ++ []) at bracket
      rw [silent] at bracket
      cases bracket

/-- The branch that leaves a transaction resumed. -/
def LeavesOpen (host : Host W) (sql : Str) (transId : Int) (s : Server W) : Prop :=
  sqlBranch sql = .exec ∧ Resumable host transId s

theorem stmtmgrProcessSql_bracketed_iff {transId : Int} (carried : transId ≠ 0)
    (system userId sql : Str) (s : Server W) :
    BracketedAt (stmtmgrProcessSql host rounds system userId sql transId) s ↔
      ¬ LeavesOpen host sql transId s := by
  have told (ok : Bool) (message : String) :
      Silent (reportIf (W := W) ok message) :=
    Runs.ite (fun _ => Runs.pure trivial) fun _ => writeError_runs any_steady _ _
  have kept {m : Srv W Unit} (way : sqlBranch sql ≠ .exec) (bracketed : BracketedAt m s) :
      BracketedAt m s ↔ ¬ LeavesOpen host sql transId s :=
    ⟨fun _ leaves => way leaves.1, fun _ => bracketed⟩
  unfold stmtmgrProcessSql
  cases way : sqlBranch sql with
  | begin =>
      refine kept (by simp [way]) (bracketed_silent ?_ s)
      simp only [if_pos carried]
      exact writeError_runs any_steady _ _
  | commit =>
      refine kept (by simp [way]) ?_
      simp only [if_neg carried]
      exact endtransRequest_bracketed host _ _ _ s
  | abort =>
      refine kept (by simp [way]) ?_
      simp only [if_neg carried]
      exact endtransRequest_bracketed host _ _ _ s
  | grant =>
      refine kept (by simp [way]) (bracketed_silent ?_ s)
      exact Runs.seq (usersParseGrant_runs (P := Unseen) any_steady host rfl rfl (fun _ _ => rfl)
        (fun _ _ _ _ => trivial) _ _)
        fun _ => Runs.seq (told _ _) fun _ => say_runs any_steady _
  | createLogon =>
      refine kept (by simp [way]) (bracketed_silent ?_ s)
      exact Runs.seq (usersParseCreateLogon_runs (P := Unseen) any_steady host rfl rfl (fun _ _ _ _ => trivial) _)
        fun _ => Runs.seq (told _ _) fun _ => say_runs any_steady _
  | exec =>
      rw [LeavesOpen, way]
      simpa using execSql_bracketed_iff host rounds carried (exec_starts way) system userId s
  | create =>
      refine kept (by simp [way]) (bracketed_silent ?_ s)
      exact createSql_refused any_steady host (create_starts way) _ _
  | drop =>
      refine kept (by simp [way]) (bracketed_silent ?_ s)
      exact dropSql_runs (P := Unseen) any_steady host (fun _ _ _ => trivial) rfl
        (fun _ _ _ => trivial) _ _
  | immediate =>
      exact kept (by simp [way]) (bracketed_silent (immediateSql_refused any_steady host _ _ _ _) s)

/-- Transactions are bracketed, except by an EXEC text whose transaction could be resumed. -/
theorem transactions_bracketed_iff (host : Host W) (rounds : Nat) {transId : Int} {req : Request}
    (carried : transId ≠ 0) (carried' : req.m_transid ≠ 0) (system userId sql : Str)
    (s : Server W) :
    (BracketedAt (stmtmgrProcessSql host rounds system userId sql transId) s ↔
        ¬ LeavesOpen host sql transId s) ∧
      BracketedAt (stmtmgrExec host rounds system req) s :=
  ⟨stmtmgrProcessSql_bracketed_iff host rounds carried system userId sql s,
    stmtmgrExec_bracketed host rounds carried' system s⟩

/-- A host whose transaction manager resumes every transaction. -/
def resumingHost : Host Unit := { deadHost with TMF_RESUME_ := fun _ w => (0, w) }

/-- Two requests with transaction 7, which is resumed for the first of them: nothing is left
resumed. -/
theorem commit_and_procedure_bracketed :
    (7 : Int) ≠ 0 ∧
      (BracketedAt (stmtmgrProcessSql resumingHost 0 (text "A") (text "sa")
          (text "COMMIT TRANSACTION") 7) (emptyServer ()) ↔
        ¬ LeavesOpen resumingHost (text "COMMIT TRANSACTION") 7 (emptyServer ())) ∧
      BracketedAt (stmtmgrExec resumingHost 0 (text "A") { shutdownAsSa with m_transid := 7 })
        (emptyServer ()) ∧
      .resumed true ∈ (stmtmgrProcessSql resumingHost 0 (text "A") (text "sa")
        (text "COMMIT TRANSACTION") 7).log (emptyServer ()) := by
  have carried : (7 : Int) ≠ 0 := by decide
  have carried' : ({ shutdownAsSa with m_transid := 7 } : Request).m_transid ≠ 0 := by decide
  have both := transactions_bracketed_iff resumingHost 0 carried carried' (text "A") (text "sa")
    (text "COMMIT TRANSACTION") (emptyServer ())
  exact ⟨carried, both.1, both.2, by decide⟩

/-- `EXEC A.B` in transaction 7 is answered with an error, and the transaction stays resumed. -/
theorem execText_left_open :
    ¬ ∀ (W : Type) (host : Host W) (rounds : Nat) (transId : Int) (system userId sql : Str)
      (s : Server W), transId ≠ 0 →
        BracketedAt (stmtmgrProcessSql host rounds system userId sql transId) s := by
  intro brackets
  have bracketed := brackets Unit resumingHost 0 7 (text "A") (text "sa") (text "EXEC A.B")
    (emptyServer ()) (by decide)
  refine (stmtmgrProcessSql_bracketed_iff resumingHost 0 (by decide) _ _ _ _).mp bracketed ?_
  exact ⟨by decide, rfl⟩

end Jspp.Splc
