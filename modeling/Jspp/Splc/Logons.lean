/-
# Splc.Logons -- passwords over a run

What a run does to the users: requests add a user that is not yet known, or a
permission, and nothing else (`UsersStep`).  So what every such step keeps holds
after any further requests (`handleRequest_keeps`).

The statements suppose that strings are copied exactly (`Copying.Exact`).

* `createLogon_parsed`: what the lexer and the unquoting leave of the text.
* `Knows`: the password of a user, which no request changes.
* `logon_folded`: who may log on behind a CREATE LOGON statement.
-/
import Jspp.Splc.Cache
import Jspp.Splc.Lexing

namespace Jspp.Splc

open Jspp.Theory
open Jspp.Theory.Act
open Srv

set_option autoImplicit false

variable {W : Type}

section Copies

variable [Copying]

/-! ## What requests keep of the users -/

/-- An invariant of the users. -/
def OfUsers (J : Users → Prop) (s : Server W) : Prop := J s.users

def AnyEvent (_ : Event) : Prop := True

section Keeps

variable {J : Users → Prop} (keeps : ∀ u u', UsersStep u u' → J u → J u')
variable (host : Host W) (rounds : Nat)

omit [Copying] in
theorem ofUsers_steady (J : Users → Prop) : Steady (OfUsers (W := W) J) := fun _ _ _ inside => inside

omit [Copying] in
theorem ofUsers_heap (J : Users → Prop) (s : Server W) (heap : List (Option Statement))
    (inside : OfUsers J s) : OfUsers J { s with heap := heap } := inside

/-- An act that keeps the invariant, whatever it writes down. -/
abbrev Keeps {α : Type} (J : Users → Prop) (m : Srv W α) : Prop :=
  Runs (OfUsers J) AnyEvent m fun _ => True

theorem load_keeps (cmd : Sqlitecommand) : Keeps J (_loadProcedureInner host cmd rounds) :=
  loadProcedureInner_runs (ofUsers_steady J) host rounds (fun _ _ inside => inside)
    (ofUsers_heap J) cmd

theorem loadAllProcedures_keeps : Keeps J (loadAllProcedures host rounds) :=
  opened_runs (ofUsers_steady J) host (Runs.pure trivial)
    (command_runs (ofUsers_steady J) host (Runs.pure trivial) fun cmd _ => load_keeps host rounds cmd)

theorem updateProcedure_keeps (system name : Str) :
    Keeps J (updateProcedure host rounds system name) :=
  opened_runs (ofUsers_steady J) host (Runs.pure trivial)
    (command_runs (ofUsers_steady J) host (Runs.pure trivial) fun cmd _ =>
      bound_runs (ofUsers_steady J) host
        (bound_runs (ofUsers_steady J) host (load_keeps host rounds cmd) (Runs.pure trivial))
        (Runs.pure trivial))

theorem saveProcedure_keeps (system name sql : Str) : Keeps J (saveProcedure host system name sql) := by
  have done (b : Bool) : Keeps J (Pure.pure b : Srv W Bool) := Runs.pure trivial
  refine opened_runs (ofUsers_steady J) host (done _)
    (command_runs (ofUsers_steady J) host (done _) fun cmd _ => ?_)
  exact bound_runs (ofUsers_steady J) host (bound_runs (ofUsers_steady J) host
    (bound_runs (ofUsers_steady J) host (executeNonQuery_runs (ofUsers_steady J) host trivial cmd)
      (done _)) (done _)) (done _)

theorem stmtmgrGetStmt_keeps (system name fqname : Str) :
    Keeps J (stmtmgrGetStmt host rounds system name fqname) := by
  refine Runs.bind Runs.get fun s _ => ?_
  split
  · exact Runs.pure trivial
  · refine Runs.seq (updateProcedure_keeps host rounds _ _) fun _ =>
      Runs.ite (fun _ => ?_) fun _ => Runs.pure trivial
    exact Runs.bind Runs.get fun _ _ => Runs.pure trivial

theorem stmtmgrGetProcedures_keeps : Keeps J (stmtmgrGetProcedures host rounds) := by
  refine Runs.seq ?_ fun _ => Runs.ite (fun _ => Runs.pure trivial) fun _ =>
    Runs.bind Runs.get fun _ _ => Runs.pure trivial
  exact Runs.bind Runs.get fun _ _ =>
    Runs.ite (fun _ => loadAllProcedures_keeps host rounds) fun _ => Runs.pure trivial

theorem stmtmgrExec_keeps (system : Str) (req : Request) :
    Keeps J (stmtmgrExec host rounds system req) := by
  refine Runs.seq (usersHasPerm_runs (ofUsers_steady J) host _ _) fun _ => Runs.ite
    (fun _ => Runs.seq (writeError_runs (ofUsers_steady J) _ _) fun _ => Runs.pure trivial) fun _ =>
      Runs.seq (stmtmgrGetStmt_keeps host rounds _ _ _) fun stmt => ?_
  cases stmt with
  | none => exact Runs.seq (writeError_runs (ofUsers_steady J) _ _) fun _ => Runs.pure trivial
  | some stmt =>
      exact Runs.seq (resumeIf_runs (ofUsers_steady J) host (fun _ => trivial) _) fun _ =>
        Runs.ite (fun _ => Runs.pure trivial) fun _ =>
          Runs.seq (preparedstatementExec_runs (ofUsers_steady J) host (fun _ => trivial) _) fun _ =>
            Runs.seq (suspendIf_runs (ofUsers_steady J) host trivial _) fun _ => Runs.pure trivial

theorem execSql_keeps (system userId sql : Str) (transId : Int) :
    Keeps J (execSql host rounds system userId sql transId) := by
  refine Runs.seq (resumeIf_runs (ofUsers_steady J) host (fun _ => trivial) _) fun _ =>
    Runs.ite (fun _ => Runs.pure trivial) fun _ => Runs.seq (Runs.ofOption fun _ _ => trivial)
      fun req => ?_
  cases req with
  | none => exact writeError_runs (ofUsers_steady J) _ _
  | some req =>
      exact Runs.seq (stmtmgrExec_keeps host rounds _ _) fun _ =>
        suspendIf_runs (ofUsers_steady J) host trivial _

theorem replaceOld_keeps (s : Server W) (system : Str) (stmt : Statement) :
    Keeps J (replaceOld host s system stmt) :=
  Runs.ite (fun _ => Runs.seq (preparedstatementDelete_runs (ofUsers_heap J) _) fun _ =>
    Runs.seq (deleteProcedure_runs (ofUsers_steady J) host trivial _ _) fun _ => Runs.pure trivial)
    fun _ => Runs.pure trivial

theorem createSql_keeps (system userId sql : Str) : Keeps J (createSql host system userId sql) := by
  refine Runs.seq (usersIsAdmin_runs (ofUsers_steady J) host _) fun _ => Runs.ite
    (fun _ => writeError_runs (ofUsers_steady J) _ _) fun _ => Runs.bind Runs.get fun _ _ =>
      Runs.seq (preparedstatementNew_runs (ofUsers_steady J) host (ofUsers_heap J) _ _ _) fun new => ?_
  cases new with
  | error code => exact writeErrorCode_runs (ofUsers_steady J) _ _
  | ok pointer =>
      refine Runs.seq (deref_runs _) fun stmt => Runs.bind Runs.get fun s _ =>
        Runs.seq (replaceOld_keeps host s _ _) fun _ => Runs.seq (Runs.modify fun _ inside => inside)
          fun _ => Runs.seq (saveProcedure_keeps host _ _ _) fun _ => Runs.ite (fun _ => ?_)
            fun _ => say_runs (ofUsers_steady J) _
      exact Runs.seq (writeError_runs (ofUsers_steady J) _ _) fun _ =>
        preparedstatementDelete_runs (ofUsers_heap J) _

theorem immediateSql_keeps (system userId sql : Str) (transId : Int) :
    Keeps J (immediateSql host system userId sql transId) := by
  refine Runs.seq (usersIsAdmin_runs (ofUsers_steady J) host _) fun _ => Runs.ite
    (fun _ => writeError_runs (ofUsers_steady J) _ _) fun _ =>
      Runs.seq (preparedstatementNew_runs (ofUsers_steady J) host (ofUsers_heap J) _ _ _) fun new => ?_
  have delete (stmt : Nat) : Keeps J (preparedstatementDelete (W := W) (some stmt)) :=
    preparedstatementDelete_runs (ofUsers_heap J) _
  cases new with
  | error code => exact writeErrorCode_runs (ofUsers_steady J) _ _
  | ok stmt =>
      refine Runs.seq (Runs.ofOption fun _ _ => trivial) fun req => ?_
      cases req with
      | none => exact Runs.seq (delete _) fun _ => writeError_runs (ofUsers_steady J) _ _
      | some req =>
          exact Runs.seq (resumeIf_runs (ofUsers_steady J) host (fun _ => trivial) _) fun _ =>
            Runs.ite (fun _ => delete _) fun _ =>
              Runs.seq (preparedstatementExec_runs (ofUsers_steady J) host (fun _ => trivial) _)
                fun _ => Runs.seq (suspendIf_runs (ofUsers_steady J) host trivial _) fun _ => delete _

include keeps

theorem stmtmgrProcessSql_keeps (system userId sql : Str) (transId : Int) :
    Keeps J (stmtmgrProcessSql host rounds system userId sql transId) := by
  have error (cp1 : String) (cp2 : Bytes) : Keeps J (_writeError (W := W) cp1 cp2) :=
    writeError_runs (ofUsers_steady J) _ _
  have reported (ok : Bool) (message : String) : Keeps J (do
      reportIf ok message
      say "<row message='OK' />\r\n" : Srv W Unit) :=
    Runs.seq (Runs.ite (fun _ => Runs.pure trivial) fun _ => error _ _) fun _ =>
      say_runs (ofUsers_steady J) _
  have users (s : Server W) (u : Users) (step : UsersStep s.users u) (inside : OfUsers J s) :
      OfUsers J { s with users := u } := keeps _ _ step inside
  unfold stmtmgrProcessSql
  split
  case h_1 =>
    exact Runs.ite (fun _ => error _ _) fun _ =>
      begintransRequest_runs (ofUsers_steady J) host trivial
  case h_2 =>
    exact Runs.ite (fun _ => error _ _) fun _ =>
      endtransRequest_runs (ofUsers_steady J) host (fun _ => trivial) trivial _ _ _
  case h_3 =>
    exact Runs.ite (fun _ => error _ _) fun _ =>
      endtransRequest_runs (ofUsers_steady J) host (fun _ => trivial) trivial _ _ _
  case h_4 =>
    exact Runs.seq (usersParseGrant_runs (ofUsers_steady J) host trivial trivial
      (fun _ _ => trivial) users _ _) fun _ => reported _ _
  case h_5 =>
    exact Runs.seq (usersParseCreateLogon_runs (ofUsers_steady J) host trivial trivial users _)
      fun _ => reported _ _
  case h_6 => exact execSql_keeps host rounds _ _ _ _
  case h_7 => exact createSql_keeps host _ _ _
  case h_8 =>
    exact dropSql_runs (ofUsers_steady J) host (fun _ _ inside => inside) trivial
      (ofUsers_heap J) _ _
  case h_9 => exact immediateSql_keeps host _ _ _ _

theorem sqlRequest_keeps (req : Request) : Keeps J (sqlRequest host rounds req) := by
  have complaint (item : RequestItem) (message : String) : Keeps J (complain (W := W) item message) :=
    Runs.ite (fun _ => writeError_runs (ofUsers_steady J) _ _) fun _ => Runs.pure trivial
  refine Runs.seq ((logonAdminUser_runs (ofUsers_steady J) req).weaken fun _ _ => trivial) fun _ =>
    Runs.ite (fun _ => Runs.pure trivial) fun _ => ?_
  split
  case h_1 => exact writeError_runs (ofUsers_steady J) _ _
  case h_2 sql _ =>
    refine Runs.seq (complaint _ _) fun _ => ?_
    split
    case h_1 => exact writeError_runs (ofUsers_steady J) _ _
    case h_2 sys _ =>
      exact Runs.seq (complaint _ _) fun _ => (m_str_runs trivial).bind fun _ _ =>
        (m_str_runs trivial).bind fun _ _ => stmtmgrProcessSql_keeps keeps host rounds _ _ _ _

omit keeps in
theorem executeDynamic_keeps (req : Request) : Keeps J (executeDynamic host rounds req) := by
  have error (cp1 : String) : Keeps J (do _writeError cp1 []; Pure.pure true : Srv W Bool) :=
    Runs.seq (writeError_runs (ofUsers_steady J) _ _) fun _ => Runs.pure trivial
  unfold executeDynamic
  split
  case h_1 => exact error _
  case h_2 sys _ =>
    exact Runs.ite (fun _ => error _) fun _ => (m_str_runs trivial).bind fun _ _ =>
      stmtmgrExec_keeps host rounds _ _

omit keeps in
theorem proclistRequest_keeps : Keeps J (proclistRequest host rounds) :=
  Runs.seq (stmtmgrGetProcedures_keeps host rounds) fun _ =>
    Runs.seq (Runs.ofOption fun _ _ => trivial) fun _ => writeRows_runs fun _ _ =>
      Runs.seq (deref_runs _) fun _ => Runs.seq (say_runs (ofUsers_steady J) _) fun _ =>
        Runs.seq (append_runs (ofUsers_steady J) _) fun _ =>
          Runs.seq (say_runs (ofUsers_steady J) _) fun _ =>
            Runs.seq (append_runs (ofUsers_steady J) _) fun _ => say_runs (ofUsers_steady J) _

omit keeps in
theorem adminRequest_keeps (req : Request) : Keeps J (adminRequest host rounds req) := by
  refine Runs.seq (Runs.ite (fun _ => writeError_runs (ofUsers_steady J) _ _) fun _ =>
    Runs.pure trivial) fun _ => (present_runs trivial _).bind fun _ _ =>
      (m_str_runs trivial).bind fun _ _ => ?_
  exact runCommand_runs (ofUsers_steady J) host rounds (fun _ => trivial)
    (fun _ => shutdownRequest_runs (ofUsers_steady J) trivial (fun _ inside => inside) req)
    (fun _ => invokeRequest_runs (ofUsers_steady J) host (ofUsers_heap J) (fun _ => trivial)
      fun _ _ => trivial)
    (proclistRequest_keeps host rounds)
    (fun _ => userlistRequest_runs (ofUsers_steady J) trivial req)
    (fun _ => userlistPermsRequest_runs (ofUsers_steady J) trivial trivial req)
    (fun _ => proccodeRequest_runs (ofUsers_steady J) fun _ _ => ⟨trivial, fun _ _ => trivial⟩)

/-- A request keeps what the steps of the users keep. -/
theorem handleRequest_keeps (req : Request) : Keeps J (handleRequest host rounds req) := by
  refine handleRequest_runs (ofUsers_steady J) host rounds fun s _ =>
    Runs.ite (fun _ => writeError_runs (ofUsers_steady J) _ _) fun _ => ?_
  unfold dispatch
  split
  case h_1 => exact sqlRequest_keeps keeps host rounds req
  case h_2 => exact adminRequest_keeps host rounds req
  case h_3 =>
    exact Runs.seq (executeDynamic_keeps host rounds req) fun _ =>
      Runs.ite (fun _ => Runs.pure trivial) fun _ => writeError_runs (ofUsers_steady J) _ _

theorem runServer_keeps {reqs : List Request} {s : Server W} (start : J s.users)
    {step : ServerStep W} (mem : step ∈ runServer host rounds reqs s) : J step.after.users :=
  (serve_invariant (I := OfUsers J)
    (fun req s inside => (handleRequest_keeps keeps host rounds req s inside).keeps) start mem).2

end Keeps

/-! ## The table of passwords -/

omit [Copying] in
theorem sameText_iff {a b : Bytes} : sameText true a b = true ↔ a.map toupper = b.map toupper := by
  induction a generalizing b with
  | nil => cases b <;> simp [sameText]
  | cons x a ih => cases b <;> simp [sameText, sameCh, ih]

variable {α : Type} {ht : Hashtable α} {key key' : Bytes} {value value' : α}

/-- A value is found under the key it was put with. -/
theorem hashtableGet_put (exact : Copying.Exact) (unknown : ht.hashtableContainsKey key = false) :
    (ht.hashtablePut key value).hashtableGet key = some value := by
  have hit : (ht.hashtablePut key value).hits key
      { bucket := ht.bucketOf key, m_key := stringNew key, m_value := value } = true := by
    rw [Hashtable.hits, stringNew_exact exact, Bool.and_eq_true, beq_iff_eq]
    refine ⟨?_, sameText_refl _ _⟩
    unfold Hashtable.hashtablePut
    split <;> rfl
  have table : (ht.hashtablePut key value).m_table =
      { bucket := ht.bucketOf key, m_key := stringNew key, m_value := value } :: ht.m_table := by
    rw [Hashtable.hashtablePut, unknown]
    rfl
  unfold Hashtable.hashtableGet Hashtable.getItem
  rw [table, List.find?_cons_of_pos hit]
  rfl

/-- A new key leaves the others alone: an entry they share would have made it known. -/
theorem hashtableGet_put_other (exact : Copying.Exact)
    (unknown : ht.hashtableContainsKey key' = false) (known : ht.hashtableGet key = some value) :
    (ht.hashtablePut key' value').hashtableGet key = some value := by
  have put : ht.hashtablePut key' value' = { ht with
      m_count := ht.m_count + 1
      m_table :=
        { bucket := ht.bucketOf key', m_key := stringNew key', m_value := value' } :: ht.m_table } := by
    rw [Hashtable.hashtablePut, unknown]
    rfl
  obtain ⟨hi, found, same⟩ := Option.map_eq_some_iff.mp known
  have miss : ht.hits key
      { bucket := ht.bucketOf key', m_key := stringNew key', m_value := value' } = false := by
    by_contra hit
    have hit := Bool.not_eq_false _ ▸ hit
    rw [Hashtable.hits, stringNew_exact exact, Bool.and_eq_true, beq_iff_eq] at hit
    have entry := List.find?_some found
    rw [Hashtable.hits, Bool.and_eq_true, beq_iff_eq] at entry
    -- the entry of `key` is one of `key'`
    have shared : ht.hits key' hi = true := by
      rw [Hashtable.hits, Bool.and_eq_true, beq_iff_eq]
      refine ⟨entry.1.trans hit.1.symm, sameText_trans entry.2 ?_⟩
      rw [sameText_symm]
      exact hit.2
    have contained : ht.hashtableContainsKey key' = true :=
      List.find?_isSome.mpr ⟨hi, List.mem_of_find?_eq_some found, shared⟩
    rw [unknown] at contained
    cases contained
  rw [put]
  unfold Hashtable.hashtableGet Hashtable.getItem
  rw [List.find?_cons_of_neg (by rw [Bool.not_eq_true]; exact miss)]
  exact known

/-- The password of a user. -/
def Knows (u p : Bytes) (users : Users) : Prop :=
  ∃ pw, users.m_uid2pw.hashtableGet u = some pw ∧ pw.m_cstr = p

theorem UsersStep.knows (exact : Copying.Exact) {u p : Bytes} {users users' : Users}
    (step : UsersStep users users') (knows : Knows u p users) : Knows u p users' := by
  obtain ⟨pw, found, same⟩ := knows
  cases step with
  | user uid pw' unknown => exact ⟨pw, hashtableGet_put_other exact unknown found, same⟩
  | perm uid perm =>
      refine ⟨pw, ?_, same⟩
      unfold Users.putPerm
      split
      · dsimp only
        split <;> exact found
      · split <;> exact found

omit [Copying] in
theorem userLogon_iff {u p : Bytes} {users : Users} (knows : Knows u p users) {uid q : Str}
    (user : uid.m_cstr = u) :
    userLogon users uid q = true ↔ q.m_cstr.map toupper = p.map toupper := by
  obtain ⟨pw, found, rfl⟩ := knows
  rw [userLogon, user, found]
  exact sameText_iff.trans eq_comm

/-- A call that adds a user puts the password. -/
theorem usersAdd_knows (exact : Copying.Exact) (host : Host W) {u p : Bytes} {isadmin : Bool}
    {s : Server W} (unknown : s.users.m_uid2pw.hashtableContainsKey u = false)
    (added : (usersAdd host u p isadmin).result s = some true) :
    Knows u (stringNew p).m_cstr ((usersAdd host u p isadmin).final s).users := by
  have opened : (sqliteconnOpen host) s =
      (some (host.sqlite3_open s.world).1, { s with world := (host.sqlite3_open s.world).2 }, []) := rfl
  cases ok : (host.sqlite3_open s.world).1 with
  | false =>
      rw [Act.result, usersAdd, bind_quiet opened, ok] at added
      cases added
  | true =>
      suffices runs : RunsAt (OfUsers (Knows u (stringNew p).m_cstr)) AnyEvent
          (usersAdd host u p isadmin) (fun _ => True) s from runs.keeps
      refine RunsAt.quiet opened ?_
      rw [ok]
      refine RunsAt.quiet (m := Act.get) rfl ?_
      dsimp only
      rw [if_neg (by rw [unknown]; decide)]
      exact RunsAt.put trivial ⟨_, hashtableGet_put exact unknown, rfl⟩
        (insertUser_runs (ofUsers_steady _) host trivial u p isadmin)

/-! ## What the text leaves of the password -/

def createLogonText (u p : Bytes) : Bytes :=
  lit "CREATE LOGON " ++ (u ++ (lit " PASSWORD '" ++ (p ++ [39])))

open Sqllex in
theorem createLogon_parsed (exact : Copying.Exact) {sql : Str} {u p : Bytes} (some : u ≠ [])
    (word : ∀ c ∈ u, wordCh c = true) (filled : p ≠ []) (free : 39 ∉ p) (whole : 0 ∉ p)
    (double : p.headD 0 ≠ 34) (text : sql.m_cstr = createLogonText u p) :
    parseCreateLogon sql = .some (.some (u, p)) := by
  have blank : ∀ b ∈ ([32] : Bytes), isBlank b = true := by decide +kernel
  have none : ∀ b ∈ ([] : Bytes), isBlank b = true := fun _ mem => nomatch mem
  have ends (tail : Bytes) : ∀ c ∈ (32 :: tail).head?, wordCh c = false := by
    intro c same
    rw [← Option.some.inj same]
    decide
  obtain ⟨lex, new, token, lexum, left⟩ := sqllexNew_nexts exact fun lex going same =>
    nexts_word_exact exact (lit "CREATE")
      (32 :: (lit "LOGON" ++ 32 :: (u ++ 32 :: (lit "PASSWORD" ++ 32 :: 39 :: (p ++ [39])))))
      going none (by decide) (by decide +kernel) (ends _) (same.trans text)
  obtain ⟨lex₁, next₁, token₁, lexum₁, left₁⟩ := nexts_word_exact exact (lit "LOGON")
    (32 :: (u ++ 32 :: (lit "PASSWORD" ++ 32 :: 39 :: (p ++ [39]))))
    (token ▸ sqlToken_ne_eof _) blank (by decide) (by decide +kernel) (ends _) left
  obtain ⟨lex₂, next₂, token₂, lexum₂, left₂⟩ := nexts_word_exact exact u
    (32 :: (lit "PASSWORD" ++ 32 :: 39 :: (p ++ [39])))
    (token₁ ▸ sqlToken_ne_eof _) blank some word (ends _) left₁
  obtain ⟨lex₃, next₃, token₃, lexum₃, left₃⟩ := nexts_word_exact exact (lit "PASSWORD")
    (32 :: 39 :: (p ++ [39]))
    (token₂ ▸ sqlToken_ne_eof _) blank (by decide) (by decide +kernel) (ends _) left₂
  have quoted := nexts_string (token₃ ▸ sqlToken_ne_eof _) blank (.inl rfl) free left₃
  rw [if_neg filled, cstr_whole whole, stringNew_exact exact] at quoted
  obtain ⟨lex₄, next₄, token₄, lexum₄, -⟩ := quoted
  have single : p.headD 0 ≠ 39 := by
    obtain ⟨c, cs, rfl⟩ := List.exists_cons_of_ne_nil filled
    rintro rfl
    exact free List.mem_cons_self
  have named : stringDup (stringTakeOwnership u) = stringTakeOwnership u := stringNew_exact exact u
  have same (word : Bytes) : stringIsEqual (stringTakeOwnership word) word true = true :=
    sameText_refl _ _
  simp only [parseCreateLogon, lexumIs, new, next₁, next₂, next₃, next₄, token, token₄, lexum, lexum₁,
    lexum₂, lexum₃, lexum₄, sqlToken_ne_eof, Option.map_some, Option.bind_eq_bind, Option.bind_some,
    same, named, if_false, not_true_eq_false, ne_eq, reduceCtorEq]
  rw [if_neg (by
    rintro (hit | hit)
    · exact single hit
    · exact double hit)]
  rfl

/-- The statement puts the password that its text gives. -/
theorem createLogon_knows (exact : Copying.Exact) (host : Host W) {sql : Str} {u p : Bytes}
    {s : Server W} (parsed : parseCreateLogon sql = some (some (u, p)))
    (unknown : s.users.m_uid2pw.hashtableContainsKey u = false)
    (succeeded : (usersParseCreateLogon host sql).result s = some true) :
    Knows u p ((usersParseCreateLogon host sql).final s).users := by
  have call : usersParseCreateLogon host sql = usersAdd host u p false := by
    unfold usersParseCreateLogon
    rw [parsed]
    rfl
  rw [call] at succeeded ⊢
  have knows := usersAdd_knows exact host unknown succeeded
  rw [stringNew_exact exact] at knows
  exact knows

/-! ## Who may log on -/

/-- The users at a state, or behind a request that is served from it. -/
def Later (host : Host W) (rounds : Nat) (reqs : List Request) (s : Server W) (users : Users) : Prop :=
  users = s.users ∨ ∃ step ∈ runServer host rounds reqs s, users = step.after.users

theorem Later.knows (exact : Copying.Exact) {host : Host W} {rounds : Nat} {reqs : List Request}
    {s : Server W} {users : Users} {u p : Bytes} (knows : Knows u p s.users)
    (later : Later host rounds reqs s users) : Knows u p users := by
  rcases later with rfl | ⟨step, mem, rfl⟩
  · exact knows
  · exact runServer_keeps (fun _ _ moves => moves.knows exact) host rounds knows mem

/-- Behind a CREATE LOGON that succeeded, the user may log on with the password up to case. -/
theorem logon_folded (exact : Copying.Exact) (host : Host W) {sql : Str} {u p : Bytes}
    {s s' : Server W} (some : u ≠ []) (word : ∀ c ∈ u, Sqllex.wordCh c = true) (filled : p ≠ [])
    (free : 39 ∉ p) (whole : 0 ∉ p) (double : p.headD 0 ≠ 34)
    (text : sql.m_cstr = createLogonText u p)
    (unknown : s.users.m_uid2pw.hashtableContainsKey u = false)
    (succeeded : (usersParseCreateLogon host sql).result s = .some true)
    (behind : s'.users = ((usersParseCreateLogon host sql).final s).users) {rounds : Nat}
    {reqs : List Request} {users : Users} (later : Later host rounds reqs s' users) {uid q : Str}
    (user : uid.m_cstr = u) :
    userLogon users uid q = true ↔ q.m_cstr.map toupper = p.map toupper := by
  have parsed := createLogon_parsed exact some word filled free whole double text
  have knows : Knows u p s'.users := by
    rw [behind]
    exact createLogon_knows exact host parsed unknown succeeded
  exact userLogon_iff (later.knows exact knows) user

end Copies

/-! ## The letter case of a password -/

/-- The host on which SQLite succeeds. -/
def openHost : Host Unit := { deadHost with
  sqlite3_open := fun w => (true, w)
  sqlite3_prepare_v2 := fun _ w => (some 0, w)
  sqlite3_bind_text := fun _ _ _ w => (true, w)
  sqlite3_bind_int := fun _ _ _ w => (true, w)
  sqlite3_step := fun _ w => (.done, w) }

/-- CREATE LOGON ann PASSWORD 'Pw'. -/
def annLogon : Str := stringTakeOwnership (createLogonText (lit "ann") (lit "Pw"))

theorem annLogon_succeeds :
    (@usersParseCreateLogon copyingAll _ openHost annLogon).result (emptyServer ()) = some true := by
  decide +kernel

theorem logon_folded_ann : userLogon
      ((@usersParseCreateLogon copyingAll _ openHost annLogon).final (emptyServer ())).users
      (text "ann") (text "pW") = true ↔
    (lit "pW").map toupper = (lit "Pw").map toupper :=
  @logon_folded _ copyingAll copyingAll_exact openHost annLogon (lit "ann") (lit "Pw")
    (emptyServer ()) _ (by decide) (by decide +kernel) (by decide) (by decide) (by decide) (by decide) rfl
    (by decide) annLogon_succeeds rfl 0 [] _ (.inl rfl) (text "ann") (text "pW") rfl

/-- The password of another letter case is taken. -/
theorem logon_other_case : ¬ ∀ [Copying], Copying.Exact →
    ∀ (host : Host Unit) (sql : Str) (u p : Bytes) (s s' : Server Unit), u ≠ [] →
      (∀ c ∈ u, Sqllex.wordCh c = true) → p ≠ [] → 39 ∉ p → 0 ∉ p →
      sql.m_cstr = createLogonText u p → s.users.m_uid2pw.hashtableContainsKey u = false →
      (usersParseCreateLogon host sql).result s = some true →
      s'.users = ((usersParseCreateLogon host sql).final s).users →
      ∀ (rounds : Nat) (reqs : List Request) (users : Users), Later host rounds reqs s' users →
        ∀ uid q : Str, uid.m_cstr = u → (userLogon users uid q = true ↔ q.m_cstr = p) := by
  intro copied
  have exactly := (@copied copyingAll copyingAll_exact openHost annLogon (lit "ann") (lit "Pw")
    (emptyServer ()) _ (by decide) (by decide +kernel) (by decide) (by decide) (by decide) rfl (by decide)
    annLogon_succeeds rfl 0 [] _ (.inl rfl) (text "ann") (text "pW") rfl).mp
  have knows := @createLogon_knows _ copyingAll copyingAll_exact openHost annLogon (lit "ann")
    (lit "Pw") (emptyServer ()) (by decide +kernel) (by decide) annLogon_succeeds
  have folds : (lit "pW").map toupper = (lit "Pw").map toupper := by decide
  exact absurd (exactly ((userLogon_iff knows rfl).mpr folds)) (by decide)

end Jspp.Splc
