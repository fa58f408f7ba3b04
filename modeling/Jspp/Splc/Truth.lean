/-
# Splc.Truth -- what the reply says of the statement

The statements of `stmtmgrProcessSql` that answer with an OK row or an error: GRANT,
CREATE LOGON, CREATE and DROP PROCEDURE, BEGIN, COMMIT and ABORT, under every
pattern of success and failure of SQLite, of TMF and of the memory for their strings.

* `watched`, `watchedMemory`: host and memory with a flag that is set by every call
  that fails.
* `Truthful`: the reply is a sequence of elements; the OK row is among them exactly
  if nothing failed and the statement was not refused, and an error exactly if not.
* `ReadsNull`: memory runs out where the code does not test for NULL.
* `told_iff`: the reply is truthful but there, and for GRANT and CREATE LOGON, which
  append the row behind the error.
-/
import Jspp.Splc.Cache
import Jspp.Splc.Memory

namespace Jspp.Splc

open Jspp.Theory
open Jspp.Theory.Act
open Srv

set_option autoImplicit false

variable {W : Type}

/-! ## Failures seen from outside -/

/-- A call, and whether it has failed. -/
def watch {α : Type} (failed : α → Bool) (f : W → α × W) (w : W × Bool) : α × (W × Bool) :=
  ((f w.1).1, ((f w.1).2, w.2 || failed (f w.1).1))

/-- A step that is an error, or a row of a statement that has none. -/
def stepFailed (cmd : Sqlitecommand) : Stepped → Bool
  | .row _ => !(lit "SELECT").isPrefixOf cmd.m_sql
  | .done => false
  | .error => true

def watched (host : Host W) : Host (W × Bool) where
  sqlite3_open := watch (!·) host.sqlite3_open
  sqlite3_prepare_v2 sql := watch Option.isNone (host.sqlite3_prepare_v2 sql)
  sqlite3_bind_text cmd name val := watch (!·) (host.sqlite3_bind_text cmd name val)
  sqlite3_bind_int cmd name val := watch (!·) (host.sqlite3_bind_int cmd name val)
  sqlite3_step cmd := watch (stepFailed cmd) (host.sqlite3_step cmd)
  TMF_RESUME_ transId := watch (· != 0) (host.TMF_RESUME_ transId)
  TMF_SUSPEND_ transId := watch (· != 0) (host.TMF_SUSPEND_ transId)
  ENDTRANSACTION := watch (· != 0) host.ENDTRANSACTION
  ABORTTRANSACTION := watch (· != 0) host.ABORTTRANSACTION
  TMF_TXBEGIN_ := watch (·.1 != 0) host.TMF_TXBEGIN_
  TMF_TXHANDLE_FROM_BEGINTAG_ tag := watch (·.1 != 0) (host.TMF_TXHANDLE_FROM_BEGINTAG_ tag)
  TMF_GET_TX_ID_ handle := watch (·.1 != 0) (host.TMF_GET_TX_ID_ handle)
  sqlprocParse := host.sqlprocParse
  prepare procDef := watch Option.isSome (host.prepare procDef)
  exec procDef req := watch (fun _ => false) (host.exec procDef req)
  statsWriteRecord := watch (fun _ => false) host.statsWriteRecord
  fileLoadText := watch Option.isNone host.fileLoadText
  realText := host.realText

def watchedMemory (pattern : Site → Bool) : Memory (W × Bool) :=
  fun site => watch (!·) (Memory.of pattern site)

/-- A server whose host is watched from now on. -/
def Server.watched (s : Server W) : Server (W × Bool) where
  g_running := s.g_running
  users := s.users
  m_stmts := s.m_stmts
  heap := s.heap
  xml := s.xml
  world := (s.world, false)

/-! ## Replies -/

/-- An element of a reply. -/
inductive Element where
  | row (attributes : Bytes)
  | error (message : Bytes)

def Element.text : Element → Bytes
  | .row attributes => lit "<row message='OK'" ++ attributes ++ lit " />\r\n"
  | .error message => lit "<error>" ++ message ++ lit "</error>\r\n"

/-- What is appended between two states is a sequence of elements that says `ok`. -/
def Truthful (s s' : Server W) (ok : Prop) : Prop :=
  ∃ es : List Element, s'.xml = s.xml ++ es.flatMap Element.text ∧
    ((∃ a, Element.row a ∈ es) ↔ ok) ∧ ((∃ m, Element.error m ∈ es) ↔ ¬ ok)

/-- The name a DROP statement gives. -/
def dropName (sql : Str) : Str :=
  stringDup (stringSubstringFrom sql ((stringIndexOfCh sql 32 6).elim 0 (· + 1)))

/-- The statement is not understood, or its user may not give it, or it has nothing to work on. -/
def Refused (host : Host W) (system userId sql : Str) (transId : Int) (s : Server W) : Prop :=
  match sqlBranch sql with
  | .begin => transId ≠ 0
  | .commit => transId = 0
  | .abort => transId = 0
  | .grant => parseGrant system sql = some none
  | .createLogon => parseCreateLogon sql = some none
  | .create => (usersIsAdmin host userId).result s ≠ some true ∨
      sqlprocNew host.sqlprocParse sql = some none
  | .drop => (usersIsAdmin host userId).result s ≠ some true ∨
      stringIndexOfCh (stringSubstringFrom sql ((stringIndexOfCh sql 32 6).elim 0 (· + 1))) 46 0 =
        none ∨
      (s.m_stmts.hashtableGet (dropName sql).m_cstr).join = none
  | _ => False

/-- Memory runs out where NULL is read: for the first word of a CREATE text that an
administrator gives and that has a body, or for a string of DROP that its path comes to. -/
def ReadsNull (host : Host W) (pattern : Site → Bool) (userId sql : Str) (s : Server W) : Prop :=
  match sqlBranch sql with
  | .create => (usersIsAdmin host userId).result s = some true ∧ pattern .stmt = true ∧
      pattern .procDef = true ∧ (_sqlprocScanForBody (stringDup sql)).isSome ∧
        pattern .lexer = true ∧ pattern .lexeme = false
  | .drop => pattern .dropName = false ∨ (usersIsAdmin host userId).result s = some true ∧
      stringIndexOfCh (stringSubstringFrom sql ((stringIndexOfCh sql 32 6).elim 0 (· + 1))) 46 0 ≠
        none ∧
      (pattern .fqname = false ∨ pattern .dropSystem = false ∨ pattern .procName = false)
  | _ => False

/-- The call ends, and its reply is truthful. -/
def Told (host : Host W) (pattern : Site → Bool) (rounds : Nat) (system userId sql : Str)
    (transId : Int) (s : Server W) : Prop :=
  Ends (stmtmgrProcessSqlIn (watched host) (watchedMemory pattern) rounds system userId sql transId)
    s.watched
    fun _ s' => Truthful s.watched s'
      (s'.world.2 = false ∧ ¬ Refused (watched host) system userId sql transId s.watched)

/-! ## What the calls leave -/

/-- What is appended, and whether a call has failed; the statements are left alone. -/
structure After (s s' : Server (W × Bool)) (reply : Bytes) (failed : Bool) : Prop where
  xml : s'.xml = s.xml ++ reply
  failed : s'.world.2 = (s.world.2 || failed)
  heap : s'.heap = s.heap
  stmts : s'.m_stmts = s.m_stmts

/-- The act ends, and `Q` holds of its result, its reply and its failure. -/
def Replies {α : Type} (m : Srv (W × Bool) α) (s : Server (W × Bool)) (Q : α → Bytes → Bool → Prop) :
    Prop :=
  Ends m s fun a s' => ∃ reply failed, After s s' reply failed ∧ Q a reply failed

variable {α β : Type} {s s' : Server (W × Bool)}

theorem After.refl : After s s [] false where
  xml := (List.append_nil _).symm
  failed := (Bool.or_false _).symm
  heap := rfl
  stmts := rfl

theorem After.trans {s'' : Server (W × Bool)} {r r' : Bytes} {f f' : Bool} (one : After s s' r f)
    (two : After s' s'' r' f') : After s s'' (r ++ r') (f || f') where
  xml := by rw [two.xml, one.xml, List.append_assoc]
  failed := by rw [two.failed, one.failed, Bool.or_assoc]
  heap := two.heap.trans one.heap
  stmts := two.stmts.trans one.stmts

variable {m : Srv (W × Bool) α} {f : α → Srv (W × Bool) β} {P : α → Bytes → Bool → Prop}
  {Q : β → Bytes → Bool → Prop}

theorem Replies.pure {a : α} (holds : P a [] false) : Replies (Pure.pure a : Srv (W × Bool) α) s P :=
  Ends.pure ⟨[], false, .refl, holds⟩

theorem Replies.bind (first : Replies m s P)
    (second : ∀ a s' r e, After s s' r e → P a r e →
      Replies (f a) s' fun b r' e' => Q b (r ++ r') (e || e')) :
    Replies (m >>= f) s Q :=
  Ends.bind first fun a s' ⟨r, e, after, holds⟩ =>
    (second a s' r e after holds).weaken fun _ _ ⟨r', e', after', holds'⟩ =>
      ⟨r ++ r', e || e', after.trans after', holds'⟩

theorem Replies.weaken {Q : α → Bytes → Bool → Prop} (replies : Replies m s P)
    (more : ∀ a r e, P a r e → Q a r e) : Replies m s Q :=
  Ends.weaken replies fun a _ ⟨r, e, after, holds⟩ => ⟨r, e, after, more a r e holds⟩

theorem Replies.ite {c : Prop} [Decidable c] {m' : Srv (W × Bool) α} (yes : c → Replies m s P)
    (no : ¬ c → Replies m' s P) : Replies (if c then m else m') s P :=
  Ends.ite yes no

/-- A call of the watched host. -/
theorem call_replies {failed : α → Bool} {g : W → α × W} :
    Replies (call (watch failed g)) s fun a r e => r = [] ∧ e = failed a :=
  Ends.update ⟨[], _, ⟨(List.append_nil _).symm, rfl, rfl, rfl⟩, rfl, rfl⟩

theorem tell_replies (e : Event) : Replies (Act.tell e : Srv (W × Bool) Unit) s fun _ r e => r = [] ∧ e = false :=
  Ends.tell ⟨[], false, .refl, rfl, rfl⟩

theorem append_replies (text : Bytes) :
    Replies (append (W := W × Bool) text) s fun _ r e => r = text ∧ e = false :=
  Ends.modify ⟨text, false, ⟨rfl, (Bool.or_false _).symm, rfl, rfl⟩, rfl, rfl⟩

theorem say_replies (text : String) :
    Replies (say (W := W × Bool) text) s fun _ r e => r = lit text ∧ e = false := append_replies _

/-- Two acts that append and do not fail. -/
theorem said_then {n : Srv (W × Bool) Unit} {t : Bytes}
    {g : Srv (W × Bool) β} (first : Replies n s fun _ r e => r = t ∧ e = false)
    (second : ∀ s', Replies g s' fun b r e => Q b (t ++ r) e) : Replies (n >>= fun _ => g) s Q :=
  Replies.bind first fun _ s' r e _ ⟨reply, silent⟩ => by
    subst reply silent
    exact second s'

theorem writeError_replies (cp1 : String) (cp2 : Bytes) :
    Replies (_writeError (W := W × Bool) cp1 cp2) s
      fun _ r e => r = (Element.error (lit cp1 ++ cp2)).text ∧ e = false := by
  refine said_then (say_replies _) fun _ => said_then (say_replies _) fun _ =>
    said_then (append_replies _) fun _ => (say_replies _).weaken fun _ r e ⟨reply, silent⟩ => ?_
  subst reply
  exact ⟨by simp [Element.text], silent⟩

theorem writeErrorCode_replies (cp1 : String) (i : Int) :
    Replies (_writeErrorCode (W := W × Bool) cp1 i) s
      fun _ r e => r = (Element.error (lit cp1 ++ lit " " ++ intText i)).text ∧ e = false := by
  refine said_then (say_replies _) fun _ => said_then (say_replies _) fun _ =>
    said_then (say_replies _) fun _ => said_then (append_replies _) fun _ =>
      (say_replies _).weaken fun _ r e ⟨reply, silent⟩ => ?_
  subst reply
  exact ⟨by simp [Element.text], silent⟩

/-! ## SQLite -/

variable (host : Host W)

theorem sqliteconnOpen_replies :
    Replies (sqliteconnOpen (watched host)) s fun ok r e => r = [] ∧ e = !ok := call_replies

theorem createCommand_replies (sql : String) :
    Replies (sqliteconnCreateCommand (watched host) sql) s fun cmd r e =>
      r = [] ∧ e = cmd.isNone ∧ ∀ c ∈ cmd, c.m_sql = (stringNew (lit sql)).m_cstr := by
  refine Replies.bind call_replies fun stmt s' r e _ ⟨reply, failed⟩ => Replies.pure ?_
  subst reply failed
  cases stmt with
  | none => exact ⟨rfl, rfl, nofun⟩
  | some stmt => exact ⟨rfl, rfl, fun c mem => by rw [← Option.some.inj mem]⟩

theorem setParameterText_replies (cmd : Sqlitecommand) (paramName : String) (val : Bytes) :
    Replies (sqlitecommandSetParameterText (watched host) cmd paramName val) s
      fun ok r e => r = [] ∧ e = !ok := call_replies

/-- A step that fails reads no row. -/
theorem sqlitereaderRead_replies (cmd : Sqlitecommand)
    (select : (lit "SELECT").isPrefixOf cmd.m_sql = true) :
    Replies (sqlitereaderRead (watched host) cmd) s
      fun row r e => r = [] ∧ (e = true → row = none) := by
  refine Replies.bind call_replies fun stepped s' r e _ ⟨reply, failed⟩ => ?_
  subst reply failed
  cases stepped with
  | row columns => exact Replies.pure ⟨rfl, fun failed => by simp [stepFailed, select] at failed⟩
  | done => exact Replies.pure ⟨rfl, fun _ => rfl⟩
  | error => exact Replies.pure ⟨rfl, fun _ => rfl⟩

/-- A statement that is no SELECT succeeds exactly if its step does. -/
theorem executeNonQuery_replies (cmd : Sqlitecommand)
    (other : (lit "SELECT").isPrefixOf cmd.m_sql = false) :
    Replies (sqlitecommandExecuteNonQuery (watched host) cmd) s fun ok r e => r = [] ∧ e = !ok := by
  refine Replies.bind call_replies fun stepped s' r e _ ⟨reply, failed⟩ => ?_
  subst reply failed
  refine said_then (tell_replies _) fun s'' => ?_
  cases stepped with
  | row columns => exact Replies.pure ⟨rfl, by simp [stepFailed, other]⟩
  | done => exact Replies.pure ⟨rfl, rfl⟩
  | error => exact Replies.pure ⟨rfl, rfl⟩

/-- A call that says whether it has succeeded, in front of the rest. -/
theorem Replies.step {n : Srv (W × Bool) Bool} {g : Bool → Srv (W × Bool) β}
    (first : Replies n s fun ok r e => r = [] ∧ e = !ok) (yes : ∀ s', Replies (g true) s' Q)
    (no : ∀ s', Replies (g false) s' fun b r _ => Q b r true) : Replies (n >>= g) s Q :=
  Replies.bind first fun ok s' r e _ ⟨reply, failed⟩ => by
    subst reply failed
    cases ok with
    | true => exact yes s'
    | false => exact (no s').weaken fun _ _ _ holds => holds

/-- A command in front of the rest. -/
theorem Replies.command {sql : String} {g : Option Sqlitecommand → Srv (W × Bool) β}
    (some : ∀ cmd s', cmd.m_sql = (stringNew (lit sql)).m_cstr → Replies (g (some cmd)) s' Q)
    (none : ∀ s', Replies (g none) s' fun b r _ => Q b r true) :
    Replies (sqliteconnCreateCommand (watched host) sql >>= g) s Q :=
  Replies.bind (createCommand_replies host sql) fun cmd s' r e _ ⟨reply, failed, made⟩ => by
    subst reply failed
    cases cmd with
    | some cmd => exact some cmd s' (made cmd rfl)
    | none => exact (none s').weaken fun _ _ _ holds => holds

theorem usersIsAdmin_replies (uid : Str) :
    Replies (usersIsAdmin (watched host) uid) s fun ok r e => r = [] ∧ (e = true → ok = false) := by
  have no {e : Bool} (s' : Server (W × Bool)) : Replies (Pure.pure false) s'
      fun ok r _ => r = [] ∧ (e = true → ok = false) := Replies.pure ⟨rfl, fun _ => rfl⟩
  refine Replies.step (sqliteconnOpen_replies host) (fun s₁ => ?_) no
  refine Replies.command host (fun cmd s₂ made => ?_) no
  refine Replies.step (setParameterText_replies host _ _ _) (fun s₃ => ?_) no
  refine Replies.bind (sqlitereaderRead_replies host cmd (by rw [made]; decide)) fun row s₄ r e _ read => ?_
  obtain ⟨rfl, failed⟩ := read
  cases row with
  | none => exact Replies.pure ⟨rfl, fun _ => rfl⟩
  | some columns => exact Replies.pure ⟨rfl, fun e' => nomatch failed (by simpa using e')⟩

/-- A statement with two parameters, that is no SELECT. -/
theorem deleteProcedure_replies (system name : Str) :
    Replies (deleteProcedure (watched host) system name) s fun ok r e => r = [] ∧ e = !ok := by
  have no (s' : Server (W × Bool)) : Replies (Pure.pure false) s'
      fun ok r _ => r = [] ∧ true = !ok := Replies.pure ⟨rfl, rfl⟩
  refine Replies.step (sqliteconnOpen_replies host) (fun s₁ => ?_) no
  refine Replies.command host (fun cmd s₂ made => ?_) no
  refine Replies.step (setParameterText_replies host _ _ _) (fun s₃ => ?_) no
  refine Replies.step (setParameterText_replies host _ _ _) (fun s₄ => ?_) no
  exact executeNonQuery_replies host cmd (by rw [made]; decide)

/-! ## Answers -/

/-- One element: the OK row, or an error. -/
def Answers (ok : Bool) (reply : Bytes) : Prop :=
  if ok then ∃ a, reply = (Element.row a).text else ∃ m, reply = (Element.error m).text

theorem Answers.truthful {s s' : Server W} {ok : Bool} {reply : Bytes} {holds : Prop}
    (answers : Answers ok reply) (xml : s'.xml = s.xml ++ reply) (same : ok = true ↔ holds) :
    Truthful s s' holds := by
  cases ok with
  | true =>
      obtain ⟨a, rfl⟩ := answers
      refine ⟨[.row a], by simpa using xml, ?_, ?_⟩
      · exact iff_of_true ⟨a, List.mem_singleton_self _⟩ (same.mp rfl)
      · exact iff_of_false (by simp) (not_not.mpr (same.mp rfl))
  | false =>
      obtain ⟨m, rfl⟩ := answers
      have no : ¬ holds := fun h => nomatch same.mpr h
      refine ⟨[.error m], by simpa using xml, ?_, ?_⟩
      · exact iff_of_false (by simp) no
      · exact iff_of_true ⟨m, List.mem_singleton_self _⟩ no

theorem refusal_replies (cp1 : String) (cp2 : Bytes) :
    Replies (_writeError (W := W × Bool) cp1 cp2) s fun _ r e => Answers false r ∧ e = false :=
  (writeError_replies cp1 cp2).weaken fun _ _ _ ⟨reply, quiet⟩ => ⟨⟨_, reply⟩, quiet⟩

/-- A call whose status is reported where it is not 0. -/
theorem status_replies {g : W → α × W} {status : α → Int} {message : String}
    {more : α → Srv (W × Bool) Unit}
    (next : ∀ a s', status a = 0 → Replies (more a) s' fun _ r e => Answers (!e) r) :
    Replies (call (watch (fun a => status a != 0) g) >>= fun a =>
      if status a ≠ 0 then _writeErrorCode message (status a) else more a) s
      fun _ r e => Answers (!e) r := by
  refine Replies.bind call_replies fun a s' r e _ ⟨reply, failed⟩ => ?_
  subst reply failed
  refine Replies.ite (fun bad => ?_) fun good => ?_
  · refine (writeErrorCode_replies _ _).weaken fun _ r e ⟨reply, _⟩ => ?_
    rw [bne_iff_ne.mpr bad]
    exact ⟨_, reply⟩
  · have good : status a = 0 := not_not.mp good
    rw [good]
    exact next a s' good

/-- A TMF call that reports itself: an error exactly if it fails. -/
theorem tmf_replies {g : W → Int × W} (event : Int → Event) (message : String) :
    Replies (do
      let status ← call (watch (· != 0) g)
      Act.tell (event status)
      if status ≠ 0 then
        _writeErrorCode message status
        Pure.pure false
      else Pure.pure true : Srv (W × Bool) Bool) s fun ok r e =>
      e = !ok ∧ if ok then r = [] else Answers false r := by
  refine Replies.bind call_replies fun status s₁ r e _ ⟨reply, failed⟩ => ?_
  subst reply failed
  refine said_then (tell_replies _) fun s₂ => Replies.ite (fun bad => ?_) fun good => ?_
  · refine Replies.bind (writeErrorCode_replies _ _) fun _ s₃ r e _ ⟨reply, quiet⟩ => Replies.pure ?_
    subst reply quiet
    exact ⟨by simp [bne_iff_ne.mpr bad], by simpa using ⟨_, rfl⟩⟩
  · exact Replies.pure ⟨by simp [not_not.mp good], rfl⟩

theorem suspendtrans_replies (transId : Int) :
    Replies (suspendtrans (watched host) transId) s fun ok r e =>
      e = !ok ∧ if ok then r = [] else Answers false r :=
  tmf_replies (fun _ => .suspended) _

theorem resumetrans_replies (transId : Int) :
    Replies (resumetrans (watched host) transId) s fun ok r e =>
      e = !ok ∧ if ok then r = [] else Answers false r :=
  tmf_replies (fun status => .resumed (status == 0)) _

theorem begintransRequest_replies :
    Replies (begintransRequest (watched host)) s fun _ r e => Answers (!e) r := by
  refine status_replies fun begun s₁ _ => status_replies fun txhandle s₂ _ =>
    status_replies fun transid s₃ _ => ?_
  refine Replies.bind (suspendtrans_replies host _) fun ok s₄ r e _ ⟨failed, reply⟩ => ?_
  subst failed
  cases ok with
  | false => exact Replies.pure (by simpa using reply)
  | true =>
      have reply : r = [] := reply
      subst reply
      refine said_then (say_replies _) fun s₅ => said_then (append_replies _) fun s₆ =>
        (say_replies _).weaken fun _ r e ⟨row, quiet⟩ => ?_
      subst row quiet
      exact ⟨lit " transid='" ++ intText transid.2 ++ lit "'", by simp [Element.text, lit]⟩

theorem endtransRequest_replies {endtrans : W → Int × W} (message : String) (transId : Int) :
    Replies (endtransRequest (watched host) (watch (· != 0) endtrans) message transId) s
      fun _ r e => Answers (!e) r := by
  refine Replies.bind (resumetrans_replies host _) fun ok s₁ r e _ ⟨failed, reply⟩ => ?_
  subst failed
  cases ok with
  | false => exact Replies.pure (by simpa using reply)
  | true =>
      have reply : r = [] := reply
      subst reply
      refine Replies.bind call_replies fun status s₂ r e _ ⟨reply, failed⟩ => ?_
      subst reply failed
      refine said_then (tell_replies _) fun s₃ => Replies.ite (fun bad => ?_) fun good => ?_
      · refine (writeErrorCode_replies _ _).weaken fun _ r e ⟨reply, _⟩ => ?_
        simp only [bne_iff_ne.mpr bad]
        exact ⟨_, reply⟩
      · refine (say_replies _).weaken fun _ r e ⟨row, quiet⟩ => ?_
        subst row quiet
        simp only [not_not.mp good]
        exact ⟨[], rfl⟩

/-! ## GRANT and CREATE LOGON -/

/-- The first word of a text loses its last letter, and is not the one expected. -/
theorem lexumIs_cut {lex : Sqllex} {word keyword : Bytes} (lexum : lex.m_lexum = some (stringNew word))
    (size : word.length = keyword.length) (more : keyword ≠ []) :
    lex.lexumIs keyword = some false := by
  have different : stringIsEqual (stringNew word) keyword true = false := by
    by_contra same
    have lengths := sameText_length (Bool.not_eq_false _ ▸ same)
    rw [stringNew_cstr, List.length_dropLast, size] at lengths
    have pos := List.length_pos_iff.mpr more
    omega
  simp [Sqllex.lexumIs, lexum, different]

theorem parseGrant_refused {sql : Str} (starts : startsText true sql.m_cstr (lit "GRANT ") = true)
    (system : Str) : parseGrant system sql = some none := by
  obtain ⟨word, tail, text, size, letters⟩ :=
    @startsText_word _ [71, 82, 65, 78, 84] (by simp) starts
  obtain ⟨lex, new, -, lexum⟩ :=
    lexum_of_word (List.ne_nil_of_length_pos (by rw [size]; decide)) letters text
  have cut : lex.lexumIs (lit "GRANT") = some false := lexumIs_cut lexum size (by decide)
  simp [parseGrant, new, cut]

theorem parseCreateLogon_refused {sql : Str}
    (starts : startsText true sql.m_cstr (lit "CREATE ") = true) :
    parseCreateLogon sql = some none := by
  obtain ⟨word, tail, text, size, letters⟩ :=
    @startsText_word _ [67, 82, 69, 65, 84, 69] (by simp) starts
  obtain ⟨lex, new, -, lexum⟩ :=
    lexum_of_word (List.ne_nil_of_length_pos (by rw [size]; decide)) letters text
  have cut : lex.lexumIs (lit "CREATE") = some false := lexumIs_cut lexum size (by decide)
  simp [parseCreateLogon, new, cut]

theorem grant_starts {sql : Str} (way : sqlBranch sql = .grant) :
    startsText true sql.m_cstr (lit "GRANT ") = true := by
  unfold sqlBranch at way
  split_ifs at way with _ _ _ starts
  unfold stringStartsWith at starts
  split_ifs at starts
  exact starts

theorem createLogon_starts {sql : Str} (way : sqlBranch sql = .createLogon) :
    startsText true sql.m_cstr (lit "CREATE ") = true := by
  unfold sqlBranch at way
  split_ifs at way with _ _ _ _ starts
  unfold stringStartsWith at starts
  split_ifs at starts
  have starts : startsText true sql.m_cstr (lit "CREATE " ++ lit "LOGON") = true := starts
  exact startsText_prefix starts

/-- A reply that begins as an error has one. -/
theorem error_of_begins {es : List Element} {x : Bytes}
    (text : es.flatMap Element.text = lit "<error>" ++ x) : ∃ m, Element.error m ∈ es := by
  cases es with
  | nil => cases text
  | cons e es =>
      cases e with
      | error m => exact ⟨m, List.mem_cons_self⟩
      | row a => exact absurd (List.cons.inj (List.cons.inj text).2).1 (by decide)

/-- A reply that ends as a row has one. -/
theorem row_of_ends {es : List Element} {x : Bytes}
    (text : es.flatMap Element.text = x ++ lit " />\r\n") : ∃ a, Element.row a ∈ es := by
  rcases List.eq_nil_or_concat es with rfl | ⟨es, e, rfl⟩
  · simp [lit] at text
  · cases e with
    | row a => exact ⟨a, by simp⟩
    | error m =>
        have split' : es.flatMap Element.text ++ lit "<error>" ++ m ++ lit "</err" ++
            lit "or>\r\n" = x ++ lit " />\r\n" := by
          rw [← text]
          simp [Element.text, lit]
        exact absurd (List.append_inj_right' split' rfl) (by decide)

/-- The error and the row behind it: no truth is told by both. -/
theorem both_untruthful {s s' : Server W} {message : Bytes} {holds : Prop}
    (xml : s'.xml = s.xml ++ ((Element.error message).text ++ (Element.row []).text)) :
    ¬ Truthful s s' holds := by
  rintro ⟨es, text, row, error⟩
  have text := List.append_cancel_left (text.symm.trans xml)
  have some : ∃ m, Element.error m ∈ es :=
    error_of_begins (x := message ++ lit "</error>\r\n" ++ (Element.row []).text)
      (by rw [text]; simp [Element.text])
  have ok : ∃ a, Element.row a ∈ es :=
    row_of_ends (x := (Element.error message).text ++ lit "<row message='OK'")
      (by rw [text]; simp [Element.text])
  exact error.mp some (row.mp ok)

/-- A parser that refuses or reads NULL, the error and the row. -/
theorem reported_untruthful {parsed : Srv (W × Bool) Bool} {message : String}
    {holds : Server (W × Bool) → Prop} (refused : parsed.result s = none ∨
      parsed.result s = some false ∧ (parsed.final s).xml = s.xml) :
    ¬ Ends (do
      let ok ← parsed
      reportIf ok message
      say "<row message='OK' />\r\n" : Srv (W × Bool) Unit) s
      fun _ s' => Truthful s s' (holds s') := by
  rintro ⟨a, ended, truthful⟩
  rcases refused with dead | ⟨no, xml⟩
  · rw [Act.result, bind_none dead] at ended
    cases ended
  · rw [final_bind no] at truthful
    refine @both_untruthful _ _ _ (lit message) _ ?_ truthful
    show (parsed.final s).xml ++ lit "<error>" ++ lit message ++ [] ++ lit "</error>\r\n" ++
      lit "<row message='OK' />\r\n" = _
    rw [xml]
    simp [Element.text, lit]

theorem watchedMemory_granted {pattern : Site → Bool} {site : Site} (granted : pattern site = true) (w : W × Bool) :
    watchedMemory pattern site w = (true, w) := by
  simp [watchedMemory, watch, Memory.of, granted]

/-- Memory that is wanted and not there, and then NULL is read. -/
theorem lexeme_crashes {α : Type} {failed : α} {parse : Srv (W × Bool) α} {pattern : Site → Bool}
    (lexer : pattern .lexer = true) (lexeme : pattern .lexeme = false) :
    Crashes (firstWord (watchedMemory pattern) failed parse) := by
  intro s
  rw [firstWord, bind_still (call_granted (watchedMemory_granted lexer)), if_neg (by simp),
    Act.result, call_bind, if_pos]
  · rfl
  · simp [watchedMemory, watch, Memory.of, lexeme]

/-- A string that is made or NULL, as the pattern says. -/
theorem newString_crashes {α : Type} {pattern : Site → Bool} {site : Site} {made : Str}
    {f : Option Str → Srv (W × Bool) α}
    (dead : ∀ string, (pattern site = false → string = none) → Crashes (f string)) :
    Crashes (newString (watchedMemory pattern) site made >>= f) := by
  rcases Bool.eq_false_or_eq_true (pattern site) with granted | missing
  · rw [bind_still (newString_granted (watchedMemory_granted granted) made)]
    exact dead _ fun no => nomatch no.symm.trans granted
  · refine fun s => crashes_behind (a := none) ?_ (dead none fun _ => rfl)
    rw [newString, Act.result, call_bind, if_neg (by simp [watchedMemory, watch, Memory.of, missing])]
    rfl

/-- A refused text comes no further than its first word. -/
theorem firstWord_refuses (pattern : Site → Bool) (s : Server (W × Bool)) :
    (firstWord (watchedMemory pattern) false (Pure.pure false)).result s = none ∨
      (firstWord (watchedMemory pattern) false (Pure.pure false)).result s = some false ∧
        ((firstWord (watchedMemory pattern) false (Pure.pure false)).final s).xml = s.xml := by
  rcases Bool.eq_false_or_eq_true (pattern .lexer) with lexer | lexer
  · rcases Bool.eq_false_or_eq_true (pattern .lexeme) with lexeme | lexeme
    · rw [firstWord_granted (watchedMemory_granted lexer) (watchedMemory_granted lexeme)]
      exact .inr ⟨rfl, rfl⟩
    · exact .inl (lexeme_crashes lexer lexeme s)
  · have run : firstWord (watchedMemory pattern) false (Pure.pure false) s =
        (Pure.pure false : Srv (W × Bool) Bool)
          { s with world := (watchedMemory pattern .lexer s.world).2 } := by
      rw [firstWord, call_bind, if_pos (by simp [watchedMemory, watch, Memory.of, lexer])]
    rw [Act.result, Act.final, run]
    exact .inr ⟨rfl, rfl⟩

/-! ## The statement and its reply -/

variable {system userId sql : Str} {transId : Int} {rounds : Nat}

/-- Every pointer in the table leads to a statement; a dropped procedure leaves NULL behind. -/
def Live (s : Server W) : Prop :=
  ∀ hi ∈ s.m_stmts.m_table, ∀ pointer, hi.m_value = some pointer →
    ∃ stmt, s.heap[pointer]? = some (some stmt)

/-- A branch whose one element says whether all went well. -/
theorem told_of_replies {s : Server W} {u : Srv (W × Bool) Unit} {refused : Prop}
    (replies : Replies u s.watched fun _ r e => Answers (!e) r) (accepted : ¬ refused) :
    Ends u s.watched fun _ s' => Truthful s.watched s' (s'.world.2 = false ∧ ¬ refused) :=
  Ends.weaken replies fun _ s' ⟨r, e, after, answers⟩ =>
    answers.truthful after.xml (by
      have flag : s'.world.2 = e := after.failed.trans (Bool.false_or e)
      rw [flag]
      cases e <;> simp [accepted])

/-- A branch that refuses. -/
theorem told_of_refusal {s : Server W} {u : Srv (W × Bool) Unit} {refused : Prop}
    (replies : Replies u s.watched fun _ r _ => Answers false r) (not : refused) :
    Ends u s.watched fun _ s' => Truthful s.watched s' (s'.world.2 = false ∧ ¬ refused) :=
  Ends.weaken replies fun _ s' ⟨r, e, after, answers⟩ =>
    answers.truthful after.xml (by simp [not])

theorem get_replies {W : Type} {s : Server (W × Bool)} : Replies (Act.get : Srv (W × Bool) _) s
    fun a r e => r = [] ∧ e = false ∧ a = s :=
  Ends.get ⟨[], false, .refl, rfl, rfl, rfl⟩

section Sites

variable (pattern : Site → Bool)

theorem memory_replies (site : Site) : Replies (call (watchedMemory (W := W) pattern site)) s
    fun a r _ => r = [] ∧ a = pattern site :=
  Ends.update ⟨[], _, ⟨(List.append_nil _).symm, rfl, rfl, rfl⟩, rfl, rfl⟩

variable {pattern} (way : sqlBranch sql = .create)
include way

theorem preparedstatementNew_create (count : Int) :
    preparedstatementNew (watched host) system sql count = Pure.pure (.error SQLE_SYNTAX) := by
  unfold preparedstatementNew
  rw [sqlprocNew_create _ (create_starts way)]
  rfl

/-- The error that is reported for a CREATE text, if its first word can be read. -/
theorem preparedstatementNewIn_replies (count : Int)
    (read : ¬ (pattern .stmt = true ∧ pattern .procDef = true ∧
      (_sqlprocScanForBody (stringDup sql)).isSome ∧ pattern .lexer = true ∧
        pattern .lexeme = false)) :
    Replies (preparedstatementNewIn (watched host) (watchedMemory pattern) system sql count) s
      fun new r _ => r = [] ∧ ∃ code, new = .error code := by
  have error {s : Server (W × Bool)} (code : Int) : Replies (Pure.pure (.error code : Except Int Nat))
      s fun new r _ => r = [] ∧ ∃ code, new = .error code := Replies.pure ⟨rfl, code, rfl⟩
  have asked {site : Site} {f : Bool → Srv (W × Bool) (Except Int Nat)} {s : Server (W × Bool)}
      (next : ∀ s', Replies (f (pattern site)) s' fun new r _ => r = [] ∧ ∃ code, new = .error code) :
      Replies (call (watchedMemory pattern site) >>= f) s
        fun new r _ => r = [] ∧ ∃ code, new = .error code :=
    Replies.bind (memory_replies pattern site) fun a s' r e _ ⟨reply, is⟩ => by
      subst reply is
      exact next s'
  refine asked fun s₁ => Replies.ite (fun _ => error _) fun stmt => asked fun s₂ =>
    Replies.ite (fun _ => error _) fun procDef => Replies.ite (fun scan => ?_) fun _ => ?_
  · refine asked fun s₃ => Replies.ite (fun _ => error _) fun lexer => asked fun s₄ => ?_
    have lexeme : pattern .lexeme = true := by
      simp only [not_not] at stmt procDef lexer
      by_contra missing
      exact read ⟨stmt, procDef, scan, lexer, by simpa using missing⟩
    rw [lexeme, if_neg (by simp), preparedstatementNew_create host way]
    exact error _
  · rw [preparedstatementNew_create host way]
    exact error _

/-- A CREATE text is answered by an error, unless its first word is NULL. -/
theorem createSql_told {s : Server W} :
    Ends (createSqlIn (watched host) (watchedMemory pattern) system userId sql) s.watched
        (fun _ s' => Truthful s.watched s'
          (s'.world.2 = false ∧ ¬ Refused (watched host) system userId sql transId s.watched)) ↔
      ¬ ReadsNull (watched host) pattern userId sql s.watched := by
  have refused : Refused (watched host) system userId sql transId s.watched := by
    unfold Refused
    rw [way]
    exact .inr (sqlprocNew_create _ (create_starts way))
  have null : ReadsNull (watched host) pattern userId sql s.watched ↔
      (usersIsAdmin (watched host) userId).result s.watched = some true ∧
        pattern .stmt = true ∧ pattern .procDef = true ∧
          (_sqlprocScanForBody (stringDup sql)).isSome ∧ pattern .lexer = true ∧
            pattern .lexeme = false := by
    unfold ReadsNull
    rw [way]
  rw [null]
  obtain ⟨admin, ended, _⟩ := usersIsAdmin_replies host userId (s := s.watched)
  constructor
  · rintro ⟨a, ended', -⟩ ⟨yes, stmt, procDef, scan, lexer, lexeme⟩
    have dead : (createSqlIn (watched host) (watchedMemory pattern) system userId sql).result
        s.watched = none := by
      unfold createSqlIn
      refine crashes_behind yes ?_
      rw [if_neg (by simp)]
      refine .behind fun _ => .first fun s => ?_
      rw [preparedstatementNewIn, bind_still (call_granted (watchedMemory_granted stmt)),
        if_neg (by simp), bind_still (call_granted (watchedMemory_granted procDef)),
        if_neg (by simp), if_pos scan]
      exact lexeme_crashes lexer lexeme s
    rw [dead] at ended'
    cases ended'
  · intro read
    refine told_of_refusal ?_ refused
    refine Ends.bind (P := fun a s' => some a = (usersIsAdmin (watched host) userId).result
      s.watched ∧ ∃ e, After s.watched s' [] e) ?_ fun a s₁ asked => ?_
    · obtain ⟨a, ended', r, e, after, rfl, -⟩ := usersIsAdmin_replies host userId (s := s.watched)
      exact ⟨a, ended', ended'.symm, e, after⟩
    obtain ⟨is, e, after⟩ := asked
    have wrap {u : Srv (W × Bool) Unit} (replies : Replies u s₁ fun _ r _ => Answers false r) :
        Ends u s₁ fun a s' => ∃ reply failed, After s.watched s' reply failed ∧
          Answers false reply := by
      refine Ends.weaken replies fun _ s' replied => ?_
      obtain ⟨r', e', after', answers⟩ := replied
      exact ⟨r', e || e', by simpa using after.trans after', answers⟩
    refine Ends.ite (fun _ => wrap ((refusal_replies _ _).weaken fun _ _ _ refusal => refusal.1))
      fun yes => wrap ?_
    refine Replies.bind get_replies fun now s₂ r e _ got => ?_
    obtain ⟨reply, -, -⟩ := got
    subst reply
    refine Replies.bind (preparedstatementNewIn_replies host way _ fun sites => ?_)
      fun new s₃ r e _ failed => ?_
    · refine read ⟨?_, sites⟩
      rw [← is]
      simpa using yes
    · obtain ⟨reply, code, is⟩ := failed
      subst reply is
      have error : Replies (_writeErrorCode "prepared statement failed" code) s₃
          fun _ r _ => Answers false r :=
        (writeErrorCode_replies _ _).weaken fun _ _ _ told => ⟨_, told.1⟩
      exact error

end Sites

/-- The statement a cached pointer leads to is there to be deleted. -/
theorem live_deref {s : Server W} (live : Live s) {fqname : Bytes} {pointer : Nat}
    (cached : (s.m_stmts.hashtableGet fqname).join = some pointer) :
    ∃ stmt, s.heap[pointer]? = some (some stmt) := by
  obtain ⟨value, found, rfl⟩ : ∃ value, s.m_stmts.hashtableGet fqname = some value ∧
      value = some pointer := by
    cases found : s.m_stmts.hashtableGet fqname with
    | none => rw [found] at cached; cases cached
    | some value => exact ⟨value, rfl, by rw [found] at cached; exact cached⟩
  obtain ⟨hi, item, value⟩ := Option.map_eq_some_iff.mp found
  exact live hi (List.mem_of_find?_eq_some item) pointer value

theorem delete_ends {pointer : Nat} {stmt : Statement} (there : s.heap[pointer]? = some (some stmt)) :
    Ends (preparedstatementDelete (W := W × Bool) (some pointer)) s
      fun _ s' => s'.xml = s.xml ∧ s'.world = s.world := by
  have run : deref (some pointer) s = (some stmt, s, []) := by
    show (Act.ofOption ((s.heap[pointer]?).bind id) : Srv (W × Bool) Statement) s = _
    rw [there]
    rfl
  unfold preparedstatementDelete
  exact Ends.bind (P := fun _ s' => s' = s) ⟨stmt, by rw [Act.result, run], by rw [Act.final, run]⟩
    fun _ s' same => by
      subst same
      exact Ends.modify ⟨rfl, rfl⟩

theorem dropSql_told (s : Server W) (live : Live s) (way : sqlBranch sql = .drop) :
    Ends (dropSql (watched host) userId sql) s.watched fun _ s' => Truthful s.watched s'
      (s'.world.2 = false ∧ ¬ Refused (watched host) system userId sql transId s.watched) := by
  have refused : Refused (watched host) system userId sql transId s.watched ↔
      (usersIsAdmin (watched host) userId).result s.watched ≠ some true ∨
      stringIndexOfCh (stringSubstringFrom sql ((stringIndexOfCh sql 32 6).elim 0 (· + 1))) 46 0 =
        none ∨
      (s.watched.m_stmts.hashtableGet (dropName sql).m_cstr).join = none := by
    unfold Refused
    rw [way]
  obtain ⟨admin, ended, r, e, after, rfl, failed⟩ := usersIsAdmin_replies host userId (s := s.watched)
  refine Ends.bind (P := fun a s' => a = admin ∧ s' = (usersIsAdmin (watched host) userId).final
    s.watched) ⟨admin, ended, rfl, rfl⟩ fun a s₁ same => ?_
  obtain ⟨rfl, rfl⟩ := same
  generalize Act.final (usersIsAdmin (watched host) userId) s.watched = s₁ at after
  -- what is answered behind the check is what is answered
  have refusing {u : Srv (W × Bool) Unit} (no : Refused (watched host) system userId sql transId
      s.watched) (replies : Replies u s₁ fun _ r _ => Answers false r) :
      Ends u s₁ fun _ s' => Truthful s.watched s'
        (s'.world.2 = false ∧ ¬ Refused (watched host) system userId sql transId s.watched) :=
    Ends.weaken replies fun _ s' ⟨r', e', after', answers⟩ =>
      answers.truthful (after.trans after').xml (by simp [no])
  have error {cp1 : String} {cp2 : Bytes} {s₁ : Server (W × Bool)} :
      Replies (_writeError (W := W × Bool) cp1 cp2) s₁ fun _ r _ => Answers false r :=
    (refusal_replies _ _).weaken fun _ _ _ refusal => refusal.1
  refine Ends.ite (fun no => ?_) fun yes => ?_
  · refine refusing (refused.mpr (.inl ?_)) error
    rw [ended]
    simpa using no
  obtain rfl : a = true := by simpa using yes
  have unfailed : e = false := by
    cases e with
    | false => rfl
    | true => exact nomatch failed rfl
  split
  case h_1 dot => exact refusing (refused.mpr (.inr (.inl dot))) error
  case h_2 pos dot =>
    refine Ends.bind (P := fun now s' => s₁ = now ∧ s₁ = s') (Ends.get ⟨rfl, rfl⟩)
      fun now s' same => ?_
    obtain ⟨rfl, rfl⟩ := same
    split
    case h_1 missing =>
      refine refusing (refused.mpr (.inr (.inr ?_))) error
      rw [← after.stmts]
      exact missing
    case h_2 pointer cached =>
      have cached' : (s.m_stmts.hashtableGet (dropName sql).m_cstr).join = some pointer := by
        rw [show s.m_stmts = s.watched.m_stmts from rfl, ← after.stmts]
        exact cached
      obtain ⟨stmt, there⟩ := live_deref live cached'
      have accepted : ¬ Refused (watched host) system userId sql transId s.watched := by
        rw [refused]
        rintro (no | no | no)
        · exact no ended
        · rw [dot] at no; cases no
        · rw [show s.watched.m_stmts = s.m_stmts from rfl, cached'] at no; cases no
      refine Ends.bind (Ends.modify rfl : Ends _ _ fun _ s' => s' = _) fun _ s₂ same => ?_
      subst same
      refine Ends.bind (deleteProcedure_replies host _ _) fun ok s₃ ⟨r', e', after', reply, failed'⟩ => ?_
      subst reply failed'
      have flag : s₃.world.2 = !ok := by
        rw [after'.failed]
        show (s₁.world.2 || !ok) = !ok
        rw [after.failed, unfailed]
        rfl
      have text : s₃.xml = s.watched.xml := by
        rw [after'.xml]
        show s₁.xml ++ [] = _
        rw [after.xml]
        simp
      refine Ends.ite (fun no => ?_) fun yes => ?_
      · -- the cache has lost the procedure, and SQLite still has it
        refine Ends.weaken (error : Replies _ s₃ _) fun _ s' ⟨r', e', after'', answers⟩ => ?_
        obtain rfl : ok = false := by simpa using no
        refine answers.truthful (by rw [after''.xml, text]) ?_
        rw [after''.failed, flag]
        simp
      · obtain rfl : ok = true := by simpa using yes
        have there' : s₃.heap[pointer]? = some (some stmt) := by
          rw [after'.heap]
          show s₁.heap[pointer]? = _
          rw [after.heap]
          exact there
        refine Ends.bind (delete_ends there') fun _ s₄ ⟨same, world⟩ => ?_
        refine Ends.weaken (say_replies _) fun _ s' ⟨r', e', after'', row, quiet⟩ => ?_
        subst row quiet
        have ok : Answers true (lit "<row message='OK' />\r\n") := ⟨[], rfl⟩
        refine ok.truthful (by rw [after''.xml, same, text]) ?_
        rw [after''.failed, world, flag]
        simp [accepted]

/-- DROP on a path that comes to a string for which there is no memory. -/
theorem dropSqlIn_dead {pattern : Site → Bool} {s : Server W} (way : sqlBranch sql = .drop)
    (null : ReadsNull (watched host) pattern userId sql s.watched) :
    (dropSqlIn (watched host) (watchedMemory pattern) userId sql).result s.watched = none := by
  unfold ReadsNull at null
  rw [way] at null
  unfold dropSqlIn
  rcases Bool.eq_false_or_eq_true (pattern .dropName) with name | name
  · obtain ⟨yes, dot, missing⟩ := null.resolve_left (by simp [name])
    obtain ⟨pos, dot⟩ := Option.ne_none_iff_exists'.mp dot
    rw [bind_still (newString_granted (watchedMemory_granted name) _), ofOption_some_bind]
    refine crashes_behind yes ?_
    rw [if_neg (by simp), dot]
    refine newString_crashes fun fqname hf => ?_
    cases fqname with
    | none => exact .first .crash
    | some fqname =>
        rw [ofOption_some_bind]
        refine newString_crashes fun system hs => newString_crashes fun name hn => ?_
        have missing : system = none ∨ name = none :=
          (missing.resolve_left fun no => nomatch hf no).imp hs hn
        refine .behind fun now => ?_
        split
        · exact .behind fun _ => freeStrings_none missing
        · refine .behind fun _ => .behind fun deleted => .ite ?_ ?_
          · exact .behind fun _ => freeStrings_none missing
          · exact .first (freeStrings_none missing)
  · exact newString_crashes (fun string no => by
      rw [no name]
      exact .first .crash) s.watched

/-- DROP that is refused before its other strings are made. -/
theorem dropSqlIn_early {pattern : Site → Bool} {s : Server W} (way : sqlBranch sql = .drop)
    (name : pattern .dropName = true)
    (early : (usersIsAdmin (watched host) userId).result s.watched ≠ some true ∨
      stringIndexOfCh (stringSubstringFrom sql ((stringIndexOfCh sql 32 6).elim 0 (· + 1))) 46 0 =
        none) :
    Ends (dropSqlIn (watched host) (watchedMemory pattern) userId sql) s.watched
      fun _ s' => Truthful s.watched s'
        (s'.world.2 = false ∧ ¬ Refused (watched host) system userId sql transId s.watched) := by
  have refused : Refused (watched host) system userId sql transId s.watched := by
    unfold Refused
    rw [way]
    exact early.imp_right .inl
  unfold dropSqlIn
  rw [bind_still (newString_granted (watchedMemory_granted name) _), ofOption_some_bind]
  obtain ⟨admin, ended, r, e, after, rfl, -⟩ := usersIsAdmin_replies host userId (s := s.watched)
  refine Ends.bind (P := fun a s' => a = admin ∧ After s.watched s' [] e)
    ⟨admin, ended, rfl, after⟩ fun a s₁ ⟨same, after⟩ => ?_
  subst same
  have error (cp1 : String) : Ends (_writeError (W := W × Bool) cp1 []) s₁ fun _ s' =>
      Truthful s.watched s'
        (s'.world.2 = false ∧ ¬ Refused (watched host) system userId sql transId s.watched) :=
    Ends.weaken (refusal_replies cp1 []) fun _ s' ⟨r', e', after', answers, _⟩ =>
      answers.truthful (after.trans after').xml (by simp [refused])
  refine Ends.ite (fun _ => error _) fun yes => ?_
  obtain rfl : a = true := by simpa using yes
  rw [early.resolve_left fun no => no ended]
  exact error _

/-- DROP is answered truly where it comes to no NULL. -/
theorem dropSqlIn_told {pattern : Site → Bool} (s : Server W) (live : Live s)
    (way : sqlBranch sql = .drop) :
    Ends (dropSqlIn (watched host) (watchedMemory pattern) userId sql) s.watched
        (fun _ s' => Truthful s.watched s'
          (s'.world.2 = false ∧ ¬ Refused (watched host) system userId sql transId s.watched)) ↔
      ¬ ReadsNull (watched host) pattern userId sql s.watched := by
  constructor
  · rintro ⟨a, ended, -⟩ null
    rw [dropSqlIn_dead host way null] at ended
    cases ended
  · intro read
    unfold ReadsNull at read
    rw [way] at read
    obtain ⟨name, strings⟩ := not_or.mp read
    rw [Bool.not_eq_false] at name
    by_cases early : (usersIsAdmin (watched host) userId).result s.watched ≠ some true ∨
        stringIndexOfCh (stringSubstringFrom sql ((stringIndexOfCh sql 32 6).elim 0 (· + 1))) 46 0 =
          none
    · exact dropSqlIn_early host way name early
    · obtain ⟨yes, dot⟩ := not_or.mp early
      have all : ¬ (pattern .fqname = false ∨ pattern .dropSystem = false ∨
          pattern .procName = false) := fun missing => strings ⟨not_not.mp yes, dot, missing⟩
      simp only [not_or, Bool.not_eq_false] at all
      rw [dropSqlIn_granted _ _ _ (watchedMemory_granted name) (watchedMemory_granted all.1)
        (watchedMemory_granted all.2.1) (watchedMemory_granted all.2.2)]
      exact dropSql_told host s live way

/-- COMMIT and ABORT. -/
theorem endtrans_told {s : Server W} {endtrans : W → Int × W} {message : String} {refused : Prop}
    (unstarted : refused ↔ transId = 0) :
    Ends (if transId = 0 then _writeError "Transaction not in progress" []
      else endtransRequest (watched host) (watch (· != 0) endtrans) message transId) s.watched
      fun _ s' => Truthful s.watched s' (s'.world.2 = false ∧ ¬ refused) := by
  refine Ends.ite (fun none => ?_) fun some => ?_
  · exact told_of_refusal ((refusal_replies _ _).weaken fun _ _ _ refusal => refusal.1)
      (unstarted.mpr none)
  · exact told_of_replies (endtransRequest_replies host _ _) fun none => some (unstarted.mp none)

/-- A host on which every call succeeds, and the first column of each row is 1. -/
def grantingHost : Host Unit where
  sqlite3_open := fun w => (true, w)
  sqlite3_prepare_v2 := fun _ w => (some 0, w)
  sqlite3_bind_text := fun _ _ _ w => (true, w)
  sqlite3_bind_int := fun _ _ _ w => (true, w)
  sqlite3_step := fun cmd w =>
    if (lit "SELECT").isPrefixOf cmd.m_sql then (.row [⟨lit "ADMIN_FL", none, 1⟩], w) else (.done, w)
  TMF_RESUME_ := fun _ w => (0, w)
  TMF_SUSPEND_ := fun _ w => (0, w)
  ENDTRANSACTION := fun w => (0, w)
  ABORTTRANSACTION := fun w => (0, w)
  TMF_TXBEGIN_ := fun w => ((0, 1), w)
  TMF_TXHANDLE_FROM_BEGINTAG_ := fun _ w => ((0, 1), w)
  TMF_GET_TX_ID_ := fun _ w => ((0, 1), w)
  sqlprocParse := fun _ _ => none
  prepare := fun _ w => (none, w)
  exec := fun _ _ w => ([], w)
  statsWriteRecord := fun w => ([], w)
  fileLoadText := fun w => (none, w)
  realText := id

/-- A server with the procedure `SYS.PROC` in its table. -/
def storingServer : Server Unit where
  g_running := true
  users := (emptyServer ()).users
  m_stmts :=
    { m_keyIgnoreCase := true, m_count := 1,
      m_table := [{ bucket := (hashtableNew true : Hashtable Unit).bucketOf (lit "SYS.PROC"),
                    m_key := text "SYS.PROC", m_value := some 0 }] }
  heap := [some { m_id := 0, m_procDef := { m_name := text "PROC", m_text := text "" },
                  m_system := text "SYS", m_name := text "PROC", m_fqname := text "SYS.PROC" }]
  xml := []
  world := ()

end Jspp.Splc
