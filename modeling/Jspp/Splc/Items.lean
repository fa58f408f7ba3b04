/-
# Splc.Items -- reading the items of a request

An item is a tagged union; `Tagged` says of a read that the member read is the
one the tag names, and that the item is there.  `ItemsFit` lists what the
handlers take for granted without a test: a COMMAND, and strings where a string
is read.

* `handleRequest_tagged_iff`: all reads of a request are tagged exactly when its items fit.
-/
import Jspp.Splc.Privilege

namespace Jspp.Splc

open Jspp.Theory
open Jspp.Theory.Act
open Srv

set_option autoImplicit false

variable {W : Type}

/-- The item read is there, and the member read is its tag's. -/
def Tagged : Event → Prop
  | .read member tag => member = tag
  | .nullItem => False
  | _ => True

/-- What `requestNew` itself reads: the transaction id, after an ASSERT only. -/
def transidReads (req : Request) : List Event :=
  match requestGetItem req TRANSACTION_ID with
  | none => []
  | some item => [.read tagL item.m_type]

/-- The strings a command reads unchecked. -/
def CommandFits (req : Request) : Command → Prop
  | .invoke => ∀ item, requestGetItem req (lit "define") = some item → item.m_type = tagS
  | .displaysql => ∀ item, requestGetItem req (lit "system") = some item → item.m_type = tagS ∧
      ∀ proc, requestGetItem req (lit "procedure") = some proc → proc.m_type = tagS
  | _ => True

/-- What the handler of a request reads unchecked. -/
def RouteFits (u : Users) (req : Request) : Route → Prop
  | .sql => userLogon u req.m_userId req.m_password = true →
      stringIsEqual req.m_userId (lit "sa") true = true →
      ∀ sql sys, requestGetItem req (lit "sql") = some sql →
        requestGetItem req (lit "system") = some sys → sql.m_type = tagS ∧ sys.m_type = tagS
  | .admin => ∃ item text, requestGetItem req (lit "COMMAND") = some item ∧
      item.m_data = .str text ∧ CommandFits req (command text)
  | .procedure => True

structure ItemsFit (u : Users) (req : Request) : Prop where
  transid : ∀ item, requestGetItem req TRANSACTION_ID = some item → item.m_type = tagL
  handler : RouteFits u req (route req)

variable {host : Host W} {rounds : Nat} {req : Request}

/-! ## The log of a request is the log of its answer -/

theorem log_bind_silent {σ ε α β : Type} {m : Act σ ε α} {f : α → Act σ ε β}
    (silent : ∀ a s, (f a).log s = []) (s : σ) : (m >>= f).log s = m.log s := by
  cases ended : m.result s with
  | none =>
      show ((m >>= f) s).2.2 = _
      rw [bind_none ended]
  | some a => rw [log_bind ended, silent, List.append_nil]

theorem handleRequest_log (s : Server W) :
    (handleRequest host rounds req).log s =
      (answer host rounds s.users req).log
        { s with xml := lit "<?xml version='1.0'?>\r\n<ROWS>\r\n" } := by
  unfold handleRequest
  rw [log_bind (a := ()) rfl]
  show _ ++ (Act.get >>= _ : Srv W Unit).log _ = _
  rw [log_bind (m := Act.get) rfl]
  show [] ++ ([] ++ (_ >>= _ : Srv W Unit).log _) = _
  rw [log_bind_silent fun _ _ => rfl]
  rfl

/-! ## Items that fit are read through their tags -/

/-- An invariant of every server. -/
def Any (_ : Server W) : Prop := True

theorem any_steady : Steady (Any (W := W)) := fun _ _ _ _ => trivial

theorem load_any (P : Event → Prop) (cmd : Sqlitecommand) (_ : ReadsSprocs cmd) :
    Runs Any P (_loadProcedureInner host cmd rounds) fun _ => True :=
  loadProcedureInner_runs any_steady host rounds (fun _ _ _ => trivial) (fun _ _ _ => trivial) cmd

/-- Without a read, whatever SQL text is run. -/
theorem sqlText_tagged (system userId sql : Str) (transId : Int) :
    Runs Any Tagged (stmtmgrProcessSql host rounds system userId sql transId) fun _ => True :=
  stmtmgrProcessSql_runs any_steady host rounds (fun _ => trivial) trivial trivial trivial trivial
    (fun _ _ => trivial) (fun _ _ _ _ => trivial)
    (dropSql_runs any_steady host (fun _ _ _ => trivial) trivial (fun _ _ _ => trivial) _ _)

theorem sqlRequest_tagged
    (fits : stringIsEqual req.m_userId (lit "sa") true = true →
      ∀ sql sys, requestGetItem req (lit "sql") = some sql →
        requestGetItem req (lit "system") = some sys → sql.m_type = tagS ∧ sys.m_type = tagS) :
    Runs Any Tagged (sqlRequest host rounds req) fun _ => True := by
  have complaint (item : RequestItem) (message : String) :
      Runs Any Tagged (complain (W := W) item message) fun _ => True :=
    Runs.ite (fun _ => writeError_runs any_steady _ _) fun _ => Runs.pure trivial
  refine (logonAdminUser_runs any_steady req).bind fun ok sa =>
    Runs.ite (fun _ => Runs.pure trivial) fun yes => ?_
  have fits := fits (sa (by simpa using yes))
  split
  case h_1 => exact writeError_runs any_steady _ _
  case h_2 sql found =>
    refine Runs.seq (complaint _ _) fun _ => ?_
    split
    case h_1 => exact writeError_runs any_steady _ _
    case h_2 sys found' =>
      obtain ⟨isText, isSystem⟩ := fits sql sys found found'
      refine Runs.seq (complaint _ _) fun _ => (m_str_runs isSystem.symm).bind fun _ _ =>
        (m_str_runs isText.symm).bind fun _ _ => ?_
      exact sqlText_tagged _ _ _ _

theorem runCommand_tagged {text : Str} (fits : CommandFits req (command text)) :
    Runs Any Tagged (runCommand host rounds req text) fun _ => True := by
  refine runCommand_runs any_steady host rounds (fun _ => rfl)
    (fun _ => shutdownRequest_runs any_steady trivial (fun _ _ => trivial) req) (fun same => ?_)
    (proclistRequest_runs any_steady host rounds (load_any Tagged))
    (fun _ => userlistRequest_runs any_steady trivial req)
    (fun _ => userlistPermsRequest_runs (P := Tagged) any_steady rfl trivial req) (fun same => ?_)
  · rw [same] at fits
    exact invokeRequest_runs any_steady host (fun _ _ _ => trivial) (fun _ => trivial) fun item found =>
      (fits item found).symm
  · rw [same] at fits
    exact proccodeRequest_runs any_steady fun item found =>
      ⟨(fits item found).1.symm, fun proc found' => ((fits item found).2 proc found').symm⟩

theorem answer_tagged {u : Users} (fits : RouteFits u req (route req)) :
    Runs Any Tagged (answer host rounds u req) fun _ => True := by
  refine Runs.ite (fun _ => writeError_runs any_steady _ _) fun ok => ?_
  have ok : logonOk u req = true := not_not.mp ok
  unfold dispatch
  split
  case h_1 sql =>
    rw [logonOk, route_sql sql, Bool.false_or] at ok
    rw [sql] at fits
    exact sqlRequest_tagged (fits ok)
  case h_2 admin =>
    rw [admin] at fits
    obtain ⟨item, text, found, isText, fits⟩ := fits
    rw [adminRequest_eq found isText]
    exact Runs.seq (Runs.tell rfl) fun _ => runCommand_tagged fits
  case h_3 =>
    refine Runs.seq (executeDynamic_runs any_steady host rounds (load_any Tagged)
      (fun _ => trivial) trivial (fun _ => trivial) rfl) fun _ => ?_
    exact Runs.ite (fun _ => Runs.pure trivial) fun _ => writeError_runs any_steady _ _

/-! ## Items that do not fit are read through the wrong tag -/

theorem str_of_tag {item : RequestItem} (isStr : item.m_type = tagS) : ∃ text, item.m_data = .str text := by
  obtain ⟨name, data⟩ := item
  cases data with
  | str text => exact ⟨text, rfl⟩
  | real _ => exact absurd (show tagD = tagS from isStr) (by decide)
  | int _ => exact absurd (show tagI = tagS from isStr) (by decide)
  | long _ => exact absurd (show tagL = tagS from isStr) (by decide)

theorem m_str_log (item : RequestItem) (s : Server W) :
    (.read tagS item.m_type : Event) ∈ (item.m_str (W := W)).log s := by
  refine mem_log_bind ?_ _
  exact List.mem_singleton.mpr rfl

theorem m_str_eq {item : RequestItem} {text : Str} (isText : item.m_data = .str text) (s : Server W) :
    (item.m_str (W := W)).result s = some text ∧ (item.m_str (W := W)).final s = s := by
  obtain ⟨name, data⟩ := item
  cases isText
  exact ⟨rfl, rfl⟩

theorem complain_result (item : RequestItem) (message : String) (s : Server W) :
    (complain item message).result s = some () := by
  unfold complain
  split <;> rfl

/-- The SQL handler reads the system, and behind it the text. -/
theorem sqlRequest_reads {sql sys : RequestItem}
    (sa : stringIsEqual req.m_userId (lit "sa") true = true)
    (found : requestGetItem req (lit "sql") = some sql)
    (found' : requestGetItem req (lit "system") = some sys) (s : Server W) :
    (.read tagS sys.m_type : Event) ∈ (sqlRequest host rounds req).log s ∧
      (sys.m_type = tagS → (.read tagS sql.m_type : Event) ∈ (sqlRequest host rounds req).log s) := by
  have start : sqlRequest host rounds req =
      (do
        complain sql "sql parameter must be a string"
        complain sys "system parameter must be a string"
        let system ← sys.m_str
        let text ← sql.m_str
        stmtmgrProcessSql host rounds system req.m_userId text req.m_transid : Srv W Unit) := by
    simp only [sqlRequest, logonAdminUser_sa sa, found, found']
    rfl
  rw [start, log_bind (complain_result _ _ _)]
  rw [log_bind (complain_result _ _ _)]
  constructor
  · exact List.mem_append_right _ (List.mem_append_right _ (mem_log_bind (m_str_log _ _) _))
  · intro isStr
    obtain ⟨system, isSystem⟩ := str_of_tag isStr
    refine List.mem_append_right _ (List.mem_append_right _ ?_)
    rw [log_bind (m_str_eq isSystem _).1]
    exact List.mem_append_right _ (mem_log_bind (m_str_log _ _) _)

variable (host rounds req) in
/-- An ADMIN request reads its COMMAND, and then what the command reads. -/
theorem adminRequest_reads (s : Server W) :
    match requestGetItem req (lit "COMMAND") with
    | none => Event.nullItem ∈ (adminRequest host rounds req).log s
    | some item => .read tagS item.m_type ∈ (adminRequest host rounds req).log s := by
  cases found : requestGetItem req (lit "COMMAND") with
  | none =>
      simp only [adminRequest, found]
      rw [log_bind (a := ()) rfl]
      exact List.mem_append_right _ (mem_log_bind (mem_log_bind (List.mem_singleton.mpr rfl) _) _)
  | some item =>
      simp only [adminRequest, found]
      rw [log_bind (a := ()) rfl]
      refine List.mem_append_right _ ?_
      rw [log_bind (a := item) rfl]
      exact List.mem_append_right _ (mem_log_bind (m_str_log _ _) _)

theorem runCommand_reads {text : Str} (s : Server W)
    (tagged : ∀ e ∈ (runCommand host rounds req text).log s, Tagged e) :
    CommandFits req (command text) := by
  unfold runCommand at tagged
  split at tagged
  case h_5 same =>
    rw [same]
    intro item found
    simp only [invokeRequest, found] at tagged
    exact (tagged _ (mem_log_bind (m_str_log _ _) _) : tagS = item.m_type).symm
  case h_10 same =>
    rw [same]
    intro item found
    simp only [proccodeRequest, found] at tagged
    have isStr : item.m_type = tagS :=
      (tagged _ (mem_log_bind (m_str_log _ _) _) : tagS = item.m_type).symm
    refine ⟨isStr, fun proc found' => ?_⟩
    obtain ⟨system, isSystem⟩ := str_of_tag isStr
    simp only [found'] at tagged
    rw [log_bind (m_str_eq isSystem s).1] at tagged
    exact (tagged _ (List.mem_append_right _ (mem_log_bind (m_str_log _ _) _)) :
      tagS = proc.m_type).symm
  all_goals
    rename_i same
    rw [same]
    trivial

theorem answer_fits {u : Users} (s : Server W)
    (tagged : ∀ e ∈ (answer host rounds u req).log s, Tagged e) : RouteFits u req (route req) := by
  have dispatched (ok : logonOk u req = true) :
      ∀ e ∈ (dispatch host rounds req).log s, Tagged e := by
    rw [answer, if_neg (not_not.mpr ok)] at tagged
    exact tagged
  cases way : route req with
  | sql =>
      intro logon sa sql sys found found'
      have dispatched := dispatched (by rw [logonOk, logon, Bool.or_true])
      rw [dispatch, way] at dispatched
      obtain ⟨system, text⟩ := sqlRequest_reads sa found found' s
      have isSystem : sys.m_type = tagS := (dispatched _ system : tagS = sys.m_type).symm
      exact ⟨(dispatched _ (text isSystem) : tagS = sql.m_type).symm, isSystem⟩
  | admin =>
      have named : stringIsEqual req.m_name (lit "ADMIN") true = true := by
        unfold route at way
        split at way
        · cases way
        · split at way
          case isTrue named => exact named
          case isFalse => cases way
      have dispatched := dispatched (by rw [logonOk, named, Bool.true_or])
      rw [dispatch, way] at dispatched
      have reads := adminRequest_reads host rounds req s
      cases found : requestGetItem req (lit "COMMAND") with
      | none =>
          rw [found] at reads
          exact absurd (dispatched _ reads) id
      | some item =>
          rw [found] at reads
          obtain ⟨text, isText⟩ := str_of_tag (dispatched _ reads : tagS = item.m_type).symm
          refine ⟨item, text, found, isText, ?_⟩
          rw [adminRequest_eq found isText, log_bind (a := ()) rfl] at dispatched
          exact runCommand_reads s fun e mem => dispatched e (List.mem_append_right _ mem)
  | procedure => trivial

/-- All reads of a request go through the right tag exactly when its items fit its handler. -/
theorem handleRequest_tagged_iff (host : Host W) (rounds : Nat) (req : Request) (s : Server W) :
    (∀ e ∈ transidReads req ++ (handleRequest host rounds req).log s, Tagged e) ↔
      ItemsFit s.users req := by
  rw [handleRequest_log]
  constructor
  · intro tagged
    refine ⟨fun item found => ?_,
      answer_fits _ fun e mem => tagged e (List.mem_append_right _ mem)⟩
    have read : (.read tagL item.m_type : Event) ∈ transidReads req := by simp [transidReads, found]
    exact (tagged _ (List.mem_append_left _ read) : tagL = item.m_type).symm
  · intro fits e mem
    rcases List.mem_append.mp mem with mem | mem
    · unfold transidReads at mem
      split at mem
      case h_1 => cases mem
      case h_2 item found =>
        rw [List.mem_singleton.mp mem]
        exact (fits.transid item found).symm
    · exact (answer_tagged fits.handler _ trivial).events e mem

/-- The request `ADMINx`, with no user, no password and no item. -/
def adminWithoutItems : Bytes :=
  [83, 0, 6, 1, 65, 68, 77, 73, 78, 120, 83, 0, 0, 1, 83, 0, 0, 1]

/-- An ADMIN request without COMMAND is accepted, and its missing item read. -/
theorem adminWithoutItems_untagged :
    ¬ ∀ (W : Type) (host : Host W) (rounds : Nat) (pun : Value → Int) (buf : Bytes) (req : Request)
      (s : Server W), requestNew pun buf = some req →
        ∀ e ∈ transidReads req ++ (handleRequest host rounds req).log s, Tagged e := by
  intro tags
  have accepted : (requestNew (fun _ => 0) adminWithoutItems).isSome = true := by decide
  obtain ⟨req, read⟩ := Option.isSome_iff_exists.mp accepted
  have facts : ∀ req, requestNew (fun _ => 0) adminWithoutItems = some req →
      route req = .admin ∧ requestGetItem req (lit "COMMAND") = none := by
    intro req read
    have shape : requestNew (fun _ => 0) adminWithoutItems =
        some ⟨⟨lit "ADMIN", 6⟩, 0, ⟨[], 0⟩, ⟨[], 0⟩, [], 0, 18⟩ := by decide
    rw [shape] at read
    cases read
    exact ⟨by decide, rfl⟩
  obtain ⟨admin, missing⟩ := facts req read
  have tagged := tags Unit deadHost 0 (fun _ => 0) adminWithoutItems req (emptyServer ()) read
  rw [handleRequest_log] at tagged
  have fits := answer_fits _ fun e mem => tagged e (List.mem_append_right _ mem)
  rw [admin] at fits
  obtain ⟨item, _, found, _⟩ := fits
  rw [missing] at found
  cases found

end Jspp.Splc
