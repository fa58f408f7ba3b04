/-
# Splc.Privilege -- who may shut the server down, list users and change the stores

`Privileged` is a step that shuts the server down, lists users or permissions, or
changes the users or an SQLite table; `Authorised` is a request of the account
`sa` with its password.

* `privileged_step`: a step is privileged without being authorised exactly when
  it is an ADMIN request of `sa` for such a command with a wrong password: the
  main loop lets every ADMIN request pass, and the handlers compare the user id alone.
* `privileged_runs`: the same for all steps of a run.
-/
import Jspp.Splc.Quiet

namespace Jspp.Splc

open Jspp.Theory
open Jspp.Theory.Act
open Srv

set_option autoImplicit false

variable {W : Type}

abbrev ServerStep (W : Type) := Act.Step (Server W) Event Request

/-- The server is shut down, users or permissions are listed, or a store is changed. -/
structure Harmless (step : ServerStep W) : Prop where
  running : step.after.g_running = step.before.g_running
  users : step.after.users = step.before.users
  notListed : .usersListed ∉ step.log ∧ .permsListed ∉ step.log
  notStored : .stored ∉ step.log

def Privileged (step : ServerStep W) : Prop := ¬ Harmless step

/-- The account `sa`, with its password. -/
def Authorised (u : Users) (req : Request) : Prop :=
  stringIsEqual req.m_userId (lit "sa") true = true ∧ userLogon u req.m_userId req.m_password = true

/-- The command of an ADMIN request is one that only `sa` may give. -/
def privilegedCommand (req : Request) : Prop :=
  ∃ item text, requestGetItem req (lit "COMMAND") = some item ∧ item.m_data = .str text ∧
    (command text = .shutdown ∨ command text = .userlist ∨
      command text = .userperms ∧
        ∃ user, requestGetItem req (lit "userid") = some user ∧ user.m_type = tagS)

/-- An ADMIN request of `sa` for such a command comes with the password of `sa`. -/
def PasswordGiven (u : Users) (req : Request) : Prop :=
  route req = .admin → stringIsEqual req.m_userId (lit "sa") true = true → privilegedCommand req →
    userLogon u req.m_userId req.m_password = true

/-! ## Steps without the password do no harm -/

/-- The events of a harmless step. -/
def Unlisted (e : Event) : Prop := e ≠ .usersListed ∧ e ≠ .permsListed ∧ e ≠ .stored

variable {host : Host W} {rounds : Nat}

/-- The users and the running flag are as they were. -/
def Kept (u : Users) (running : Bool) (s : Server W) : Prop := s.users = u ∧ s.g_running = running

theorem kept_steady (u : Users) (running : Bool) : Steady (Kept (W := W) u running) :=
  fun _ _ _ kept => kept

theorem load_kept (u : Users) (running : Bool) (cmd : Sqlitecommand) (_ : ReadsSprocs cmd) :
    Runs (Kept u running) Unlisted (_loadProcedureInner host cmd rounds) fun _ => True :=
  loadProcedureInner_runs (kept_steady u running) host rounds (fun _ _ kept => kept)
    (fun _ _ kept => kept) cmd

section Unauthorised

variable {u : Users} {running : Bool} {req : Request}

theorem shutdownRequest_kept (other : ¬ stringIsEqual req.m_userId (lit "sa") true = true) :
    Runs (Kept u running) Unlisted (shutdownRequest (W := W) req) fun _ => True :=
  (logonAdminUser_runs (kept_steady u running) req).bind fun _ sa =>
    Runs.ite (fun ok => absurd (sa ok) other) fun _ => Runs.pure trivial

theorem userlistRequest_kept (other : ¬ stringIsEqual req.m_userId (lit "sa") true = true) :
    Runs (Kept u running) Unlisted (userlistRequest (W := W) req) fun _ => True :=
  (logonAdminUser_runs (kept_steady u running) req).bind fun ok sa =>
    Runs.ite (fun _ => writeError_runs (kept_steady u running) _ _) fun yes =>
      absurd (sa (by simpa using yes)) other

/-- Permissions are listed only for a string `userid`. -/
theorem userlistPermsRequest_kept
    (other : ¬ stringIsEqual req.m_userId (lit "sa") true = true ∨
      ¬ ∃ user, requestGetItem req (lit "userid") = some user ∧ user.m_type = tagS) :
    Runs (Kept u running) Unlisted (userlistPermsRequest (W := W) req) fun _ => True := by
  have steady := kept_steady (W := W) u running
  refine (logonAdminUser_runs steady req).bind fun ok sa =>
    Runs.ite (fun _ => writeError_runs steady _ _) fun yes => ?_
  have noString := other.resolve_left (not_not.mpr (sa (by simpa using yes)))
  split
  case h_1 => exact writeError_runs steady _ _
  case h_2 item found =>
    refine Runs.ite (fun _ => writeError_runs steady _ _) fun isStr => ?_
    exact absurd ⟨item, found, not_not.mp isStr⟩ noString

theorem sqlRequest_kept (other : ¬ stringIsEqual req.m_userId (lit "sa") true = true) :
    Runs (Kept u running) Unlisted (sqlRequest host rounds req) fun _ => True :=
  (logonAdminUser_runs (kept_steady u running) req).bind fun ok sa =>
    Runs.ite (fun _ => Runs.pure trivial) fun yes => absurd (sa (by simpa using yes)) other

theorem unlisted_read (member tag : UInt8) : Unlisted (.read member tag) :=
  ⟨nofun, nofun, nofun⟩

theorem unlisted_exec (p : Nat) (user : Bytes) : Unlisted (.exec p user) := ⟨nofun, nofun, nofun⟩

/-- A command that is not one of `sa`'s, or not given as `sa`. -/
theorem runCommand_kept {item : RequestItem} {text : Str}
    (found : requestGetItem req (lit "COMMAND") = some item) (isText : item.m_data = .str text)
    (other : ¬ stringIsEqual req.m_userId (lit "sa") true = true ∨ ¬ privilegedCommand req) :
    Runs (Kept u running) Unlisted (runCommand host rounds req text) fun _ => True := by
  have steady := kept_steady (W := W) u running
  -- for the commands of `sa` it is the user id that is another
  have notSa (mine : privilegedCommand req) := other.resolve_right (not_not.mpr mine)
  refine runCommand_runs steady host rounds (fun _ => unlisted_read _ _) (fun same => ?_)
    (fun _ => invokeRequest_runs steady host (fun _ _ kept => kept) (fun _ => unlisted_exec _ _) fun _ _ =>
      unlisted_read _ _)
    (proclistRequest_runs steady host rounds (load_kept u running)) (fun same => ?_)
    (fun same => ?_) (fun _ => proccodeRequest_runs steady fun _ _ =>
      ⟨unlisted_read _ _, fun _ _ => unlisted_read _ _⟩)
  · exact shutdownRequest_kept (notSa ⟨item, text, found, isText, .inl same⟩)
  · exact userlistRequest_kept (notSa ⟨item, text, found, isText, .inr (.inl same)⟩)
  · refine userlistPermsRequest_kept (other.imp id fun mine user => ?_)
    exact mine ⟨item, text, found, isText, .inr (.inr ⟨same, user⟩)⟩

theorem adminRequest_kept
    (other : ¬ stringIsEqual req.m_userId (lit "sa") true = true ∨ ¬ privilegedCommand req) :
    Runs (Kept u running) Unlisted (adminRequest host rounds req) fun _ => True := by
  have steady := kept_steady (W := W) u running
  refine Runs.seq (Runs.ite (fun _ => writeError_runs steady _ _) fun _ => Runs.pure trivial)
    fun _ => (present_runs ⟨nofun, nofun, nofun⟩ _).bind fun item found =>
      (m_str_runs (unlisted_read _ _)).bind fun text isText => ?_
  exact runCommand_kept found isText other

end Unauthorised

/-- No request has two of the fixed names. -/
theorem route_sql {req : Request} (sql : route req = .sql) :
    stringIsEqual req.m_name (lit "ADMIN") true = false := by
  unfold route at sql
  split at sql
  case isTrue named =>
    cases other : stringIsEqual req.m_name (lit "ADMIN") true with
    | false => rfl
    | true =>
        have three := sameText_length named
        have five := sameText_length other
        rw [three] at five
        exact absurd five (by decide)
  case isFalse =>
    split at sql <;> cases sql

/-- Unless `sa` gave the password, or an ADMIN command of `sa` came without it, a request
keeps the users and the running flag and lists and stores nothing. -/
theorem answer_kept {u : Users} {running : Bool} {req : Request} (given : PasswordGiven u req)
    (not : ¬ Authorised u req) :
    Runs (Kept u running) Unlisted (answer host rounds u req) fun _ => True := by
  have steady := kept_steady (W := W) u running
  refine Runs.ite (fun _ => writeError_runs steady _ _) fun ok => ?_
  have ok : logonOk u req = true := not_not.mp ok
  unfold dispatch
  split
  case h_1 sql =>
    rw [logonOk, route_sql sql, Bool.false_or] at ok
    exact sqlRequest_kept fun sa => not ⟨sa, ok⟩
  case h_2 admin =>
    refine adminRequest_kept ?_
    by_cases sa : stringIsEqual req.m_userId (lit "sa") true = true
    · exact .inr fun mine => not ⟨sa, given admin sa mine⟩
    · exact .inl sa
  case h_3 =>
    refine Runs.seq (executeDynamic_runs steady host rounds (load_kept u running)
      (fun _ => ⟨nofun, nofun, nofun⟩) ⟨nofun, nofun, nofun⟩ (fun _ => unlisted_exec _ _)
      (unlisted_read _ _)) fun _ => ?_
    exact Runs.ite (fun _ => Runs.pure trivial) fun _ => writeError_runs steady _ _

theorem harmless_of_given {s : Server W} {req : Request} (given : PasswordGiven s.users req)
    (not : ¬ Authorised s.users req) :
    Harmless ⟨s, req, (handleRequest host rounds req).final s,
      (handleRequest host rounds req).log s⟩ := by
  have runs : Runs (Kept s.users s.g_running) Unlisted (handleRequest host rounds req) fun _ => True :=
    handleRequest_runs (kept_steady _ _) host rounds fun s' kept => by
      rw [kept.1]
      exact answer_kept given not
  have at_s := runs s ⟨rfl, rfl⟩
  exact {
    running := at_s.keeps.2
    users := at_s.keeps.1
    notListed := ⟨fun mem => (at_s.events _ mem).1 rfl, fun mem => (at_s.events _ mem).2.1 rfl⟩
    notStored := fun mem => (at_s.events _ mem).2.2 rfl }

/-! ## A command of `sa` is carried out without the password -/

section Carried

variable {req : Request} {item : RequestItem} {text : Str}

/-- With its item in place an ADMIN request runs its command. -/
theorem adminRequest_eq (found : requestGetItem req (lit "COMMAND") = some item)
    (isText : item.m_data = .str text) :
    adminRequest host rounds req =
      (do Act.tell (.read tagS tagS); runCommand host rounds req text : Srv W Unit) := by
  obtain ⟨name, data⟩ := item
  cases isText
  simp only [adminRequest, found]
  rfl

theorem logonAdminUser_sa (sa : stringIsEqual req.m_userId (lit "sa") true = true) :
    logonAdminUser (W := W) req = Pure.pure true := by
  rw [logonAdminUser, if_neg (by simp [sa])]

variable (host rounds) in
/-- An ADMIN request is dispatched whatever its password. -/
theorem handleRequest_admin (admin : route req = .admin)
    (found : requestGetItem req (lit "COMMAND") = some item) (isText : item.m_data = .str text)
    (s : Server W) :
    let s' : Server W := { s with xml := lit "<?xml version='1.0'?>\r\n<ROWS>\r\n" }
    (∀ e ∈ (runCommand host rounds req text).log s', e ∈ (handleRequest host rounds req).log s) ∧
      ((runCommand host rounds req text).result s' = some () →
        ((handleRequest host rounds req).final s).g_running =
          ((runCommand host rounds req text).final s').g_running) := by
  have named : stringIsEqual req.m_name (lit "ADMIN") true = true := by
    unfold route at admin
    split at admin
    · cases admin
    · split at admin
      case isTrue named => exact named
      case isFalse => cases admin
  have answered (u : Users) :
      answer host rounds u req =
        (do Act.tell (.read tagS tagS); runCommand host rounds req text : Srv W Unit) := by
    rw [answer, if_neg (by simp [logonOk, named]), dispatch, admin]
    exact adminRequest_eq found isText
  have unfolded : handleRequest host rounds req =
      (do
        Act.modify fun s => { s with xml := lit "<?xml version='1.0'?>\r\n<ROWS>\r\n" }
        let _ ← Act.get
        (do Act.tell (.read tagS tagS); runCommand host rounds req text : Srv W Unit)
        say "</ROWS>\r\n" : Srv W Unit) := by
    simp only [handleRequest, answered]
  intro s'
  rw [unfolded]
  constructor
  · intro e mem
    rw [log_bind (a := ()) rfl, log_bind (a := s') rfl]
    refine List.mem_append_right _ (List.mem_append_right _ (mem_log_bind ?_ _))
    rw [log_bind (a := ()) rfl]
    exact List.mem_append_right _ mem
  · intro ended
    have inner : (do Act.tell (.read tagS tagS); runCommand host rounds req text : Srv W Unit).result s'
        = some () := by
      rw [result_bind (a := ()) rfl]
      exact ended
    rw [final_bind (a := ()) rfl, final_bind (a := s') rfl]
    show ((_ >>= _ : Srv W Unit).final s').g_running = _
    rw [final_bind inner, final_bind (a := ()) rfl]
    rfl

/-- A command of `sa`, given as `sa` in an ADMIN request, has its effect. -/
theorem privileged_of_admin (admin : route req = .admin)
    (sa : stringIsEqual req.m_userId (lit "sa") true = true) (mine : privilegedCommand req)
    {s : Server W} (running : s.g_running = true) :
    Privileged ⟨s, req, (handleRequest host rounds req).final s,
      (handleRequest host rounds req).log s⟩ := by
  intro harmless
  obtain ⟨item, text, found, isText, given⟩ := mine
  obtain ⟨events, flag⟩ := handleRequest_admin host rounds admin found isText s
  rcases given with down | list | ⟨perms, user, found', isStr⟩
  · have runs : runCommand host rounds req text =
        (do
          Act.tell .shutdown
          Act.modify fun s => { s with g_running := false }
          say "<row message='shuting down' />\r\n" : Srv W Unit) := by
      unfold runCommand
      rw [down]
      simp only [shutdownRequest, logonAdminUser_sa sa]
      rfl
    have stopped := flag (by rw [runs]; rfl)
    rw [runs] at stopped
    have kept := harmless.running
    simp only [running, stopped] at kept
    cases kept
  · refine harmless.notListed.1 (events _ ?_)
    unfold runCommand
    rw [list]
    simp only [userlistRequest, logonAdminUser_sa sa]
    rw [log_bind (a := true) rfl]
    refine List.mem_append_right _ ?_
    simp only [not_true_eq_false, if_false]
    rw [log_bind (m := Act.get) rfl]
    exact List.mem_append_right _ (mem_log_bind (List.mem_singleton.mpr rfl) _)
  · obtain ⟨name, data⟩ := user
    cases data with
    | str userid =>
        refine harmless.notListed.2 (events _ ?_)
        unfold runCommand
        rw [perms]
        simp only [userlistPermsRequest, logonAdminUser_sa sa, found']
        rw [log_bind (a := true) rfl]
        refine List.mem_append_right _ ?_
        simp only [not_true_eq_false, if_false, isStr, ne_eq]
        rw [log_bind (a := userid) rfl]
        refine List.mem_append_right _ ?_
        rw [log_bind (m := Act.get) rfl]
        exact List.mem_append_right _ (mem_log_bind (List.mem_singleton.mpr rfl) _)
    | real _ => exact absurd (show tagD = tagS from isStr) (by decide)
    | int _ => exact absurd (show tagI = tagS from isStr) (by decide)
    | long _ => exact absurd (show tagL = tagS from isStr) (by decide)

end Carried

/-- A request that shuts down, lists or stores is authorised, exactly when no ADMIN request
of `sa` for such a command lacks the password. -/
theorem privileged_step {s : Server W} {req : Request} (running : s.g_running = true) :
    (Privileged ⟨s, req, (handleRequest host rounds req).final s,
        (handleRequest host rounds req).log s⟩ → Authorised s.users req) ↔
      PasswordGiven s.users req := by
  constructor
  · intro only admin sa mine
    exact (only (privileged_of_admin admin sa mine running)).2
  · intro given privileged
    apply Classical.byContradiction
    intro not
    exact privileged (harmless_of_given given not)

/-- In a run every privileged step is authorised, exactly when every ADMIN request of `sa`
for a privileged command comes with the password. -/
theorem privileged_runs (host : Host W) (rounds : Nat) (reqs : List Request) (s : Server W) :
    (∀ step ∈ runServer host rounds reqs s,
        Privileged step → Authorised step.before.users step.request) ↔
      ∀ step ∈ runServer host rounds reqs s, PasswordGiven step.before.users step.request := by
  have each (step : ServerStep W) (mem : step ∈ runServer host rounds reqs s) :
      (Privileged step → Authorised step.before.users step.request) ↔
        PasswordGiven step.before.users step.request := by
    obtain ⟨running, after, log⟩ := serve_mem mem
    obtain ⟨before, request, _, _⟩ := step
    simp only at after log
    rw [after, log]
    exact privileged_step running
  constructor
  · intro all step mem
    exact (each step mem).mp (all step mem)
  · intro all step mem
    exact (each step mem).mpr (all step mem)

/-! ## The counterexample -/

/-- A host on which every call fails. -/
def deadHost : Host Unit where
  sqlite3_open := fun w => (false, w)
  sqlite3_prepare_v2 := fun _ w => (none, w)
  sqlite3_bind_text := fun _ _ _ w => (false, w)
  sqlite3_bind_int := fun _ _ _ w => (false, w)
  sqlite3_step := fun _ w => (.error, w)
  TMF_RESUME_ := fun _ w => (1, w)
  TMF_SUSPEND_ := fun _ w => (1, w)
  ENDTRANSACTION := fun w => (1, w)
  ABORTTRANSACTION := fun w => (1, w)
  TMF_TXBEGIN_ := fun w => ((1, 0), w)
  TMF_TXHANDLE_FROM_BEGINTAG_ := fun _ w => ((1, 0), w)
  TMF_GET_TX_ID_ := fun _ w => ((1, 0), w)
  sqlprocParse := fun _ _ => none
  prepare := fun _ w => (some 1, w)
  exec := fun _ _ w => ([], w)
  statsWriteRecord := fun w => ([], w)
  fileLoadText := fun w => (none, w)
  realText := id

/-- A server as it is when its loop begins, without users. -/
def emptyServer {W : Type} (world : W) : Server W where
  g_running := true
  users := { m_uid2pw := hashtableNew true, m_uid2perms := hashtableNew true, m_perms := hashtableNew true }
  m_stmts := hashtableNew true
  heap := []
  xml := []
  world := world

def text (s : String) : Str := stringTakeOwnership (lit s)

/-- ADMIN, user `sa`, password `no`, COMMAND `shutdown`. -/
def shutdownAsSa : Request where
  m_name := text "ADMIN"
  m_transid := 0
  m_userId := text "sa"
  m_password := text "no"
  m_items := [{ m_name := some (text "COMMAND"), m_data := .str (text "shutdown") }]
  m_itemCount := 1
  m_bytes := 0

/-- The request shuts a server down that has no user `sa` at all. -/
theorem shutdown_without_password :
    ¬ ∀ (W : Type) (host : Host W) (rounds : Nat) (reqs : List Request) (s : Server W),
      ∀ step ∈ runServer host rounds reqs s,
        Privileged step → Authorised step.before.users step.request := by
  intro authorised
  have first := authorised Unit deadHost 0 [shutdownAsSa] (emptyServer ()) _ List.mem_cons_self
  have mine : privilegedCommand shutdownAsSa := ⟨_, _, rfl, rfl, .inl (by decide)⟩
  have done := first (privileged_of_admin (by decide) (by decide) mine rfl)
  exact absurd done.2 (by decide)

end Jspp.Splc
