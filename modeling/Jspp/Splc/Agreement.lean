/-
# Splc.Agreement -- the users in memory and in the database

A call of `usersAdd` or `usersAddPerm` is atomic if one that returns true leaves
the user or the permission in memory and in the database, and one that returns
false leaves both alone.

Nothing is ever stored: the text of an INSERT loses its closing parenthesis in
the copy that is prepared, and SQLite takes no such text.  `usersAdd` puts the
user in memory before it finds that out, and `usersAddPerm` takes a parameter
that cannot be bound for a row that is there.

* `Sqlite`: what SQLite promises of its calls, whichever of them fail.
* `tables_kept`: no call changes the database.
* `Refused`: the call ends before anything is put.
* `atomic_iff`, `agreed_run`: from an empty database a run is atomic exactly if every
  call is refused; then `usersNew` rebuilds the tables in every state it reaches.
* `userRows_row`: from any other database `usersNew` ends the server.
-/
import Jspp.Splc.Logons
import Jspp.Splc.Truth

namespace Jspp.Splc

open Jspp.Theory
open Jspp.Theory.Act
open Srv

set_option autoImplicit false

variable {W : Type}

/-! ## The database -/

/-- The rows of USERS and of PERMS. -/
structure Tables where
  users : List (Bytes × Bytes × Int)
  perms : List (Bytes × Bytes)

def Tables.Empty (t : Tables) : Prop := t.users = [] ∧ t.perms = []

/-- The text of a query or of an insertion, as it is prepared. -/
def prepared (sql : String) : Bytes := (stringNew (lit sql)).m_cstr

def insertUserSql : String :=
  "INSERT INTO USERS (UID_NAME, PW_TEXT, ADMIN_FL) VALUES (@UID_NAME, @PW_TEXT, @ADMIN_FL)"

def insertPermSql : String :=
  "INSERT INTO PERMS (UID_NAME, PERM_NAME) VALUES (@UID_NAME, @PERM_NAME)"

def selectPermSql : String :=
  "SELECT * FROM PERMS WHERE UID_NAME = @UID_NAME AND PERM_NAME = @PERM_NAME;"

/-- What SQLite promises: only a step of a statement that is no SELECT writes, a text that
ends inside a parenthesis is no statement, and an empty table has no rows. -/
structure Sqlite (host : Host W) (tables : W → Tables) : Prop where
  opened (w : W) : tables (host.sqlite3_open w).2 = tables w
  prepared (sql : Bytes) (w : W) : tables (host.sqlite3_prepare_v2 sql w).2 = tables w
  boundText (cmd : Sqlitecommand) (name val : Bytes) (w : W) :
    tables (host.sqlite3_bind_text cmd name val w).2 = tables w
  selected (cmd : Sqlitecommand) (w : W) (select : (lit "SELECT").isPrefixOf cmd.m_sql = true) :
    tables (host.sqlite3_step cmd w).2 = tables w
  unclosed (sql : String) (w : W) (insert : sql = insertUserSql ∨ sql = insertPermSql) :
    (host.sqlite3_prepare_v2 (Splc.prepared sql) w).1 = none
  noUser (cmd : Sqlitecommand) (w : W) (empty : (tables w).users = [])
    (select : (lit "SELECT * FROM USERS").isPrefixOf cmd.m_sql = true) :
    ∀ columns, (host.sqlite3_step cmd w).1 ≠ .row columns
  noPerm (cmd : Sqlitecommand) (w : W) (empty : (tables w).perms = [])
    (select : (lit "SELECT * FROM PERMS").isPrefixOf cmd.m_sql = true) :
    ∀ columns, (host.sqlite3_step cmd w).1 ≠ .row columns

/-! ## Calls -/

inductive UsersCall where
  | add (uid pw : Bytes) (isadmin : Bool)
  | addPerm (uid perm : Bytes)

namespace UsersCall

variable (host : Host W)

def act : UsersCall → Srv W Bool
  | add uid pw isadmin => usersAdd host uid pw isadmin
  | addPerm uid perm => usersAddPerm host uid perm

/-- What the call names is in memory. -/
def InMemory (u : Users) : UsersCall → Prop
  | add uid _ _ => u.m_uid2pw.hashtableContainsKey uid = true
  | addPerm uid perm => u.hasPerm uid perm = true

/-- What the call names is in the database. -/
def InDatabase (t : Tables) : UsersCall → Prop
  | add uid _ _ => ∃ row ∈ t.users, row.1 = uid
  | addPerm uid perm => (uid, perm) ∈ t.perms

variable (tables : W → Tables)

/-- A call that returns true has stored in both; one that returns false has left both alone. -/
def Atomic (c : UsersCall) (s : Server W) : Prop :=
  ((c.act host).result s = some true ∧ c.InMemory ((c.act host).final s).users ∧
      c.InDatabase (tables ((c.act host).final s).world)) ∨
    ((c.act host).result s = some false ∧ ((c.act host).final s).users = s.users ∧
      tables ((c.act host).final s).world = tables s.world)

/-- The call ends before anything is put: the database cannot be opened, or the query for the
permission is not prepared or finds out that the row is missing. -/
def Refused (c : UsersCall) (s : Server W) : Prop :=
  let opened := host.sqlite3_open s.world
  match c with
  | add .. => opened.1 = false
  | addPerm uid perm =>
      let stmt := host.sqlite3_prepare_v2 (prepared selectPermSql) opened.2
      opened.1 = false ∨ ∀ n, stmt.1 = some n →
        let cmd := { m_sql := prepared selectPermSql, m_stmt := n }
        let bound := host.sqlite3_bind_text cmd (lit "@UID_NAME") uid stmt.2
        bound.1 = true ∧ (host.sqlite3_bind_text cmd (lit "@PERM_NAME") perm bound.2).1 = true

end UsersCall

/-! ## The database is kept -/

/-- The database holds what it held. -/
def OfTables (tables : W → Tables) (t : Tables) (s : Server W) : Prop := tables s.world = t

section Kept

variable {host : Host W} {tables : W → Tables} (sqlite : Sqlite host tables) {t : Tables}

/-- An act that leaves the database alone. -/
abbrev Untouched {α : Type} (tables : W → Tables) (t : Tables) (m : Srv W α) (Q : α → Prop) : Prop :=
  Runs (OfTables tables t) (fun _ => True) m Q

omit sqlite in
theorem call_kept {α : Type} {f : W → α × W} {Q : α → Prop} (keeps : ∀ w, tables (f w).2 = tables w)
    (ends : ∀ w, tables w = t → Q (f w).1) : Untouched tables t (call f) Q :=
  Runs.update fun s inside => ⟨(keeps s.world).trans inside, ends s.world inside⟩

include sqlite

theorem open_kept : Untouched tables t (sqliteconnOpen host) fun _ => True :=
  call_kept sqlite.opened fun _ _ => trivial

/-- A command is prepared from its text; an insertion is not prepared at all. -/
theorem command_kept (sql : String) :
    Untouched tables t (sqliteconnCreateCommand host sql) fun made => ∀ cmd, made = some cmd →
      cmd.m_sql = prepared sql ∧ ¬ (sql = insertUserSql ∨ sql = insertPermSql) := by
  refine (call_kept (Q := fun made => made.isSome → ¬ (sql = insertUserSql ∨ sql = insertPermSql))
    (sqlite.prepared _) fun w _ some insert => ?_).bind fun stmt complete => Runs.pure fun cmd made => ?_
  · rw [show (host.sqlite3_prepare_v2 (stringNew (lit sql)).m_cstr w).1 = none from
      sqlite.unclosed sql w insert] at some
    cases some
  · cases stmt with
    | none => cases made
    | some stmt =>
        cases made
        exact ⟨rfl, complete rfl⟩

theorem bind_kept (cmd : Sqlitecommand) (name : String) (val : Bytes) :
    Untouched tables t (sqlitecommandSetParameterText host cmd name val) fun _ => True :=
  call_kept (sqlite.boundText _ _ _) fun _ _ => trivial

theorem read_kept {cmd : Sqlitecommand} (select : (lit "SELECT").isPrefixOf cmd.m_sql = true) :
    Untouched tables t (sqlitereaderRead host cmd) fun _ => True := by
  refine Runs.seq (call_kept (fun w => sqlite.selected cmd w select) fun _ _ => trivial) fun step => ?_
  cases step <;> exact Runs.pure trivial

theorem missing_kept {cmd : Sqlitecommand} (select : (lit "SELECT").isPrefixOf cmd.m_sql = true) :
    Untouched tables t ((fun row => row.isNone) <$> sqlitereaderRead host cmd) fun _ => True :=
  Runs.seq (read_kept sqlite select) fun _ => Runs.pure trivial

theorem userMissing_kept {cmd : Sqlitecommand} (uid : Bytes)
    (select : (lit "SELECT").isPrefixOf cmd.m_sql = true) :
    Untouched tables t (userMissing host cmd uid) fun _ => True :=
  Runs.seq (bind_kept sqlite _ _ _) fun _ =>
    Runs.ite (fun _ => missing_kept sqlite select) fun _ => Runs.pure trivial

theorem permMissing_kept {cmd : Sqlitecommand} (uid perm : Bytes)
    (select : (lit "SELECT").isPrefixOf cmd.m_sql = true) :
    Untouched tables t (permMissing host cmd uid perm) fun _ => True :=
  Runs.seq (bind_kept sqlite _ _ _) fun _ => Runs.ite
    (fun _ => Runs.seq (bind_kept sqlite _ _ _) fun _ =>
      Runs.ite (fun _ => missing_kept sqlite select) fun _ => Runs.pure trivial)
    fun _ => Runs.pure trivial

theorem usersAdd_kept (uid pw : Bytes) (isadmin : Bool) :
    Untouched tables t (usersAdd host uid pw isadmin) fun _ => True := by
  refine Runs.seq (open_kept sqlite) fun _ => Runs.ite (fun _ => Runs.pure trivial) fun _ =>
    Runs.bind Runs.get fun s _ => Runs.ite (fun _ => Runs.pure trivial) fun _ => ?_
  refine Runs.seq (Runs.tell trivial) fun _ => Runs.seq (Runs.modify fun _ inside => inside) fun _ =>
    (command_kept sqlite _).bind fun made query => ?_
  cases made with
  | none => exact Runs.pure trivial
  | some cmd =>
      have select : (lit "SELECT").isPrefixOf cmd.m_sql = true := by
        rw [(query cmd rfl).1]
        decide +kernel
      refine Runs.seq (userMissing_kept sqlite uid select) fun _ =>
        Runs.ite (fun _ => Runs.pure trivial) fun _ => (command_kept sqlite insertUserSql).bind
          fun made insert => ?_
      cases made with
      | none => exact Runs.pure trivial
      | some cmd => exact absurd (.inl rfl) (insert cmd rfl).2

theorem insertPerm_kept (uid perm : Bytes) :
    Untouched tables t (insertPerm host uid perm) fun ok => ok = false := by
  refine (command_kept sqlite insertPermSql).bind fun made insert => ?_
  cases made with
  | none => exact Runs.pure rfl
  | some cmd => exact absurd (.inr rfl) (insert cmd rfl).2

theorem usersAddPerm_kept (uid perm : Bytes) :
    Untouched tables t (usersAddPerm host uid perm) fun _ => True := by
  refine Runs.seq (Runs.tell trivial) fun _ => Runs.seq (open_kept sqlite) fun _ =>
    Runs.ite (fun _ => Runs.pure trivial) fun _ => (command_kept sqlite _).bind fun made query => ?_
  cases made with
  | none => exact Runs.pure trivial
  | some cmd =>
      have select : (lit "SELECT").isPrefixOf cmd.m_sql = true := by
        rw [(query cmd rfl).1]
        decide +kernel
      refine Runs.seq (permMissing_kept sqlite uid perm select) fun insert => ?_
      refine Runs.seq ?_ fun ok => Runs.ite (fun _ => Runs.pure trivial) fun _ =>
        Runs.seq (Runs.tell trivial) fun _ => Runs.seq (Runs.modify fun _ inside => inside) fun _ =>
          Runs.pure trivial
      exact Runs.ite (fun _ => (insertPerm_kept sqlite uid perm).weaken fun _ _ => trivial) fun _ =>
        Runs.pure trivial

/-- No call changes the database. -/
theorem tables_kept (c : UsersCall) (s : Server W) :
    tables ((c.act host).final s).world = tables s.world := by
  cases c with
  | add uid pw isadmin => exact (usersAdd_kept sqlite uid pw isadmin s rfl).keeps
  | addPerm uid perm => exact (usersAddPerm_kept sqlite uid perm s rfl).keeps

end Kept

/-! ## One call from an empty database -/

section Calls

variable {host : Host W} {tables : W → Tables} {s : Server W}

theorem opened_call (host : Host W) (s : Server W) : sqliteconnOpen host s =
    (some (host.sqlite3_open s.world).1, { s with world := (host.sqlite3_open s.world).2 }, []) := rfl

theorem usersAdd_refused {uid pw : Bytes} {isadmin : Bool}
    (refused : (host.sqlite3_open s.world).1 = false) :
    Ends (usersAdd host uid pw isadmin) s fun ok s' => ok = false ∧ s'.users = s.users := by
  refine Ends.quiet (opened_call host s) ?_
  rw [refused]
  exact Ends.pure ⟨rfl, rfl⟩

/-- Once the database is open, the user is put in memory whatever comes of the call. -/
theorem usersAdd_put {uid pw : Bytes} {isadmin : Bool} (opened : (host.sqlite3_open s.world).1 = true)
    (empty : s.users.m_uid2pw.m_table = []) :
    ((usersAdd host uid pw isadmin).final s).users.m_uid2pw.m_table ≠ [] := by
  have unknown : s.users.m_uid2pw.hashtableContainsKey uid = false := by
    rw [Hashtable.hashtableContainsKey, Hashtable.getItem, empty]
    rfl
  suffices runs : RunsAt (OfUsers fun u => u.m_uid2pw.m_table ≠ []) (fun _ => True)
      (usersAdd host uid pw isadmin) (fun _ => True) s from runs.keeps
  refine RunsAt.quiet (opened_call host s) ?_
  rw [opened]
  refine RunsAt.quiet (m := Act.get) rfl ?_
  dsimp only
  rw [if_neg (by rw [unknown]; decide)]
  refine RunsAt.put trivial ?_ (insertUser_runs (ofUsers_steady _) host trivial uid pw isadmin)
  show (s.users.m_uid2pw.hashtablePut uid (stringNew pw)).m_table ≠ []
  rw [Hashtable.hashtablePut, unknown]
  exact List.cons_ne_nil _ _

theorem command_call (host : Host W) (sql : String) (s : Server W) :
    sqliteconnCreateCommand host sql s =
      (some ((host.sqlite3_prepare_v2 (prepared sql) s.world).1.map fun stmt =>
        { m_sql := prepared sql, m_stmt := stmt }),
      { s with world := (host.sqlite3_prepare_v2 (prepared sql) s.world).2 }, []) := rfl

theorem bind_call (host : Host W) (cmd : Sqlitecommand) (name : String) (val : Bytes) (s : Server W) :
    sqlitecommandSetParameterText host cmd name val s =
      (some (host.sqlite3_bind_text cmd (lit name) val s.world).1,
      { s with world := (host.sqlite3_bind_text cmd (lit name) val s.world).2 }, []) := rfl

/-- Whether both parameters of a query for a permission are bound. -/
def Bound (host : Host W) (cmd : Sqlitecommand) (uid perm : Bytes) (w : W) : Prop :=
  let bound := host.sqlite3_bind_text cmd (lit "@UID_NAME") uid w
  bound.1 = true ∧ (host.sqlite3_bind_text cmd (lit "@PERM_NAME") perm bound.2).1 = true

variable {cmd : Sqlitecommand} {uid perm : Bytes}

theorem read_none (none : ∀ columns, (host.sqlite3_step cmd s.world).1 ≠ .row columns) :
    sqlitereaderRead host cmd s =
      (some Option.none, { s with world := (host.sqlite3_step cmd s.world).2 }, []) := by
  have called : call (host.sqlite3_step cmd) s = (some (host.sqlite3_step cmd s.world).1,
      { s with world := (host.sqlite3_step cmd s.world).2 }, []) := rfl
  unfold sqlitereaderRead
  rw [bind_quiet called]
  cases step : (host.sqlite3_step cmd s.world).1 with
  | row columns => exact absurd step (none columns)
  | done => rfl
  | error => rfl

/-- A parameter that is not bound counts as a row that is there. -/
theorem permMissing_unbound (unbound : ¬ Bound host cmd uid perm s.world) :
    Ends (permMissing host cmd uid perm) s fun insert _ => insert = false := by
  refine Ends.quiet (bind_call host cmd _ uid s) ?_
  cases first : (host.sqlite3_bind_text cmd (lit "@UID_NAME") uid s.world).1 with
  | false => exact Ends.pure rfl
  | true =>
      refine Ends.quiet (bind_call host cmd _ perm _) ?_
      cases second : (host.sqlite3_bind_text cmd (lit "@PERM_NAME") perm
          (host.sqlite3_bind_text cmd (lit "@UID_NAME") uid s.world).2).1 with
      | false => exact Ends.pure rfl
      | true => exact absurd ⟨first, second⟩ unbound

theorem permMissing_bound (sqlite : Sqlite host tables) (empty : (tables s.world).perms = [])
    (select : (lit "SELECT * FROM PERMS").isPrefixOf cmd.m_sql = true)
    (bound : Bound host cmd uid perm s.world) :
    Ends (permMissing host cmd uid perm) s fun insert s' => insert = true ∧ s'.users = s.users := by
  obtain ⟨first, second⟩ := bound
  refine Ends.quiet (bind_call host cmd _ uid s) ?_
  rw [first]
  refine Ends.quiet (bind_call host cmd _ perm _) ?_
  dsimp only
  rw [second]
  have kept : (tables (host.sqlite3_bind_text cmd (lit "@PERM_NAME") perm
      (host.sqlite3_bind_text cmd (lit "@UID_NAME") uid s.world).2).2).perms = [] := by
    rw [sqlite.boundText, sqlite.boundText]
    exact empty
  exact Ends.quiet (read_none (sqlite.noPerm cmd _ kept select)) (Ends.pure ⟨rfl, rfl⟩)

/-- A refused permission is neither in memory nor in the database behind the call. -/
theorem usersAddPerm_refused (sqlite : Sqlite host tables) (empty : (tables s.world).perms = [])
    (refused : (UsersCall.addPerm uid perm).Refused host s) :
    Ends (usersAddPerm host uid perm) s fun ok s' => ok = false ∧ s'.users = s.users := by
  refine Ends.bind (P := fun _ s' => s = s') (Ends.tell rfl) ?_
  rintro _ _ rfl
  refine Ends.quiet (opened_call host _) ?_
  cases opened : (host.sqlite3_open s.world).1 with
  | false => exact Ends.pure ⟨rfl, rfl⟩
  | true =>
      have query := refused.resolve_left (by rw [opened]; simp)
      refine Ends.quiet (command_call host selectPermSql _) ?_
      dsimp only
      cases stmt : (host.sqlite3_prepare_v2 (prepared selectPermSql)
          (host.sqlite3_open s.world).2).1 with
      | none => exact Ends.pure ⟨rfl, rfl⟩
      | some n =>
          have kept : (tables (host.sqlite3_prepare_v2 (prepared selectPermSql)
              (host.sqlite3_open s.world).2).2).perms = [] := by
            rw [sqlite.prepared, sqlite.opened]
            exact empty
          have select : (lit "SELECT * FROM PERMS").isPrefixOf (prepared selectPermSql) = true := by
            decide +kernel
          refine Ends.bind (permMissing_bound sqlite kept select (query n stmt)) ?_
          rintro _ s₁ ⟨rfl, same⟩
          refine Ends.bind (P := fun ok s' => ok = false ∧ s'.users = s₁.users) ?_ ?_
          · show Ends (insertPerm host uid perm) s₁ _
            refine Ends.quiet (command_call host insertPermSql s₁) ?_
            rw [sqlite.unclosed insertPermSql s₁.world (.inr rfl)]
            exact Ends.pure ⟨rfl, rfl⟩
          · rintro _ s₂ ⟨rfl, same'⟩
            exact Ends.pure ⟨rfl, same'.trans same⟩

/-- A call that is not refused is taken, although nothing is stored. -/
theorem usersAddPerm_taken (taken : ¬ (UsersCall.addPerm uid perm).Refused host s) :
    Ends (usersAddPerm host uid perm) s fun ok _ => ok = true := by
  refine Ends.bind (P := fun _ s' => s = s') (Ends.tell rfl) ?_
  rintro _ _ rfl
  refine Ends.quiet (opened_call host _) ?_
  cases opened : (host.sqlite3_open s.world).1 with
  | false => exact absurd (.inl opened) taken
  | true =>
      refine Ends.quiet (command_call host selectPermSql _) ?_
      dsimp only
      cases stmt : (host.sqlite3_prepare_v2 (prepared selectPermSql)
          (host.sqlite3_open s.world).2).1 with
      | none => exact absurd (.inr fun n same => by rw [stmt] at same; cases same) taken
      | some n =>
          have unbound : ¬ Bound host { m_sql := prepared selectPermSql, m_stmt := n } uid perm
              (host.sqlite3_prepare_v2 (prepared selectPermSql) (host.sqlite3_open s.world).2).2 :=
            fun bound => taken (.inr fun n' same => by
              rw [stmt] at same
              cases same
              exact bound)
          refine Ends.bind (permMissing_unbound unbound) ?_
          rintro _ s₁ rfl
          refine Ends.bind (P := fun ok _ => ok = true) (Ends.pure rfl) ?_
          rintro _ s₂ rfl
          exact Ends.bind (P := fun _ _ => True) (Ends.tell trivial) fun _ _ _ =>
            Ends.bind (P := fun _ _ => True) (Ends.modify trivial) fun _ _ _ => Ends.pure rfl

end Calls

/-! ## A run from an empty database -/

/-- The users with their passwords. -/
def Users.pairs (u : Users) : List (Bytes × Bytes) :=
  u.m_uid2pw.m_table.map fun hi => (hi.m_key.m_cstr, hi.m_value.m_cstr)

/-- The users with their permissions. -/
def Users.grants (u : Users) : List (Bytes × Bytes) :=
  u.m_uid2perms.m_table.flatMap fun hi => hi.m_value.m_table.map fun hi' =>
    (hi.m_key.m_cstr, hi'.m_key.m_cstr)

/-- Nothing in memory and nothing in the database. -/
structure Fresh (tables : W → Tables) (s : Server W) : Prop where
  tables : (tables s.world).Empty
  pairs : s.users.pairs = []
  grants : s.users.grants = []

/-- `usersNew` on the database of a state makes the same users, unless a call of its own fails. -/
def Rebuilds (host : Host W) (tables : W → Tables) (rounds : Nat) (s : Server W) : Prop :=
  ∀ w, tables w = tables s.world → Ends (usersNew (watched host) rounds)
    ({ s with world := w } : Server W).watched fun ok s' => s'.world.2 = true ∨
      (ok = true ∧ s'.users.pairs.Perm s.users.pairs ∧ s'.users.grants.Perm s.users.grants)

/-- The calls in turn. -/
def usersRun (host : Host W) (calls : List UsersCall) (s : Server W) :
    List (Step (Server W) Event UsersCall) :=
  serve (fun c => c.act host >>= fun _ => Pure.pure ()) (fun _ => true) calls s

section Runs

variable {host : Host W} {tables : W → Tables} (sqlite : Sqlite host tables) {s : Server W}
include sqlite

theorem atomic_iff (fresh : Fresh tables s) (c : UsersCall) :
    c.Atomic host tables s ↔ c.Refused host s := by
  have nowhere : ¬ c.InDatabase (tables ((c.act host).final s).world) := by
    rw [tables_kept sqlite]
    cases c <;> simp [UsersCall.InDatabase, fresh.tables.1, fresh.tables.2]
  constructor
  · rintro (⟨-, -, stored⟩ | ⟨returned, same, -⟩)
    · exact absurd stored nowhere
    · by_contra taken
      cases c with
      | add uid pw isadmin =>
          have put := @usersAdd_put _ host s uid pw isadmin (Bool.not_eq_false _ ▸ taken)
            (List.map_eq_nil_iff.mp fresh.pairs)
          exact put (same ▸ List.map_eq_nil_iff.mp fresh.pairs)
      | addPerm uid perm =>
          obtain ⟨ok, ended, rfl⟩ := usersAddPerm_taken taken
          have both := ended.symm.trans returned
          cases both
  · intro refused
    have ends : Ends (c.act host) s fun ok s' => ok = false ∧ s'.users = s.users := by
      cases c with
      | add uid pw isadmin => exact usersAdd_refused refused
      | addPerm uid perm => exact usersAddPerm_refused sqlite fresh.tables.2 refused
    obtain ⟨ok, ended, rfl, same⟩ := ends
    exact .inr ⟨ended, same, tables_kept sqlite c s⟩

/-- A refused call leaves nothing behind. -/
theorem Fresh.refused (fresh : Fresh tables s) {c : UsersCall} (refused : c.Refused host s) :
    Fresh tables ((c.act host).final s) ∧ (c.act host).result s = some false := by
  have kept := tables_kept sqlite c s
  rcases (atomic_iff sqlite fresh c).mpr refused with ⟨-, -, stored⟩ | ⟨returned, same, -⟩
  · rw [kept] at stored
    cases c <;> simp [UsersCall.InDatabase, fresh.tables.1, fresh.tables.2] at stored
  · refine ⟨⟨?_, ?_, ?_⟩, returned⟩
    · rw [kept]
      exact fresh.tables
    · rw [same]
      exact fresh.pairs
    · rw [same]
      exact fresh.grants

omit sqlite in
/-- A call that returns, and the calls behind it. -/
theorem usersRun_cons {c : UsersCall} {ok : Bool} (rest : List UsersCall)
    (returned : (c.act host).result s = some ok) :
    usersRun host (c :: rest) s = ⟨s, c, (c.act host).final s, (c.act host).log s ++ []⟩ ::
      usersRun host rest ((c.act host).final s) := by
  have ended := bind_some returned fun _ => (Pure.pure () : Srv W Unit)
  simp only [usersRun, serve, if_true, Act.final, Act.log, Act.result, ended]
  rfl

theorem usersRun_refused (fresh : Fresh tables s) (calls : List UsersCall)
    (refused : ∀ step ∈ usersRun host calls s, step.request.Refused host step.before) :
    ∀ step ∈ usersRun host calls s, Fresh tables step.before ∧ Fresh tables step.after := by
  induction calls generalizing s with
  | nil => exact fun _ mem => nomatch mem
  | cons c rest ih =>
      have first := refused _ List.mem_cons_self
      obtain ⟨fresh', returned⟩ := fresh.refused sqlite first
      rw [usersRun_cons rest returned] at refused ⊢
      rw [List.forall_mem_cons] at refused ⊢
      exact ⟨⟨fresh, fresh'⟩, ih fresh' refused.2⟩

/-- Up to the first call that is not refused a run is atomic, and that call is not. -/
theorem usersRun_atomic_iff (fresh : Fresh tables s) (calls : List UsersCall) :
    (∀ step ∈ usersRun host calls s, step.request.Atomic host tables step.before) ↔
      ∀ step ∈ usersRun host calls s, step.request.Refused host step.before := by
  induction calls generalizing s with
  | nil => exact iff_of_true (fun _ mem => nomatch mem) fun _ mem => nomatch mem
  | cons c rest ih =>
      by_cases refused : c.Refused host s
      · obtain ⟨fresh', returned⟩ := fresh.refused sqlite refused
        rw [usersRun_cons rest returned, List.forall_mem_cons, List.forall_mem_cons, ih fresh']
        exact and_congr_left fun _ => atomic_iff sqlite fresh c
      · have first : (⟨s, c, (c.act host >>= fun _ => Pure.pure ()).final s,
            (c.act host >>= fun _ => Pure.pure ()).log s⟩ : Step (Server W) Event UsersCall) ∈
            usersRun host (c :: rest) s := List.mem_cons_self
        constructor
        · intro atomic
          exact absurd ((atomic_iff sqlite fresh c).mp (atomic _ first)) refused
        · intro all
          exact absurd (all _ first) refused

/-! ## The database read back -/

omit sqlite in
theorem open_failed {f : W → Bool × W} {w : W × Bool} (failed : (watch (!·) f w).1 = false) :
    (watch (!·) f w).2.2 = true := by
  show (w.2 || !(f w.1).1) = true
  rw [show (f w.1).1 = false from failed]
  simp

omit sqlite in
theorem prepare_failed {α : Type} {f : W → Option α × W} {w : W × Bool}
    (failed : (watch Option.isNone f w).1 = none) : (watch Option.isNone f w).2.2 = true := by
  show (w.2 || (f w.1).1.isNone) = true
  rw [show (f w.1).1 = none from failed]
  simp

/-- An empty table has no rows to read, however long the loop may run. -/
theorem userRows_empty {cmd : Sqlitecommand} (query : cmd.m_sql = prepared "SELECT * FROM USERS;")
    (empty : (tables s.world).users = []) (rounds : Nat) :
    Ends (userRows host cmd rounds) s fun ok s' =>
      ok = true ∧ s'.users = s.users ∧ tables s'.world = tables s.world := by
  have users : (lit "SELECT * FROM USERS").isPrefixOf cmd.m_sql = true := by
    rw [query]
    decide +kernel
  have select : (lit "SELECT").isPrefixOf cmd.m_sql = true := by
    rw [query]
    decide +kernel
  cases rounds with
  | zero => exact Ends.pure ⟨rfl, rfl, rfl⟩
  | succ rounds =>
      exact Ends.quiet (read_none (sqlite.noUser cmd _ empty users))
        (Ends.pure ⟨rfl, rfl, sqlite.selected cmd _ select⟩)

theorem permRows_empty {cmd : Sqlitecommand} (query : cmd.m_sql = prepared "SELECT * FROM PERMS;")
    (empty : (tables s.world).perms = []) (rounds : Nat) :
    Ends (permRows host cmd rounds) s fun ok s' => ok = true ∧ s'.users = s.users := by
  have perms : (lit "SELECT * FROM PERMS").isPrefixOf cmd.m_sql = true := by
    rw [query]
    decide +kernel
  cases rounds with
  | zero => exact Ends.pure ⟨rfl, rfl⟩
  | succ rounds =>
      exact Ends.quiet (read_none (sqlite.noPerm cmd _ empty perms)) (Ends.pure ⟨rfl, rfl⟩)

/-- The calls keep their promises while they are watched. -/
theorem Sqlite.watched : Sqlite (watched host) fun w => tables w.1 where
  opened w := sqlite.opened w.1
  prepared sql w := sqlite.prepared sql w.1
  boundText cmd name val w := sqlite.boundText cmd name val w.1
  selected cmd w select := sqlite.selected cmd w.1 select
  unclosed sql w insert := sqlite.unclosed sql w.1 insert
  noUser cmd w empty select := sqlite.noUser cmd w.1 empty select
  noPerm cmd w empty select := sqlite.noPerm cmd w.1 empty select

theorem rebuilds (fresh : Fresh tables s) (rounds : Nat) : Rebuilds host tables rounds s := by
  intro w same
  have sqlite' := sqlite.watched
  suffices ends : Ends (usersNew (Splc.watched host) rounds) ({ s with world := w } : Server W).watched
      fun ok s' => s'.world.2 = true ∨ (ok = true ∧ s'.users = noUsers) by
    refine ends.weaken fun ok s' holds => holds.imp_right fun ⟨taken, empty⟩ => ⟨taken, ?_⟩
    rw [empty, fresh.pairs, fresh.grants]
    exact ⟨List.Perm.refl _, List.Perm.refl _⟩
  refine Ends.bind (P := fun _ t => t.users = noUsers ∧ tables t.world.1 = tables w)
    (Ends.modify ⟨rfl, rfl⟩) ?_
  rintro _ t ⟨users, world⟩
  refine Ends.quiet (opened_call _ t) ?_
  cases opened : ((Splc.watched host).sqlite3_open t.world).1 with
  | false => exact Ends.pure (.inl (open_failed opened))
  | true =>
      refine Ends.quiet (command_call _ _ _) ?_
      dsimp only
      cases stmt : ((Splc.watched host).sqlite3_prepare_v2 (prepared "SELECT * FROM USERS;")
          ((Splc.watched host).sqlite3_open t.world).2).1 with
      | none => exact Ends.pure (.inl (prepare_failed stmt))
      | some n =>
          refine Ends.bind (userRows_empty sqlite' rfl ?_ rounds) ?_
          · show (tables ((Splc.watched host).sqlite3_prepare_v2 _ _).2.1).users = []
            rw [sqlite'.prepared, sqlite'.opened, world, same]
            exact fresh.tables.1
          · rintro _ t₁ ⟨rfl, users₁, world₁⟩
            refine Ends.quiet (command_call _ _ _) ?_
            cases stmt' : ((Splc.watched host).sqlite3_prepare_v2 (prepared "SELECT * FROM PERMS;")
                t₁.world).1 with
            | none => exact Ends.pure (.inl (prepare_failed stmt'))
            | some m =>
                refine (permRows_empty sqlite' rfl ?_ rounds).weaken fun ok t₂ ⟨taken, users₂⟩ =>
                  .inr ⟨taken, users₂.trans (users₁.trans users)⟩
                show (tables ((Splc.watched host).sqlite3_prepare_v2 _ _).2.1).perms = []
                rw [sqlite'.prepared, world₁]
                show (tables ((Splc.watched host).sqlite3_prepare_v2 _ _).2.1).perms = []
                rw [sqlite'.prepared, sqlite'.opened, world, same]
                exact fresh.tables.2

end Runs

/-- From an empty database a run is atomic exactly if every call is refused; then the database
gives back what is in memory in every state. -/
theorem agreed_run {host : Host W} {tables : W → Tables} (sqlite : Sqlite host tables) {s : Server W}
    (fresh : Fresh tables s) (calls : List UsersCall) (rounds : Nat) :
    ((∀ step ∈ usersRun host calls s, step.request.Atomic host tables step.before) ↔
        ∀ step ∈ usersRun host calls s, step.request.Refused host step.before) ∧
      ((∀ step ∈ usersRun host calls s, step.request.Refused host step.before) →
        Rebuilds host tables rounds s ∧
          ∀ step ∈ usersRun host calls s, Rebuilds host tables rounds step.after) :=
  ⟨usersRun_atomic_iff sqlite fresh calls, fun refused => ⟨rebuilds sqlite fresh rounds,
    fun step mem => rebuilds sqlite (usersRun_refused sqlite fresh calls refused step mem).2 rounds⟩⟩

/-! ## A database that is not empty -/

/-- The names of the columns decide how they are found. -/
theorem colIdx_names (columns : List Column) : colIdx columns =
    ((columns.map (·.name)).zipIdx).foldl (fun ht column => ht.hashtablePut column.1 column.2)
      (hashtableNew false) := by
  rw [colIdx, List.zipIdx_map, List.foldl_map]
  rfl

/-- The user of a row of USERS is not found: its column is kept under a name cut short. -/
theorem uidName_missing {columns : List Column}
    (names : columns.map (·.name) = [lit "UID_NAME", lit "PW_TEXT", lit "ADMIN_FL"]) :
    sqlitereaderText columns "UID_NAME" = none := by
  have missing : ((([lit "UID_NAME", lit "PW_TEXT", lit "ADMIN_FL"].zipIdx).foldl
      (fun ht column => ht.hashtablePut column.1 column.2)
      (hashtableNew false) : Hashtable Nat).hashtableGet (lit "UID_NAME")) = none := by
    decide +kernel
  unfold sqlitereaderText
  rw [colIdx_names, names, missing]

/-- So `usersNew` ends the server on the first row, which the hash reads as a NULL name. -/
theorem userRows_row {host : Host W} {s : Server W} {cmd : Sqlitecommand} {columns : List Column}
    (row : (host.sqlite3_step cmd s.world).1 = .row columns)
    (names : columns.map (·.name) = [lit "UID_NAME", lit "PW_TEXT", lit "ADMIN_FL"])
    (opened : (host.sqlite3_open (host.sqlite3_step cmd s.world).2).1 = true) (rounds : Nat) :
    (userRows host cmd (rounds + 1)).result s = none := by
  have read : sqlitereaderRead host cmd s =
      (some (some columns), { s with world := (host.sqlite3_step cmd s.world).2 }, []) := by
    have called : call (host.sqlite3_step cmd) s = (some (host.sqlite3_step cmd s.world).1,
        { s with world := (host.sqlite3_step cmd s.world).2 }, []) := rfl
    unfold sqlitereaderRead
    rw [bind_quiet called, row]
    rfl
  have ended (pw : Option Bytes) (isadmin : Bool) : (addUserRow host none pw isadmin).result
      { s with world := (host.sqlite3_step cmd s.world).2 } = none := by
    simp only [addUserRow]
    rw [Act.result, bind_quiet (opened_call host _), opened]
    rfl
  rw [Act.result, userRows, bind_quiet read]
  dsimp only
  rw [uidName_missing names, bind_none (ended _ _)]

/-! ## A user that is not stored -/

/-- SQLite on an empty database, where no call fails but the insertions. -/
def insertless : Host Unit := { deadHost with
  sqlite3_open := fun w => (true, w)
  sqlite3_prepare_v2 := fun sql w =>
    (if sql = prepared insertUserSql ∨ sql = prepared insertPermSql then none else some 0, w)
  sqlite3_bind_text := fun _ _ _ w => (true, w)
  sqlite3_bind_int := fun _ _ _ w => (true, w)
  sqlite3_step := fun _ w => (.done, w) }

def noTables (_ : Unit) : Tables := { users := [], perms := [] }

theorem insertless_sqlite : Sqlite insertless noTables where
  opened _ := rfl
  prepared _ _ := rfl
  boundText _ _ _ _ := rfl
  selected _ _ _ := rfl
  unclosed _ _ insert := if_pos (insert.imp (congrArg prepared) (congrArg prepared))
  noUser _ _ _ _ _ row := nomatch row
  noPerm _ _ _ _ _ row := nomatch row

theorem emptyServer_fresh : Fresh noTables (emptyServer ()) := ⟨⟨rfl, rfl⟩, rfl, rfl⟩

/-- Two permissions that SQLite cannot store. -/
def twoPerms : List UsersCall := [.addPerm (lit "ann") (lit "a.b"), .addPerm (lit "bob") (lit "a.c")]

/-- They are refused one after the other, and nothing is left behind. -/
theorem agreed_run_perms :
    ((∀ step ∈ usersRun insertless twoPerms (emptyServer ()),
          step.request.Atomic insertless noTables step.before) ↔
        ∀ step ∈ usersRun insertless twoPerms (emptyServer ()),
          step.request.Refused insertless step.before) ∧
      ((∀ step ∈ usersRun insertless twoPerms (emptyServer ()),
          step.request.Refused insertless step.before) →
        Rebuilds insertless noTables 1 (emptyServer ()) ∧
          ∀ step ∈ usersRun insertless twoPerms (emptyServer ()),
            Rebuilds insertless noTables 1 step.after) :=
  agreed_run insertless_sqlite emptyServer_fresh twoPerms 1

/-- The call returns false, with `ann` in memory. -/
theorem add_not_atomic : ¬ ∀ (host : Host Unit) (tables : Unit → Tables) (s : Server Unit),
    Sqlite host tables → Fresh tables s → ∀ calls : List UsersCall,
      ∀ step ∈ usersRun host calls s, step.request.Atomic host tables step.before := by
  intro allAtomic
  have atomic := allAtomic insertless noTables (emptyServer ()) insertless_sqlite emptyServer_fresh
    [.add (lit "ann") (lit "pw") false] _ List.mem_cons_self
  have refused := (atomic_iff insertless_sqlite emptyServer_fresh _).mp atomic
  exact absurd (show true = false from refused) (by decide)

end Jspp.Splc
