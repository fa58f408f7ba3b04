/-
# Splc.Entries -- the entries of a table that is not empty

From its start the server finds no procedure (`Cache`).  Here the table it begins
with is any, as long as its entries lead to their own statements: a run keeps it so,
DROP included, and what is executed from it was asked for by the name under which
the permission was looked up.

* `Sound`: each entry is NULL or live, and no two share a statement.
* `dropSql_sound`: the entry is NULL before its statement is deleted.
* `stmtmgrExec_executes`: the name of the check is the name of the lookup.
* `cache_live`, `exec_under_own_grant`: the two for the run of the server.
-/
import Jspp.Splc.Loading
import Jspp.Splc.TableMap

namespace Jspp.Splc

open Jspp.Theory
open Jspp.Theory.Act
open Srv

set_option autoImplicit false

variable {W : Type}

/-- The statements that a table leads to. -/
def pointers (table : List (HashItem (Option Nat))) : List Nat := table.filterMap (·.m_value)

/-- What stays of the table once entries have been dropped. -/
structure Sound (s : Server W) : Prop where
  live : ∀ hi ∈ s.m_stmts.m_table, hi.m_value = none ∨ LiveEntry s hi
  apart : (pointers s.m_stmts.m_table).Nodup

theorem sound_steady : Steady (Sound (W := W)) := fun _ _ _ sound => ⟨sound.live, sound.apart⟩

/-! ## DROP -/

theorem mem_pointers {table : List (HashItem (Option Nat))} {hi : HashItem (Option Nat)}
    {pointer : Nat} (mem : hi ∈ table) (leads : hi.m_value = some pointer) :
    pointer ∈ pointers table := List.mem_filterMap.mpr ⟨hi, mem, leads⟩

theorem pointers_cons (hi : HashItem (Option Nat)) (table : List (HashItem (Option Nat))) :
    pointers (hi :: table) = hi.m_value.toList ++ pointers table := by
  cases leads : hi.m_value with
  | none => exact List.filterMap_cons_none leads
  | some pointer => exact List.filterMap_cons_some leads

/-- A cleared entry leaves the others and their statements. -/
theorem setFirst_clears {hit : HashItem (Option Nat) → Bool} {pointer : Nat}
    {table : List (HashItem (Option Nat))}
    (found : (table.find? hit).bind (·.m_value) = some pointer) (apart : (pointers table).Nodup) :
    (∀ hi ∈ Hashtable.setFirst hit (fun _ => none) table, hi.m_value = none ∨ hi ∈ table) ∧
      (pointers (Hashtable.setFirst hit (fun _ => none) table)).Sublist (pointers table) ∧
        pointer ∉ pointers (Hashtable.setFirst hit (fun _ => none) table) := by
  induction table with
  | nil => cases found
  | cons first rest ih =>
      rw [Hashtable.setFirst]
      cases hits : hit first with
      | true =>
          rw [List.find?_cons_of_pos hits] at found
          have leads : first.m_value = some pointer := found
          rw [if_pos rfl]
          simp only [pointers_cons, leads, Option.toList_some, Option.toList_none,
            List.nil_append, List.singleton_append] at apart ⊢
          refine ⟨fun hi mem => ?_, List.sublist_cons_self _ _, (List.nodup_cons.mp apart).1⟩
          rcases List.mem_cons.mp mem with rfl | mem
          · exact .inl rfl
          · exact .inr (List.mem_cons_of_mem _ mem)
      | false =>
          rw [List.find?_cons_of_neg (by rw [hits]; decide)] at found
          rw [if_neg (by decide)]
          rw [pointers_cons] at apart
          obtain ⟨values, sub, absent⟩ := ih found (List.nodup_append.mp apart).2.1
          have inside : pointer ∈ pointers rest := by
            obtain ⟨hi, at', leads⟩ := Option.bind_eq_some_iff.mp found
            exact mem_pointers (List.mem_of_find?_eq_some at') leads
          rw [pointers_cons, pointers_cons]
          refine ⟨fun hi mem => ?_, sub.append_left _, fun mem => ?_⟩
          · rcases List.mem_cons.mp mem with rfl | mem
            · exact .inr List.mem_cons_self
            · exact (values hi mem).imp id (List.mem_cons_of_mem _)
          · rcases List.mem_append.mp mem with mem | mem
            · exact (List.nodup_append.mp apart).2.2 pointer mem pointer inside rfl
            · exact absent mem

/-- A sound table that does not lead to the statement. -/
structure Without (pointer : Nat) (s : Server W) : Prop extends Sound s where
  gone : pointer ∉ pointers s.m_stmts.m_table

theorem without_steady (pointer : Nat) : Steady (Without (W := W) pointer) :=
  fun _ _ _ without => ⟨⟨without.live, without.apart⟩, without.gone⟩

theorem Without.delete {pointer : Nat} {s : Server W} (without : Without pointer s) :
    Without pointer { s with heap := s.heap.set pointer none } where
  live hi mem := by
    refine (without.live hi mem).imp id ?_
    rintro ⟨other, stmt, leads, here, named⟩
    have ne : pointer ≠ other := fun same => without.gone (same ▸ mem_pointers mem leads)
    exact ⟨other, stmt, leads, by rw [List.getElem?_set_ne ne]; exact here, named⟩
  apart := without.apart
  gone := without.gone

/-- The put of DROP. -/
theorem Sound.clear {s : Server W} (sound : Sound s) {key : Bytes} {pointer : Nat}
    (found : (s.m_stmts.hashtableGet key).join = some pointer) :
    Without pointer { s with m_stmts := s.m_stmts.hashtablePut key none } := by
  have entry : (s.m_stmts.m_table.find? (s.m_stmts.hits key)).bind (·.m_value) = some pointer := by
    rw [← found, Hashtable.hashtableGet, Hashtable.getItem]
    cases s.m_stmts.m_table.find? (s.m_stmts.hits key) <;> rfl
  have known : s.m_stmts.hashtableContainsKey key = true := by
    obtain ⟨hi, here, -⟩ := Option.bind_eq_some_iff.mp entry
    rw [Hashtable.hashtableContainsKey, Hashtable.getItem, here]
    rfl
  have table : (s.m_stmts.hashtablePut key none).m_table =
      Hashtable.setFirst (s.m_stmts.hits key) (fun _ => none) s.m_stmts.m_table := by
    rw [Hashtable.hashtablePut, if_pos known]
  obtain ⟨values, sub, absent⟩ := setFirst_clears entry sound.apart
  refine ⟨⟨fun hi mem => ?_, ?_⟩, ?_⟩
  · rw [table] at mem
    rcases values hi mem with none | old
    · exact .inl none
    · exact sound.live hi old
  · exact table ▸ sub.nodup sound.apart
  · exact table ▸ absent

variable (host : Host W)

/-- DROP takes the entry out of use before it deletes the statement, also where an error exit
leaves it there. -/
theorem dropSql_sound {P : Event → Prop} (stored : P .stored) (userId sql : Str) :
    Runs Sound P (dropSql host userId sql) fun _ => True := by
  refine Runs.seq (usersIsAdmin_runs sound_steady host _) fun _ => Runs.ite
    (fun _ => writeError_runs sound_steady _ _) fun _ => ?_
  split
  case h_1 => exact writeError_runs sound_steady _ _
  case h_2 pos _ =>
    refine Runs.read fun s sound => ?_
    split
    case h_1 => exact writeError_runs sound_steady _ _ s sound
    case h_2 stmt found =>
      have steady := without_steady (W := W) stmt
      refine RunsAt.quiet rfl (RunsAt.larger (fun _ without => without.toSound)
        (Runs.seq (deleteProcedure_runs steady host stored _ _) (fun _ => Runs.ite
          (fun _ => writeError_runs steady _ _) fun _ => ?_) _ (sound.clear found)))
      exact Runs.seq (Runs.seq (deref_runs _) fun _ => Runs.modify fun _ without => without.delete)
        fun _ => say_runs steady _

/-! ## What is executed -/

/-- A statement is executed for the user of the request, and the name under which the table has it
is the name that the permission was asked for. -/
def Checked (req : Request) (s : Server W) (e : Event) : Prop :=
  ∀ pointer userId, e = .exec pointer userId → userId = req.m_userId.m_cstr ∧
    ∃ fqname : Str, (usersHasPerm host req.m_userId fqname).result s = some true ∧
      (s.m_stmts.hashtableGet fqname.m_cstr).join = some pointer

theorem Checked.other {req : Request} {s : Server W} {e : Event} (other : NotExecuted e) :
    Checked host req s e := fun pointer userId same => absurd same (other pointer userId)

section

variable {host} (names : NamesColumns host) (rounds : Nat)
include names

/-- `fqname` of the check is the key of the lookup. -/
theorem stmtmgrExec_executes (system : Str) (req : Request) (s : Server W) :
    ∀ e ∈ (stmtmgrExec host rounds system req).log s, Checked host req s e := by
  have steady : Steady fun s' : Server W => s'.m_stmts = s.m_stmts := fun _ _ _ same => same
  have check := usersHasPerm_runs (P := NotExecuted) steady host req.m_userId
    (qualify system req.m_name).2.2 s rfl
  refine events_bind (fun e mem => .other host (check.events e mem)) fun ok ended => ?_
  have refused (text : String) (name : Bytes) (b : Bool) :
      Runs (fun s' : Server W => s'.m_stmts = s.m_stmts) (Checked host req s)
        (_writeError text name >>= fun _ => Pure.pure b : Srv W Bool) fun _ => True :=
    Runs.seq (writeError_runs steady _ _) fun _ => Runs.pure trivial
  cases ok with
  | false => exact (refused _ _ _ _ check.keeps).events
  | true =>
      refine RunsAt.events (I := fun s' : Server W => s'.m_stmts = s.m_stmts) (Q := fun _ => True)
        (((stmtmgrGetStmt_looked steady rounds names _ _ (qualify system req.m_name).2.2
          (fun s' same => by rw [same])).bind fun stmt found => ?_) _ check.keeps)
      cases stmt with
      | none => exact refused _ _ _
      | some stmt =>
          have executed : Checked host req s (.exec stmt req.m_userId.m_cstr) := by
            intro pointer userId same
            obtain ⟨rfl, rfl⟩ := Event.exec.inj same
            exact ⟨rfl, _, ended, found.symm⟩
          refine Runs.seq (resumeIf_runs steady host (fun _ => .other host fun _ _ => nofun) _)
            fun _ => Runs.ite (fun _ => Runs.pure trivial) fun _ => Runs.seq ?_ fun _ =>
              Runs.seq (suspendIf_runs steady host (.other host fun _ _ => nofun) _)
                fun _ => Runs.pure trivial
          exact Runs.seq (deref_runs _) fun _ => Runs.seq (Runs.tell executed) fun _ =>
            Runs.seq (call_runs steady _) fun _ => append_runs steady _

theorem executeDynamic_executes (req : Request) (s : Server W) :
    ∀ e ∈ (executeDynamic host rounds req).log s, Checked host req s e := by
  have steady : Steady fun s' : Server W => s'.m_stmts = s.m_stmts := fun _ _ _ same => same
  have refused (text : String) : ∀ e ∈ (_writeError text [] >>= fun _ => Pure.pure true :
      Srv W Bool).log s, Checked host req s e :=
    RunsAt.events (I := fun s' : Server W => s'.m_stmts = s.m_stmts) (Q := fun _ => True)
      (Runs.seq (writeError_runs steady _ _) (fun _ => Runs.pure trivial) _ rfl)
  unfold executeDynamic
  split
  case h_1 => exact refused _
  case h_2 sys _ =>
    split
    case isTrue => exact refused _
    case isFalse =>
      have read : RunsAt (fun s' : Server W => s' = s) NotExecuted sys.m_str
          (fun system => sys.m_data = .str system) s := m_str_runs (notExecuted_read _ _) s rfl
      refine events_bind (fun e mem => .other host (read.events e mem)) fun system _ => ?_
      rw [read.keeps]
      exact stmtmgrExec_executes names rounds system req s

/-- A request executes nothing without a logon. -/
theorem handleRequest_executes {req : Request} {s : Server W} {pointer : Nat} {userId : Bytes}
    (executed : .exec pointer userId ∈ (handleRequest host rounds req).log s) :
    userLogon s.users req.m_userId req.m_password = true ∧
      Checked host req s.greeting (.exec pointer userId) := by
  have run : handleRequest host rounds req s =
      ((answer host rounds s.users req) >>= fun _ => say "</ROWS>\r\n") s.greeting := rfl
  have said (text : String) (s : Server W) : ∀ e ∈ (say text).log s, NotExecuted e :=
    ((say_runs any_steady text) s trivial).events
  have other {m : Srv W Unit} (runs : Runs Any NotExecuted m fun _ => True) :
      .exec pointer userId ∉ m.log s.greeting := fun mem =>
    (runs s.greeting trivial).events _ mem _ _ rfl
  rw [log, run] at executed
  have inside : .exec pointer userId ∈ (answer host rounds s.users req).log s.greeting := by
    by_contra outside
    have behind : ∀ e ∈ (say "</ROWS>\r\n").log
        ((answer host rounds s.users req).final s.greeting), e ≠ .exec pointer userId :=
      fun e mem => said _ _ e mem _ _
    refine events_bind (P := fun e => e ≠ .exec pointer userId) (fun e mem => ?_)
      (fun _ _ => behind) _ executed rfl
    rintro rfl
    exact outside mem
  have denied : Runs Any NotExecuted (_writeError (W := W) "logon failed" []) fun _ => True :=
    writeError_runs any_steady _ _
  cases way : route req with
  | sql =>
      refine absurd inside (other (Runs.ite (fun _ => denied) fun _ => ?_))
      rw [dispatch, way]
      exact sqlRequest_others any_steady rounds (fun _ not => not) (fun _ _ _ _ => trivial)
        (fun _ _ => dropSql_runs any_steady host (fun _ _ _ => trivial)
          (fun _ _ same => by cases same) (fun _ _ _ => trivial) _ _) req
  | admin =>
      refine absurd inside (other (Runs.ite (fun _ => denied) fun _ => ?_))
      rw [dispatch, way]
      exact adminRequest_others any_steady rounds (fun _ not => not) names (fun _ _ => trivial) req
  | procedure =>
      rw [answer_procedure way] at inside
      by_cases logon : userLogon s.users req.m_userId req.m_password = true
      · rw [if_neg (not_not.mpr logon)] at inside
        refine ⟨logon, events_bind (executeDynamic_executes names rounds req s.greeting)
          (fun known _ e mem => .other host ?_) _ inside⟩
        cases known with
        | true => cases mem
        | false => exact (writeError_runs (P := NotExecuted) any_steady _ _ _ trivial).events e mem
      · rw [if_pos logon] at inside
        exact absurd inside (other denied)

omit names in
/-- A row that is read, with the world behind the step. -/
theorem sqlitereaderRead_bind {β : Type} (cmd : Sqlitecommand) (g : Option (List Column) → Srv W β)
    (s : Server W) : (sqlitereaderRead host cmd >>= g) s =
      g (match (host.sqlite3_step cmd s.world).1 with
          | .row columns => some columns
          | _ => none)
        { s with world := (host.sqlite3_step cmd s.world).2 } := by
  refine bind_quiet ?_ g
  simp only [sqlitereaderRead, call_bind]
  cases (host.sqlite3_step cmd s.world).1 <;> rfl

omit names in
/-- What is asked of SQLite does not depend on the reply. -/
theorem usersIsAdmin_greeting (uid : Str) (s : Server W) :
    (usersIsAdmin host uid).result s.greeting = (usersIsAdmin host uid).result s := by
  simp only [Act.result, usersIsAdmin, sqliteconnOpen, sqlitecommandSetParameterText, call_bind,
    Server.greeting]
  split
  · rfl
  · rw [createCommand_bind, createCommand_bind]
    cases (host.sqlite3_prepare_v2 _ _).1 with
    | none => rfl
    | some stmt =>
        simp only [Option.map_some, call_bind]
        split
        · rw [sqlitereaderRead_bind, sqlitereaderRead_bind]
          simp only
          split <;> rfl
        · rfl

omit names in
/-- An entry that a lookup finds has the name that is looked up. -/
theorem Sound.found {s : Server W} (sound : Sound s) {key : Bytes} {pointer : Nat}
    (found : (s.m_stmts.hashtableGet key).join = some pointer) :
    ∃ stmt, s.heap[pointer]? = some (some stmt) ∧ sameText true key stmt.m_fqname.m_cstr = true := by
  rw [Hashtable.hashtableGet, Hashtable.getItem] at found
  cases at' : s.m_stmts.m_table.find? (s.m_stmts.hits key) with
  | none => rw [at'] at found; cases found
  | some hi =>
      rw [at'] at found
      have leads : hi.m_value = some pointer := found
      have hit := List.find?_some at'
      rcases sound.live hi (List.mem_of_find?_eq_some at') with none | ⟨other, stmt, same, here, named⟩
      · rw [none] at leads; cases leads
      · obtain rfl := Option.some.inj (same.symm.trans leads)
        refine ⟨stmt, here, (sameText_key true).mpr ?_⟩
        rw [← (sameText_key true).mp named]
        have keyed := (sameText_key s.m_stmts.m_keyIgnoreCase).mp (Bool.and_eq_true_iff.mp hit).2
        cases ic : s.m_stmts.m_keyIgnoreCase with
        | true => rw [ic] at keyed; exact keyed.symm
        | false => rw [ic] at keyed; exact congrArg _ keyed.symm

/-! ## Runs -/

theorem handleRequest_sound (req : Request) :
    Runs Sound (fun _ => True) (handleRequest host rounds req) fun _ => True :=
  handleRequest_others sound_steady rounds (fun _ _ => trivial) names
    (fun _ _ _ sound => ⟨sound.live, sound.apart⟩) (fun _ sound => ⟨sound.live, sound.apart⟩)
    (fun userId sql => dropSql_sound host trivial userId sql) req
    fun system => stmtmgrExec_runs sound_steady host rounds
      (load_unread sound_steady rounds names) (fun _ => trivial) trivial (fun _ => trivial) system

omit names in
/-- After every request each entry of the table is live: from the start no request makes one.  A
table that begins with live entries keeps them live, or NULL once they have been dropped. -/
theorem cache_live (host : Host W) (names : NamesColumns host) (rounds : Nat) (users : Users)
    (world : W) (reqs : List Request) :
    (∀ step ∈ runServer host rounds reqs (startServer users world),
      ∀ hi ∈ step.after.m_stmts.m_table, LiveEntry step.after hi) ∧
    ∀ s, Sound s → ∀ step ∈ runServer host rounds reqs s, Sound step.after := by
  refine ⟨fun step mem hi entry => ?_, fun s sound step mem => ?_⟩
  · have unfilled : step.after.m_stmts.m_table = [] := (step_unfilled names mem).1
    rw [unfilled] at entry
    cases entry
  · exact (serve_invariant
      (fun req s sound => (handleRequest_sound names rounds req s sound).keeps) sound mem).2

/-- The user of the request was accepted, and may execute what the statement is named, as an
administrator or by a permission of that name. -/
def UnderOwnName (host : Host W) (step : ServerStep W) (pointer : Nat) (userId : Bytes) : Prop :=
  userLogon step.before.users step.request.m_userId step.request.m_password = true ∧
    userId = step.request.m_userId.m_cstr ∧
    ∃ stmt, step.before.heap[pointer]? = some (some stmt) ∧
      (IsAdmin host step.before step.request.m_userId ∨
        ∃ perm, step.before.users.hasPerm userId perm = true ∧
          sameText true perm stmt.m_fqname.m_cstr = true)

/-- One request to a server with a sound table. -/
theorem handleRequest_underOwnName {step : ServerStep W} (sound : Sound step.before)
    (log : step.log = (handleRequest host rounds step.request).log step.before) {pointer : Nat}
    {userId : Bytes} (executed : .exec pointer userId ∈ step.log) :
    UnderOwnName host step pointer userId := by
  rw [log] at executed
  obtain ⟨logon, checked⟩ := handleRequest_executes names rounds executed
  obtain ⟨rfl, fqname, may, found⟩ := checked _ _ rfl
  obtain ⟨stmt, here, named⟩ := sound.found (s := step.before) found
  refine ⟨logon, rfl, stmt, here, ?_⟩
  have asked : Act.result (if step.before.users.hasPerm step.request.m_userId.m_cstr fqname.m_cstr
      then Pure.pure true else usersIsAdmin host step.request.m_userId) step.before.greeting =
        some true := may
  by_cases holds : step.before.users.hasPerm step.request.m_userId.m_cstr fqname.m_cstr = true
  · exact .inr ⟨_, holds, named⟩
  · rw [if_neg holds, usersIsAdmin_greeting] at asked
    exact .inl asked

omit names in
/-- A statement is executed only under its own grant: from the start no request finds one.  With a
table of live entries it is the permission for the name that the statement itself has. -/
theorem exec_under_own_grant (host : Host W) (names : NamesColumns host) (rounds : Nat)
    (users : Users) (world : W) (reqs : List Request) :
    (∀ earlier step later,
      runServer host rounds reqs (startServer users world) = earlier ++ step :: later →
        ∀ pointer userId stmt, .exec pointer userId ∈ step.log →
          (step.before.heap[pointer]? = some (some stmt) ∨
            step.after.heap[pointer]? = some (some stmt)) →
            UnderOwnGrant host users earlier step stmt) ∧
    ∀ s, Sound s → ∀ step ∈ runServer host rounds reqs s,
      ∀ pointer userId, .exec pointer userId ∈ step.log → UnderOwnName host step pointer userId := by
  refine ⟨fun earlier step later run pointer userId stmt executed _ => ?_,
    fun s sound step mem pointer userId executed => ?_⟩
  · have mem : step ∈ runServer host rounds reqs (startServer users world) := by
      rw [run]
      exact List.mem_append_right _ List.mem_cons_self
    exact absurd rfl ((step_unfilled names mem).2 _ executed pointer userId)
  · have before := (serve_invariant
      (fun req s sound => (handleRequest_sound names rounds req s sound).keeps) sound mem).1
    exact handleRequest_underOwnName names rounds before (serve_mem mem).2.2 executed

end

/-! ## A table with two procedures -/

/-- A server with the procedures `SYS.ONE` and `SYS.TWO`, and with a user `sa` who may execute the
first. -/
def filledServer : Server Unit where
  g_running := true
  users :=
    { m_uid2pw := entry "sa" (text "pw")
      m_uid2perms := entry "sa" (entry "SYS.ONE" ())
      m_perms := entry "SYS.ONE" () }
  m_stmts :=
    { m_keyIgnoreCase := true, m_count := 2
      m_table := (entry "SYS.ONE" (some 0)).m_table ++ (entry "SYS.TWO" (some 1)).m_table }
  heap := [some (stored "ONE"), some (stored "TWO")]
  xml := []
  world := ()
where
  entry {α : Type} (key : String) (value : α) : Hashtable α :=
    { m_keyIgnoreCase := true, m_count := 1
      m_table := [{ bucket := (hashtableNew true : Hashtable α).bucketOf (lit key)
                    m_key := text key, m_value := value }] }
  stored (name : String) : Statement :=
    { m_id := 0, m_procDef := { m_name := text name, m_text := text "" }, m_system := text "SYS"
      m_name := text name, m_fqname := text ("SYS." ++ name) }

theorem filledServer_sound : Sound filledServer where
  live hi mem := by
    rcases List.mem_pair.mp mem with rfl | rfl
    · exact .inr ⟨0, _, rfl, rfl, by decide⟩
    · exact .inr ⟨1, _, rfl, rfl, by decide⟩
  apart := by decide

/-- A host that answers for every user that it is an administrator, and has no procedures. -/
def admittingHost : Host Unit := { deadHost with
  sqlite3_open := fun w => (true, w)
  sqlite3_prepare_v2 := fun _ w => (some 0, w)
  sqlite3_bind_text := fun _ _ _ w => (true, w)
  sqlite3_step := fun cmd w =>
    if (lit "SELECT ADMIN_FL").isPrefixOf cmd.m_sql then (.row [⟨lit "ADMIN_FL", none, 1⟩], w)
    else (.done, w) }

theorem admittingHost_names : NamesColumns admittingHost := by
  intro cmd w columns w' reads row
  obtain ⟨rest, begins⟩ := List.isPrefixOf_iff_prefix.mp reads
  have other : (lit "SELECT ADMIN_FL").isPrefixOf cmd.m_sql = false := by
    rw [← begins]
    rfl
  have stepped : admittingHost.sqlite3_step cmd w = (.done, w) := if_neg (by rw [other]; decide)
  rw [stepped] at row
  cases row

/-- The first procedure is executed, and dropped; names lose their last characters on the way. -/
def executeAndDrop : List Request :=
  [{ m_name := text "SYS.ONEx", m_transid := 0, m_userId := text "sa", m_password := text "pw"
     m_items := [item "%%system%%" "SYS"], m_itemCount := 1, m_bytes := 0 },
   { m_name := text "SQL", m_transid := 0, m_userId := text "sa", m_password := text "pw"
     m_items := [item "sql" "DROP PROCEDURE SYS.ONExxx", item "system" "SYS"]
     m_itemCount := 2, m_bytes := 0 }]
where
  item (name value : String) : RequestItem :=
    { m_name := some (text name), m_data := .str (text value) }

theorem cache_live_dropped :
    NamesColumns admittingHost ∧ Sound filledServer ∧
      (∀ step ∈ runServer admittingHost 1 executeAndDrop filledServer, Sound step.after) ∧
      (runServer admittingHost 1 executeAndDrop filledServer).map
        (fun step => pointers step.after.m_stmts.m_table) = [[0, 1], [1]] :=
  ⟨admittingHost_names, filledServer_sound,
    (cache_live admittingHost admittingHost_names 1 (emptyServer ()).users () executeAndDrop).2 _
      filledServer_sound, by decide +kernel⟩

theorem exec_under_own_grant_named :
    NamesColumns admittingHost ∧ Sound filledServer ∧
      (∀ step ∈ runServer admittingHost 1 executeAndDrop filledServer, ∀ pointer userId,
        .exec pointer userId ∈ step.log → UnderOwnName admittingHost step pointer userId) ∧
      ∃ step ∈ runServer admittingHost 1 executeAndDrop filledServer,
        .exec 0 (lit "sa") ∈ step.log := by
  refine ⟨admittingHost_names, filledServer_sound, (exec_under_own_grant admittingHost
    admittingHost_names 1 (emptyServer ()).users () executeAndDrop).2 _ filledServer_sound,
    ⟨filledServer, _, _, _⟩, List.mem_cons_self, ?_⟩
  decide +kernel

end Jspp.Splc
