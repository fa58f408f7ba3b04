/-
# Sql.Updates -- the assignments of an UPDATE

Behind a value the loop of `parseUpdate` reads the next token itself, and a function
has been left behind its parenthesis already: the token behind a function is passed
unread.  A comma there goes missing in the translation, and a WHERE there is never
seen as one.

* `AssignmentAt`, `UpdateAt`: the assignments and the statement as they stand in the
  text; `updateText` is the translation in front of WHERE.
* `KeepsAssignments`: the statement is accepted, and its translation is that of the
  assignments and, behind them, of what stands behind them.
* `assignLoop_reaches`: the loop comes to the last assignment, or to the first
  function in front of it.
-/
import Jspp.Sql.Lists
import Jspp.Sql.Operators

namespace Jspp.Sql

open Jspp.Splc (Bytes lit isdigit toupper)
open Jspp.Theory
open Jspp.Sql.Parser

set_option autoImplicit false

/-- The value of an assignment. -/
inductive SetValue where
  | num (lexum : Bytes)
  | string (lexum : Bytes)
  | var (lexum : Bytes)
  | call (fn : Function)
  deriving DecidableEq, Repr

def SetValue.text : SetValue → Bytes
  | .num lexum => lexum
  | .string lexum => lit "'" ++ lexum ++ lit "'"
  | .var lexum => lit ":p" ++ lexum.drop 1
  | .call fn => fn.text

def SetValue.isCall : SetValue → Bool
  | .call _ => true
  | _ => false

/-- A call of AVG, MAX, MIN or SUM. -/
def SetValue.isAggregate : SetValue → Bool
  | .call fn => fn.isAggregate
  | _ => false

structure Assignment where
  field : Field
  value : SetValue
  deriving DecidableEq, Repr

def Assignment.text (a : Assignment) : Bytes := a.field.text ++ lit " = " ++ a.value.text ++ lit " "

inductive SetValueAt (src : Bytes) (c : Cursor) : SetValue → Cursor → Prop where
  | num {c' : Cursor} (num : c.token = .num) (step : Step src c c') :
      SetValueAt src c (.num c.lexum) c'
  | string {c' : Cursor} (strlit : c.token = .strlit) (step : Step src c c') :
      SetValueAt src c (.string c.lexum) c'
  | var {c' : Cursor} (var : c.token = .var) (step : Step src c c') :
      SetValueAt src c (.var c.lexum) c'
  | call {fn : Function} {c' : Cursor} (call : CallAt src c fn c') : SetValueAt src c (.call fn) c'

def AssignmentAt (src : Bytes) (c : Cursor) (a : Assignment) (c' : Cursor) : Prop :=
  ∃ d e, FieldAt src c a.field d ∧ d.token = .eq ∧ Step src d e ∧ SetValueAt src e a.value c'

/-- UPDATE, the table, SET and the assignments; what stands behind starts no other. -/
structure UpdateAt (src : Bytes) (c : Cursor) (table : Bytes) (assignments : List Assignment)
    (c' : Cursor) : Prop where
  update : c.token = .update
  head : ∃ d e f, Step src c d ∧ d.token = .id ∧ d.lexum = table ∧ Step src d e ∧ e.token = .set ∧
    Step src e f ∧ ListAt src (AssignmentAt src) f assignments c'
  ends : c'.token ≠ .id

/-- The name of a define starts with `=`. -/
def definedText (table : Bytes) : Bytes := if table.headD 0 = 61 then table else 61 :: table

def updateText (table : Bytes) (assignments : List Assignment) : Bytes :=
  lit "UPDATE " ++ definedText table ++ lit " SET " ++ commas (assignments.map Assignment.text)

variable {G : Given} {s s' : Parse} {rounds : Nat}

/-- The end of the statement: a semicolon, or nothing. -/
def finish (G : Given) : Parser Unit := do
  let tok ← token
  only (tok = .semi) (skip G)
  expect .eos .errSyntax

/-- What is behind the assignments: WHERE, if there is one, and the end. -/
def updateEnd (G : Given) (rounds : Nat) (caller : Cursor) (cell : Nat) : Parser Unit := do
  parseWhere G (subSelect G rounds caller) rounds cell false
  finish G

/-- The state of an UPDATE that starts at `s`. -/
def Parse.updating (s : Parse) : Parse :=
  { s with cells := s.cells ++ [0], dp := { s.dp with stmttype := .update } }

/-- The statement is accepted; its translation is that of the assignments in their order, with
commas between them, and behind it that of what stands behind them, WHERE included. -/
def KeepsAssignments (G : Given) (rounds : Nat) (s : Parse) (table : Bytes)
    (assignments : List Assignment) (c : Cursor) : Prop :=
  ∃ s₁ s₂ s', Writes s.updating c (updateText table assignments) s₁ ∧
    updateEnd G rounds s.cursor s.cells.length s₁ = (.ok (), s₂) ∧
    parseSQL G rounds = (.ok (), s') ∧ s'.written = s₂.written

/-- No function is assigned but in the last assignment, and there none with a field and none in
front of WHERE. -/
def Plainly (assignments : List Assignment) (c : Cursor) : Prop :=
  (∀ a ∈ assignments.dropLast, a.value.isCall = false) ∧
    ∀ a ∈ assignments.getLast?, a.value.isCall = true →
      a.value.isAggregate = false ∧ c.token ≠ .where

/-! ## One assignment -/

theorem SetValueAt.reached {src : Bytes} {c c' : Cursor} {v : SetValue}
    (at' : SetValueAt src c v c') : Reached src c c' := by
  cases at' with
  | num _ step => exact step.reached
  | string _ step => exact step.reached
  | var _ step => exact step.reached
  | call call => exact call.passed.reached

theorem AssignmentAt.passed {src : Bytes} {c c' : Cursor} {a : Assignment}
    (at' : AssignmentAt src c a c') : Passed src c c' := by
  obtain ⟨d, e, field, _, step, value⟩ := at'
  exact field.passed.trans (step.reached.trans value.reached)

theorem AssignmentAt.id {src : Bytes} {c c' : Cursor} {a : Assignment}
    (at' : AssignmentAt src c a c') : c.token = .id := by
  obtain ⟨d, e, field, _⟩ := at'
  exact field.id

/-- What the loop does behind a value. -/
def behindValue (G : Given) : Parser Unit := do
  next G
  if (← token) ≠ .comma then pure ()
  else
    text ","
    next G
    expect .id .expFields

/-- In front of the value. -/
theorem assignment_value {f : Field} {d e : Cursor} (field : FieldAt G.src s.cursor f d)
    (eq : d.token = .eq) (step : Step G.src d e) :
    ∃ s₁, Writes s e (f.text ++ lit " = ") s₁ ∧ assignment G s = (do
      assigned G
      text " "
      behindValue G : Parser Unit) s₁ := by
  obtain ⟨s₁, run, writes⟩ := parseField_reads field
  refine ⟨(s₁.put (.text (lit " = "))).seek e, (writes.append (.text (lit " = "))).seek e, ?_⟩
  have expected : expect .eq .expOp s₁ = (.ok (), s₁) :=
    expect_run (by rw [writes.cursor]; exact eq)
  have read : next G (s₁.put (.text (lit " = "))) = (.ok (), (s₁.put (.text (lit " = "))).seek e) :=
    next_reads (s := s₁.put (.text (lit " = "))) (writes.cursor ▸ step)
  unfold assignment
  rw [Attempt.bind_ok run, Attempt.bind_ok expected]
  exact Attempt.bind_ok read

/-- A value that is no function leaves the cursor where it is. -/
theorem assigned_plain {v : SetValue} {c : Cursor} (value : SetValueAt G.src s.cursor v c)
    (plain : v.isCall = false) :
    ∃ s₁, assigned G s = (.ok (), s₁) ∧ Writes s s.cursor v.text s₁ ∧ Step G.src s.cursor c := by
  unfold assigned
  rw [token_run]
  cases value with
  | num num step =>
      rw [num]
      exact ⟨_, rfl, Writes.put s (.word s.cursor.start s.cursor.lexum), step⟩
  | string strlit step =>
      rw [strlit]
      exact ⟨_, rfl, ((Writes.put s (.text (lit "'"))).append
        (.word s.cursor.start s.cursor.lexum)).append (.text (lit "'")), step⟩
  | var var step =>
      rw [var]
      exact ⟨_, rfl, Writes.put s (.placeholder s.cursor.start (s.cursor.lexum.drop 1) none), step⟩
  | call => cases plain

theorem behindValue_last {c : Cursor} (step : Step G.src s.cursor c) (ends : c.token ≠ .comma) :
    behindValue G s = (.ok (), s.seek c) := by
  rw [behindValue, read_ok_iff]
  refine ⟨c, step, ?_⟩
  rw [token_run, Parse.seek_cursor, if_pos ends]
  rfl

theorem behindValue_comma {c d : Cursor} (step : Step G.src s.cursor c) (comma : c.token = .comma)
    (step' : Step G.src c d) (id : d.token = .id) :
    behindValue G s = (.ok (), ((s.seek c).put (.text (lit ","))).seek d) := by
  rw [behindValue, read_ok_iff]
  refine ⟨c, step, ?_⟩
  rw [token_run, Parse.seek_cursor, if_neg (not_not.mpr comma)]
  refine (read_ok_iff (s := (s.seek c).put (.text (lit ",")))).mpr ⟨d, step', ?_⟩
  exact expect_run id

/-- An assignment without a function, up to what the loop does behind it. -/
theorem assignment_plain {a : Assignment} {c : Cursor} (at' : AssignmentAt G.src s.cursor a c)
    (plain : a.value.isCall = false) :
    ∃ s₁ e, Writes s e a.text s₁ ∧ Step G.src s₁.cursor c ∧
      assignment G s = behindValue G s₁ := by
  obtain ⟨d, e, field, eq, step, value⟩ := at'
  obtain ⟨s₁, front, run⟩ := assignment_value field eq step
  obtain ⟨s₂, assigned, writes, next⟩ := assigned_plain (s := s₁) (front.cursor.symm ▸ value) plain
  refine ⟨s₂.put (.text (lit " ")), s₁.cursor, ?_, ?_, ?_⟩
  · exact (front.trans writes).append (.text (lit " "))
  · rw [Parse.put_cursor, writes.cursor]
    exact next
  · rw [run, Attempt.bind_ok assigned]
    rfl

/-- An assignment of a function: the loop reads on behind its parenthesis. -/
theorem assignment_call {a : Assignment} {c : Cursor} (at' : AssignmentAt G.src s.cursor a c)
    (call : a.value.isCall = true) (plain : a.value.isAggregate = false) :
    ∃ s₁, Writes s c a.text s₁ ∧ assignment G s = behindValue G s₁ := by
  obtain ⟨d, e, field, eq, step, value⟩ := at'
  obtain ⟨s₁, front, run⟩ := assignment_value field eq step
  revert value call plain
  rw [Assignment.text]
  generalize a.value = v
  intro call plain value
  cases value with
  | @call fn _ value =>
      obtain ⟨s₂, function, writes⟩ := parseFunction_reads (s := s₁)
        (.plain (front.cursor.symm ▸ value) plain)
      refine ⟨s₂.put (.text (lit " ")), (front.trans writes).append (.text (lit " ")), ?_⟩
      have assigned : assigned G s₁ = (.ok (), s₂) := by
        unfold Parser.assigned
        rw [token_run, front.cursor, value.func]
        exact function
      rw [run, Attempt.bind_ok assigned]
      rfl
  | _ => cases call

/-- An aggregate is refused where no second parenthesis follows. -/
theorem assignment_aggregate {a : Assignment} {c : Cursor}
    (at' : AssignmentAt G.src s.cursor a c) (aggregate : a.value.isAggregate = true)
    (single : c.token ≠ .rpar) : assignment G s ≠ (.ok (), s') := by
  obtain ⟨d, e, field, eq, step, value⟩ := at'
  obtain ⟨s₁, front, run⟩ := assignment_value field eq step
  intro accepted
  rw [run] at accepted
  obtain ⟨_, s₂, assigned, -⟩ := bind_ok_iff.mp accepted
  revert value aggregate
  generalize a.value = v
  intro aggregate value
  cases value with
  | @call fn _ value =>
      cases fn with
      | aggregate name f =>
          have function : parseFunction G s₁ = (.ok (), s₂) := by
            unfold Parser.assigned at assigned
            rw [token_run, front.cursor, value.func] at assigned
            exact assigned
          exact single (parseFunction_aggregate (s := s₁) (front.cursor.symm ▸ value) function).1
      | _ => cases aggregate
  | _ => cases aggregate

/-! ## The loop -/

def assignLoop (G : Given) (rounds : Nat) : Parser Unit :=
  loopWhile rounds (fun tok => tok = .id) (assignment G)

/-- From `s` the loop comes, in the state `s₁` in front of the assignment `a` at `c`, to the last
assignment or to a function in front of it. -/
structure Reaches (G : Given) (rounds : Nat) (s : Parse) (rounds₁ : Nat) (s₁ : Parse) (c : Cursor)
    (pre : Bytes) : Prop where
  writes : Writes s c pre s₁
  run : assignLoop G rounds s = assignLoop G rounds₁ s₁
  room : left G.src c < rounds₁
  reached : Reached G.src s.cursor c

/-- The last assignment, and no function in front of it. -/
structure AtLast (src : Bytes) (assignments : List Assignment) (a : Assignment) (c c' : Cursor)
    (pre : Bytes) : Prop where
  at' : AssignmentAt src c a c'
  ends : c'.token ≠ .comma
  last : assignments.getLast? = some a
  plain : ∀ b ∈ assignments.dropLast, b.value.isCall = false
  text : pre ++ a.text = commas (assignments.map Assignment.text)

/-- A function, and another assignment behind it. -/
structure AtCall (src : Bytes) (assignments : List Assignment) (a : Assignment) (c : Cursor)
    (pre : Bytes) : Prop where
  call : a.value.isCall = true
  mem : a ∈ assignments.dropLast
  next : ∃ d e, AssignmentAt src c a d ∧ d.token = .comma ∧ Step src d e ∧ e.token = .id
  text : ∃ rest, commas (assignments.map Assignment.text) = pre ++ a.text ++ lit "," ++ rest

theorem Reaches.refl (here : left G.src s.cursor < rounds) :
    Reaches G rounds s rounds s s.cursor [] :=
  ⟨Writes.refl s, rfl, here, Reached.refl _ _⟩

theorem AtLast.cons {src : Bytes} {assignments : List Assignment} {a b : Assignment} {c c' : Cursor}
    {pre : Bytes} (last : AtLast src assignments a c c' pre) (plain : b.value.isCall = false) :
    AtLast src (b :: assignments) a c c' (b.text ++ lit "," ++ pre) := by
  obtain ⟨next, rest, rfl⟩ := List.exists_cons_of_ne_nil (l := assignments) (by
    rintro rfl
    cases last.last)
  refine ⟨last.at', last.ends, last.last, fun x mem => ?_, ?_⟩
  · rcases List.mem_cons.mp (List.dropLast_cons_cons ▸ mem) with rfl | mem
    · exact plain
    · exact last.plain x mem
  · rw [List.map_cons, commas_cons _ (by simp), ← last.text]
    simp

theorem AtCall.cons {src : Bytes} {assignments : List Assignment} {a : Assignment} {c : Cursor}
    {pre : Bytes} (at' : AtCall src assignments a c pre) (b : Assignment) :
    AtCall src (b :: assignments) a c (b.text ++ lit "," ++ pre) := by
  obtain ⟨next, others, rfl⟩ := List.exists_cons_of_ne_nil (l := assignments) (by
    rintro rfl
    cases at'.mem)
  obtain ⟨rest, text⟩ := at'.text
  refine ⟨at'.call, List.dropLast_cons_cons ▸ List.mem_cons_of_mem _ at'.mem, at'.next, rest, ?_⟩
  rw [List.map_cons, commas_cons _ (by simp), text]
  simp

/-- The loop comes to the last assignment, or to the first function in front of it. -/
theorem assignLoop_reaches {c c' : Cursor} {assignments : List Assignment}
    (list : ListAt G.src (AssignmentAt G.src) c assignments c') (here : s.cursor = c)
    (room : left G.src c < rounds) :
    ∃ rounds₁ s₁ d pre a, Reaches G rounds s rounds₁ s₁ d pre ∧
      (AtLast G.src assignments a d c' pre ∨ AtCall G.src assignments a d pre) := by
  induction list generalizing s rounds with
  | @last c c' a at' ends =>
      subst here
      exact ⟨rounds, s, s.cursor, [], a, Reaches.refl room,
          .inl ⟨at', ends, rfl, nofun, by rw [List.map_singleton, commas_single]; rfl⟩⟩
  | @more c d e c' a assignments at' comma step rest ih =>
      subst here
      obtain ⟨b, _, next, head⟩ := rest.head
      obtain ⟨others, rfl⟩ : ∃ others, assignments = b :: others := by
        cases assignments with
        | nil => cases head
        | cons b' others => exact ⟨others, by rw [Option.some.inj head]⟩
      cases call : a.value.isCall with
      | true =>
          refine ⟨rounds, s, s.cursor, [], a, Reaches.refl room, .inr ⟨call, ?_, ?_, ?_⟩⟩
          · exact List.dropLast_cons_cons ▸ List.mem_cons_self
          · exact ⟨d, e, at', comma, step, next.id⟩
          · refine ⟨commas ((b :: others).map Assignment.text), ?_⟩
            rw [List.map_cons, commas_cons _ (by simp)]
            rfl
      | false =>
          obtain ⟨s₁, x, writes, last, run⟩ := assignment_plain at' call
          have behind := behindValue_comma last comma step next.id
          let s₂ := ((s₁.seek d).put (.text (lit ","))).seek e
          have written : Writes s e (a.text ++ lit ",") s₂ :=
            ((writes.seek d).append (.text (lit ","))).seek e
          obtain ⟨rounds, rfl⟩ : ∃ n, rounds = n + 1 := ⟨rounds - 1, by omega⟩
          have again : assignLoop G (rounds + 1) s = assignLoop G rounds (s₂.lapped s.cursor) :=
            loopWhile_again (by rw [at'.id]; rfl) (run.trans behind)
          have less := (at'.passed.trans step.reached).left
          obtain ⟨rounds₁, s₃, f, pre, last, reaches, ends⟩ := ih
            (s := s₂.lapped s.cursor) rfl (by omega : left G.src e < rounds)
          refine ⟨rounds₁, s₃, f, a.text ++ lit "," ++ pre, last, ⟨?_, ?_, reaches.room, ?_⟩,
            ends.imp (fun last => last.cons call) fun at' => at'.cons a⟩
          · exact (written.lapped s.cursor).trans reaches.writes
          · exact again.trans reaches.run
          · exact (at'.passed.reached.trans step.reached).trans reaches.reached

/-! ## What a token's text starts with -/

theorem skipws_stops {src : Bytes} {c : Cursor} (more : (skipws src c).pos < src.length) :
    iswspace (charAt src (skipws src c).pos) = false := by
  have split := List.takeWhile_append_dropWhile (p := iswspace) (l := src.drop c.pos)
  have some : (src.drop c.pos).dropWhile iswspace ≠ [] := by
    intro none
    rw [none, List.append_nil] at split
    have length := congrArg List.length split
    rw [List.length_drop] at length
    change c.pos + ((src.drop c.pos).takeWhile iswspace).length < src.length at more
    omega
  have stops := List.head_dropWhile_not iswspace (l := src.drop c.pos) some
  have item : ((src.drop c.pos).takeWhile iswspace ++ (src.drop c.pos).dropWhile iswspace)[
      ((src.drop c.pos).takeWhile iswspace).length]? =
        Option.some (((src.drop c.pos).dropWhile iswspace).head some) := by
    rw [List.getElem?_append_right (Nat.le_refl _), Nat.sub_self, ← List.head?_eq_getElem?,
      List.head?_eq_some_head some]
  rw [split, List.getElem?_drop] at item
  have first : charAt src (skipws src c).pos = ((src.drop c.pos).dropWhile iswspace).head some := by
    show src.getD (c.pos + ((src.drop c.pos).takeWhile iswspace).length) 0 = _
    rw [List.getD_eq_getElem?_getD, item]
    rfl
  rw [first]
  exact stops

theorem scanword_lexum {src : Bytes} {c : Cursor} :
    ∃ rest, (scanword src c).lexum = c.lexum ++ rest := by
  unfold scanword
  dsimp only
  split
  · exact ⟨_, rfl⟩
  · split
    · exact ⟨_, rfl⟩
    · split
      · exact ⟨_, rfl⟩
      · exact ⟨_, rfl⟩

theorem scanSymbol_id {src : Bytes} {ch : UInt8} {c : Cursor}
    (id : (scanSymbol src ch c).2.token = .id) :
    ch ≠ 44 ∧ ∃ rest, (scanSymbol src ch c).2.lexum = c.lexum ++ rest := by
  constructor
  · rintro rfl
    cases id
  · revert id
    refine scanSymbol_cases
      (motive := fun r => r.2.token = .id → ∃ rest, r.2.lexum = c.lexum ++ rest)
      (fun _ id => ?_) nofun nofun nofun (fun _ id => ?_) (fun _ id => ?_) nofun nofun nofun
      (fun _ => nofun) fun _ => scanword_lexum
    · unfold scanstr at id
      dsimp only at id
      split at id <;> cases id
    · unfold scanGt at id
      dsimp only at id
      split at id <;> cases id
    · unfold scanLt at id
      dsimp only at id
      split at id <;> split at id <;> cases id

/-- The text of an identifier starts with no comma and no blank. -/
theorem Step.id_first {src : Bytes} {c d : Cursor} (step : Step src c d) (id : d.token = .id) :
    ∃ ch rest, d.lexum = ch :: rest ∧ ch ≠ 44 ∧ ch ≠ 32 := by
  obtain rfl : (sqltokenizer src c).2 = d := congrArg Prod.snd step
  revert id
  unfold sqltokenizer
  dsimp only
  split
  case isTrue => nofun
  case isFalse more =>
    have blank := skipws_stops (Nat.lt_of_not_le more)
    split
    case isTrue => nofun
    case isFalse =>
      intro id
      obtain ⟨comma, rest, same⟩ := scanSymbol_id id
      refine ⟨_, rest, same, comma, ?_⟩
      intro space
      rw [space] at blank
      cases blank

/-! ## What is written stays -/

theorem chain_grows (chain : Attempt.Chain (Move G) s s') :
    ∃ more, s'.written = s.written ++ more := by
  have stays : s.dp.tsql <+: s'.dp.tsql := by
    induction chain with
    | refl => exact List.prefix_refl _
    | tail _ move ih => exact ih.trans move.stays
  obtain ⟨pieces, same⟩ := stays
  exact ⟨pieces.flatMap Piece.render, by rw [Parse.written, ← same, List.flatMap_append]; rfl⟩

theorem Goes.grows {α : Type} {m : Parser α} {a : α} (goes : Goes G m s)
    (run : m s = (.ok a, s')) : ∃ more, s'.written = s.written ++ more := by
  have grows := chain_grows goes.chain
  rwa [run] at grows

/-- An assignment writes its field first. -/
theorem assignment_first {c : Cursor} (step : Step G.src c s.cursor) (id : s.cursor.token = .id)
    (run : assignment G s = (.ok (), s')) :
    ∃ ch rest, s'.written = s.written ++ ch :: rest ∧ ch ≠ 44 ∧ ch ≠ 32 := by
  obtain ⟨_, s₁, field, tail⟩ := bind_ok_iff.mp run
  obtain ⟨f, at'⟩ := parseField_at field
  obtain ⟨s₂, field', writes⟩ := parseField_reads at'
  obtain rfl := (Prod.mk.inj (field.symm.trans field')).2
  obtain ⟨ch, rest, lexum, comma, blank⟩ := step.id_first id
  have starts : ∃ more, f.text = ch :: more := by
    cases at' with
    | plain => exact ⟨rest, lexum⟩
    | @dotted d e =>
        exact ⟨rest ++ lit "." ++ e.lexum, by
          show s.cursor.lexum ++ lit "." ++ e.lexum = _
          rw [lexum]
          rfl⟩
  have goes : Goes G (do
      expect .eq .expOp
      text " = "
      next G
      assigned G
      text " "
      next G
      if (← token) ≠ .comma then pure ()
      else
        text ","
        next G
        expect .id .expFields : Parser Unit) s₁ :=
    expect_then fun _ => text_then (next_then (Runs.seq assigned_goes fun _ s₂ _ =>
      text_then (next_then (comma_goes fun _ _ => text_then (next_then expect_goes)))))
  obtain ⟨more, grown⟩ := goes.grows tail
  obtain ⟨first, starts⟩ := starts
  exact ⟨ch, first ++ more, by rw [grown, writes.written, starts]; simp, comma, blank⟩

/-! ## Behind the assignments -/

theorem assignLoop_goes (s : Parse) (room : left G.src s.cursor < rounds) :
    Goes G (assignLoop G rounds) s :=
  loopWhile_goes room fun _ _ _ => assignment_takes

theorem finish_goes (s : Parse) : Goes G (finish G) s :=
  token_then (Runs.seq (only_goes fun _ => skip_goes) fun _ _ _ => expect_goes)

theorem updateEnd_goes {caller : Cursor} {cell : Nat} (here : Reached G.src caller s.cursor)
    (room : left G.src caller < rounds) : Goes G (updateEnd G rounds caller cell) s :=
  Runs.seq (parseWhere_goes (subSelect_goes room) here (Nat.lt_of_le_of_lt here.left room))
    fun _ s₁ _ => finish_goes s₁

/-- The end of the text, with or without a semicolon. -/
structure Ends (src : Bytes) (c : Cursor) : Prop where
  token : c.token = .eos ∨ c.token = .semi ∧ (sqltokenizer src c).2.token = .eos

theorem finish_ok (run : finish G s = (.ok (), s')) :
    Ends G.src s.cursor ∧ s'.written = s.written := by
  unfold finish at run
  rw [token_run] at run
  by_cases semi : s.cursor.token = .semi
  · rw [semi] at run
    have run : expect .eos .errSyntax (s.next G) = (.ok (), s') := run
    obtain ⟨eos, rfl⟩ := expect_ok_iff.mp run
    exact ⟨⟨.inr ⟨semi, eos⟩⟩, rfl⟩
  · have none : decide (s.cursor.token = .semi) = false := by simpa using semi
    rw [none] at run
    have run : expect .eos .errSyntax s = (.ok (), s') := run
    obtain ⟨eos, rfl⟩ := expect_ok_iff.mp run
    exact ⟨⟨.inl eos⟩, rfl⟩

theorem finish_eos (eos : s.cursor.token = .eos) : finish G s = (.ok (), s) := by
  unfold finish
  rw [token_run, eos]
  exact expect_run eos

theorem updateEnd_plain {caller : Cursor} {cell : Nat} (other : s.cursor.token ≠ .where) :
    updateEnd G rounds caller cell s = finish G s := by
  have none : parseWhere G (subSelect G rounds caller) rounds cell false s = (.ok (), s) := by
    show (if s.cursor.token ≠ .where then _ else _ : Parser Unit) s = _
    rw [if_pos other]
    rfl
  rw [updateEnd, Attempt.bind_ok none]

/-- WHERE, and no second one behind it. -/
theorem updateEnd_where {caller : Cursor} {cell : Nat} (isWhere : s.cursor.token = .where)
    (reached : Reached G.src caller s.cursor) (room : left G.src caller < rounds)
    (run : updateEnd G rounds caller cell s = (.ok (), s')) :
    (∃ more, s'.written = s.written ++ lit " WHERE " ++ more) ∧
      ∀ c, Step G.src s.cursor c → c.token ≠ .where := by
  obtain ⟨_, s₁, clause, last⟩ := bind_ok_iff.mp run
  have clause : (do
      next G
      parseConditions G (subSelect G rounds caller) rounds cell false false : Parser Unit)
        (s.put (.text (lit " WHERE "))) = (.ok (), s₁) := by
    have clause : (if s.cursor.token ≠ .where then _ else _ : Parser Unit) s = _ := clause
    rw [if_neg (not_not.mpr isWhere)] at clause
    exact clause
  obtain ⟨c, step, conditions⟩ := read_ok_iff.mp clause
  have here : Reached G.src caller c := reached.trans (step.reached : Reached G.src s.cursor c)
  have room' : left G.src c < rounds := Nat.lt_of_le_of_lt here.left room
  refine ⟨?_, fun d step' other => ?_⟩
  · obtain ⟨more, one⟩ := (parseConditions_goes (subSelect_goes room)
      here room').grows conditions
    obtain ⟨-, two⟩ := finish_ok last
    refine ⟨more, two.trans (one.trans ?_)⟩
    have written := (Writes.put s (.text (lit " WHERE "))).written
    show (s.put (.text (lit " WHERE "))).written ++ more = _
    rw [written]
    rfl
  · obtain rfl := step'.unique step
    obtain ⟨n, rfl⟩ : ∃ n, rounds = n + 1 := ⟨rounds - 1, by omega⟩
    have stopped : parseConditions G (subSelect G (n + 1) caller) (n + 1) cell false false
        ((s.put (.text (lit " WHERE "))).seek d) =
          (.ok (), (s.put (.text (lit " WHERE "))).seek d) := by
      refine repeats_leave ?_
      show (if d.token = .id ∨ d.token = .lpar then _ else _ : Parser (Round (Nat × Sqltoken) Unit))
        _ = _
      rw [if_neg (by rw [other]; nofun)]
      rfl
    obtain rfl := (Prod.mk.inj (stopped.symm.trans conditions)).2
    obtain ⟨ends, -⟩ := finish_ok last
    rcases ends.token with eos | ⟨semi, -⟩
    · exact nomatch other.symm.trans eos
    · exact nomatch other.symm.trans semi

/-! ## The statement -/

theorem parseSQL_update (head : parseHead G rounds Parser.start = (.ok (), s))
    (update : s.cursor.token = .update) : parseSQL G rounds = (.ok (), s') ↔
      ∃ s₁, parseUpdate G rounds s = (.ok (), s₁) ∧ finish G s₁ = (.ok (), s') := by
  have code : parseCode G rounds s = (do
      parseUpdate G rounds
      finish G : Parser Unit) s := by
    unfold parseCode
    rw [token_run, update]
    rfl
  have run : parseSQL G rounds = parseCode G rounds s := Attempt.bind_ok head
  rw [run, code, bind_ok_iff]
  exact ⟨fun ⟨_, s₁, one, two⟩ => ⟨s₁, one, two⟩, fun ⟨s₁, one, two⟩ => ⟨(), s₁, one, two⟩⟩

/-- The loop of the statement, in front of the assignments. -/
structure Started (G : Given) (rounds : Nat) (s : Parse) (table : Bytes) (c : Cursor) (s₀ : Parse) :
    Prop where
  writes : Writes s.updating c (lit "UPDATE " ++ definedText table ++ lit " SET ") s₀
  reached : Reached G.src s.cursor c
  run : parseUpdate G rounds s = (do
    assignLoop G rounds
    parseWhere G (subSelect G rounds s.cursor) rounds s.cells.length false : Parser Unit) s₀

theorem UpdateAt.started {table : Bytes} {assignments : List Assignment} {c : Cursor}
    (at' : UpdateAt G.src s.cursor table assignments c) (rounds : Nat) :
    ∃ f s₀, ListAt G.src (AssignmentAt G.src) f assignments c ∧ Started G rounds s table f s₀ := by
  obtain ⟨d, e, f, one, id, rfl, two, set, three, list⟩ := at'.head
  let s₁ := (s.updating.put (.text (lit "UPDATE "))).seek d
  let s₂ := (s₁.put (.text (definedText d.lexum))).seek e
  let s₃ := (s₂.put (.text (lit " SET "))).seek f
  have written : Writes s.updating f (lit "UPDATE " ++ definedText d.lexum ++ lit " SET ") s₃ :=
    (((((Writes.put s.updating (.text (lit "UPDATE "))).seek d).append
      (.text (definedText d.lexum))).seek e).append (.text (lit " SET "))).seek f
  refine ⟨f, s₃, list, written, one.reached.trans (two.reached.trans three.reached), ?_⟩
  show (expect .update .errSyntax >>= _) s.updating = _
  refine (Attempt.bind_ok (expect_run (s := s.updating) at'.update)).trans ?_
  refine (Attempt.bind_ok (next_reads (s := s.updating.put (.text (lit "UPDATE "))) one)).trans ?_
  refine (Attempt.bind_ok (expect_run (s := s₁) id)).trans ?_
  refine (Attempt.bind_ok (next_reads (s := s₁.put (.text (definedText d.lexum))) two)).trans ?_
  refine (Attempt.bind_ok (expect_run (s := s₂) set)).trans ?_
  exact Attempt.bind_ok (next_reads (s := s₂.put (.text (lit " SET "))) three)

theorem Started.ok_iff {table : Bytes} {c : Cursor} {s₀ : Parse}
    (started : Started G rounds s table c s₀)
    (head : parseHead G rounds Parser.start = (.ok (), s)) (update : s.cursor.token = .update) :
    parseSQL G rounds = (.ok (), s') ↔ ∃ s₁, assignLoop G rounds s₀ = (.ok (), s₁) ∧
      updateEnd G rounds s.cursor s.cells.length s₁ = (.ok (), s') := by
  rw [parseSQL_update head update, started.run]
  constructor
  · rintro ⟨s₂, run, last⟩
    obtain ⟨_, s₁, loop, clause⟩ := bind_ok_iff.mp run
    exact ⟨s₁, loop, bind_ok_iff.mpr ⟨(), s₂, clause, last⟩⟩
  · rintro ⟨s₁, loop, rest⟩
    obtain ⟨_, s₂, clause, last⟩ := bind_ok_iff.mp rest
    exact ⟨s₂, bind_ok_iff.mpr ⟨(), s₁, loop, clause⟩, last⟩

theorem head_room (room : 2 * G.src.length + 1 < rounds)
    (head : parseHead G rounds Parser.start = (.ok (), s)) : left G.src s.cursor < rounds := by
  have start : left G.src Parser.start.cursor = 2 * G.src.length := by simp [left, Parser.start]
  have goes : Goes G (parseHead G rounds) Parser.start := parseHead_goes (by omega)
  have := (goes.reached head).left
  omega

/-- Two continuations of one text start alike. -/
theorem clash {text one two : Bytes} {a b : UInt8} (same : text ++ a :: one = text ++ b :: two) :
    a = b :=
  (List.cons.inj (List.append_cancel_left same)).1

/-- At a function in front of another assignment the comma behind it is passed unread: the name of
the next field is written where the comma should stand. -/
theorem call_unseparated {c : Cursor} {a : Assignment} {assignments : List Assignment} {pre : Bytes}
    (at' : AtCall G.src assignments a c pre) (here : s.cursor = c) (room : left G.src c < rounds)
    (run : assignLoop G rounds s = (.ok (), s')) :
    ∃ ch rest, s'.written = s.written ++ (a.text ++ ch :: rest) ∧ ch ≠ 44 := by
  subst here
  obtain ⟨d, e, at'', comma, step, id⟩ := at'.next
  rcases loopWhile_ok_cases run with ⟨stops, -⟩ | ⟨-, rounds, rfl, s₁, one, more⟩
  · exact absurd (stops.symm.trans (show decide (s.cursor.token = .id) = true by simp [at''.id]))
      nofun
  cases aggregate : a.value.isAggregate with
  | true => exact absurd one (assignment_aggregate at'' aggregate (by rw [comma]; nofun))
  | false =>
      obtain ⟨s₂, writes, run⟩ := assignment_call at'' at'.call aggregate
      rw [run, behindValue_last (writes.cursor.symm ▸ step) (by rw [id]; nofun)] at one
      obtain rfl := (Prod.mk.inj one).2
      have less := (at''.passed.trans step.reached).left
      have token : ((s₂.seek e).lapped s.cursor).cursor.token = .id := id
      rcases loopWhile_ok_cases more with ⟨stops, -⟩ | ⟨-, rounds, rfl, s₃, two, rest⟩
      · exact absurd (stops.symm.trans (show decide _ = true by rw [token]; rfl)) nofun
      obtain ⟨ch, first, grown, other, -⟩ := assignment_first (s := (s₂.seek e).lapped s.cursor)
        step token two
      have passed := (assignment_takes (G := G) (s := (s₂.seek e).lapped s.cursor)).result
      rw [two] at passed
      have less' := (passed () rfl).left
      obtain ⟨last, grown'⟩ := (assignLoop_goes (s₃.lapped _)
        (show left G.src s₃.cursor < rounds by
          change left G.src s₃.cursor < left G.src e at less'
          omega)).grows rest
      refine ⟨ch, first ++ last, ?_, other⟩
      rw [grown']
      show s₃.written ++ last = _
      rw [grown]
      show s₂.written ++ _ ++ last = _
      rw [writes.written]
      simp

/-- With a function in front of WHERE, WHERE is passed unread: it is never written. -/
theorem call_where {c c' : Cursor} {a : Assignment} {assignments : List Assignment} {pre : Bytes}
    {caller : Cursor} {cell : Nat} {s₁ s₂ : Parse} (last : AtLast G.src assignments a c c' pre)
    (call : a.value.isCall = true) (isWhere : c'.token = .where) (here : s.cursor = c)
    (reached : Reached G.src caller c) (room : left G.src caller < rounds) {rounds₁ : Nat}
    (room₁ : left G.src c < rounds₁) (run : assignLoop G rounds₁ s = (.ok (), s₁))
    (rest : updateEnd G rounds caller cell s₁ = (.ok (), s₂))
    (single : ∀ d, Step G.src c' d → d.token ≠ .where) :
    ∃ more, s₂.written = s.written ++ (a.text ++ more) ∧ more.head? ≠ some 32 := by
  subst here
  have at' := last.at'
  rcases loopWhile_ok_cases run with ⟨stops, -⟩ | ⟨-, rounds₁, rfl, s₃, one, more⟩
  · exact absurd (stops.symm.trans (show decide (s.cursor.token = .id) = true by simp [at'.id]))
      nofun
  cases aggregate : a.value.isAggregate with
  | true => exact absurd one (assignment_aggregate at' aggregate (by rw [isWhere]; nofun))
  | false =>
      have taken := (assignment_takes (G := G) (s := s)).result
      rw [one] at taken
      have passed := taken () rfl
      have less : left G.src s₃.cursor < left G.src s.cursor := passed.left
      have loops : Goes G (assignLoop G rounds₁) (s₃.lapped s.cursor) :=
        assignLoop_goes _ (show left G.src s₃.cursor < rounds₁ by omega)
      have behind : Reached G.src caller s₁.cursor :=
        reached.trans (passed.reached.trans (loops.reached more))
      obtain ⟨tail, grown⟩ := (updateEnd_goes behind room).grows rest
      obtain ⟨tail₁, grown₁⟩ := loops.grows more
      have grown₁ : s₁.written = s₃.written ++ tail₁ := grown₁
      obtain ⟨s₄, writes, run⟩ := assignment_call at' call aggregate
      rw [run, behindValue, read_ok_iff] at one
      obtain ⟨d, step, one⟩ := one
      rw [writes.cursor] at step
      rw [token_run, Parse.seek_cursor] at one
      by_cases comma : d.token = .comma
      · rw [if_neg (not_not.mpr comma)] at one
        let s₅ := (s₄.seek d).put (.text (lit ","))
        have goes : Goes G (do next G; expect .id .expFields : Parser Unit) s₅ :=
          next_then expect_goes
        obtain ⟨tail₂, grown₂⟩ := goes.grows one
        have comma : s₅.written = s₄.written ++ lit "," :=
          ((Writes.refl (s₄.seek d)).append (.text (lit ","))).written
        refine ⟨lit "," ++ tail₂ ++ tail₁ ++ tail, ?_, ?_⟩
        · rw [grown, grown₁, grown₂, comma, writes.written]
          simp
        · exact fun same => absurd (Option.some.inj same) (by decide)
      rw [if_pos comma] at one
      obtain rfl := (Prod.mk.inj one).2
      rcases loopWhile_ok_cases more with ⟨stops, rfl⟩ | ⟨starts, rounds₁, rfl, s₅, two, rest'⟩
      · -- nothing more is assigned
        obtain ⟨-, written⟩ := finish_ok ((updateEnd_plain (single d step)).symm.trans rest)
        refine ⟨[], ?_, nofun⟩
        rw [written, List.append_nil]
        exact writes.written
      · -- the condition is read as an assignment
        have id : d.token = .id := of_decide_eq_true starts
        obtain ⟨ch, first, field, -, blank⟩ := assignment_first
          (s := (s₄.seek d).lapped s.cursor) step id two
        have taken' := (assignment_takes (G := G) (s := (s₄.seek d).lapped s.cursor)).result
        rw [two] at taken'
        have less' : left G.src s₅.cursor < left G.src d := (taken' () rfl).left
        have loops' : Goes G (assignLoop G rounds₁) (s₅.lapped d) :=
          assignLoop_goes _ (show left G.src s₅.cursor < rounds₁ by
            change left G.src d < _ at less
            omega)
        obtain ⟨tail₂, grown₂⟩ := loops'.grows rest'
        have grown₂ : s₁.written = s₅.written ++ tail₂ := grown₂
        have field : s₅.written = s₄.written ++ ch :: first := field
        refine ⟨ch :: (first ++ tail₂ ++ tail), ?_, ?_⟩
        · rw [grown, grown₂, field, writes.written]
          simp
        · exact fun same => blank (Option.some.inj same)

/-- The last assignment without a function. -/
theorem last_plain {c c' : Cursor} {a : Assignment} {assignments : List Assignment} {pre : Bytes}
    (last : AtLast G.src assignments a c c' pre) (plain : a.value.isCall = false)
    (stops : c'.token ≠ .id) (here : s.cursor = c) (room : left G.src c < rounds) :
    ∃ s', assignLoop G rounds s = (.ok (), s') ∧ Writes s c' a.text s' := by
  subst here
  have at' := last.at'
  obtain ⟨s₁, d, writes, step, run⟩ := assignment_plain at' plain
  have less := at'.passed.left
  obtain ⟨rounds, rfl⟩ : ∃ n, rounds = n + 1 + 1 := ⟨rounds - 2, by omega⟩
  let s₂ := (s₁.seek c').lapped s.cursor
  have again : assignLoop G (rounds + 1 + 1) s = assignLoop G (rounds + 1) s₂ :=
    loopWhile_again (by rw [at'.id]; rfl) (run.trans (behindValue_last step last.ends))
  have ended : assignLoop G (rounds + 1) s₂ = (.ok (), s₂) :=
    loopWhile_end (decide_eq_false stops)
  exact ⟨_, again.trans ended, (writes.seek c').lapped s.cursor⟩

/-- The last assignment with a function, in front of the end: the end is passed, once more. -/
theorem last_call {c c' d : Cursor} {a : Assignment} {assignments : List Assignment} {pre : Bytes}
    (last : AtLast G.src assignments a c c' pre) (call : a.value.isCall = true)
    (plain : a.value.isAggregate = false) (step : Step G.src c' d) (eos : d.token = .eos)
    (here : s.cursor = c) (room : left G.src c < rounds) :
    ∃ s', assignLoop G rounds s = (.ok (), s') ∧ Writes s d a.text s' := by
  subst here
  have at' := last.at'
  obtain ⟨s₁, writes, run⟩ := assignment_call at' call plain
  have less := at'.passed.left
  obtain ⟨rounds, rfl⟩ : ∃ n, rounds = n + 1 + 1 := ⟨rounds - 2, by omega⟩
  let s₂ := (s₁.seek d).lapped s.cursor
  have again : assignLoop G (rounds + 1 + 1) s = assignLoop G (rounds + 1) s₂ :=
    loopWhile_again (by rw [at'.id]; rfl)
      (run.trans (behindValue_last (writes.cursor.symm ▸ step) (by rw [eos]; nofun)))
  have ended : assignLoop G (rounds + 1) s₂ = (.ok (), s₂) := by
    refine loopWhile_end ?_
    show decide (d.token = .id) = false
    rw [eos]
    rfl
  exact ⟨_, again.trans ended, (writes.seek d).lapped s.cursor⟩

theorem ListAt.reached {ι : Type} {src : Bytes} {item : Cursor → ι → Cursor → Prop} {c c' : Cursor}
    {is : List ι} (list : ListAt src item c is c')
    (items : ∀ c i c', item c i c' → Reached src c c') : Reached src c c' := by
  induction list with
  | last at' _ => exact items _ _ _ at'
  | more at' _ step _ ih => exact (items _ _ _ at').trans (step.reached.trans ih)

/-- An item ends behind a step of the tokenizer. -/
theorem SetValueAt.stepped {src : Bytes} {c c' : Cursor} {v : SetValue}
    (at' : SetValueAt src c v c') : ∃ d, Step src d c' := by
  cases at' with
  | num _ step => exact ⟨c, step⟩
  | string _ step => exact ⟨c, step⟩
  | var _ step => exact ⟨c, step⟩
  | call call =>
      cases call with
      | getdate _ _ _ _ _ _ last => exact ⟨_, last⟩
      | count _ _ _ _ _ _ _ _ last => exact ⟨_, last⟩
      | aggregate _ _ _ _ _ _ _ last => exact ⟨_, last⟩

theorem eos_read {src : Bytes} {c : Cursor} (eos : (sqltokenizer src c).2.token = .eos) :
    Step src c (sqltokenizer src c).2 := by
  refine Prod.ext ?_ rfl
  revert eos
  unfold sqltokenizer
  dsimp only
  split
  case isTrue => exact fun _ => rfl
  case isFalse =>
    split
    case isTrue => exact fun _ => rfl
    case isFalse =>
      intro eos
      exact absurd eos (scanSymbol_scanned _ _ _).token

/-- Behind the end there is the end. -/
theorem Step.eos_again {src : Bytes} {c d : Cursor} (step : Step src c d) (eos : d.token = .eos) :
    ∃ e, Step src d e ∧ e.token = .eos := by
  have moved := sqltokenizer_moved src c
  rw [step] at moved
  cases moved with
  | on token => exact absurd eos token
  | eos _ ended _ =>
      have past : src.length ≤ (skipws src d).pos := Nat.le_trans ended (skipws_pos src d)
      have again : (sqltokenizer src d).2.token = .eos := by
        unfold sqltokenizer
        dsimp only
        rw [if_pos past]
      exact ⟨_, eos_read again, again⟩

/-- Behind assignments that end the text there is nothing but the end. -/
theorem Ends.step {src : Bytes} {c : Cursor} (ends : Ends src c) (stepped : ∃ d, Step src d c) :
    ∃ e, Step src c e ∧ e.token = .eos := by
  rcases ends.token with eos | ⟨-, eos⟩
  · obtain ⟨d, step⟩ := stepped
    exact step.eos_again eos
  · exact ⟨_, eos_read eos, eos⟩

/-- An UPDATE keeps its assignments and its WHERE exactly when it assigns no function but in the
last assignment, and there none with a field and none in front of WHERE. -/
theorem update_keeps_iff (G : Given) (rounds : Nat) (room : 2 * G.src.length + 1 < rounds)
    (s : Parse) (head : parseHead G rounds Parser.start = (.ok (), s)) (table : Bytes)
    (assignments : List Assignment) (c : Cursor)
    (at' : UpdateAt G.src s.cursor table assignments c)
    (rest : ∀ s₁, Writes s.updating c (updateText table assignments) s₁ →
      ∃ s₂, updateEnd G rounds s.cursor s.cells.length s₁ = (.ok (), s₂)) :
    KeepsAssignments G rounds s table assignments c ↔ Plainly assignments c := by
  have roomy := head_room room head
  obtain ⟨f, s₀, list, started⟩ := at'.started rounds
  have room₀ : left G.src f < rounds := Nat.lt_of_le_of_lt started.reached.left roomy
  obtain ⟨rounds₁, s₁, d, pre, a, reaches, ends⟩ :=
    assignLoop_reaches list started.writes.cursor room₀
  constructor
  · rintro ⟨s₂, s₃, s', writes, clause, accepted, same⟩
    obtain ⟨s₄, loop, last⟩ := (started.ok_iff head at'.update).mp accepted
    rw [reaches.run] at loop
    have here : Reached G.src s.cursor s₂.cursor := by
      rw [writes.cursor]
      exact started.reached.trans (list.reached fun _ _ _ at' => at'.passed.reached)
    have behind : Reached G.src s.cursor d :=
      started.reached.trans (started.writes.cursor ▸ reaches.reached)
    -- what both translations start with
    have front : s₁.written = s.updating.written ++
        ((lit "UPDATE " ++ definedText table ++ lit " SET ") ++ pre) :=
      (started.writes.trans reaches.writes).written
    obtain ⟨more, wanted⟩ := (updateEnd_goes here roomy).grows clause
    rw [writes.written] at wanted
    rcases ends with end' | at''
    · refine ⟨end'.plain, fun b mem call => ?_⟩
      obtain rfl : a = b := Option.some.inj (end'.last.symm.trans mem)
      by_cases isWhere : c.token = .where
      · exfalso
        obtain ⟨⟨more, wanted⟩, single⟩ :=
          updateEnd_where (writes.cursor.symm ▸ isWhere) here roomy clause
        obtain ⟨other, written, first⟩ := call_where end' call isWhere reaches.writes.cursor behind
          roomy reaches.room loop last fun d step => single d (writes.cursor.symm ▸ step)
        have equal : other = lit " WHERE " ++ more := by
          rw [written, wanted, writes.written, front, updateText, ← end'.text] at same
          simpa using same
        exact first (by rw [equal]; rfl)
      · refine ⟨?_, isWhere⟩
        by_contra aggregate
        rw [updateEnd_plain (writes.cursor.symm ▸ isWhere)] at clause
        obtain ⟨ended, -⟩ := finish_ok clause
        have single : c.token ≠ .rpar := by
          have token := ended.token
          rw [writes.cursor] at token
          rcases token with eos | ⟨semi, -⟩
          · rw [eos]; nofun
          · rw [semi]; nofun
        have at'' := end'.at'
        rw [← reaches.writes.cursor] at at''
        rcases loopWhile_ok_cases loop with ⟨stops, -⟩ | ⟨-, _, -, s₅, one, -⟩
        · exact absurd (stops.symm.trans (decide_eq_true at''.id)) nofun
        · exact assignment_aggregate at'' (by simpa using aggregate) single one
    · exfalso
      obtain ⟨ch, others, written, comma⟩ :=
        call_unseparated at'' reaches.writes.cursor reaches.room loop
      have loops := assignLoop_goes (G := G) s₁ (reaches.writes.cursor.symm ▸ reaches.room)
      have reached : Reached G.src s.cursor s₄.cursor :=
        behind.trans (reaches.writes.cursor ▸ loops.reached loop)
      obtain ⟨tail, grown⟩ := (updateEnd_goes reached roomy).grows last
      obtain ⟨rest, text⟩ := at''.text
      rw [grown, written, front, wanted, updateText, text] at same
      have same : (s.updating.written ++ (lit "UPDATE " ++ definedText table ++ lit " SET ") ++
          pre ++ a.text) ++ ch :: (others ++ tail) = (s.updating.written ++ (lit "UPDATE " ++
            definedText table ++ lit " SET ") ++ pre ++ a.text) ++ 44 :: (rest ++ more) := by
        simpa [show lit "," = [44] by decide] using same
      exact comma (clash same)
  · intro plainly
    rcases ends with end' | at''
    case inr => exact absurd (plainly.1 a at''.mem) (by rw [at''.call]; nofun)
    have texts : Writes s.updating d
        ((lit "UPDATE " ++ definedText table ++ lit " SET ") ++ pre) s₁ :=
      started.writes.trans reaches.writes
    have whole : (lit "UPDATE " ++ definedText table ++ lit " SET ") ++ pre ++ a.text =
        updateText table assignments := by
      rw [updateText, ← end'.text]
      simp
    cases call : a.value.isCall with
    | false =>
        obtain ⟨s₂, loop, writes⟩ := last_plain end' call at'.ends reaches.writes.cursor
          reaches.room
        have written := whole ▸ texts.trans writes
        obtain ⟨s₃, clause⟩ := rest s₂ written
        exact ⟨s₂, s₃, s₃, written, clause, (started.ok_iff head at'.update).mpr
          ⟨s₂, reaches.run.trans loop, clause⟩, rfl⟩
    | true =>
        obtain ⟨plain, isWhere⟩ := plainly.2 a end'.last call
        -- a state behind the assignments, to read what ends the text
        have written := whole ▸ texts.trans ((Writes.put s₁ (.text a.text)).seek c)
        obtain ⟨s₃, clause⟩ := rest _ written
        rw [updateEnd_plain isWhere] at clause
        obtain ⟨ended, same⟩ := finish_ok clause
        obtain ⟨_, _, _, _, _, value⟩ := end'.at'
        obtain ⟨e, step, eos⟩ := ended.step value.stepped
        obtain ⟨s₂, loop, writes⟩ := last_call end' call plain step eos reaches.writes.cursor
          reaches.room
        have last : updateEnd G rounds s.cursor s.cells.length s₂ = (.ok (), s₂) := by
          rw [updateEnd_plain (by rw [writes.cursor, eos]; nofun)]
          exact finish_eos (writes.cursor.symm ▸ eos)
        refine ⟨_, s₃, s₂, written, (updateEnd_plain isWhere).trans clause,
          (started.ok_iff head at'.update).mpr ⟨s₂, reaches.run.trans loop, last⟩, ?_⟩
        rw [same, writes.written]
        exact ((Writes.put s₁ (.text a.text)).seek c).written.symm

/-! ## Concrete statements -/

/-- The state in front of the statement of a procedure. -/
def headed (src : String) : Parse :=
  (parseHead (firstNamed src) (2 * (lit src).length + 2) Parser.start).2

theorem headed_run {src : String}
    (head : (parseHead (firstNamed src) (2 * (lit src).length + 2) Parser.start).1 = .ok ()) :
    parseHead (firstNamed src) (2 * (lit src).length + 2) Parser.start = (.ok (), headed src) :=
  Prod.ext head rfl

/-- Assignments that end the text. -/
theorem updateEnd_eos {c : Cursor} {caller : Cursor} {cell : Nat} {text : Bytes} {s s₁ : Parse}
    (writes : Writes s c text s₁) (eos : c.token = .eos) :
    updateEnd G rounds caller cell s₁ = (.ok (), s₁) := by
  rw [updateEnd_plain (by rw [writes.cursor, eos]; nofun)]
  exact finish_eos (writes.cursor.symm ▸ eos)

/-- A statement with two assignments of numbers. -/
def setsNumbers : String := "create procedure a.b as update t set f = 1, g = 2"

theorem update_keeps_numbers :
    KeepsAssignments (firstNamed setsNumbers) (2 * (lit setsNumbers).length + 2)
        (headed setsNumbers) (lit "t")
        [⟨⟨lit "f", none⟩, .num (lit "1")⟩, ⟨⟨lit "g", none⟩, .num (lit "2")⟩]
        (cursorAt setsNumbers 17) ↔
      Plainly [⟨⟨lit "f", none⟩, .num (lit "1")⟩, ⟨⟨lit "g", none⟩, .num (lit "2")⟩]
        (cursorAt setsNumbers 17) := by
  obtain ⟨head, here, update, id, table, set, field, name, eq, num, one, comma, field', name', eq',
      num', two, eos, all⟩ :
      (parseHead (firstNamed setsNumbers) (2 * (lit setsNumbers).length + 2) Parser.start).1 =
        .ok () ∧
      (headed setsNumbers).cursor = cursorAt setsNumbers 7 ∧
      (cursorAt setsNumbers 7).token = .update ∧ (cursorAt setsNumbers 8).token = .id ∧
      (cursorAt setsNumbers 8).lexum = lit "t" ∧ (cursorAt setsNumbers 9).token = .set ∧
      (cursorAt setsNumbers 10).token = .id ∧ (cursorAt setsNumbers 10).lexum = lit "f" ∧
      (cursorAt setsNumbers 11).token = .eq ∧ (cursorAt setsNumbers 12).token = .num ∧
      (cursorAt setsNumbers 12).lexum = lit "1" ∧ (cursorAt setsNumbers 13).token = .comma ∧
      (cursorAt setsNumbers 14).token = .id ∧ (cursorAt setsNumbers 14).lexum = lit "g" ∧
      (cursorAt setsNumbers 15).token = .eq ∧ (cursorAt setsNumbers 16).token = .num ∧
      (cursorAt setsNumbers 16).lexum = lit "2" ∧ (cursorAt setsNumbers 17).token = .eos ∧
      ∀ n < 17, (sqltokenizer (lit setsNumbers) (cursorAt setsNumbers n)).1 = true := by
    decide +kernel
  have step (n : Nat) (less : n < 17) :
      Step (lit setsNumbers) (cursorAt setsNumbers n) (cursorAt setsNumbers (n + 1)) :=
    cursorAt_step (all n less)
  have first : AssignmentAt (lit setsNumbers) (cursorAt setsNumbers 10)
      ⟨⟨lit "f", none⟩, .num (lit "1")⟩ (cursorAt setsNumbers 13) :=
    ⟨_, _, name ▸ .plain field (step 10 (by decide)) (by rw [eq]; nofun), eq,
      step 11 (by decide), one ▸ .num num (step 12 (by decide))⟩
  have second : AssignmentAt (lit setsNumbers) (cursorAt setsNumbers 14)
      ⟨⟨lit "g", none⟩, .num (lit "2")⟩ (cursorAt setsNumbers 17) :=
    ⟨_, _, name' ▸ .plain field' (step 14 (by decide)) (by rw [eq']; nofun), eq',
      step 15 (by decide), two ▸ .num num' (step 16 (by decide))⟩
  have at' : UpdateAt (lit setsNumbers) (headed setsNumbers).cursor (lit "t")
      [⟨⟨lit "f", none⟩, .num (lit "1")⟩, ⟨⟨lit "g", none⟩, .num (lit "2")⟩]
      (cursorAt setsNumbers 17) := by
    rw [here]
    exact ⟨update, ⟨_, _, _, step 7 (by decide), id, table, step 8 (by decide), set,
      step 9 (by decide), .more first comma (step 13 (by decide))
        (.last second (by rw [eos]; nofun))⟩, by rw [eos]; nofun⟩
  exact update_keeps_iff (firstNamed setsNumbers) _ (Nat.lt_succ_self _) _ (headed_run head) _ _ _
    at' fun s₁ writes => ⟨s₁, updateEnd_eos writes eos⟩

/-- A function, and an assignment behind it. -/
def setsFunction : String := "create procedure a.b as update t set f = getdate(), g = 1"

/-- The comma behind the function is lost. -/
theorem update_comma_lost : ¬ ∀ (G : Given) (rounds : Nat) (s : Parse) (table : Bytes)
    (assignments : List Assignment) (c : Cursor), 2 * G.src.length + 1 < rounds →
    parseHead G rounds Parser.start = (.ok (), s) →
    UpdateAt G.src s.cursor table assignments c →
    (∀ s₁, Writes s.updating c (updateText table assignments) s₁ →
      ∃ s₂, updateEnd G rounds s.cursor s.cells.length s₁ = (.ok (), s₂)) →
    KeepsAssignments G rounds s table assignments c := by
  intro keeps
  obtain ⟨head, here, update, id, table, set, field, name, eq, func, date, lpar, rpar, comma,
      field', name', eq', num, one, eos, all⟩ :
      (parseHead (firstNamed setsFunction) (2 * (lit setsFunction).length + 2) Parser.start).1 =
        .ok () ∧
      (headed setsFunction).cursor = cursorAt setsFunction 7 ∧
      (cursorAt setsFunction 7).token = .update ∧ (cursorAt setsFunction 8).token = .id ∧
      (cursorAt setsFunction 8).lexum = lit "t" ∧ (cursorAt setsFunction 9).token = .set ∧
      (cursorAt setsFunction 10).token = .id ∧ (cursorAt setsFunction 10).lexum = lit "f" ∧
      (cursorAt setsFunction 11).token = .eq ∧ (cursorAt setsFunction 12).token = .func ∧
      (cursorAt setsFunction 12).lexum.map toupper = lit "GETDATE" ∧
      (cursorAt setsFunction 13).token = .lpar ∧ (cursorAt setsFunction 14).token = .rpar ∧
      (cursorAt setsFunction 15).token = .comma ∧ (cursorAt setsFunction 16).token = .id ∧
      (cursorAt setsFunction 16).lexum = lit "g" ∧ (cursorAt setsFunction 17).token = .eq ∧
      (cursorAt setsFunction 18).token = .num ∧ (cursorAt setsFunction 18).lexum = lit "1" ∧
      (cursorAt setsFunction 19).token = .eos ∧
      ∀ n < 19, (sqltokenizer (lit setsFunction) (cursorAt setsFunction n)).1 = true := by
    decide +kernel
  have step (n : Nat) (less : n < 19) :
      Step (lit setsFunction) (cursorAt setsFunction n) (cursorAt setsFunction (n + 1)) :=
    cursorAt_step (all n less)
  have first : AssignmentAt (lit setsFunction) (cursorAt setsFunction 10)
      ⟨⟨lit "f", none⟩, .call .getdate⟩ (cursorAt setsFunction 15) :=
    ⟨_, _, name ▸ .plain field (step 10 (by decide)) (by rw [eq]; nofun), eq,
      step 11 (by decide), .call (.getdate func date (step 12 (by decide)) lpar
        (step 13 (by decide)) rpar (step 14 (by decide)))⟩
  have second : AssignmentAt (lit setsFunction) (cursorAt setsFunction 16)
      ⟨⟨lit "g", none⟩, .num (lit "1")⟩ (cursorAt setsFunction 19) :=
    ⟨_, _, name' ▸ .plain field' (step 16 (by decide)) (by rw [eq']; nofun), eq',
      step 17 (by decide), one ▸ .num num (step 18 (by decide))⟩
  have at' : UpdateAt (lit setsFunction) (headed setsFunction).cursor (lit "t")
      [⟨⟨lit "f", none⟩, .call .getdate⟩, ⟨⟨lit "g", none⟩, .num (lit "1")⟩]
      (cursorAt setsFunction 19) := by
    rw [here]
    exact ⟨update, ⟨_, _, _, step 7 (by decide), id, table, step 8 (by decide), set,
      step 9 (by decide), .more first comma (step 15 (by decide))
        (.last second (by rw [eos]; nofun))⟩, by rw [eos]; nofun⟩
  obtain ⟨s₁, s₂, s', writes, clause, accepted, same⟩ := keeps (firstNamed setsFunction)
    (2 * (lit setsFunction).length + 2) _ _ _ _ (Nat.lt_succ_self _) (headed_run head) at'
    fun s₁ writes => ⟨s₁, updateEnd_eos writes eos⟩
  obtain rfl := (Prod.mk.inj (clause.symm.trans (updateEnd_eos writes eos))).2
  have written : (parseSQL (firstNamed setsFunction)
      (2 * (lit setsFunction).length + 2)).2.written ≠ (headed setsFunction).updating.written ++
        updateText (lit "t")
          [⟨⟨lit "f", none⟩, .call .getdate⟩, ⟨⟨lit "g", none⟩, .num (lit "1")⟩] := by
    decide +kernel
  rw [accepted] at written
  exact written (same.trans writes.written)

end Jspp.Sql
