/-
# Sql.Reading -- what stands in the text, and what its parts are translated to

The parts of a statement as they stand in the text: `FieldAt src c f c'` says that the
text has the field `f` from the cursor `c` on, and `c'` behind it.  A part is data
without positions; `text` is what it is translated to.

`Writes s c text s'`: from `s` the parser has come to the cursor `c` and has appended
`text` to the translation, and nothing else that a later part depends on.

* `parseField_reads`, `parseFunction_reads`, `parseLit_reads`: each parser accepts
  exactly its parts, reads to their end and writes their text.
* `loopWhile_step`, `loopWhile_end`: a loop, round by round.
-/
import Jspp.Sql.Placeholders

namespace Jspp.Sql

open Jspp.Splc (Bytes lit isdigit isalnum toupper)
open Jspp.Theory
open Jspp.Theory.Attempt (modify fail loop)
open Jspp.Sql.Parser

set_option autoImplicit false

/-- The tokenizer goes from `c` to `c'`. -/
def Step (src : Bytes) (c c' : Cursor) : Prop := sqltokenizer src c = (true, c')

structure Field where
  name : Bytes
  column : Option Bytes
  deriving DecidableEq, Repr

inductive Function where
  | getdate
  | count
  | aggregate (name : Bytes) (field : Field)
  deriving DecidableEq, Repr

inductive Literal where
  | num (lexum : Bytes)
  | string (lexum : Bytes)
  deriving DecidableEq, Repr

def Field.text (f : Field) : Bytes :=
  match f.column with
  | none => f.name
  | some column => f.name ++ lit "." ++ column

def Function.text : Function → Bytes
  | .getdate => lit "CURRENT"
  | .count => lit "COUNT(*)"
  | .aggregate name field => name ++ lit "(" ++ field.text ++ lit ")"

/-- `inlike`: the pattern of LIKE, with its terminator. -/
def Literal.text (inlike : Bool) : Literal → Bytes
  | .num lexum => lexum
  | .string lexum => lit "'" ++ lexum ++ (if inlike then lit "`" else []) ++ lit "'"

/-- A field: a name, or a table's name, a dot and a name. -/
inductive FieldAt (src : Bytes) (c : Cursor) : Field → Cursor → Prop where
  | plain {c' : Cursor} (id : c.token = .id) (step : Step src c c') (single : c'.token ≠ .dot) :
      FieldAt src c ⟨c.lexum, none⟩ c'
  | dotted {d e c' : Cursor} (id : c.token = .id) (step : Step src c d) (dot : d.token = .dot)
      (step' : Step src d e) (id' : e.token = .id) (step'' : Step src e c') :
      FieldAt src c ⟨c.lexum, some e.lexum⟩ c'

/-- A call of a function, its name in capitals or not. -/
inductive CallAt (src : Bytes) (c : Cursor) : Function → Cursor → Prop where
  | getdate {d e c' : Cursor} (func : c.token = .func)
      (name : c.lexum.map toupper = lit "GETDATE") (step : Step src c d) (lpar : d.token = .lpar)
      (step' : Step src d e) (rpar : e.token = .rpar) (last : Step src e c') :
      CallAt src c .getdate c'
  | count {d e r c' : Cursor} (func : c.token = .func)
      (name : c.lexum.map toupper = lit "COUNT") (step : Step src c d) (lpar : d.token = .lpar)
      (step' : Step src d e) (splat : e.token = .splat) (step'' : Step src e r)
      (rpar : r.token = .rpar) (last : Step src r c') : CallAt src c .count c'
  | aggregate {d e r c' : Cursor} {f : Field} (func : c.token = .func)
      (name : c.lexum.map toupper ∈ aggregates.map lit) (step : Step src c d)
      (lpar : d.token = .lpar) (step' : Step src d e) (field : FieldAt src e f r)
      (rpar : r.token = .rpar) (last : Step src r c') :
      CallAt src c (.aggregate (c.lexum.map toupper) f) c'

def Function.isAggregate : Function → Bool
  | .aggregate .. => true
  | _ => false

/-- What `parseFunction` takes: behind the field of an aggregate it passes a token before it asks
for the parenthesis. -/
inductive FunctionAt (src : Bytes) (c : Cursor) : Function → Cursor → Prop where
  | plain {fn : Function} {c' : Cursor} (call : CallAt src c fn c')
      (other : fn.isAggregate = false) :
      FunctionAt src c fn c'
  | aggregate {d e x r c' : Cursor} {f : Field} (func : c.token = .func)
      (name : c.lexum.map toupper ∈ aggregates.map lit) (step : Step src c d)
      (lpar : d.token = .lpar) (step' : Step src d e) (field : FieldAt src e f x)
      (passed : Step src x r) (rpar : r.token = .rpar) (last : Step src r c') :
      FunctionAt src c (.aggregate (c.lexum.map toupper) f) c'

inductive LiteralAt (src : Bytes) (c : Cursor) : Literal → Cursor → Prop where
  | num {c' : Cursor} (num : c.token = .num) (step : Step src c c') :
      LiteralAt src c (.num c.lexum) c'
  | string {c' : Cursor} (strlit : c.token = .strlit) (step : Step src c c') :
      LiteralAt src c (.string c.lexum) c'

/-! ## What a part writes -/

/-- The translation so far. -/
def Parse.written (s : Parse) : Bytes := s.dp.tsql.flatMap Piece.render

@[simp] theorem Piece.render_text (t : Bytes) : (Piece.text t).render = t := rfl

@[simp] theorem Piece.render_word (start : Nat) (t : Bytes) : (Piece.word start t).render = t := rfl

structure Writes (s : Parse) (c : Cursor) (text : Bytes) (s' : Parse) : Prop where
  cursor : s'.cursor = c
  written : s'.written = s.written ++ text
  uparams : s'.dp.uparams = s.dp.uparams
  cells : s'.cells = s.cells

theorem Writes.refl (s : Parse) : Writes s s.cursor [] s := ⟨rfl, by simp, rfl, rfl⟩

theorem Writes.trans {s s' s'' : Parse} {c c' : Cursor} {one two : Bytes}
    (first : Writes s c one s') (second : Writes s' c' two s'') : Writes s c' (one ++ two) s'' where
  cursor := second.cursor
  written := by rw [second.written, first.written, List.append_assoc]
  uparams := second.uparams.trans first.uparams
  cells := second.cells.trans first.cells

theorem Writes.put (s : Parse) (p : Piece) : Writes s s.cursor p.render (s.put p) :=
  ⟨rfl, by simp [Parse.written, Parse.put], rfl, rfl⟩

/-- The state behind a step of the tokenizer to `c`. -/
def Parse.seek (s : Parse) (c : Cursor) : Parse := { s with cursor := c }

@[simp] theorem Parse.seek_cursor (s : Parse) (c : Cursor) : (s.seek c).cursor = c := rfl

theorem Writes.seek {s s' : Parse} {c : Cursor} {text : Bytes} (writes : Writes s c text s')
    (d : Cursor) : Writes s d text (s'.seek d) :=
  ⟨rfl, writes.written, writes.uparams, writes.cells⟩

theorem Writes.append {s s' : Parse} {c : Cursor} {text : Bytes} (writes : Writes s c text s')
    (p : Piece) : Writes s c (text ++ p.render) (s'.put p) where
  cursor := writes.cursor
  written := by
    rw [← List.append_assoc, ← writes.written]
    simp [Parse.written, Parse.put]
  uparams := writes.uparams
  cells := writes.cells

/-! ## Single steps -/

variable {G : Given} {α β τ ρ : Type} {s s' : Parse}

theorem bind_ok_iff {m : Parser α} {f : α → Parser β} {b : β} :
    (m >>= f) s = (.ok b, s') ↔ ∃ a s₁, m s = (.ok a, s₁) ∧ f a s₁ = (.ok b, s') := by
  rcases run : m s with ⟨outcome, s₁⟩
  cases outcome with
  | error e => simp [Attempt.bind_error run]
  | ok a =>
      rw [Attempt.bind_ok run]
      constructor
      · exact fun rest => ⟨a, s₁, rfl, rest⟩
      · rintro ⟨a', s₁', same, rest⟩
        obtain ⟨one, rfl⟩ := Prod.mk.inj same
        exact Except.ok.inj one ▸ rest

theorem next_ok_iff {a : Unit} :
    next G s = (.ok a, s') ↔ Step G.src s.cursor s'.cursor ∧ s' = s.seek s'.cursor := by
  by_cases ok : (sqltokenizer G.src s.cursor).1 = true
  · rw [next_ok ok]
    constructor
    · intro run
      obtain rfl := (Prod.mk.inj run).2
      exact ⟨Prod.ext ok rfl, rfl⟩
    · rintro ⟨step, same⟩
      rw [same]
      exact Prod.ext rfl (congrArg s.seek (congrArg Prod.snd step))
  · rw [next_failed ok]
    constructor
    · intro run
      cases (Prod.mk.inj run).1
    · rintro ⟨step, -⟩
      exact absurd (congrArg Prod.fst step) ok

theorem next_reads {c : Cursor} (step : Step G.src s.cursor c) : next G s = (.ok (), s.seek c) :=
  next_ok_iff.mpr ⟨step, rfl⟩

theorem token_run {f : Sqltoken → Parser β} : (token >>= f) s = f s.cursor.token s := rfl

theorem expect_run {tok : Sqltoken} {errcode : Sqlparseerror} (token : s.cursor.token = tok) :
    expect tok errcode s = (.ok (), s) := by
  show (if _ then _ else _ : Parser Unit) s = _
  rw [if_pos token]
  rfl

theorem expect_failed {tok : Sqltoken} {errcode : Sqlparseerror} (token : s.cursor.token ≠ tok) :
    expect tok errcode s = (.error (.error (some errcode)), s) := by
  show (if _ then _ else _ : Parser Unit) s = _
  rw [if_neg token]
  rfl

theorem expect_ok_iff {tok : Sqltoken} {errcode : Sqlparseerror} {a : Unit} :
    expect tok errcode s = (.ok a, s') ↔ s.cursor.token = tok ∧ s' = s := by
  by_cases token : s.cursor.token = tok
  · rw [expect_run token]
    exact ⟨fun run => ⟨token, (Prod.mk.inj run).2.symm⟩, fun both => by rw [both.2]⟩
  · rw [expect_failed token]
    exact ⟨fun run => (nomatch (Prod.mk.inj run).1), fun both => absurd both.1 token⟩

/-- The tokenizer in front of the rest. -/
theorem read_ok_iff {f : Unit → Parser β} {b : β} :
    (next G >>= f) s = (.ok b, s') ↔
      ∃ c, Step G.src s.cursor c ∧ f () (s.seek c) = (.ok b, s') := by
  rw [bind_ok_iff]
  constructor
  · rintro ⟨a, s₁, read, rest⟩
    obtain ⟨step, same⟩ := next_ok_iff.mp read
    exact ⟨s₁.cursor, step, same ▸ rest⟩
  · rintro ⟨c, step, rest⟩
    exact ⟨(), s.seek c, next_ok_iff.mpr ⟨step, rfl⟩, rest⟩

theorem expect_then_ok_iff {tok : Sqltoken} {errcode : Sqlparseerror} {f : Unit → Parser β}
    {b : β} :
    (expect tok errcode >>= f) s = (.ok b, s') ↔ s.cursor.token = tok ∧ f () s = (.ok b, s') := by
  rw [bind_ok_iff]
  constructor
  · rintro ⟨a, s₁, expected, rest⟩
    obtain ⟨token, rfl⟩ := expect_ok_iff.mp expected
    exact ⟨token, rest⟩
  · rintro ⟨token, rest⟩
    exact ⟨(), s, expect_run token, rest⟩

/-! ## Literals, fields and functions -/

theorem Step.unique {src : Bytes} {c d d' : Cursor} (one : Step src c d) (two : Step src c d') :
    d = d' :=
  (Prod.mk.inj (Eq.trans (Eq.symm one) two)).2

/-- The rest of a field behind its first name. -/
def fieldTail (G : Given) : Parser Unit := do
  text "."
  next G
  expect .id .expDotField
  word
  next G

theorem parseField_id (id : s.cursor.token = .id) : parseField G none s = (do
    next G
    let tok ← token
    if tok ≠ .dot then pure ()
    else fieldTail G : Parser Unit) (s.put (.word s.cursor.start s.cursor.lexum)) := by
  show (if s.cursor.token ≠ .id then _ else _ : Parser Unit) s = _
  rw [if_neg (not_not.mpr id)]
  rfl

/-- `parseField` accepts a field and writes it. -/
theorem parseField_reads {f : Field} {c : Cursor} (field : FieldAt G.src s.cursor f c) :
    ∃ s', parseField G none s = (.ok (), s') ∧ Writes s c f.text s' := by
  cases field with
  | plain id step single =>
      refine ⟨_, ?_, (Writes.put s (.word s.cursor.start s.cursor.lexum)).seek c⟩
      rw [parseField_id id, read_ok_iff]
      refine ⟨c, step, ?_⟩
      rw [token_run, Parse.seek_cursor, if_pos single]
      rfl
  | @dotted d e _ id step dot step' id' step'' =>
      let s₁ := (s.put (.word s.cursor.start s.cursor.lexum)).seek d
      let s₂ := (s₁.put (.text (lit "."))).seek e
      let s₃ := (s₂.put (.word s₂.cursor.start s₂.cursor.lexum)).seek c
      refine ⟨s₃, ?_, ?_⟩
      · rw [parseField_id id, read_ok_iff]
        refine ⟨d, step, ?_⟩
        rw [token_run, Parse.seek_cursor, if_neg (not_not.mpr dot)]
        refine (read_ok_iff (s := s₁.put (.text (lit ".")))).mpr ⟨e, step', ?_⟩
        exact expect_then_ok_iff.mpr ⟨id', next_reads step''⟩
      · exact (((((Writes.put s (.word s.cursor.start s.cursor.lexum)).seek d).append
          (.text (lit "."))).seek e).append (.word e.start e.lexum)).seek c

/-- What `parseField` accepts is a field. -/
theorem parseField_at (run : parseField G none s = (.ok (), s')) :
    ∃ f, FieldAt G.src s.cursor f s'.cursor := by
  by_cases id : s.cursor.token = .id
  case neg =>
    have failed : parseField G none s = (.error (.error none), s) := by
      show (if s.cursor.token ≠ .id then _ else _ : Parser Unit) s = _
      rw [if_pos id]
      rfl
    cases (Prod.mk.inj (failed.symm.trans run)).1
  rw [parseField_id id, read_ok_iff] at run
  obtain ⟨d, step, run⟩ := run
  rw [token_run, Parse.seek_cursor] at run
  by_cases dot : d.token = .dot
  · rw [if_neg (not_not.mpr dot)] at run
    obtain ⟨e, step', run⟩ := (read_ok_iff (s := Parse.put _ (.text (lit ".")))).mp run
    obtain ⟨id', run⟩ := expect_then_ok_iff.mp run
    obtain ⟨step'', -⟩ := (next_ok_iff (s := Parse.put _ (.word _ _))).mp run
    exact ⟨_, .dotted id step dot step' id' step''⟩
  · rw [if_pos dot] at run
    obtain rfl := (Prod.mk.inj run).2
    exact ⟨_, .plain id step dot⟩

/-- The tokenizer forgets the text of the last token where there is another. -/
theorem step_raised {src : Bytes} {c d : Cursor} (lexum : Bytes) (more : d.token ≠ .eos) :
    Step src { c with lexum := lexum } d ↔ Step src c d := by
  have same : sqltokenizer src c = (true, d) ∨
        sqltokenizer src { c with lexum := lexum } = (true, d) →
      sqltokenizer src { c with lexum := lexum } = sqltokenizer src c := by
    intro ended
    unfold sqltokenizer at ended ⊢
    dsimp only [skipws] at ended ⊢
    split
    case isTrue inside =>
      simp only [if_pos inside] at ended
      rcases ended with ended | ended <;>
        exact absurd (Prod.mk.inj ended).2.symm fun same => more (by rw [same])
    case isFalse => rfl
  constructor
  · exact fun step => (same (.inr step)).symm.trans step
  · exact fun step => (same (.inl step)).trans step

/-- The name of a function in capitals, as `ucase` leaves it. -/
def Parse.raised (s : Parse) : Parse :=
  { s with cursor := { s.cursor with lexum := s.cursor.lexum.map toupper } }

theorem parseFunction_func (func : s.cursor.token = .func) : parseFunction G s = (do
    functionCall G (s.cursor.lexum.map toupper)
    next G
    expect .rpar .expRpar
    next G : Parser Unit) s.raised := by
  show (expect .func .errSyntax >>= _) s = _
  rw [Attempt.bind_ok (expect_run func)]
  rfl

theorem functionCall_getdate (s : Parse) : functionCall G (lit "GETDATE") s = (do
    next G
    expect .lpar .expLpar : Parser Unit) (s.put (.text (lit "CURRENT"))) := by
  unfold functionCall
  rw [if_pos rfl]
  rfl

theorem functionCall_count (s : Parse) : functionCall G (lit "COUNT") s = (do
    next G
    expect .lpar .expLpar
    next G
    expect .splat .expFields : Parser Unit) (s.put (.text (lit "COUNT(*)"))) := by
  unfold functionCall
  rw [if_neg (by decide), if_pos rfl]
  rfl

theorem functionCall_aggregate {lexum : Bytes} (name : lexum ∈ aggregates.map lit) (s : Parse) :
    functionCall G lexum s = (do
      next G
      expect .lpar .expLpar
      next G
      parseField G none
      text ")" : Parser Unit) ((s.put (.text s.cursor.lexum)).put (.text (lit "("))) := by
  have plainName : ∀ lexum ∈ aggregates.map lit,
      lexum ≠ lit "GETDATE" ∧ lexum ≠ lit "COUNT" := by decide
  obtain ⟨date, count⟩ := plainName lexum name
  unfold functionCall
  rw [if_neg date, if_neg count, if_pos name]
  rfl

/-- Behind the name and its parenthesis: what is left of a call. -/
theorem functionEnd_reads {d c : Cursor} (step : Step G.src s.cursor d) (rpar : d.token = .rpar)
    (last : Step G.src d c) : (do
      next G
      expect .rpar .expRpar
      next G : Parser Unit) s = (.ok (), s.seek c) :=
  read_ok_iff.mpr ⟨d, step, expect_then_ok_iff.mpr ⟨rpar, next_reads last⟩⟩

theorem functionEnd_at (run : (do
      next G
      expect .rpar .expRpar
      next G : Parser Unit) s = (.ok (), s')) :
    ∃ d, Step G.src s.cursor d ∧ d.token = .rpar ∧ Step G.src d s'.cursor := by
  obtain ⟨d, step, run⟩ := read_ok_iff.mp run
  obtain ⟨rpar, run⟩ := expect_then_ok_iff.mp run
  exact ⟨d, step, rpar, (next_ok_iff.mp run).1⟩

theorem functionCall_getdate_ok_iff {a : Unit} :
    functionCall G (lit "GETDATE") s = (.ok a, s') ↔
      ∃ d, Step G.src s.cursor d ∧ d.token = .lpar ∧
        s' = (s.put (.text (lit "CURRENT"))).seek d := by
  rw [functionCall_getdate, read_ok_iff]
  simp only [expect_ok_iff]
  rfl

theorem functionCall_count_ok_iff {a : Unit} :
    functionCall G (lit "COUNT") s = (.ok a, s') ↔
      ∃ d, Step G.src s.cursor d ∧ d.token = .lpar ∧ ∃ e, Step G.src d e ∧ e.token = .splat ∧
        s' = ((s.put (.text (lit "COUNT(*)"))).seek d).seek e := by
  rw [functionCall_count, read_ok_iff]
  simp only [expect_then_ok_iff, read_ok_iff, expect_ok_iff]
  rfl

theorem functionCall_aggregate_ok_iff {lexum : Bytes} {a : Unit}
    (name : lexum ∈ aggregates.map lit) : functionCall G lexum s = (.ok a, s') ↔
      ∃ d, Step G.src s.cursor d ∧ d.token = .lpar ∧ ∃ e, Step G.src d e ∧ ∃ s₁,
        parseField G none ((((s.put (.text s.cursor.lexum)).put (.text (lit "("))).seek d).seek e) =
          (.ok (), s₁) ∧ s' = s₁.put (.text (lit ")")) := by
  rw [functionCall_aggregate name, read_ok_iff]
  constructor
  · rintro ⟨d, step, run⟩
    obtain ⟨lpar, run⟩ := expect_then_ok_iff.mp run
    obtain ⟨e, step', run⟩ := read_ok_iff.mp run
    obtain ⟨_, s₁, field, last⟩ := bind_ok_iff.mp run
    exact ⟨d, step, lpar, e, step', s₁, field, (Prod.mk.inj last).2.symm⟩
  · rintro ⟨d, step, lpar, e, step', s₁, field, rfl⟩
    exact ⟨d, step, expect_then_ok_iff.mpr ⟨lpar, read_ok_iff.mpr ⟨e, step',
      bind_ok_iff.mpr ⟨(), s₁, field, rfl⟩⟩⟩⟩

/-- `parseFunction` accepts these calls and writes them. -/
theorem parseFunction_reads {fn : Function} {c : Cursor} (call : FunctionAt G.src s.cursor fn c) :
    ∃ s', parseFunction G s = (.ok (), s') ∧ Writes s c fn.text s' := by
  have raise {d : Cursor} (step : Step G.src s.cursor d) (lpar : d.token = .lpar) :
      Step G.src s.raised.cursor d := (step_raised _ (by rw [lpar]; nofun)).mpr step
  cases call with
  | plain call other =>
      cases call with
      | @getdate d e _ func name step lpar step' rpar last =>
          refine ⟨_, ?_, ((Writes.put s (.text (lit "CURRENT"))).seek d).seek c⟩
          rw [parseFunction_func func, name, bind_ok_iff]
          exact ⟨(), _, functionCall_getdate_ok_iff.mpr ⟨d, raise step lpar, lpar, rfl⟩,
            functionEnd_reads step' rpar last⟩
      | @count d e r _ func name step lpar step' splat step'' rpar last =>
          refine ⟨_, ?_, (((Writes.put s (.text (lit "COUNT(*)"))).seek d).seek e).seek c⟩
          rw [parseFunction_func func, name, bind_ok_iff]
          exact ⟨(), _, functionCall_count_ok_iff.mpr
            ⟨d, raise step lpar, lpar, e, step', splat, rfl⟩, functionEnd_reads step'' rpar last⟩
      | aggregate => cases other
  | @aggregate d e x r _ f func name step lpar step' field passed rpar last =>
      let s₁ := (((s.raised.put (.text (s.cursor.lexum.map toupper))).put (.text (lit "("))).seek
        d).seek e
      obtain ⟨s₂, run, writes⟩ := parseField_reads (s := s₁) field
      have start : Writes s e (s.cursor.lexum.map toupper ++ lit "(") s₁ :=
        (((Writes.put s (.text (s.cursor.lexum.map toupper))).append (.text (lit "("))).seek
          d).seek e
      refine ⟨_, ?_, ((start.trans writes).append (.text (lit ")"))).seek c⟩
      rw [parseFunction_func func, bind_ok_iff]
      refine ⟨(), s₂.put (.text (lit ")")), ?_, functionEnd_reads ?_ rpar last⟩
      · exact (functionCall_aggregate_ok_iff name).mpr
          ⟨d, raise step lpar, lpar, e, step', s₂, run, rfl⟩
      · show Step G.src s₂.cursor r
        rw [writes.cursor]
        exact passed

/-- What `parseFunction` accepts is one of these calls. -/
theorem parseFunction_at (run : parseFunction G s = (.ok (), s')) :
    ∃ fn, FunctionAt G.src s.cursor fn s'.cursor := by
  by_cases func : s.cursor.token = .func
  case neg =>
    have failed : parseFunction G s = (.error (.error (some .errSyntax)), s) :=
      Attempt.bind_error (expect_failed func)
    cases (Prod.mk.inj (failed.symm.trans run)).1
  have lower {d : Cursor} (step : Step G.src s.raised.cursor d) (lpar : d.token = .lpar) :
      Step G.src s.cursor d := (step_raised _ (by rw [lpar]; nofun)).mp step
  rw [parseFunction_func func] at run
  obtain ⟨_, s₁, call, rest⟩ := bind_ok_iff.mp run
  obtain ⟨r, passed, rpar, last⟩ := functionEnd_at rest
  by_cases date : s.cursor.lexum.map toupper = lit "GETDATE"
  · rw [date] at call
    obtain ⟨d, step, lpar, rfl⟩ := functionCall_getdate_ok_iff.mp call
    exact ⟨_, .plain (.getdate func date (lower step lpar) lpar passed rpar last) rfl⟩
  by_cases count : s.cursor.lexum.map toupper = lit "COUNT"
  · rw [count] at call
    obtain ⟨d, step, lpar, e, step', splat, rfl⟩ := functionCall_count_ok_iff.mp call
    exact ⟨_, .plain (.count func count (lower step lpar) lpar step' splat passed rpar last) rfl⟩
  by_cases name : s.cursor.lexum.map toupper ∈ aggregates.map lit
  · obtain ⟨d, step, lpar, e, step', s₂, field, rfl⟩ := (functionCall_aggregate_ok_iff name).mp call
    obtain ⟨f, at'⟩ := parseField_at field
    exact ⟨_, .aggregate func name (lower step lpar) lpar step' at' passed rpar last⟩
  · have failed : functionCall G (s.cursor.lexum.map toupper) s.raised =
        (.error (.error (some .unknownFn)), s.raised) := by
      unfold functionCall
      rw [if_neg date, if_neg count, if_neg name]
      rfl
    cases (Prod.mk.inj (failed.symm.trans call)).1

theorem parseLit_num {inlike : Bool} (num : s.cursor.token = .num) :
    parseLit G inlike s = next G (s.put (.word s.cursor.start s.cursor.lexum)) := by
  unfold parseLit
  rw [token_run, num]
  rfl

theorem parseLit_string {inlike : Bool} (strlit : s.cursor.token = .strlit) :
    parseLit G inlike s = (do
      only inlike (text "`")
      text "'"
      next G : Parser Unit)
        ((s.put (.text (lit "'"))).put (.word s.cursor.start s.cursor.lexum)) := by
  unfold parseLit
  rw [token_run, strlit]
  rfl

/-- `parseLit` accepts a literal and writes it. -/
theorem parseLit_reads {inlike : Bool} {l : Literal} {c : Cursor}
    (literal : LiteralAt G.src s.cursor l c) :
    ∃ s', parseLit G inlike s = (.ok (), s') ∧ Writes s c (l.text inlike) s' := by
  cases literal with
  | num num step =>
      refine ⟨_, ?_, (Writes.put s (.word s.cursor.start s.cursor.lexum)).seek c⟩
      rw [parseLit_num num]
      exact next_reads step
  | string strlit step =>
      let s₁ := (s.put (.text (lit "'"))).put (.word s.cursor.start s.cursor.lexum)
      have start : Writes s s.cursor (lit "'" ++ s.cursor.lexum) s₁ :=
        (Writes.put s (.text (lit "'"))).append (.word s.cursor.start s.cursor.lexum)
      rw [parseLit_string strlit]
      cases inlike with
      | false =>
          have whole := (start.append (.text (lit "'"))).seek c
          have run := next_reads (s := s₁.put (.text (lit "'"))) step
          exact ⟨_, run, by simpa [Literal.text] using whole⟩
      | true =>
          have whole := ((start.append (.text (lit "`"))).append (.text (lit "'"))).seek c
          have run := next_reads (s := (s₁.put (.text (lit "`"))).put (.text (lit "'"))) step
          exact ⟨_, run, by simpa [Literal.text] using whole⟩

/-- What `parseLit` accepts is a literal. -/
theorem parseLit_at {inlike : Bool} (run : parseLit G inlike s = (.ok (), s')) :
    ∃ l, LiteralAt G.src s.cursor l s'.cursor := by
  by_cases num : s.cursor.token = .num
  · rw [parseLit_num num] at run
    exact ⟨_, .num num (next_ok_iff.mp run).1⟩
  by_cases strlit : s.cursor.token = .strlit
  · rw [parseLit_string strlit] at run
    obtain ⟨_, s₁, tick, rest⟩ := bind_ok_iff.mp run
    have same : s₁.cursor = s.cursor := by
      rw [← (Prod.mk.inj (tick : only inlike (text "`") _ = _)).2]
      cases inlike <;> rfl
    have step := (next_ok_iff (s := s₁.put (.text (lit "'")))).mp rest
    exact ⟨_, .string strlit (same ▸ step.1)⟩
  · unfold parseLit at run
    rw [token_run] at run
    generalize s.cursor.token = tok at num strlit run
    cases tok with
    | num => exact absurd rfl num
    | strlit => exact absurd rfl strlit
    | _ => cases (Prod.mk.inj run).1

/-! ## Loops -/

/-- The state in front of the next round. -/
def Parse.lapped (s : Parse) (before : Cursor) : Parse :=
  { s with laps := s.laps ++ [(before, s.cursor)] }

theorem Writes.lapped {c : Cursor} {text : Bytes} (writes : Writes s c text s')
    (before : Cursor) : Writes s c text (s'.lapped before) :=
  ⟨writes.cursor, writes.written, writes.uparams, writes.cells⟩

variable {rounds : Nat}

theorem repeats_again {round : τ → Parser (Round τ ρ)} {t t' : τ}
    (run : round t s = (.ok (.again t'), s')) :
    repeats (rounds + 1) round t s = repeats rounds round t' (s'.lapped s.cursor) := by
  have lapped : lap (round t) s = (.ok (.again t'), s'.lapped s.cursor) := by
    show (round t >>= _) s = _
    rw [Attempt.bind_ok run]
    rfl
  show (lap (round t) >>= _) s = _
  rw [Attempt.bind_ok lapped]
  rfl

theorem repeats_leave {round : τ → Parser (Round τ ρ)} {t : τ} {r : ρ}
    (run : round t s = (.ok (.leave r), s')) :
    repeats (rounds + 1) round t s = (.ok r, s') := by
  have left : lap (round t) s = (.ok (.leave r), s') := by
    show (round t >>= _) s = _
    rw [Attempt.bind_ok run]
    rfl
  show (lap (round t) >>= _) s = _
  rw [Attempt.bind_ok left]
  rfl

theorem repeats_error {round : τ → Parser (Round τ ρ)} {t : τ} {e : Fail}
    (run : round t s = (.error e, s')) :
    repeats (rounds + 1) round t s = (.error e, s') := by
  have failed : lap (round t) s = (.error e, s') := by
    show (round t >>= _) s = _
    rw [Attempt.bind_error run]
  show (lap (round t) >>= _) s = _
  rw [Attempt.bind_error failed]

variable {holds : Sqltoken → Bool} {round : Parser Unit}

theorem loopWhile_again (starts : holds s.cursor.token = true) (run : round s = (.ok (), s')) :
    loopWhile (rounds + 1) holds round s = loopWhile rounds holds round (s'.lapped s.cursor) := by
  refine repeats_again ?_
  show (if _ then _ else _ : Parser (Round Unit Unit)) s = _
  rw [if_pos starts, Attempt.bind_ok run]
  rfl

theorem loopWhile_end (ends : holds s.cursor.token = false) :
    loopWhile (rounds + 1) holds round s = (.ok (), s) := by
  refine repeats_leave ?_
  show (if _ then _ else _ : Parser (Round Unit Unit)) s = _
  rw [if_neg (by rw [ends]; nofun)]
  rfl

theorem loopWhile_error {e : Fail} (starts : holds s.cursor.token = true)
    (run : round s = (.error e, s')) :
    loopWhile (rounds + 1) holds round s = (.error e, s') := by
  refine repeats_error ?_
  show (if _ then _ else _ : Parser (Round Unit Unit)) s = _
  rw [if_pos starts, Attempt.bind_error run]

/-- A loop that ends well: it has stopped at once, or after a round that ends well. -/
theorem loopWhile_ok_cases (run : loopWhile rounds holds round s = (.ok (), s')) :
    (holds s.cursor.token = false ∧ s' = s) ∨
    (holds s.cursor.token = true ∧ ∃ rounds', rounds = rounds' + 1 ∧ ∃ s₁,
      round s = (.ok (), s₁) ∧
        loopWhile rounds' holds round (s₁.lapped s.cursor) = (.ok (), s')) := by
  cases rounds with
  | zero => cases (Prod.mk.inj run).1
  | succ rounds =>
      cases starts : holds s.cursor.token with
      | false =>
          rw [loopWhile_end starts] at run
          exact .inl ⟨rfl, (Prod.mk.inj run).2.symm⟩
      | true =>
          rcases once : round s with ⟨outcome, s₁⟩
          cases outcome with
          | error e =>
              rw [loopWhile_error starts once] at run
              cases (Prod.mk.inj run).1
          | ok u =>
              rw [loopWhile_again starts once] at run
              exact .inr ⟨rfl, rounds, rfl, s₁, rfl, run⟩

/-! ## Concrete texts -/

/-- The cursor at the `n`-th token of a text. -/
def cursorAt (src : String) : Nat → Cursor
  | 0 => Parser.start.cursor
  | n + 1 => (sqltokenizer (lit src) (cursorAt src n)).2

theorem cursorAt_step {src : String} {n : Nat}
    (ok : (sqltokenizer (lit src) (cursorAt src n)).1 = true) :
    Step (lit src) (cursorAt src n) (cursorAt src (n + 1)) :=
  Prod.ext ok rfl

end Jspp.Sql
