/-
# Sql.Conditions -- conditions, and their predicates one by one

A condition is a list of predicates, each with the parentheses that are opened in
front of it and closed behind it and the AND or OR that follows.  `ConditionsAt`
says how it stands in the text.  Behind a condition `Follows` allows what belongs to
none.

* `Operand`, `Predicate`, `Term`: the parts, in the text and in the translation.
* `Went`: what a parser has read and written, and which parameters it has numbered.
* `compare_reads`, `isNull_reads`, `among_reads`: a predicate that is accepted.
* `compare_at`: a comparison that is taken is accepted.
-/
import Jspp.Sql.Separated

namespace Jspp.Sql

open Jspp.Splc (Bytes lit toupper)
open Jspp.Theory
open Jspp.Theory.Attempt (modify fail)
open Jspp.Sql.Parser

set_option autoImplicit false

/-! ## Conditions -/

/-- The operators of a comparison. -/
inductive Comparator where
  | eq | gt | lt | ge | le | ne | like
  deriving DecidableEq, Repr

def Comparator.token : Comparator → Sqltoken
  | .eq => .eq
  | .gt => .gt
  | .lt => .lt
  | .ge => .gteq
  | .le => .lteq
  | .ne => .neq
  | .like => .like

def Comparator.text : Comparator → Bytes
  | .eq => lit " = "
  | .gt => lit " > "
  | .lt => lit " < "
  | .ge => lit " >= "
  | .le => lit " <= "
  | .ne => lit " <> "
  | .like => lit " LIKE "

inductive Operand where
  | var (lexum : Bytes)
  | literal (l : Literal)
  | field (f : Field)
  | call (fn : Function)
  | null
  deriving DecidableEq, Repr

def Operand.text (inlike : Bool) : Operand → Bytes
  | .var lexum => lit ":p" ++ lexum.drop 1
  | .literal l => l.text inlike
  | .field f => f.text
  | .call fn => fn.text
  | .null => lit " NULL "

/-- A call of AVG, MAX, MIN or SUM. -/
def Operand.isAggregate : Operand → Bool
  | .call fn => fn.isAggregate
  | _ => false

inductive Predicate where
  | compare (f : Field) (op : Comparator) (o : Operand)
  | isNull (f : Field) (negated : Bool)
  | among (f : Field) (negated : Bool) (literals : List Literal)
  deriving DecidableEq, Repr

/-- The translation of a predicate that stands alone. -/
def Predicate.text : Predicate → Bytes
  | .compare f op o => f.text ++ op.text ++ o.text (op = .like) ++
      (if op = .like then lit " TERMINATE \"`\" " else []) ++ lit " "
  | .isNull f negated => f.text ++ lit " IS " ++ (if negated then lit "NOT " else []) ++
      lit " NULL " ++ lit " "
  | .among f negated literals => f.text ++ (if negated then lit " NOT " else []) ++ lit " IN " ++
      lit "(" ++ commas (literals.map (Literal.text false)) ++ lit ")"

/-- A predicate in a condition, with the parentheses around it and AND or OR behind it, as it is
written. -/
structure Term where
  opens : Nat
  predicate : Predicate
  closes : Nat
  op : Option Bytes
  deriving DecidableEq, Repr

/-- The translation that keeps the parentheses where they are. -/
def Term.text (t : Term) : Bytes :=
  (List.replicate t.opens (lit "(")).flatten ++ t.predicate.text ++
    (List.replicate t.closes (lit ") ")).flatten ++ t.op.elim [] (· ++ lit " ")

/-! ## Conditions in the text -/

inductive OperandAt (src : Bytes) (c : Cursor) : Operand → Cursor → Prop where
  | var {c' : Cursor} (var : c.token = .var) (step : Step src c c') :
      OperandAt src c (.var c.lexum) c'
  | literal {l : Literal} {c' : Cursor} (at' : LiteralAt src c l c') :
      OperandAt src c (.literal l) c'
  | field {f : Field} {c' : Cursor} (at' : FieldAt src c f c') : OperandAt src c (.field f) c'
  | call {fn : Function} {c' : Cursor} (at' : CallAt src c fn c') : OperandAt src c (.call fn) c'
  | null {c' : Cursor} (null : c.token = .null) (step : Step src c c') : OperandAt src c .null c'

/-- NOT, if it is written. -/
inductive NotAt (src : Bytes) (c : Cursor) : Bool → Cursor → Prop where
  | not {c' : Cursor} (not : c.token = .not) (step : Step src c c') : NotAt src c true c'
  | none : NotAt src c false c

inductive PredicateAt (src : Bytes) (c : Cursor) : Predicate → Cursor → Prop where
  | compare {f : Field} {op : Comparator} {o : Operand} {d e c' : Cursor}
      (field : FieldAt src c f d) (token : d.token = op.token) (step : Step src d e)
      (operand : OperandAt src e o c') : PredicateAt src c (.compare f op o) c'
  | isNull {f : Field} {negated : Bool} {d e n c' : Cursor} (field : FieldAt src c f d)
      (is : d.token = .is) (step : Step src d e) (not : NotAt src e negated n)
      (null : n.token = .null) (last : Step src n c') : PredicateAt src c (.isNull f negated) c'
  | among {f : Field} {negated : Bool} {literals : List Literal} {d n e g r c' : Cursor}
      (field : FieldAt src c f d) (not : NotAt src d negated n) (isIn : n.token = .in)
      (step : Step src n e) (lpar : e.token = .lpar) (step' : Step src e g)
      (list : ListAt src (LiteralAt src) g literals r) (rpar : r.token = .rpar)
      (last : Step src r c') : PredicateAt src c (.among f negated literals) c'

/-- So many tokens of a kind. -/
inductive TokensAt (src : Bytes) (tok : Sqltoken) : Nat → Cursor → Cursor → Prop where
  | none (c : Cursor) : TokensAt src tok 0 c c
  | one {n : Nat} {c d c' : Cursor} (token : c.token = tok) (step : Step src c d)
      (rest : TokensAt src tok n d c') : TokensAt src tok (n + 1) c c'

inductive LogicAt (src : Bytes) (c : Cursor) : Option Bytes → Cursor → Prop where
  | logic {c' : Cursor} (token : c.token = .and ∨ c.token = .or) (step : Step src c c') :
      LogicAt src c (some c.lexum) c'
  | bare : LogicAt src c none c

inductive ConditionsAt (src : Bytes) : Cursor → List Term → Cursor → Prop where
  | nil (c : Cursor) : ConditionsAt src c [] c
  | cons {t : Term} {ts : List Term} {c d e g h c' : Cursor}
      (opens : TokensAt src .lpar t.opens c d) (predicate : PredicateAt src d t.predicate e)
      (closes : TokensAt src .rpar t.closes e g) (logic : LogicAt src g t.op h)
      (rest : ConditionsAt src h ts c') : ConditionsAt src c (t :: ts) c'

/-- What stands behind a condition belongs to no condition; a closing parenthesis is there only
where an enclosing list may end. -/
structure Follows (ignoreTrailingRpar : Bool) (c : Cursor) : Prop where
  id : c.token ≠ .id
  lpar : c.token ≠ .lpar
  and : c.token ≠ .and
  or : c.token ≠ .or
  rpar : c.token = .rpar → ignoreTrailingRpar = true

/-! ## Parameters -/

variable {G : Given} {s s' s₀ : Parse} {rounds cell : Nat}

/-- From `s` the parser has come to `c`, has written `text`, and has numbered a placeholder for
each of the parameters `used`. -/
structure Went (s : Parse) (c : Cursor) (text : Bytes) (used : List Nat) (s' : Parse) : Prop where
  cursor : s'.cursor = c
  written : s'.written = s.written ++ text
  names : names s' = names s
  room : ∀ x, (s'.dp.uparams[x]?).map (·.idxs.length) =
    (s.dp.uparams[x]?).map (·.idxs.length + used.count x)
  cells : s'.cells.length = s.cells.length

theorem Writes.went {c : Cursor} {text : Bytes} (writes : Writes s c text s') :
    Went s c text [] s' where
  cursor := writes.cursor
  written := writes.written
  names := by rw [names, names, writes.uparams]
  room x := by rw [writes.uparams]; rfl
  cells := by rw [writes.cells]

theorem Went.trans {s'' : Parse} {c c' : Cursor} {one two : Bytes} {used used' : List Nat}
    (first : Went s c one used s') (second : Went s' c' two used' s'') :
    Went s c' (one ++ two) (used ++ used') s'' where
  cursor := second.cursor
  written := by rw [second.written, first.written, List.append_assoc]
  names := second.names.trans first.names
  room x := by
    rw [second.room, List.count_append]
    have one := first.room x
    cases at' : s.dp.uparams[x]? with
    | none =>
        rw [at', Option.map_none, Option.map_eq_none_iff] at one
        rw [one]
        rfl
    | some prm =>
        rw [at'] at one
        obtain ⟨prm', at'', same⟩ := Option.map_eq_some_iff.mp one
        rw [at'', Option.map_some, same, Option.map_some, Nat.add_assoc]
  cells := second.cells.trans first.cells

theorem Went.write {s'' : Parse} {c c' : Cursor} {one two : Bytes} {used : List Nat}
    (first : Went s c one used s') (second : Writes s' c' two s'') :
    Went s c' (one ++ two) used s'' := by
  have whole := first.trans second.went
  rwa [List.append_nil] at whole

/-- The parameter of a variable, if it has one that has room for another placeholder behind those
of `used`. -/
def Numbers (G : Given) (s : Parse) (used : List Nat) (lexum : Bytes) (x : Nat) : Prop :=
  G.hashtableGetChar (names s) lexum = some x ∧
    ∃ prm, s.dp.uparams[x]? = some prm ∧ prm.idxs.length + used.count x < PRMIDXLEN

/-- The parameter at `x` gets one more index. -/
def Parse.numbered (s : Parse) (cell x : Nat) (inlike : Bool) (prm : Sqlparam) (prmidxpos : Nat) :
    Parse :=
  { s with
    dp := { s.dp with
      uparams := s.dp.uparams.set x { prm with
        likepattern := inlike || prm.likepattern
        idxs := prm.idxs ++ [prmidxpos] }
      tsql := s.dp.tsql ++ [.placeholder s.cursor.start (s.cursor.lexum.drop 1)
        (some { prm := x, cell := cell, idx := prmidxpos })] }
    cells := s.cells.set cell (prmidxpos + 1) }

theorem setPrmIdx_some {x prmidxpos : Nat} {prm : Sqlparam} (inlike : Bool)
    (param : s.dp.uparams[x]? = some prm) (counter : s.cells[cell]? = some prmidxpos)
    (room : prm.idxs.length < PRMIDXLEN) :
    setPrmIdx cell x inlike s = some (s.numbered cell x inlike prm prmidxpos) := by
  unfold setPrmIdx
  rw [param, counter]
  dsimp only
  rw [if_pos room]
  rfl

theorem numbered_went {x : Nat} {prm : Sqlparam} (inlike : Bool) (prmidxpos : Nat)
    (param : s.dp.uparams[x]? = some prm) :
    Went s s.cursor (lit ":p" ++ s.cursor.lexum.drop 1) [x]
      (s.numbered cell x inlike prm prmidxpos) where
  cursor := rfl
  written := by simp [Parse.written, Parse.numbered, Piece.render]
  names := by
    show (s.dp.uparams.set x _).map (·.name) = s.dp.uparams.map (·.name)
    rw [List.map_set]
    refine List.ext_getElem? fun y => ?_
    by_cases here : x = y
    · subst here
      have lt := (List.getElem?_eq_some_iff.mp param).1
      rw [List.getElem?_set_self (by simpa using lt), List.getElem?_map, param]
      rfl
    · rw [List.getElem?_set_ne here]
  room y := by
    show ((s.dp.uparams.set x _)[y]?).map _ = _
    by_cases here : x = y
    · subst here
      rw [List.getElem?_set_self (List.getElem?_eq_some_iff.mp param).1, param]
      simp
    · rw [List.getElem?_set_ne here]
      simp [here]
  cells := List.length_set ..

theorem placeholder_takes {used : List Nat} {c : Cursor} {text : Bytes} {x : Nat} (inlike : Bool)
    (went : Went s₀ c text used s) (cells : cell < s₀.cells.length)
    (numbers : Numbers G s₀ used s.cursor.lexum x) :
    ∃ s', placeholder G cell inlike s = (.ok (), s') ∧
      Went s s.cursor (lit ":p" ++ s.cursor.lexum.drop 1) [x] s' := by
  obtain ⟨found, prm, at', room⟩ := numbers
  have room' := went.room x
  rw [at'] at room'
  obtain ⟨prm', at'', same⟩ := Option.map_eq_some_iff.mp room'
  have inside : cell < s.cells.length := went.cells ▸ cells
  have fits : prm'.idxs.length < PRMIDXLEN := same ▸ room
  refine ⟨s.numbered cell x inlike prm' s.cells[cell], ?_, numbered_went inlike _ at''⟩
  unfold placeholder
  rw [went.names, found]
  dsimp only
  rw [setPrmIdx_some inlike at'' (List.getElem?_eq_getElem inside) fits]

theorem placeholder_refuses {used : List Nat} {c : Cursor} {text : Bytes} (inlike : Bool)
    (went : Went s₀ c text used s) {s' : Parse} (run : placeholder G cell inlike s = (.ok (), s')) :
    ∃ x, Numbers G s₀ used s.cursor.lexum x := by
  unfold placeholder at run
  split at run
  case h_1 => cases (Prod.mk.inj run).1
  case h_2 x found =>
      split at run
      case h_1 => cases (Prod.mk.inj run).1
      case h_2 s₁ numbered =>
          unfold setPrmIdx at numbered
          split at numbered
          case h_2 => cases numbered
          case h_1 prm _ param _ =>
              split at numbered
              case isFalse => cases numbered
              case isTrue room =>
                  have room' := went.room x
                  rw [param] at room'
                  obtain ⟨prm', at', same⟩ := Option.map_eq_some_iff.mp room'.symm
                  exact ⟨x, went.names ▸ found, prm', at', same ▸ room⟩

/-! ## Operands -/

/-- The operand is accepted behind the placeholders of `used`, and `more` is what it numbers. -/
def Accepts (G : Given) (s : Parse) (allowFunctions : Bool) (used : List Nat) :
    Operand → List Nat → Prop
  | .var lexum, more => ∃ x, Numbers G s used lexum x ∧ more = [x]
  | .call _, more => allowFunctions = true ∧ more = []
  | _, more => more = []

/-- Where an operand that ends at `c` is taken to end: the call of an aggregate takes another
closing parenthesis. -/
def TakenTo (src : Bytes) (o : Operand) (c d : Cursor) : Prop :=
  if o.isAggregate then c.token = .rpar ∧ Step src c d else d = c

theorem CallAt.function {src : Bytes} {c d e : Cursor} {fn : Function} (call : CallAt src c fn d)
    (aggregate : fn.isAggregate = true) (rpar : d.token = .rpar) (step : Step src d e) :
    FunctionAt src c fn e := by
  cases call with
  | aggregate func name one lpar two field _ last =>
      exact .aggregate func name one lpar two field last rpar step
  | _ => cases aggregate

theorem operand_reads {used more : List Nat} {c c₀ d : Cursor} {text : Bytes} {o : Operand}
    {inlike allowFunctions : Bool} (went : Went s₀ c₀ text used s) (cells : cell < s₀.cells.length)
    (at' : OperandAt G.src s.cursor o c) (accepts : Accepts G s₀ allowFunctions used o more)
    (taken : TakenTo G.src o c d) :
    ∃ s', operand G cell inlike allowFunctions s = (.ok (), s') ∧
      Went s d (o.text inlike) more s' := by
  unfold operand
  rw [token_run]
  cases at' with
  | var var step =>
      obtain ⟨x, numbers, rfl⟩ := accepts
      obtain rfl : d = c := taken
      obtain ⟨s₁, run, went₁⟩ := placeholder_takes inlike went cells numbers
      rw [var]
      refine ⟨s₁.seek d, ?_, ?_⟩
      · exact (Attempt.bind_ok run).trans (next_reads (went₁.cursor.symm ▸ step))
      · have whole := went₁.write ((Writes.refl s₁).seek d)
        rwa [List.append_nil] at whole
  | literal literal =>
      obtain rfl := accepts
      obtain rfl : d = c := taken
      obtain ⟨s', run, writes⟩ := @parseLit_reads G s inlike _ _ literal
      refine ⟨s', ?_, writes.went⟩
      rcases literal.starts with num | strlit
      · rw [num]
        exact run
      · rw [strlit]
        exact run
  | field field =>
      obtain rfl := accepts
      obtain rfl : d = c := taken
      obtain ⟨s', run, writes⟩ := parseField_reads field
      refine ⟨s', ?_, writes.went⟩
      rw [field.id]
      exact run
  | @call fn _ call =>
      obtain ⟨allowed, rfl⟩ := accepts
      have function : FunctionAt G.src s.cursor fn d := by
        cases aggregate : fn.isAggregate with
        | true =>
            have taken : c.token = .rpar ∧ Step G.src c d := by
              have taken : if fn.isAggregate then _ else _ := taken
              rwa [if_pos aggregate] at taken
            exact call.function aggregate taken.1 taken.2
        | false =>
            obtain rfl : d = c := by
              have taken : if fn.isAggregate then _ else _ := taken
              rwa [if_neg (by rw [aggregate]; nofun)] at taken
            exact .plain call aggregate
      obtain ⟨s', run, writes⟩ := parseFunction_reads function
      refine ⟨s', ?_, writes.went⟩
      rw [call.func]
      show (if allowFunctions = true then _ else _ : Parser Unit) s = _
      rw [if_pos allowed]
      exact run
  | null null step =>
      obtain rfl := accepts
      obtain rfl : d = c := taken
      rw [null]
      exact ⟨_, next_reads (s := s.put (.text (lit " NULL "))) step,
        ((Writes.put s (.text (lit " NULL "))).seek d).went⟩

/-- An operand that is taken is accepted. -/
theorem operand_at {used : List Nat} {c c₀ : Cursor} {text : Bytes} {o : Operand}
    {inlike allowFunctions : Bool} (went : Went s₀ c₀ text used s)
    (at' : OperandAt G.src s.cursor o c)
    (run : operand G cell inlike allowFunctions s = (.ok (), s')) :
    (∃ more, Accepts G s₀ allowFunctions used o more) ∧ ∃ d, TakenTo G.src o c d := by
  unfold operand at run
  rw [token_run] at run
  cases at' with
  | var var step =>
      rw [var] at run
      obtain ⟨_, s₁, number, _⟩ := bind_ok_iff.mp run
      obtain ⟨x, numbers⟩ := placeholder_refuses inlike went number
      exact ⟨⟨[x], x, numbers, rfl⟩, c, rfl⟩
  | literal => exact ⟨⟨[], rfl⟩, c, rfl⟩
  | field => exact ⟨⟨[], rfl⟩, c, rfl⟩
  | null => exact ⟨⟨[], rfl⟩, c, rfl⟩
  | @call fn _ call =>
      rw [call.func] at run
      have run : (if allowFunctions = true then _ else _ : Parser Unit) s = _ := run
      cases allowFunctions with
      | false =>
          rw [if_neg (by nofun)] at run
          cases (Prod.mk.inj run).1
      | true =>
          rw [if_pos rfl] at run
          refine ⟨⟨[], rfl, rfl⟩, ?_⟩
          cases aggregate : fn.isAggregate with
          | false =>
              refine ⟨c, ?_⟩
              rw [TakenTo, if_neg (by rw [Operand.isAggregate, aggregate]; nofun)]
          | true =>
              cases fn with
              | aggregate name f =>
                  obtain ⟨rpar, step⟩ := parseFunction_aggregate call run
                  have taken : TakenTo G.src (.call (.aggregate name f)) c s'.cursor ↔
                      c.token = .rpar ∧ Step G.src c s'.cursor := Iff.rfl
                  exact ⟨s'.cursor, taken.mpr ⟨rpar, step⟩⟩
              | _ => cases aggregate

/-! ## Comparisons -/

theorem OperandAt.null_iff {src : Bytes} {c d : Cursor} {o : Operand} (at' : OperandAt src c o d) :
    c.token = .null ↔ o = .null := by
  cases at' with
  | var var => simp [var]
  | literal literal => rcases literal.starts with token | token <;> simp [token]
  | field field => simp [field.id]
  | call call => simp [call.func]
  | null null => simp [null]

theorem OperandAt.not_not {src : Bytes} {c d : Cursor} {o : Operand} (at' : OperandAt src c o d) :
    c.token ≠ .not := by
  cases at' with
  | var var => simp [var]
  | literal literal => rcases literal.starts with token | token <;> simp [token]
  | field field => simp [field.id]
  | call call => simp [call.func]
  | null null => simp [null]

/-- What a right-hand side must be: NULL from the first IS on. -/
def expectation (isnull : Bool) : Sqltoken := if isnull then .null else .eos

theorem comparison_reads {op : Comparator} (token : s.cursor.token = op.token) :
    ∃ s', comparison s = (.ok (decide (op = .like)), s') ∧ Writes s s.cursor op.text s' := by
  unfold comparison
  rw [token_run, token]
  cases op with
  | eq => exact ⟨_, rfl, Writes.put s (.operator s.cursor.start .eq (lit " = "))⟩
  | gt => exact ⟨_, rfl, Writes.put s (.operator s.cursor.start .gt (lit " > "))⟩
  | lt => exact ⟨_, rfl, Writes.put s (.operator s.cursor.start .lt (lit " < "))⟩
  | ge => exact ⟨_, rfl, Writes.put s (.operator s.cursor.start .ge (lit " >= "))⟩
  | le => exact ⟨_, rfl, Writes.put s (.operator s.cursor.start .le (lit " <= "))⟩
  | ne => exact ⟨_, rfl, Writes.put s (.operator s.cursor.start .ne (lit " <> "))⟩
  | like => exact ⟨_, rfl, Writes.put s (.operator s.cursor.start .like (lit " LIKE "))⟩

theorem Comparator.token_ne (op : Comparator) :
    op.token ≠ .is ∧ op.token ≠ .not ∧ op.token ≠ .in := by
  cases op <;> exact ⟨nofun, nofun, nofun⟩

theorem expected_run {isnull : Bool} (null : isnull = true → s.cursor.token = .null) :
    expected G (expectation isnull) s = (.ok (), s) := by
  show (if _ then _ else _ : Parser Unit) s = _
  rw [if_pos]
  · rfl
  · cases isnull with
    | false => exact .inl rfl
    | true => exact .inr (null rfl)

theorem expected_at {isnull : Bool} (not' : s.cursor.token ≠ .not)
    (run : expected G (expectation isnull) s = (.ok (), s')) (is : isnull = true) :
    s.cursor.token = .null := by
  subst is
  by_contra other
  have run : (if _ then _ else _ : Parser Unit) s = _ := run
  have none : ¬ (expectation true = .eos ∨ s.cursor.token = expectation true) := by
    rintro (eos | null)
    · cases eos
    · exact other null
  rw [if_neg none, if_neg (fun both => not' both.2)] at run
  cases (Prod.mk.inj run).1

/-- What a comparison writes behind its field. -/
def compareText (op : Comparator) (o : Operand) : Bytes :=
  op.text ++ o.text (op = .like) ++ (if op = .like then lit " TERMINATE \"`\" " else []) ++ lit " "

theorem predicate_run {allowFunctions ignoreTrailingRpar isnull : Bool} {depth : Nat} {e : Cursor}
    {op : Comparator} (token : s.cursor.token = op.token) (step : Step G.src s.cursor e) :
    ∃ s₁, Writes s e op.text s₁ ∧
      predicate G cell allowFunctions ignoreTrailingRpar depth (expectation isnull) s = (do
        expected G (expectation isnull)
        operand G cell (op = Comparator.like) allowFunctions
        only (op = Comparator.like) (text " TERMINATE \"`\" ")
        text " "
        closing G ignoreTrailingRpar depth (expectation isnull)) s₁ := by
  obtain ⟨s₁, run, writes⟩ := comparison_reads token
  refine ⟨s₁.seek e, writes.seek e, ?_⟩
  unfold predicate
  rw [token_run, Attempt.bind_ok run]
  refine (Attempt.bind_ok (next_reads (writes.cursor.symm ▸ step))).trans ?_
  rw [token, if_neg op.token_ne.1]

/-- A comparison that is accepted. -/
theorem compare_reads {used more : List Nat} {c₀ e c x : Cursor} {text : Bytes}
    {op : Comparator} {o : Operand} {allowFunctions ignoreTrailingRpar isnull : Bool} {depth : Nat}
    (went : Went s₀ c₀ text used s) (cells : cell < s₀.cells.length)
    (token : s.cursor.token = op.token) (step : Step G.src s.cursor e)
    (at' : OperandAt G.src e o c) (null : isnull = true → o = .null)
    (accepts : Accepts G s₀ allowFunctions used o more) (taken : TakenTo G.src o c x) :
    ∃ s', predicate G cell allowFunctions ignoreTrailingRpar depth (expectation isnull) s =
        closing G ignoreTrailingRpar depth (expectation isnull) s' ∧
      Went s x (compareText op o) more s' := by
  obtain ⟨s₁, first, run⟩ := @predicate_run G s cell allowFunctions ignoreTrailingRpar isnull depth
    e op token step
  have at'' : OperandAt G.src s₁.cursor o c := first.cursor.symm ▸ at'
  obtain ⟨s₂, two, second⟩ := @operand_reads G s₁ s₀ cell used more _ _ _ _ _ (op = .like) _
    (went.write first) cells at'' accepts taken
  have both := first.went.trans second
  rw [List.nil_append] at both
  rw [run, Attempt.bind_ok (expected_run fun is => at''.null_iff.mpr (null is)),
    Attempt.bind_ok two]
  by_cases like : op = .like
  · subst like
    refine ⟨(s₂.put (.text (lit " TERMINATE \"`\" "))).put (.text (lit " ")), rfl, ?_⟩
    have whole := both.write (((Writes.refl s₂).append (.text (lit " TERMINATE \"`\" "))).append
      (.text (lit " ")))
    rw [second.cursor] at whole
    simpa [compareText] using whole
  · refine ⟨s₂.put (.text (lit " ")), ?_, ?_⟩
    · rw [decide_eq_false like]
      rfl
    · have whole := both.write ((Writes.refl s₂).append (.text (lit " ")))
      rw [second.cursor] at whole
      simpa [compareText, like] using whole

/-- A comparison that is taken is accepted. -/
theorem compare_at {used : List Nat} {c₀ e c : Cursor} {text : Bytes} {op : Comparator}
    {o : Operand} {allowFunctions ignoreTrailingRpar isnull : Bool} {depth : Nat}
    {r : Round (Nat × Sqltoken) Unit} (went : Went s₀ c₀ text used s)
    (token : s.cursor.token = op.token) (step : Step G.src s.cursor e)
    (at' : OperandAt G.src e o c)
    (run : predicate G cell allowFunctions ignoreTrailingRpar depth (expectation isnull) s =
      (.ok r, s')) :
    (isnull = true → o = .null) ∧ (∃ more, Accepts G s₀ allowFunctions used o more) ∧
      ∃ x, TakenTo G.src o c x := by
  obtain ⟨s₁, first, same⟩ := @predicate_run G s cell allowFunctions ignoreTrailingRpar isnull depth
    e op token step
  have at'' : OperandAt G.src s₁.cursor o c := first.cursor.symm ▸ at'
  obtain ⟨_, s₂, one, rest⟩ := bind_ok_iff.mp (same.symm.trans run)
  have null (is : isnull = true) : s₁.cursor.token = .null := expected_at at''.not_not one is
  have stays := one.symm.trans (expected_run null)
  obtain rfl := (Prod.mk.inj stays).2
  obtain ⟨_, s₃, two, -⟩ := bind_ok_iff.mp rest
  exact ⟨fun is => at''.null_iff.mp (null is), operand_at (went.write first) at'' two⟩

/-! ## IS NULL -/

/-- What IS [NOT] NULL writes behind its field. -/
def nullText (negated : Bool) : Bytes :=
  lit " IS " ++ (if negated then lit "NOT " else []) ++ lit " NULL " ++ lit " "

theorem NotAt.reads {negated : Bool} {n : Cursor} (at' : NotAt G.src s.cursor negated n)
    (null : n.token = .null) :
    ∃ s', expected G .null s = (.ok (), s') ∧
      Writes s n (if negated then lit "NOT " else []) s' := by
  unfold expected
  rw [token_run]
  cases at' with
  | not not step =>
      rw [not, if_neg (by simp), if_pos ⟨rfl, rfl⟩]
      exact ⟨_, next_reads (s := s.put (.operator s.cursor.start .not (lit "NOT "))) step,
        (Writes.put s (.operator s.cursor.start .not (lit "NOT "))).seek n⟩
  | none =>
      rw [null, if_pos (.inr rfl)]
      exact ⟨s, rfl, Writes.refl s⟩

/-- IS [NOT] NULL is always accepted. -/
theorem isNull_reads {allowFunctions ignoreTrailingRpar : Bool} {depth : Nat} {expect : Sqltoken}
    {e n c : Cursor} {negated : Bool} (is : s.cursor.token = .is) (step : Step G.src s.cursor e)
    (not : NotAt G.src e negated n) (null : n.token = .null) (last : Step G.src n c) :
    ∃ s', predicate G cell allowFunctions ignoreTrailingRpar depth expect s =
        closing G ignoreTrailingRpar depth .null s' ∧ Writes s c (nullText negated) s' := by
  let s₁ := (s.put (.operator s.cursor.start .is (lit " IS "))).seek e
  have first : Writes s e (lit " IS ") s₁ :=
    (Writes.put s (.operator s.cursor.start .is (lit " IS "))).seek e
  obtain ⟨s₂, two, second⟩ := NotAt.reads (s := s₁) not null
  have compared : comparison s =
      (.ok false, s.put (.operator s.cursor.start .is (lit " IS "))) := by
    unfold comparison
    rw [token_run, is]
    rfl
  have read : operand G cell false allowFunctions s₂ =
      (.ok (), (s₂.put (.text (lit " NULL "))).seek c) := by
    unfold operand
    rw [token_run, second.cursor, null]
    exact next_reads (s := s₂.put (.text (lit " NULL "))) (second.cursor.symm ▸ last)
  refine ⟨((s₂.put (.text (lit " NULL "))).seek c).put (.text (lit " ")), ?_, ?_⟩
  · unfold predicate
    rw [token_run, Attempt.bind_ok compared, is, if_pos rfl]
    have start : next G (s.put (.operator s.cursor.start .is (lit " IS "))) = (.ok (), s₁) :=
      next_reads step
    refine (Attempt.bind_ok start).trans ?_
    rw [Attempt.bind_ok two]
    refine (Attempt.bind_ok read).trans rfl
  · exact (((first.trans second).append (.text (lit " NULL "))).seek c).append (.text (lit " "))

/-! ## IN -/

/-- The loop over the literals of IN. -/
def literalLoop (G : Given) (rounds : Nat) : Parser Unit :=
  loopWhile rounds (fun tok => tok = .num ∨ tok = .strlit) (literalRound G)

theorem ListAt.starts_literal {src : Bytes} {c c' : Cursor} {ls : List Literal}
    (list : ListAt src (LiteralAt src) c ls c') : c.token = .num ∨ c.token = .strlit := by
  obtain ⟨l, d, at', -⟩ := list.head
  exact at'.starts

theorem literalRound_last {l : Literal} {c : Cursor} (at' : LiteralAt G.src s.cursor l c)
    (ends : c.token ≠ .comma) :
    ∃ s', literalRound G s = (.ok (), s') ∧ Writes s c (l.text false) s' := by
  obtain ⟨s', run, writes⟩ := @parseLit_reads G s false l c at'
  refine ⟨s', ?_, writes⟩
  rw [literalRound, Attempt.bind_ok run, token_run, writes.cursor, if_pos ends]
  rfl

theorem literalRound_comma {l : Literal} {c e : Cursor} (at' : LiteralAt G.src s.cursor l c)
    (comma : c.token = .comma) (step : Step G.src c e)
    (starts : e.token = .num ∨ e.token = .strlit) :
    ∃ s', literalRound G s = (.ok (), s') ∧ Writes s e (l.text false ++ lit ",") s' := by
  obtain ⟨s₁, run, writes⟩ := @parseLit_reads G s false l c at'
  refine ⟨(s₁.seek e).put (.text (lit ",")), ?_, (writes.seek e).append (.text (lit ","))⟩
  rw [literalRound, Attempt.bind_ok run, token_run, writes.cursor, if_neg (not_not.mpr comma),
    read_ok_iff]
  refine ⟨e, writes.cursor ▸ step, ?_⟩
  show (if e.token = .num ∨ e.token = .strlit then _ else _ : Parser Unit) _ = _
  rw [if_pos starts]
  rfl

/-- A list of literals is read to its end. -/
theorem literalList_run {c c' : Cursor} {ls : List Literal}
    (list : ListAt G.src (LiteralAt G.src) c ls c') (ends : c'.token = .rpar)
    (here : s.cursor = c) (room : left G.src c < rounds) :
    ∃ s', literalLoop G rounds s = (.ok (), s') ∧
      Writes s c' (commas (ls.map (Literal.text false))) s' := by
  induction list generalizing s rounds with
  | @last c c' l at' single =>
      subst here
      obtain ⟨s₁, round, writes⟩ := literalRound_last at' single
      have less := (at'.step.passed (by rcases at'.starts with h | h <;> rw [h] <;> nofun)).left
      obtain ⟨rounds, rfl⟩ : ∃ n, rounds = n + 1 + 1 := ⟨rounds - 2, by omega⟩
      have again : literalLoop G (rounds + 1 + 1) s =
          literalLoop G (rounds + 1) (s₁.lapped s.cursor) :=
        loopWhile_again (decide_eq_true at'.starts) round
      have ended : literalLoop G (rounds + 1) (s₁.lapped s.cursor) =
          (.ok (), s₁.lapped s.cursor) := by
        refine loopWhile_end ?_
        show decide (s₁.cursor.token = .num ∨ s₁.cursor.token = .strlit) = false
        rw [writes.cursor, ends]
        rfl
      refine ⟨_, again.trans ended, ?_⟩
      rw [List.map_singleton, commas_single]
      exact writes.lapped _
  | @more c d e c' l ls at' comma step rest ih =>
      subst here
      obtain ⟨s₁, round, writes⟩ := literalRound_comma at' comma step rest.starts_literal
      have less := ((at'.step.passed (by rcases at'.starts with h | h <;> rw [h] <;> nofun)).trans
        step.reached).left
      obtain ⟨rounds, rfl⟩ : ∃ n, rounds = n + 1 := ⟨rounds - 1, by omega⟩
      have again : literalLoop G (rounds + 1) s = literalLoop G rounds (s₁.lapped s.cursor) :=
        loopWhile_again (decide_eq_true at'.starts) round
      have left : left G.src e < rounds := by omega
      obtain ⟨s₂, more, writes'⟩ := ih ends (s := s₁.lapped s.cursor) writes.cursor left
      refine ⟨s₂, again.trans more, ?_⟩
      rw [List.map_cons, commas_cons _ (by simpa using rest.ne_nil)]
      simpa using (writes.lapped s.cursor).trans writes'

/-- What IN writes behind its field. -/
def amongText (negated : Bool) (ls : List Literal) : Bytes :=
  (if negated then lit " NOT " else []) ++ lit " IN " ++ lit "(" ++
    commas (ls.map (Literal.text false)) ++ lit ")"

theorem parseInList_reads {select : Parser Unit} {e g r c : Cursor} {ls : List Literal}
    (isIn : s.cursor.token = .in) (step : Step G.src s.cursor e) (lpar : e.token = .lpar)
    (step' : Step G.src e g) (list : ListAt G.src (LiteralAt G.src) g ls r)
    (rpar : r.token = .rpar) (last : Step G.src r c) (room : left G.src g < rounds) :
    ∃ s', parseInList G select rounds s = (.ok (), s') ∧ Writes s c (amongText false ls) s' := by
  let s₁ := ((s.seek e).seek g).put (.operator s.cursor.start .in (lit " IN "))
  have head : inHead G s = (.ok (), s₁) := by
    show (next G >>= _) s = _
    refine read_ok_iff.mpr ⟨e, step, expect_then_ok_iff.mpr ⟨lpar, read_ok_iff.mpr ⟨g, step', ?_⟩⟩⟩
    rfl
  have first : Writes s g (lit " IN " ++ lit "(") (s₁.put (.text (lit "("))) :=
    ((((Writes.refl s).seek e).seek g).append
      (.operator s.cursor.start .in (lit " IN "))).append (.text (lit "("))
  obtain ⟨s₂, run, second⟩ := literalList_run (s := s₁.put (.text (lit "("))) list rpar rfl room
  have items : inItems G select rounds (s₁.put (.text (lit "("))) = (.ok (), s₂) := by
    show (if g.token = .select then _ else _ : Parser Unit) _ = _
    rw [if_neg (by rcases list.starts_literal with h | h <;> rw [h] <;> nofun)]
    exact run
  refine ⟨(s₂.seek c).put (.text (lit ")")), ?_, ?_⟩
  · unfold parseInList
    rw [token_run, if_neg (not_not.mpr isIn), Attempt.bind_ok head]
    have opened : text "(" s₁ = (.ok (), s₁.put (.text (lit "("))) := rfl
    rw [Attempt.bind_ok opened, Attempt.bind_ok items]
    refine expect_then_ok_iff.mpr ⟨second.cursor.symm ▸ rpar, read_ok_iff.mpr
      ⟨c, second.cursor.symm ▸ last, rfl⟩⟩
  · simpa [amongText] using ((first.trans second).seek c).append (.text (lit ")"))

theorem among_reads {select : Parser Unit} {n e g r c : Cursor} {negated : Bool}
    {ls : List Literal} (not : NotAt G.src s.cursor negated n) (isIn : n.token = .in)
    (step : Step G.src n e) (lpar : e.token = .lpar) (step' : Step G.src e g)
    (list : ListAt G.src (LiteralAt G.src) g ls r) (rpar : r.token = .rpar)
    (last : Step G.src r c) (room : left G.src g < rounds) :
    ∃ s', inPredicate G select rounds s = (.ok (), s') ∧ Writes s c (amongText negated ls) s' := by
  unfold inPredicate
  rw [token_run]
  cases not with
  | not not one =>
      let s₁ := (s.put (.operator s.cursor.start .not (lit " NOT "))).seek n
      have first : Writes s n (lit " NOT ") s₁ :=
        (Writes.put s (.operator s.cursor.start .not (lit " NOT "))).seek n
      obtain ⟨s', run, writes⟩ := @parseInList_reads G s₁ rounds select e g r c ls isIn step lpar
        step' list rpar last room
      refine ⟨s', ?_, by simpa [amongText] using first.trans writes⟩
      rw [not]
      have negated : (only (decide (Sqltoken.not = Sqltoken.not)) do
          operator .not " NOT "
          next G : Parser Unit) s = (.ok (), s₁) :=
        next_reads (s := s.put (.operator s.cursor.start .not (lit " NOT "))) one
      exact (Attempt.bind_ok negated).trans run
  | none =>
      obtain ⟨s', run, writes⟩ := @parseInList_reads G s rounds select e g r c ls isIn step lpar
        step' list rpar last room
      refine ⟨s', ?_, writes⟩
      rw [isIn]
      exact run

end Jspp.Sql
