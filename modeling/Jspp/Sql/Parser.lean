/-
# Sql.Parser -- the translation of a stored procedure

The parser of sqlparser.c: it reads one CREATE PROCEDURE statement and writes the
SQL text `tsql` while it reads.  Its functions share a cursor, the `sqldef` and
the error code; they are attempts on the state `Parse`.

* `tsql` is kept as the pieces appended to it; a piece that stands for a token of
  the text knows where the token begins.
* The parameter counters `prmidxpos` are locals passed by pointer: a pointer is an
  index into `cells`.
* `items`, `buffers`, `laps` and `calls` record, beside what the source has, the
  items of the select lists, the buffers written by `sprintf`, the rounds of the
  loops and the nested selects.

`Fail.rounds` is the end of the bound on rounds and nested selects; every other
failure is the code's own, `none` where it sets no error code.  Allocation is
taken to succeed.  The hash table of the portable library is given (`Given`).
-/
import Jspp.Sql.Tokenizer
import Jspp.Theory.Attempt

namespace Jspp.Sql

open Jspp.Splc (Bytes lit isdigit isalnum toupper)
open Jspp.Theory

set_option autoImplicit false

inductive Sqlparseerror where
  | errSyntax | outOfMem | expCreate | expProc | expDot | expRpar | expLpar | expFields | expFrom
  | expTable | expType | expLen | expOp | expCond | expUndefparam | expDotField | expJoin
  | expOn | expInto | expValues | expSet | expOrderby | unknownFn | expWhen | onlyOneElse | expThen
  | expValue | expEnd | unexpRpar
  deriving DecidableEq, Repr

/-- `ERR_EXP_AS` is the number of `ERR_EXP_LPAR`. -/
abbrev Sqlparseerror.expAs : Sqlparseerror := .expLpar

inductive Fail where
  | rounds
  | error (errcode : Option Sqlparseerror)
  deriving DecidableEq, Repr

/-- The operators of a condition. -/
inductive Operator where
  | eq | gt | lt | ge | le | ne | like | is | in | not
  deriving DecidableEq, Repr

/-- What `setPrmIdx` records: the parameter, the pointer to the counter, and the index. -/
structure Index where
  prm : Nat
  cell : Nat
  idx : Nat
  deriving DecidableEq, Repr

/-- What is appended to `tsql`. -/
inductive Piece where
  | text (t : Bytes)
  /-- `lexum`, for the token that begins at `start`. -/
  | word (start : Nat) (lexum : Bytes)
  /-- An operator, for the token that begins at `start`, and its text. -/
  | operator (start : Nat) (op : Operator) (t : Bytes)
  /-- `:pNAME`, and its index where it is numbered. -/
  | placeholder (start : Nat) (name : Bytes) (index : Option Index)
  deriving DecidableEq, Repr

def Piece.render : Piece → Bytes
  | .text t => t
  | .word _ lexum => lexum
  | .operator _ _ t => t
  | .placeholder _ name _ => lit ":p" ++ name

inductive Datatype where
  | int | short | long | char
  deriving DecidableEq, Repr

/-- `idxs` is the array up to its first `-1`. -/
structure Sqlparam where
  name : Bytes
  type : Datatype
  len : Int
  likepattern : Bool
  idxs : List Nat
  deriving DecidableEq, Repr

def PRMIDXLEN : Nat := 10

inductive Sqlop where
  | select | insert | update | delete
  deriving DecidableEq, Repr

structure Sqldef where
  sys : Bytes
  name : Bytes
  tsql : List Piece
  codepos : Nat
  stmttype : Sqlop
  uparams : List Sqlparam
  ufields : List Bytes
  deriving DecidableEq, Repr

/-- An item of a select list: its field, if it is one, and its alias. -/
structure Item where
  field : Option Bytes
  named : Option Bytes
  deriving DecidableEq, Repr

structure Parse where
  cursor : Cursor
  dp : Sqldef
  cells : List Nat
  items : List (Nat × Item)
  buffers : List Nat
  laps : List (Cursor × Cursor)
  calls : List (Cursor × Cursor)
  deriving DecidableEq, Repr

/-- The text, and the hash table `uparamsLookup` as a function of the names added to it:
whether a name can be added, and which parameter a name finds. -/
structure Given where
  src : Bytes
  hashtableAdd : List Bytes → Bytes → Bool
  hashtableGetChar : List Bytes → Bytes → Option Nat

abbrev Parser (α : Type) := Attempt Parse Fail α

namespace Parser

open Attempt (fail modify loop)

/-! ## Single steps -/

variable (G : Given)

def token : Parser Sqltoken := fun s => (.ok s.cursor.token, s)

def cursor : Parser Cursor := fun s => (.ok s.cursor, s)

def stop {α : Type} (errcode : Sqlparseerror) : Parser α := fail (.error (some errcode))

/-- `sqltokenizer`, with `ERR_SYNTAX` where it fails. -/
def next : Parser Unit := fun s =>
  let (ok, c) := sqltokenizer G.src s.cursor
  (if ok then .ok () else .error (.error (some .errSyntax)), { s with cursor := c })

/-- `sqltokenizer`, its result unused. -/
def skip : Parser Unit := modify fun s => { s with cursor := (sqltokenizer G.src s.cursor).2 }

def expect (tok : Sqltoken) (errcode : Sqlparseerror) : Parser Unit := do
  if (← token) = tok then pure () else stop errcode

def append (p : Cursor → Piece) : Parser Unit := modify fun s =>
  { s with dp := { s.dp with tsql := s.dp.tsql ++ [p s.cursor] } }

def text (t : String) : Parser Unit := append fun _ => .text (lit t)

/-- `lexum` as fixed text: a keyword, or the name of a table or a function. -/
def plain : Parser Unit := append fun c => .text c.lexum

/-- `lexum`, a field or a literal. -/
def word : Parser Unit := append fun c => .word c.start c.lexum

def operator (op : Operator) (t : String) : Parser Unit :=
  append fun c => .operator c.start op (lit t)

/-- `:p` and the variable without its `@`, which no parameter is looked up for. -/
def variable' : Parser Unit := append fun c => .placeholder c.start (c.lexum.drop 1) none

/-- An `if` without `else`. -/
def only (c : Bool) (m : Parser Unit) : Parser Unit := if c then m else pure ()

/-- A round of a loop, recorded where it goes on. -/
def lap {τ ρ : Type} (round : Parser (Round τ ρ)) : Parser (Round τ ρ) := do
  let before ← cursor
  let r ← round
  match r with
  | .again t => do
      modify fun s => { s with laps := s.laps ++ [(before, s.cursor)] }
      pure (.again t)
  | .leave r => pure (.leave r)

/-- A nested call of `parseSelect`, recorded with the cursor its caller started from. -/
def called {α : Type} (caller : Cursor) (select : Parser α) : Parser α := do
  modify fun s => { s with calls := s.calls ++ [(caller, s.cursor)] }
  select

/-- A loop of the source, of at most `rounds` rounds. -/
def repeats {τ ρ : Type} (rounds : Nat) (round : τ → Parser (Round τ ρ)) (start : τ) : Parser ρ :=
  loop .rounds (fun t => lap (round t)) rounds start

/-- A `while` loop over the current token, without local variables. -/
def loopWhile (rounds : Nat) (holds : Sqltoken → Bool) (round : Parser Unit) : Parser Unit :=
  repeats rounds
    (fun _ => do
      if holds (← token) then do
        round
        pure (.again ())
      else pure (.leave ()))
    ()

/-! ## Literals, fields and functions -/

def parseLit (inlike : Bool) : Parser Unit := do
  match ← token with
  | .strlit => do
      text "'"
      word
      only inlike (text "`")
      text "'"
      next G
  | .num => do
      word
      next G
  | _ => fail (.error none)

/-- `fieldname`, added to `ufields`: the item of a select list starts with it. -/
def pushField (cell : Nat) : Parser Unit := modify fun s => { s with
  dp := { s.dp with ufields := s.dp.ufields ++ [s.cursor.lexum] }
  items := s.items ++ [(cell, { field := some s.cursor.lexum, named := none })] }

/-- The last element of a list, changed. -/
def changeLast {α : Type} (f : α → α) : List α → List α
  | [] => []
  | [a] => [f a]
  | a :: rest => a :: changeLast f rest

/-- `stringAppendChar( fieldname, cp )`. -/
def extendField (cp : Cursor → Bytes) : Parser Unit := modify fun s => { s with
  dp := { s.dp with ufields := changeLast (· ++ cp s.cursor) s.dp.ufields }
  items := changeLast
    (fun item => (item.1, { item.2 with field := item.2.field.map (· ++ cp s.cursor) })) s.items }

/-- `inselect` is the select whose list the field is an item of. -/
def parseField (inselect : Option Nat) : Parser Unit := do
  if (← token) ≠ .id then fail (.error none)
  else
    inselect.elim (pure ()) pushField
    word
    next G
    if (← token) ≠ .dot then pure ()
    else
      text "."
      only inselect.isSome (extendField fun _ => lit ".")
      next G
      only inselect.isSome (extendField fun c => c.lexum)
      expect .id .expDotField
      word
      next G

/-- `ucase` on `lexum`. -/
def ucase : Parser Unit := modify fun s =>
  { s with cursor := { s.cursor with lexum := s.cursor.lexum.map toupper } }

def aggregates : List String := ["AVG", "MAX", "MIN", "SUM"]

/-- The `if` cascade of `parseFunction` over the name of the function. -/
def functionCall (lexum : Bytes) : Parser Unit := do
  if lexum = lit "GETDATE" then do
    text "CURRENT"
    next G
    expect .lpar .expLpar
  else if lexum = lit "COUNT" then do
    text "COUNT(*)"
    next G
    expect .lpar .expLpar
    next G
    expect .splat .expFields
  else if lexum ∈ aggregates.map lit then do
    plain
    text "("
    next G
    expect .lpar .expLpar
    next G
    parseField G none
    text ")"
  else stop .unknownFn

def parseFunction : Parser Unit := do
  expect .func .errSyntax
  ucase
  functionCall G (← cursor).lexum
  next G
  expect .rpar .expRpar
  next G

def fieldOrFunction : Parser Unit := do
  if (← token) = .id then parseField G none else parseFunction G

/-- Its first test holds of every token. -/
def parseFieldFnList (rounds : Nat) : Parser Unit := do
  let tok ← token
  if tok ≠ .id ∨ tok ≠ .func then stop .expFields
  else
    loopWhile rounds (fun tok => tok = .id ∨ tok = .func) do
      fieldOrFunction G
      if (← token) ≠ .comma then pure ()
      else
        text ","
        next G
        let tok ← token
        if tok ≠ .id ∨ tok ≠ .func then stop .expFields else pure ()

def parseGroupBy (rounds : Nat) : Parser Unit := do
  if (← token) ≠ .group then pure ()
  else
    next G
    expect .by .expOrderby
    next G
    text " GROUP BY "
    parseFieldFnList G rounds

/-- Without DESC or ASC the order is descending. -/
def direction : Parser Unit := do
  match ← token with
  | .desc => do
      text " DESC "
      next G
  | .asc => do
      text " ASC "
      next G
  | _ => text " DESC "

def parseOrderBy (rounds : Nat) : Parser Unit := do
  if (← token) ≠ .order then pure ()
  else
    next G
    expect .by .expOrderby
    next G
    text " ORDER BY "
    expect .id .expFields
    loopWhile rounds (fun tok => tok = .id ∨ tok = .func) do
      fieldOrFunction G
      direction G
      if (← token) ≠ .comma then pure ()
      else
        next G
        text ","
        let tok ← token
        if tok ≠ .id ∧ tok ≠ .func then stop .expFields else pure ()

/-! ## Conditions

`select` is `parseSelect` on a sub-select, `cell` points to the counter of the
statement the condition stands in. -/

section Conditions

variable (select : Parser Unit) (rounds cell : Nat)

/-- IN and the parenthesis behind it: IN is appended when both have been read. -/
def inHead : Parser Unit := do
  let start := (← cursor).start
  next G
  expect .lpar .expLpar
  next G
  append fun _ => .operator start .in (lit " IN ")

def inItems : Parser Unit := do
  if (← token) = .select then select
  else
    loopWhile rounds (fun tok => tok = .num ∨ tok = .strlit) do
      parseLit G false
      if (← token) ≠ .comma then pure ()
      else
        next G
        text ","
        let tok ← token
        if tok = .num ∨ tok = .strlit then pure () else stop .errSyntax

/-- A list of literals or a sub-select behind IN; nothing for any other token. -/
def parseInList : Parser Unit := do
  if (← token) ≠ .in then pure ()
  else
    inHead G
    text "("
    inItems G select rounds
    expect .rpar .expRpar
    next G
    text ")"

/-- The names added to `uparamsLookup`. -/
def names (s : Parse) : List Bytes := s.dp.uparams.map (·.name)

/-- `setPrmIdx` on the parameter at `x`, with the placeholder it numbers. -/
def setPrmIdx (x : Nat) (inlike : Bool) (s : Parse) : Option Parse :=
  match s.dp.uparams[x]?, s.cells[cell]? with
  | some prm, some prmidxpos =>
      if prm.idxs.length < PRMIDXLEN then
        some { s with
          dp := { s.dp with
            uparams := s.dp.uparams.set x { prm with
              likepattern := inlike || prm.likepattern
              idxs := prm.idxs ++ [prmidxpos] }
            tsql := s.dp.tsql ++
              [.placeholder s.cursor.start (s.cursor.lexum.drop 1)
                (some { prm := x, cell := cell, idx := prmidxpos })] }
          cells := s.cells.set cell (prmidxpos + 1) }
      else none
  | _, _ => none

/-- The placeholder of a condition. -/
def placeholder (inlike : Bool) : Parser Unit := fun s =>
  match G.hashtableGetChar (names s) s.cursor.lexum with
  | none => (.error (.error (some .expUndefparam)), s)
  | some x =>
      match setPrmIdx cell x inlike s with
      | none => (.error (.error (some .outOfMem)), s)
      | some s => (.ok (), s)

/-- The right-hand side of a comparison. -/
def operand (inlike allowFunctions : Bool) : Parser Unit := do
  match ← token with
  | .var => do
      placeholder G cell inlike
      next G
  | .strlit => parseLit G inlike
  | .num => parseLit G inlike
  | .id => parseField G none
  | .func => if allowFunctions then parseFunction G else stop .expCond
  | .null => do
      text " NULL "
      next G
  | _ => stop .expCond

/-- The comparison operators: what is appended, and whether the operator is LIKE. -/
def comparison : Parser Bool := do
  match ← token with
  | .eq => do
      operator .eq " = "
      pure false
  | .gt => do
      operator .gt " > "
      pure false
  | .lt => do
      operator .lt " < "
      pure false
  | .gteq => do
      operator .ge " >= "
      pure false
  | .lteq => do
      operator .le " <= "
      pure false
  | .neq => do
      operator .ne " <> "
      pure false
  | .like => do
      operator .like " LIKE "
      pure true
  | .is => do
      operator .is " IS "
      pure false
  | _ => stop .expOp

/-- Behind IS the token must be NULL, or NOT in front of any operand. -/
def expected (expect : Sqltoken) : Parser Unit := do
  let tok ← token
  if expect = .eos ∨ tok = expect then pure ()
  else if expect = .null ∧ tok = .not then do
    operator .not "NOT "
    next G
  else stop .errSyntax

/-- How a round goes on behind its predicate: with AND or OR, or not at all. -/
def logic (paradepth : Nat) (expect : Sqltoken) : Parser (Round (Nat × Sqltoken) Unit) := do
  let tok ← token
  if tok = .and ∨ tok = .or then do
    plain
    next G
    text " "
    pure (.again (paradepth, expect))
  else pure (.leave ())

/-- A closing parenthesis, then the logic operator. -/
def closing (ignoreTrailingRpar : Bool) (paradepth : Nat) (expect : Sqltoken) :
    Parser (Round (Nat × Sqltoken) Unit) := do
  if (← token) ≠ .rpar then logic G paradepth expect
  else if paradepth = 0 then
    if ignoreTrailingRpar then pure (.leave ()) else stop .unexpRpar
  else
    text ") "
    next G
    logic G (paradepth - 1) expect

/-- NOT and IN: an IN list ends the round. -/
def inPredicate : Parser Unit := do
  let tok ← token
  only (tok = .not) do
    operator .not " NOT "
    next G
  parseInList G select rounds

/-- A predicate behind its field; `expect` is NULL from the first IS on. -/
def predicate (allowFunctions ignoreTrailingRpar : Bool) (paradepth : Nat) (expect : Sqltoken) :
    Parser (Round (Nat × Sqltoken) Unit) := do
  let tok ← token
  let inlike ← comparison
  let expect := if tok = .is then .null else expect
  next G
  expected G expect
  operand G cell inlike allowFunctions
  only inlike (text " TERMINATE \"`\" ")
  text " "
  closing G ignoreTrailingRpar paradepth expect

/-- An opening parenthesis in front of a predicate. -/
def opening (paradepth : Nat) : Parser Nat := do
  if (← token) = .lpar then do
    text "("
    next G
    pure (paradepth + 1)
  else pure paradepth

def condition (allowFunctions ignoreTrailingRpar : Bool) (paradepth : Nat) (expect : Sqltoken) :
    Parser (Round (Nat × Sqltoken) Unit) := do
  let paradepth ← opening G paradepth
  parseField G none
  let tok ← token
  if tok = .not ∨ tok = .in then do
    inPredicate G select rounds
    pure (.again (paradepth, expect))
  else predicate G cell allowFunctions ignoreTrailingRpar paradepth expect

def parseConditions (allowFunctions ignoreTrailingRpar : Bool) : Parser Unit :=
  repeats rounds
    (fun (paradepth, expect) => do
      let tok ← token
      if tok = .id ∨ tok = .lpar then
        condition G select rounds cell allowFunctions ignoreTrailingRpar paradepth expect
      else if paradepth ≠ 0 then stop .expRpar
      else pure (.leave ()))
    ((0, .eos) : Nat × Sqltoken)

/-- The value behind THEN. -/
def thenValue : Parser Unit := do
  match ← token with
  | .strlit => parseLit G false
  | .num => parseLit G false
  | .func => parseFunction G
  | _ => stop .expValue

/-- The branches of CASE: `elsecount` ELSE branches have been read. -/
def branch (elsecount : Nat) : Parser Nat := do
  let tok ← token
  text " "
  plain
  if tok = .else then do
    only (elsecount > 0) (stop .onlyOneElse)
    text " "
    next G
    parseLit G false
    pure (elsecount + 1)
  else do
    text " "
    next G
    parseConditions G select rounds cell false false
    expect .then .expThen
    text " THEN "
    next G
    thenValue G
    pure elsecount

def parseCase : Parser Unit := do
  text " CASE "
  next G
  expect .when .expWhen
  repeats rounds
    (fun elsecount => do
      let tok ← token
      if tok = .when ∨ tok = .else then do
        pure (.again (← branch G select rounds cell elsecount))
      else pure (.leave ()))
    0
  expect .end .expEnd
  text " END "
  next G

def parseWhere (ignoreTrailingRpar : Bool) : Parser Unit := do
  if (← token) ≠ .where then pure ()
  else
    text " WHERE "
    next G
    parseConditions G select rounds cell false ignoreTrailingRpar

def parseHaving : Parser Unit := do
  if (← token) ≠ .having then pure ()
  else
    text " HAVING "
    next G
    parseConditions G select rounds cell true false

/-! ## Tables -/

/-- A table is a define: its name starts with `=`. -/
def define : Parser Unit := append fun c =>
  .text (if c.lexum.headD 0 = 61 then c.lexum else 61 :: c.lexum)

/-- The name of a define without its `=` is its alias. -/
def defineAlias : Parser Unit := append fun c =>
  .text (if c.lexum.headD 0 = 61 then c.lexum.drop 1 else c.lexum)

def parseJoinLhs : Parser Unit := do
  plain
  text " JOIN "
  next G
  expect .join .expJoin
  next G
  expect .id .expTable
  define
  text " "
  defineAlias
  next G
  expect .on .expOn
  text " ON ("
  next G
  parseConditions G select rounds cell false false
  text ") "

def isJoin (tok : Sqltoken) : Bool := tok = .inner ∨ tok = .left ∨ tok = .right

/-- A table of the FROM clause; the loop is left when neither a comma nor a join follows. -/
def fromTable : Parser (Round Unit Unit) := do
  define
  text " "
  defineAlias
  text " "
  next G
  let tok ← token
  if tok = .comma then do
    text ","
    next G
    expect .id .expTable
    pure (.again ())
  else if isJoin tok then do
    parseJoinLhs G select rounds cell
    pure (.again ())
  else pure (.leave ())

def parseFrom : Parser Unit := do
  text "FROM "
  expect .from .expFrom
  next G
  expect .id .expTable
  repeats rounds
    (fun _ => do
      if (← token) = .id then fromTable G select rounds cell
      else pure (.leave ()))
    ()
  loopWhile rounds isJoin (parseJoinLhs G select rounds cell)

/-! ## SELECT -/

/-- The alias of an item; `addedfieldname` where the item is a field. -/
def pushAlias (addedfieldname : Bool) : Parser Unit := modify fun s => { s with
  dp := { s.dp with ufields := s.dp.ufields ++ [s.cursor.lexum] }
  items :=
    if addedfieldname then
      changeLast (fun item => (item.1, { item.2 with named := some s.cursor.lexum })) s.items
    else s.items ++ [(cell, { field := none, named := some s.cursor.lexum })] }

/-- `%d`. -/
def decimal (n : Nat) : Bytes := lit (toString n)

/-- `FIELD` and the number of names so far, written through a buffer of five characters. -/
def pushGenerated : Parser Unit := modify fun s =>
  let buf := decimal s.dp.ufields.length
  { s with
    dp := { s.dp with ufields := s.dp.ufields ++ [lit "FIELD" ++ buf] }
    items := s.items ++ [(cell, { field := none, named := none })]
    buffers := s.buffers ++ [buf.length + 1] }

/-- What an item is: a field is named by `parseField` already. -/
def itemBody : Parser Bool := do
  match ← token with
  | .func => do
      parseFunction G
      pure false
  | .case => do
      parseCase G select rounds cell
      pure false
  | .strlit => do
      text "'"
      word
      text "'"
      next G
      pure false
  | .id => do
      parseField G (some cell)
      pure true
  | _ => do
      parseLit G false
      pure false

/-- The name of an item that is no field, or has an alias. -/
def itemName (addedfieldname : Bool) : Parser Unit := do
  if (← token) = .as then do
    next G
    expect .id .expFields
    pushAlias cell addedfieldname
    next G
  else if addedfieldname then pure ()
  else pushGenerated cell

def item : Parser Unit := do
  let addedfieldname ← itemBody G select rounds cell
  itemName G cell addedfieldname
  let tok ← token
  only (tok = .comma) do
    next G
    text ", "
  text " "

def startsItem (tok : Sqltoken) : Bool :=
  tok = .id ∨ tok = .func ∨ tok = .strlit ∨ tok = .num ∨ tok = .case

/-- The field list, or `*`. -/
def fieldList : Parser Unit := do
  let tok ← token
  if tok ≠ .splat ∧ tok ≠ .id ∧ tok ≠ .func then stop .expFields
  else if tok = .splat then do
    next G
    text "* "
  else loopWhile rounds startsItem (item G select rounds cell)

/-- DISTINCT, the field list and the clauses behind it. -/
def selectBody : Parser Unit := do
  let tok ← token
  only (tok = .distinct) do
    text "DISTINCT "
    next G
  fieldList G select rounds cell
  parseFrom G select rounds cell
  parseWhere G select rounds cell true
  parseGroupBy G rounds
  parseHaving G select rounds cell
  parseOrderBy G rounds
  text " FOR BROWSE ACCESS "

end Conditions

/-- `int prmidxpos = 0`: a pointer to it. -/
def newCell : Parser Nat := fun s => (.ok s.cells.length, { s with cells := s.cells ++ [0] })

def setType (op : Sqlop) : Parser Unit := modify fun s =>
  { s with dp := { s.dp with stmttype := op } }

def parseSelect : Nat → Bool → Parser Unit
  | 0, _ => fail .rounds
  | rounds + 1, ignoreTrailingRpar => do
      let caller ← cursor
      let cell ← newCell
      setType .select
      text "SELECT "
      next G
      selectBody G (called caller (parseSelect rounds true)) rounds cell
      if ignoreTrailingRpar = false ∧ (← token) = .union then do
        text " UNION "
        next G
        called caller (parseSelect rounds ignoreTrailingRpar)
      else pure ()

/-! ## INSERT, UPDATE and DELETE -/

variable (rounds : Nat)

def insertFields : Parser Unit :=
  loopWhile rounds (fun tok => tok = .id) do
    word
    next G
    if (← token) ≠ .comma then pure ()
    else
      next G
      expect .id .expFields
      text ","

def startsValue (tok : Sqltoken) : Bool :=
  tok = .func ∨ tok = .num ∨ tok = .id ∨ tok = .var ∨ tok = .strlit

/-- A variable among the values is appended as it is. -/
def insertValue : Parser Unit := do
  match ← token with
  | .func => parseFunction G
  | .var => do
      variable'
      next G
  | .strlit => do
      text "'"
      word
      text "'"
      next G
  | _ => do
      word
      next G

def insertValues : Parser Unit :=
  loopWhile rounds startsValue do
    insertValue G
    if (← token) ≠ .comma then pure ()
    else
      next G
      if startsValue (← token) then text "," else stop .expFields

def parseInsert : Parser Unit := do
  setType .insert
  expect .insert .errSyntax
  next G
  expect .into .expInto
  next G
  expect .func .expTable
  text " INSERT INTO "
  define
  next G
  expect .lpar .expLpar
  text "("
  next G
  insertFields G rounds
  expect .rpar .expRpar
  text ")"
  next G
  expect .values .expValues
  next G
  expect .lpar .expLpar
  text " VALUES ("
  next G
  insertValues G rounds
  expect .rpar .expRpar
  text ")"
  next G

/-- The value of an assignment; a variable is appended as it is. -/
def assigned : Parser Unit := do
  match ← token with
  | .num => word
  | .strlit => do
      text "'"
      word
      text "'"
  | .var => variable'
  | .func => parseFunction G
  | _ => stop .errSyntax

def assignment : Parser Unit := do
  parseField G none
  expect .eq .expOp
  text " = "
  next G
  assigned G
  text " "
  next G
  if (← token) ≠ .comma then pure ()
  else
    text ","
    next G
    expect .id .expFields

/-- The WHERE clause of UPDATE and DELETE, and what its sub-selects count as callers. -/
def subSelect (caller : Cursor) : Parser Unit := called caller (parseSelect G rounds true)

def parseUpdate : Parser Unit := do
  let caller ← cursor
  let cell ← newCell
  setType .update
  expect .update .errSyntax
  text "UPDATE "
  next G
  expect .id .expTable
  define
  next G
  expect .set .expSet
  text " SET "
  next G
  loopWhile rounds (fun tok => tok = .id) (assignment G)
  parseWhere G (subSelect G rounds caller) rounds cell false

def parseDelete : Parser Unit := do
  let caller ← cursor
  let cell ← newCell
  setType .delete
  expect .delete .errSyntax
  next G
  text "DELETE "
  parseFrom G (subSelect G rounds caller) rounds cell
  parseWhere G (subSelect G rounds caller) rounds cell false

/-! ## CREATE PROCEDURE -/

/-- `atoi` on a number token. -/
def atoi : Bytes → Int
  | 45 :: digits => -(digits.foldl (fun n c => n * 10 + (c.toNat - 48)) 0 : Nat)
  | digits => (digits.foldl (fun n c => n * 10 + (c.toNat - 48)) 0 : Nat)

/-- A parameter under its name; a name the table does not take is an error. -/
def addParam : Parser Unit := fun s =>
  if G.hashtableAdd (names s) s.cursor.lexum then
    (.ok (), { s with dp := { s.dp with uparams := s.dp.uparams ++ [{
      name := s.cursor.lexum
      type := .int
      len := 0
      likepattern := false
      idxs := [] }] } })
  else (.error (.error (some .outOfMem)), s)

/-- The type of the last parameter. -/
def setParam (type : Datatype) (len : Cursor → Int) : Parser Unit := modify fun s =>
  { s with dp := { s.dp with
    uparams := changeLast (fun prm => { prm with type := type, len := len s.cursor })
      s.dp.uparams } }

def paramType : Parser Unit := do
  match ← token with
  | .int => setParam .int fun _ => 4
  | .smallint => setParam .short fun _ => 2
  | .bigint => setParam .long fun _ => 8
  | .char => do
      next G
      expect .lpar .expLpar
      next G
      expect .num .expLen
      setParam .char fun c => atoi c.lexum
      next G
      expect .rpar .expRpar
  | _ => stop .expType

def param : Parser Unit := do
  addParam G
  next G
  paramType G
  next G
  if (← token) = .comma then next G else pure ()

def parseParamList : Parser Unit := do
  next G
  let tok ← token
  let expectRPAR : Bool := tok = .lpar
  only expectRPAR (next G)
  loopWhile rounds (fun tok => tok = .var) (param G)
  only expectRPAR do
    expect .rpar .expRpar
    next G
  expect .as .expAs
  next G

def ucased (t : Bytes) : Bytes := t.map toupper

/-- `parseSQL` up to the code of the procedure. -/
def parseHead : Parser Unit := do
  next G
  expect .create .expCreate
  next G
  expect .proc .expProc
  next G
  expect .id .expProc
  modify fun s => { s with dp := { s.dp with sys := ucased s.cursor.lexum } }
  next G
  expect .dot .expDot
  next G
  let tok ← token
  only (tok ≠ .func ∧ tok ≠ .id) (stop .expProc)
  modify fun s => { s with dp := { s.dp with name := ucased s.cursor.lexum } }
  parseParamList G rounds
  modify fun s => { s with dp := { s.dp with codepos := s.cursor.pos } }

def statement (tok : Sqltoken) : Parser Unit :=
  match tok with
  | .select => parseSelect G rounds false
  | .insert => parseInsert G rounds
  | .update => parseUpdate G rounds
  | .delete => parseDelete G rounds
  | _ => stop .errSyntax

/-- The statement of the procedure; it may be missing. -/
def parseCode : Parser Unit := do
  let tok ← token
  if tok = .eos then pure ()
  else
    statement G rounds tok
    let tok ← token
    only (tok = .semi) (skip G)
    expect .eos .errSyntax

/-- The state `parseSQL` starts from; `token` is not set there. -/
def start : Parse where
  cursor := { pos := 0, lineno := 1, token := .eos, lexum := [], start := 0 }
  dp := {
    sys := []
    name := []
    tsql := []
    codepos := 0
    stmttype := .select
    uparams := []
    ufields := [] }
  cells := []
  items := []
  buffers := []
  laps := []
  calls := []

end Parser

/-- `parseSQL`: the outcome, and the state it ends in. -/
def parseSQL (G : Given) (rounds : Nat) : Except Fail Unit × Parse :=
  (do
    Parser.parseHead G rounds
    Parser.parseCode G rounds : Parser Unit) Parser.start

end Jspp.Sql
