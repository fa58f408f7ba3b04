/-
# Compiler.Parse -- the recursive descent inside a method body

Each C function of `parse.c` from `arglist_call` to `stmtblock` is one
definition here.  It takes the surroundings (`Scope`) and the compile state
(`Comp`), and returns the new state with the tree of what it read.  A function
that continues an expression (`deref`, `morefactors`, ..) takes the tree read so
far.  As in the C code, an error is recorded and most functions go on.

The mutual recursion is open: `Parsers` holds one function for every recursive
entry, and `parsers n` ties the knot `n` levels deep.  The loops run on
`Parsers.rounds`.  Reaching either bound sets `fuelOut`.
-/
import Jspp.Compiler.Program

namespace Jspp.Compiler

open Jspp.Kernel

set_option autoImplicit false

/-- The recursive entries of the parser. -/
structure Parsers where
  rounds : Nat
  expr : Scope → Comp → Comp × Expr
  deref : Scope → Expr → Comp → Comp × Expr
  morefactors : Scope → Expr → Comp → Comp × Expr
  moreterms : Scope → Expr → Comp → Comp × Expr
  morerelops : Scope → Expr → Comp → Comp × Expr
  morelogop : Scope → Expr → Comp → Comp × Expr
  stmts : Scope → Comp → Comp × Stmt
  stmtblock : Scope → Comp → Comp × Nat × Stmt
  sif : Scope → Comp → Comp × Stmt

/-! ## Calls -/

def arglistLoop (P : Parsers) (g : Scope) : Nat → Args → Comp → Comp × Args × Bool
  | 0, args, s => (s.giveUp, args, false)
  | n + 1, args, s =>
      if s.token = .rpar then (s, args, true)
      else
        let (s, e) := P.expr g s
        if s.token ≠ .comma ∧ s.token ≠ .rpar then
          (s.setupError YYER_EXPECTED_COMMA, args.snoc e, false)
        else arglistLoop P g n (args.snoc e) (s.skip .comma)

/-- The signature `arglist_call` builds before the arguments are known. -/
def callSig (jsp : Option (List Char)) (methname : List Char) : List Char :=
  match jsp with
  | none => methname ++ ":Ivv".toList
  | some cls => cls ++ ".".toList ++ methname ++ ":Sv".toList

/-- `arglist_call`: the arguments and the index of the signature constant. -/
def arglist_call (P : Parsers) (g : Scope) (jsp : Option (List Char)) (methname : List Char)
    (basecall constructor : Bool) (s : Comp) : Comp × Args × Nat :=
  let (s, args, good) := arglistLoop P g P.rounds .nil s
  if good then
    let sig := callSig jsp methname ++
      (if constructor then [] else List.replicate args.length 'v')
    let s := match jsp with
      | none =>
          s.emit2 (if basecall then .basecall else if constructor then .construct else .call)
            .const .im
      | some _ => s.emit1 .scall .const
    let (idx, s) := s.emitConstChars sig
    let s := s.emitArg (some idx)
    let s := match jsp with
      | none => s.emitArg (some args.length)
      | some _ => s
    (s, args, idx)
  else (s, args, 0)

/-- `pp->isrhs = true; expr; RVALUE; ASSIGN; pp->isrhs = false` behind a `=`. -/
def assignTail (P : Parsers) (g : Scope) (l : Expr) (s : Comp) : Comp × Expr :=
  let (s, r) := P.expr g (s.next.setRhs true)
  (((s.emit0 .rvalue).emit0 .assign).setRhs false, .assign l r)

def objderef (P : Parsers) (g : Scope) (recv : Expr) (s : Comp) : Comp × Expr :=
  if s.token ≠ .id then (s.setupError YYER_EXPECTED_ID, recv)
  else
    let idname := s.lexeme
    let s := s.next
    if s.token = .lpar then
      let (s, args, sig) := arglist_call P g none idname false false s.next
      let e := .call false recv idname args sig
      if s.token ≠ .rpar then (s.setupError YYER_EXPECTED_RPAR, e)
      else P.deref g e s.next
    else
      let (idx, s) := (s.emit1 .deref .const).emitConstChars idname
      let s := s.emitArg (some idx)
      let e := .deref recv idx
      if s.token = .assign then assignTail P g e s else P.deref g e s

def indexLoop (P : Parsers) (g : Scope) : Nat → Args → Comp → Comp × Args
  | 0, args, s => (s.giveUp, args)
  | n + 1, args, s =>
      if s.token ≠ .rbrac ∧ s.errornum = 0 then
        let (s, e) := P.expr g s
        indexLoop P g n (args.snoc e) (s.skip .comma)
      else (s, args)

def arrayIndexCall (P : Parsers) (g : Scope) (recv : Expr) (s : Comp) : Comp × Expr :=
  let (s, args) := indexLoop P g P.rounds .nil s.next
  if s.token ≠ .rbrac then (s.setupError YYER_EXPECTED_RBRAC, recv)
  else
    let sig := "[]:Ivv".toList ++ List.replicate args.length 'v'
    let (idx, s) := (s.next.emit2 .call .const .im).emitConstChars sig
    ((s.emitArg (some idx)).emitArg (some args.length), .call false recv "[]".toList args idx)

def derefTail (P : Parsers) (g : Scope) (recv : Expr) (s : Comp) : Comp × Expr :=
  if s.token = .dot then
    let s := s.next
    if s.token ≠ .id then (s.setupError YYER_EXPECTED_ID, recv) else objderef P g recv s
  else if s.token = .lbrac then arrayIndexCall P g recv s
  else (s, recv)

/-! ## Single operands -/

/-- The branches of `singletonCallHandler`, up to its final `deref`; the flag
tells whether that is reached. -/
def singletonCall (P : Parsers) (g : Scope) (s : Comp) : Comp × Expr × Bool :=
  let idname := s.lexeme
  let s := s.next
  if s.token = .scope then
    match g.findClass idname with
    | none => (s.setupError YYER_UNKNOWN_CLASS, .null, false)
    | some jsp =>
        let s := s.next
        if s.token ≠ .id then (s.setupError YYER_EXPECTED_ID, .null, false)
        else
          let idname := s.lexeme
          let s := s.next
          if s.token = .lpar then
            let (s, args, sig) := arglist_call P g (some jsp.name) idname false false s.next
            let e := .scall jsp.name idname args sig
            if s.token ≠ .rpar then (s.setupError YYER_EXPECTED_RPAR, e, false)
            else (s.next, e, true)
          else
            let (idx, s) := (s.emit2 .sderef .const .im).emitConstChars jsp.name
            let s := s.emitArg (some idx)
            match jsclassFindField jsp idname with
            | none => (s.setupError YYER_UNKNOWN_ID, .null, false)
            | some vdp => (s.emitArg (some vdp.offset), .sderef idx vdp.offset, true)
  else if s.token = .lpar then
    let (s, args, sig) := arglist_call P g none idname false false (s.emit0 .this).next
    let e := .call false .this idname args sig
    if s.token ≠ .rpar then (s.setupError YYER_EXPECTED_RPAR, e, false)
    else (s.next, e, true)
  else (s.setupError YYER_UNKNOWN_ID, .null, false)

def singletonCallHandler (P : Parsers) (g : Scope) (s : Comp) : Comp × Expr :=
  let (s, e, good) := singletonCall P g s
  if good then P.deref g e s else (s, e)

/-- `if ( LBRAC == lex->token )` an array reference. -/
def indexTail (P : Parsers) (g : Scope) (e : Expr) (s : Comp) : Comp × Expr :=
  if s.token = .lbrac then arrayIndexCall P g e s else (s, e)

/-- `if ( ASSIGN == lex->token )` an assignment. -/
def assignIf (P : Parsers) (g : Scope) (e : Expr) (s : Comp) : Comp × Expr :=
  if s.token = .assign then assignTail P g e s else (s, e)

def singletonVarHandler (P : Parsers) (g : Scope) (vdp : Vardef) (s : Comp) : Comp × Expr :=
  let s := s.next
  if g.isstatic && !vdp.isstatic && !vdp.isauto then
    (s.setupError YYER_INST_REF_IN_STATIC, .null)
  else
    let s := (s.emit1 .lvalue vdp.srcmode).emitArg (some vdp.offset)
    let (s, e) := indexTail P g (.lvalue vdp.srcmode vdp.offset) s
    let (s, e) := assignIf P g e s
    P.deref g e s

/-- `(s.emit1 .push mode)` with its operand. -/
def pushArg (mode : ArgSource) (arg : Int) (s : Comp) : Comp × Expr :=
  ((s.emit1 .push mode).emitArg (some arg), .push mode arg)

def pushConst (v : Variant) (s : Comp) : Comp × Expr :=
  let (idx, s) := (s.emit1 .push .const).emitConst v
  (s.emitArg (some idx), .push .const idx)

/-- `lex->lex[0]`. -/
def lexChar (s : Comp) : Int := (s.lexeme.head?.map chOf).getD 0

/-- The literals: their code, `none` for any other token. -/
def literal (s : Comp) : Option (Comp × Expr) :=
  match s.token with
  | .int => some (pushArg .im (atoi s.lexeme) s)
  | .real => some (pushConst (.float (atof s.lexeme)) s)
  | .string => some (pushConst (.string s.lexeme) s)
  | .char => some (pushConst (.char (lexChar s)) s)
  | .yytrue => some (pushArg .im 1 s)
  | .yyfalse => some (pushArg .im 0 s)
  | .jnull => some (s.emit0 .null, .null)
  | _ => none

def arrayLoop (addidx : Nat) : Nat → Args → Comp → Comp × Args × Bool
  | 0, elems, s => (s.giveUp, elems, false)
  | n + 1, elems, s =>
      if s.token ≠ .rbrace ∧ s.token ≠ .jeof then
        let s := s.emit0 .dup
        match literal s with
        | none => (s.setupError YYER_ILLEGAL_ARRAY_INIT, elems, false)
        | some (s, e) =>
            let s := s.next.skip .comma
            let s := ((s.emit2 .call .const .im).emitArg (some addidx)).emitArg (some 1)
            arrayLoop addidx n (elems.snoc e) s
      else (s, elems, true)

/-- `arraydef` behind its constants and the look-up of the class. -/
def arrayTail (P : Parsers) (clsidx addidx : Nat) (s : Comp) : Comp × Expr :=
  let s := (s.emit1 .new .const).emitArg (some clsidx)
  let s := ((s.emit2 .construct .const .im).emitArg (some clsidx)).emitArg (some 0)
  let (s, elems, good) := arrayLoop addidx P.rounds .nil s
  let e := .array clsidx addidx elems
  if ¬ good then (s, e)
  else if s.token ≠ .rbrace then (s.setupError YYER_EXPECTED_RBRAC, e)
  else (s.next, e)

def arraydef (P : Parsers) (g : Scope) (s : Comp) : Comp × Expr :=
  let (addidx, s) := s.emitConstChars "add:Ivvv".toList
  let (clsidx, s) := s.emitConstChars "Vector".toList
  match g.findClass "Vector".toList with
  | none => (s.setupError YYER_UNKNOWN_CLASS, .null)
  | some _ => arrayTail P clsidx addidx s

/-- `new_expr` behind the look-up of the class. -/
def newTail (P : Parsers) (g : Scope) (clsname : List Char) (clsidx : Nat) (s : Comp) :
    Comp × Expr :=
  let s := (s.next.emit1 .new .const).emitArg (some clsidx)
  let (s, args, sig) := arglist_call P g none clsname false true s
  let e := .new clsname clsidx args sig
  if s.errornum ≠ 0 then (s, e)
  else if s.token ≠ .rpar then (s.setupError YYER_EXPECTED_LPAR, e)
  else (s.next, e)

def new_expr (P : Parsers) (g : Scope) (s : Comp) : Comp × Expr :=
  let s := s.next
  if s.token ≠ .id then (s.setupError YYER_EXPECTED_ID, .null)
  else
    let clsname := s.lexeme
    let (clsidx, s) := s.emitConstChars clsname
    let s := s.next
    if s.token = .lpar then
      match g.findClass clsname with
      | none => (s.setupError YYER_UNKNOWN_CLASS, .null)
      | some _ => newTail P g clsname clsidx s
    else (s.setupError YYER_NEW_SYNTAX, .null)

/-- `::m( args )`. -/
def baseCall (P : Parsers) (g : Scope) (s : Comp) : Comp × Expr :=
  let s := s.next
  if s.token ≠ .id then (s.setupError YYER_EXPECTED_ID, .null)
  else
    let idname := s.lexeme
    let s := s.next
    if s.token ≠ .lpar then (s.setupError YYER_EXPECTED_LPAR, .null)
    else
      let (s, args, sig) := arglist_call P g none idname true false (s.next.emit0 .this)
      let e := .call true .this idname args sig
      if s.token ≠ .rpar then (s.setupError YYER_EXPECTED_RPAR, e)
      else P.deref g e s.next

def singleton (P : Parsers) (g : Scope) (s : Comp) : Comp × Expr :=
  match s.token with
  | .id =>
      match symtabLookup g s s.lexeme with
      | none => singletonCallHandler P g s
      | some vdp => singletonVarHandler P g vdp s
  | .lbrace => arraydef P g s.next
  | .lpar =>
      let (s, e) := P.expr g s.next
      if s.token ≠ .rpar then (s.setupError YYER_EXPECTED_RPAR, e) else (s.next, e)
  | .new => new_expr P g s
  | .scope => baseCall P g s
  | _ =>
      match literal s with
      | some (s, e) => (s.next, e)
      | none => (s.setupError YYERR_SYNTAX, .null)

/-! ## Operators -/

/-- `if ( ! pp->isrhs ) programEmit0( pp, OP_POP )`. -/
def popUnlessRhs (e : Expr) (s : Comp) : Comp × Expr :=
  if s.isrhs then (s, e) else (s.emit0 .pop, .drop e)

/-- An `INC` or `DEC` behind the operand. -/
def postIncDec (t : Token) (op : UnOp) (e : Expr) (s : Comp) : Comp × Expr :=
  if s.token = t then popUnlessRhs (.unary op e) (s.next.emit0 op.op) else (s, e)

/-- The `switch` of `factor`. -/
def prefixed (P : Parsers) (g : Scope) (s : Comp) : Comp × Expr :=
  match s.token with
  | .minus =>
      let (s, e) := singleton P g s.next
      (s.emit0 .negate, .unary .negate e)
  | .plus => singleton P g s.next
  | .inc =>
      let (s, e) := singleton P g s.next
      popUnlessRhs (.unary .inc e) (s.emit0 .inc)
  | .dec =>
      let (s, e) := singleton P g s.next
      popUnlessRhs (.unary .dec e) (s.emit0 .dec)
  | .bang =>
      let (s, e) := singleton P g s.next
      (s.emit0 .not, .unary .not e)
  | _ => singleton P g s

def factor (P : Parsers) (g : Scope) (s : Comp) : Comp × Expr :=
  let (s, e) := prefixed P g s
  let (s, e) := postIncDec .inc .pinc e s
  postIncDec .dec .pdec e s

def factorOp : Token → Option BinOp
  | .star => some .mult
  | .slash => some .div
  | .mod => some .mod
  | .lshift => some .lshift
  | .rshift => some .rshift
  | _ => none

def morefactors (P : Parsers) (g : Scope) (l : Expr) (s : Comp) : Comp × Expr :=
  match factorOp s.token with
  | none => (s, l)
  | some op =>
      let (s, r) := factor P g s.next
      let s := s.emit0 op.op
      if s.errornum = 0 then P.morefactors g (.binary op l r) s else (s, .binary op l r)

def term (P : Parsers) (g : Scope) (s : Comp) : Comp × Expr :=
  let (s, e) := factor P g s
  if s.errornum = 0 then P.morefactors g e s else (s, e)

def assignOp : Token → Option BinOp
  | .pluseq => some .add
  | .minuseq => some .sub
  | .timeseq => some .mult
  | .diveq => some .div
  | .modeq => some .mod
  | .xoreq => some .xor
  | .oreq => some .binor
  | .andeq => some .binand
  | _ => none

def termOp : Token → Option BinOp
  | .plus => some .add
  | .minus => some .sub
  | _ => none

def moreterms (P : Parsers) (g : Scope) (l : Expr) (s : Comp) : Comp × Expr :=
  match assignOp s.token with
  | some op =>
      let (s, r) := P.expr g ((s.next.setRhs true).emit0 .dup)
      let s := (((s.emit0 .rvalue).emit0 op.op).emit0 .assign).setRhs false
      if s.errornum = 0 then P.moreterms g (.assignOp op l r) s else (s, .assignOp op l r)
  | none =>
      match termOp s.token with
      | none => (s, l)
      | some op =>
          let (s, r) := term P g s.next
          let s := s.emit0 op.op
          if s.errornum = 0 then P.moreterms g (.binary op l r) s else (s, .binary op l r)

def relop (P : Parsers) (g : Scope) (s : Comp) : Comp × Expr :=
  let (s, e) := term P g s
  if s.errornum = 0 then P.moreterms g e s else (s, e)

def relationOp : Token → Option BinOp
  | .lt => some .lt
  | .gt => some .gt
  | .lteq => some .lteq
  | .gteq => some .gteq
  | .isequal => some .eq
  | .isneq => some .neq
  | _ => none

def morerelops (P : Parsers) (g : Scope) (l : Expr) (s : Comp) : Comp × Expr :=
  match relationOp s.token with
  | none => (s, l)
  | some op =>
      let (s, r) := relop P g s.next
      let s := s.emit0 op.op
      if s.errornum = 0 then P.morerelops g (.binary op l r) s else (s, .binary op l r)

def logop (P : Parsers) (g : Scope) (s : Comp) : Comp × Expr :=
  let (s, e) := relop P g s
  if s.errornum = 0 then P.morerelops g e s else (s, e)

def logicOp : Token → Option BinOp
  | .pipe => some .binor
  | .ampr => some .binand
  | .and => some .and
  | .or => some .or
  | .xor => some .xor
  | _ => none

/-- The two operators `morelogop` emits before it reads their operand. -/
def earlyOp : Token → Option BinOp
  | .isneq => some .neq
  | .isequal => some .eq
  | _ => none

def morelogop (P : Parsers) (g : Scope) (l : Expr) (s : Comp) : Comp × Expr :=
  match logicOp s.token with
  | some op =>
      let (s, r) := logop P g s.next
      let s := s.emit0 op.op
      if s.errornum = 0 then P.morelogop g (.binary op l r) s else (s, .binary op l r)
  | none =>
      match earlyOp s.token with
      | some op =>
          let (s, r) := logop P g (s.next.emit0 op.op)
          if s.errornum = 0 then P.morelogop g (.early op l r) s else (s, .early op l r)
      | none =>
          if s.token = .assign then
            let (s, e) := assignTail P g l s
            if s.errornum = 0 then P.morelogop g e s else (s, e)
          else (s, l)

def expr (P : Parsers) (g : Scope) (s : Comp) : Comp × Expr :=
  let (s, e) := logop P g s
  if s.errornum = 0 then P.morelogop g e s else (s, e)

end Jspp.Compiler
