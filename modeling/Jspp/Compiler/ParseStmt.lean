/-
# Compiler.ParseStmt -- statements, and the knot of the recursion

The C functions from `selse` to `stmtblock`, in the style of `Compiler.Parse`.
Jumps are emitted with a placeholder and patched by `emitArgAt` when their
target is reached, as `programEmitArgAt` does.

* `parsers`: the recursive entries, `n` levels deep.
-/
import Jspp.Compiler.Parse

namespace Jspp.Compiler

open Jspp.Kernel

set_option autoImplicit false

namespace Comp

/-- `programEmit1( pp, op, MODE_IM ); programEmitArg( pp, arg )`. -/
def emitIm (op : OpCode) (arg : Option Int) (s : Comp) : Comp := (s.emit1 op .im).emitArg arg

/-- `programEmitArgAt( pp, pc, pp->curmethod->pc )`. -/
def patch (pc : Nat) (s : Comp) : Comp := s.emitArgAt pc (some s.pc)

end Comp

/-! ## Branches and loops -/

/-- The `else` of an `if`, when there is one. -/
def selse (P : Parsers) (g : Scope) (s : Comp) : Comp × Stmt :=
  if s.token = .else then
    let s := s.next
    if s.token = .if then P.sif g s
    else
      let (s, n, body) := P.stmtblock g s
      (s, .block n body)
  else (s, .skip)

def sif (P : Parsers) (g : Scope) (s : Comp) : Comp × Stmt :=
  let s := s.next
  if s.token ≠ .lpar then (s.setupError YYER_EXPECTED_LPAR, .skip)
  else
    let (s, c) := P.expr g s.next
    if s.token ≠ .rpar then (s.setupError YYER_EXPECTED_RPAR, .skip)
    else
      let s := s.next
      let exitPc := s.pc + 1
      let (s, n, body) := P.stmtblock g (s.emitIm .jmpz (some 0))
      let endPc := s.pc + 1
      let (s, other) := selse P g ((s.emitIm .jmp (some 0)).patch exitPc)
      (s.patch endPc, .ite c (.block n body) other)

def swhile (P : Parsers) (g : Scope) (s : Comp) : Comp × Stmt :=
  let s := s.next
  if s.token ≠ .lpar then (s.setupError YYER_EXPECTED_LPAR, .skip)
  else
    let s := s.next
    let breakPc := s.pc + 1
    let s := (s.emitIm .setbreak (some 0)).setRhs true
    let topPc := s.pc
    let (s, c) := P.expr g s
    let s := s.setRhs false
    if s.token ≠ .rpar then (s.setupError YYER_EXPECTED_RPAR, .skip)
    else
      let s := s.next
      let exitPc := s.pc + 1
      let (s, n, body) := P.stmtblock g (s.emitIm .jmpz (some 0))
      let s := s.emitIm .jmp (some topPc)
      let s := (s.patch exitPc).patch breakPc
      (s.emitIm .setbreak (some (-1)), .while c (.block n body))

/-- The post expression of a `for`, with the address of its code. -/
def postexpr (P : Parsers) (g : Scope) (evalPc : Nat) (s : Comp) :
    Comp × Option Int × Option Expr :=
  if s.token ≠ .rpar then
    let skipPostPc := s.pc + 1
    let s := s.emitIm .jmp (some 0)
    let postPc := s.pc
    let (s, e) := P.expr g s
    ((s.emitIm .jmp (some evalPc)).patch skipPostPc, some postPc, some e)
  else (s, none, none)

/-- `postfor`: the post expression and the body, up to the jump back. -/
def postfor (P : Parsers) (g : Scope) (evalPc : Nat) (s : Comp) : Comp × Option Expr × Stmt :=
  let (s, postPc, post) := postexpr P g evalPc s
  if s.token ≠ .rpar then (s.setupError YYER_EXPECTED_RPAR, post, .skip)
  else
    let (s, n, body) := P.stmtblock g s.next
    (s.emitIm .jmp postPc, post, .block n body)

/-- An expression in a `for`, unless the semicolon follows at once. -/
def condition (P : Parsers) (g : Scope) (s : Comp) : Comp × Option Expr :=
  if s.token ≠ .semi then
    let (s, e) := P.expr g s
    (s, some e)
  else (s, none)

def evalfor (P : Parsers) (g : Scope) (breakPc : Nat) (s : Comp) : Comp × Stmt :=
  let evalPc := s.pc
  let (s, cond) := condition P g s
  if s.token ≠ .semi then (s.setupError YYERR_SYNTAX, .skip)
  else
    let s := s.next
    let exitPc := s.pc + 1
    let (s, post, body) := postfor P g evalPc (s.emitIm .jmpz (some 0))
    ((s.patch exitPc).patch breakPc, .for cond post body)

/-- The initialiser of a local variable, when there is one. -/
def localinit (P : Parsers) (g : Scope) (vdp : Vardef) (s : Comp) : Comp × Stmt :=
  if s.token = .assign then
    let s := (s.next.setRhs true).emit1 .lvalue vdp.srcmode
    let (s, e) := P.expr g (s.emitArg (some vdp.offset))
    ((s.emit0 .assign).setRhs false, .expr (.init vdp.srcmode vdp.offset e))
  else (s, .skip)

/-- One declarator; the flag tells whether the C function goes on with its loop. -/
def declarator (P : Parsers) (g : Scope) (s : Comp) : Comp × Stmt × Bool :=
  let s := s.next
  if s.token ≠ .id then (s.setupError YYER_EXPECTED_VAR_NAME, .skip, false)
  else
    let name := s.lexeme
    let (vdp, s) := symtabNote name false s
    let (s, init) := localinit P g vdp.1 s.next
    let read := Stmt.seq (.decl ⟨name, vdp.1.offset⟩) init
    if s.errornum ≠ 0 then (s, read, false)
    else if s.token = .comma then (s.next, read, true)
    else if s.token ≠ .semi then (s.setupError YYER_EXPECTED_SEMI, read, false)
    else (s, read, true)

/-- `VAR` or a comma's successor is the token on entry. -/
def localvarLoop (P : Parsers) (g : Scope) : Nat → Stmt → Comp → Comp × Stmt
  | 0, acc, s => (s.giveUp, acc)
  | n + 1, acc, s =>
      if s.token ≠ .semi ∧ s.errornum = 0 then
        let (s, init, more) := declarator P g s
        if more then localvarLoop P g n (acc.seq init) s else (s, acc.seq init)
      else (s, acc)

def localvar (P : Parsers) (g : Scope) (s : Comp) : Comp × Stmt :=
  localvarLoop P g P.rounds .skip s

/-- The first part of a `for`. -/
def initfor (P : Parsers) (g : Scope) (s : Comp) : Comp × Stmt :=
  if s.token ≠ .semi then
    if s.token = .var then localvar P g s
    else
      let (s, e) := P.expr g s
      (s, .expr e)
  else (s, .skip)

def sfor (P : Parsers) (g : Scope) (s : Comp) : Comp × Stmt :=
  let s := s.next
  if s.token ≠ .lpar then (s.setupError YYER_EXPECTED_LPAR, .skip)
  else
    let (s, init) := initfor P g s.next
    if s.token ≠ .semi then (s.setupError YYERR_SYNTAX, .skip)
    else
      let s := s.next
      let breakPc := s.pc + 1
      let (s, loop) := evalfor P g breakPc (s.emitIm .setbreak (some 0))
      (s.emitIm .setbreak (some (-1)), init.seq loop)

/-! ## `switch` -/

/-- The value behind `case`; a flag tells whether it was a legal one. -/
def caseValue (P : Parsers) (g : Scope) (s : Comp) : Comp × Expr × Bool :=
  match s.token with
  | .id =>
      let (s, e) := singleton P g s
      (s, e, true)
  | .int | .string | .char =>
      match literal s with
      | some (s, e) => (s.next, e, true)
      | none => (s, .null, false)
  | _ => (s.setupError YYER_ILLEGAL_CASE_VALUE, .null, false)

/-- A `case` clause: its value and its statements. -/
def caseClause (P : Parsers) (g : Scope) (s : Comp) : Comp × Expr × Stmt × Bool :=
  let (s, v, good) := caseValue P g (s.emit0 .dup).next
  if ¬ good then (s, v, .skip, false)
  else if s.token ≠ .colon then (s.setupError YYER_EXPECTED_COLON, v, .skip, false)
  else
    let s := s.next.emit0 .eq
    let nextPc := s.pc + 1
    let (s, body) := P.stmts g (s.emitIm .jmpz (some 0))
    (s.patch nextPc, v, body, true)

/-- The `default` clause behind a `case`, when there is one, with `defaultPc`. -/
def defaultClause (P : Parsers) (g : Scope) (defaultPc : Int) (s : Comp) :
    Comp × Option Stmt × Int × Bool :=
  if s.token = .default then
    let s := s.next
    if s.token ≠ .colon then (s.setupError YYER_EXPECTED_COLON, none, defaultPc, false)
    else
      let s := s.next
      let exitPc := s.pc + 1
      let s := s.emitIm .jmp (some 0)
      let defaultPc := s.pc
      let (s, body) := P.stmts g s
      (s.patch exitPc, some body, defaultPc, true)
  else (s, none, defaultPc, true)

def Cases.withDefault : Option Stmt → Cases → Cases
  | none, rest => rest
  | some body, rest => .default body rest

/-- The clauses of a `switch`, with `defaultPc`; the flag is false when the C
function returned early. -/
def caseLoop (P : Parsers) (g : Scope) : Nat → Int → Comp → Comp × Cases × Int × Bool
  | 0, defaultPc, s => (s.giveUp, .nil, defaultPc, false)
  | n + 1, defaultPc, s =>
      if s.token = .case then
        let (s, v, body, good) := caseClause P g s
        if ¬ good then (s, .nil, defaultPc, false)
        else
          let (s, other, defaultPc, good) := defaultClause P g defaultPc s
          if ¬ good then (s, .nil, defaultPc, false)
          else
            let (s, rest, defaultPc, good) := caseLoop P g n defaultPc s
            (s, .case v body (.withDefault other rest), defaultPc, good)
      else (s, .nil, defaultPc, true)

def switchblock (P : Parsers) (g : Scope) (s : Comp) : Comp × Nat × Cases :=
  if s.token ≠ .lbrace then (s.setupError YYER_EXPECTED_LBRACE, 0, .nil)
  else
    let s := s.next
    let patchupPc := s.pc + 1
    let s := symtabEnter patchupPc (s.emitIm .enter (some 0))
    let (s, cases, defaultPc, good) := caseLoop P g P.rounds (-1) s
    if ¬ good then (s, 0, cases)
    else
      let s := (s.emitIm .jmp (some defaultPc)).emit0 .leave
      let (count, s) := symtabExit s
      if s.token ≠ .rbrace then (s.setupError YYER_EXPECTED_RBRACE, count, cases)
      else (s.next, count, cases)

def sswitch (P : Parsers) (g : Scope) (s : Comp) : Comp × Stmt :=
  let s := s.next
  if s.token ≠ .lpar then (s.setupError YYER_EXPECTED_LPAR, .skip)
  else
    let (s, e) := P.expr g s.next
    if s.token ≠ .rpar then (s.setupError YYER_EXPECTED_RPAR, .skip)
    else
      let s := s.next
      let breakPc := s.pc + 1
      let (s, n, cases) := switchblock P g (s.emitIm .setbreak (some 0))
      (s.patch breakPc, .switch e n cases)

/-! ## `return` and `try` -/

def sreturn (P : Parsers) (g : Scope) (s : Comp) : Comp × Stmt :=
  let s := s.next
  if s.token ≠ .semi then
    let (s, e) := P.expr g { s.setRhs true with hasretval := true }
    ((s.emit0 .ret).setRhs false, .ret e)
  else if s.hasretval then (s.setupError YYER_METH_RETURNS_VAL, .skip)
  else ((s.emit0 .leave).emit0 .vret, .vret)

/-- `CATCH LPAR VAR ID RPAR` of `dotry`: the catch variable, when it was read. -/
def catchHead (s : Comp) : Comp × Option Local :=
  if s.token ≠ .catch then (s.setupError YYER_EXPECTED_CATCH, none)
  else
    let s := s.next
    if s.token ≠ .lpar then (s.setupError YYER_EXPECTED_LPAR, none)
    else
      let s := s.next.skip .var
      if s.token ≠ .id then (s.setupError YYER_EXPECTED_ID, none)
      else
        let name := s.lexeme
        let (vdp, s) := symtabNote name false s
        let s := s.next
        if s.token ≠ .rpar then (s.setupError YYER_EXPECTED_RPAR, none)
        else (s.next, some ⟨name, vdp.1.offset⟩)

/-- The `finally` of a `try`, when there is one. -/
def finallyblock (P : Parsers) (g : Scope) (s : Comp) : Comp × Stmt :=
  if s.token = .finally then
    let (s, n, body) := P.stmtblock g s.next
    (s, .block n body)
  else (s, .skip)

/-- `dotry` behind the catch variable: the handler and the `finally`. -/
def catchblock (P : Parsers) (g : Scope) (endtrypc : Nat) (v : Local) (s : Comp) :
    Comp × Nat × Stmt × Stmt :=
  -- move the thrown value into the catch argument
  let s := (s.emit1 .lvalue .block).emitArg (some v.offset)
  let s := ((s.emit0 .rot).emit0 .assign).emitIm .push (some 1)
  let finallypc := s.pc + 1
  let s := s.emitIm .jmp (some 0)
  let startcatchpc := s.pc
  let (s, n, handler) := P.stmtblock g s
  let (s, fin) := finallyblock P g ((s.patch endtrypc).patch finallypc)
  (s.emitIm .jmpnz (some startcatchpc), n, handler, fin)

def dotry (P : Parsers) (g : Scope) (s : Comp) : Comp × Stmt :=
  let trypc := s.pc + 1
  let (s, n, body) := P.stmtblock g (s.emitIm .try (some (-1)))
  let s := s.emitIm .push (some 0)
  let endtrypc := s.pc + 1
  match catchHead ((s.emitIm .jmp (some 0)).patch trypc) with
  | (s, none) => (s, .skip)
  | (s, some v) =>
      let (s, m, handler, fin) := catchblock P g endtrypc v s
      (s, .try (.block n body) v m handler fin)

/-! ## Statement lists and blocks -/

def delop (s : Comp) : Comp := if s.token ≠ .id then s.setupError YYER_EXPECTED_ID else s.next

/-- One round of the loop of `stmts`, behind the `OP_LINE`: the statement, and
whether the C function returned instead of going round. -/
def stmt (P : Parsers) (g : Scope) (s : Comp) : Comp × Stmt × Bool :=
  let more := fun (r : Comp × Stmt) => (r.1, r.2, true)
  match s.token with
  | .if => more (sif P g s)
  | .while => more (swhile P g s)
  | .for => more (sfor P g s)
  | .switch => more (sswitch P g s)
  | .return => more (sreturn P g s)
  | .var => more (localvar P g s)
  | .semi => more (s.next, .skip)
  | .break => more ((s.emit0 .break).next, .brk)
  | .continue => more ((s.emit0 .continue).next, .cont)
  | .delete => more (delop s.next, .skip)
  | .try => more (dotry P g s.next)
  | .throw =>
      let (s, e) := P.expr g s.next
      more (s.emit0 .throw, .throw e)
  | .lexerror => (s.setupError YYERR_SYNTAX, .skip, false)
  | .default => (s, .skip, false)
  | _ =>
      let (s, e) := P.expr g s
      more (s, .expr e)

def stmtsLoop (P : Parsers) (g : Scope) : Nat → Stmt → Comp → Comp × Stmt
  | 0, acc, s => (s.giveUp, acc)
  | n + 1, acc, s =>
      if s.token ≠ .rbrace ∧ s.token ≠ .case ∧ s.errornum = 0 then
        let (s, acc) :=
          if s.token ≠ .semi ∧ g.isdebuging then
            (s.emitIm .line (some s.lex.lineno), acc.seq (.line s.lex.lineno))
          else (s, acc)
        let (s, t, more) := stmt P g s
        if more then stmtsLoop P g n (acc.seq t) s else (s, acc.seq t)
      else (s, acc)

def stmts (P : Parsers) (g : Scope) (s : Comp) : Comp × Stmt := stmtsLoop P g P.rounds .skip s

/-- What `stmtblock` and `methodbody` share behind the `OP_ENTER`. -/
def blockRest (P : Parsers) (g : Scope) (s : Comp) : Comp × Nat × Stmt :=
  let (s, body) := P.stmts g s
  if s.errornum ≠ 0 then (s, 0, body)
  else
    let (count, s) := symtabExit (s.emit0 .leave)
    if s.token ≠ .rbrace then (s.setupError YYER_EXPECTED_RBRACE, count, body)
    else (s.next, count, body)

def stmtblock (P : Parsers) (g : Scope) (s : Comp) : Comp × Nat × Stmt :=
  if s.token ≠ .lbrace then (s.setupError YYER_EXPECTED_LBRACE, 0, .skip)
  else
    let s := s.next
    let patchupPc := s.pc + 1
    blockRest P g (symtabEnter patchupPc (s.emitIm .enter (some 0)))

/-- The recursive entries, for at most `n` levels of recursion. -/
def parsers : Nat → Parsers
  | 0 =>
      { rounds := 0
        expr := fun _ s => (s.giveUp, .null)
        deref := fun _ e s => (s.giveUp, e)
        morefactors := fun _ e s => (s.giveUp, e)
        moreterms := fun _ e s => (s.giveUp, e)
        morerelops := fun _ e s => (s.giveUp, e)
        morelogop := fun _ e s => (s.giveUp, e)
        stmts := fun _ s => (s.giveUp, .skip)
        stmtblock := fun _ s => (s.giveUp, 0, .skip)
        sif := fun _ s => (s.giveUp, .skip) }
  | n + 1 =>
      { rounds := n
        expr := expr (parsers n)
        deref := derefTail (parsers n)
        morefactors := morefactors (parsers n)
        moreterms := moreterms (parsers n)
        morerelops := morerelops (parsers n)
        morelogop := morelogop (parsers n)
        stmts := stmts (parsers n)
        stmtblock := stmtblock (parsers n)
        sif := sif (parsers n) }

end Jspp.Compiler
