/-
# Compiler.Declare -- classes, fields, methods and whole programs

The C functions from `methodbody` to `parseChar`.  `Program` is the C structure
with the heap its classes live in; the fields that parsing a method body changes
sit in `comp`, whose `code` and `hasretval` are those of `curmethod` while a
body is parsed (`Program.inMethod`).

* `parseChar`: a source text, against the classes of earlier programs.
-/
import Jspp.Compiler.ParseStmt

namespace Jspp.Compiler

open Jspp.Kernel

set_option autoImplicit false

/-- `curclass` and `curmethod` are numbers: of a class in the heap, and of a
method in that class.  `intrinsics` are the class tables of earlier programs. -/
structure Program where
  comp : Comp
  heap : List JsClass
  classes : Table Nat
  lclasses : List Nat
  curclass : Nat
  curmethod : Nat
  isdebuging : Bool
  intrinsics : List (Table Nat)

namespace Program

def errornum (pp : Program) : Int := pp.comp.errornum

def token (pp : Program) : Token := pp.comp.token

def setComp (pp : Program) (s : Comp) : Program := { pp with comp := s }

def next (pp : Program) : Program := pp.setComp pp.comp.next

/-- `if ( t == lex->token ) jsppLex( lex )`. -/
def skip (t : Token) (pp : Program) : Program := if pp.token = t then pp.next else pp

def setupError (e : Int) (pp : Program) : Program := pp.setComp (pp.comp.setupError e)

/-- The number `programFindClass` finds: the program's own classes first, then
those of the programs it was given.  Only a number in the heap names a class. -/
def findClassNum (pp : Program) (name : List Char) : Option Nat :=
  let found := match pp.classes.get name with
    | some c => some c
    | none => pp.intrinsics.findSome? fun (t : Table Nat) => t.get name
  found.filter fun c => c < pp.heap.length

def findClass (pp : Program) (name : List Char) : Option JsClass :=
  (pp.findClassNum name).bind fun c => pp.heap[c]?

def updateClass (pp : Program) (f : JsClass → JsClass) : Program :=
  { pp with heap := pp.heap.modify pp.curclass f }

def updateMethod (pp : Program) (f : JsMethod → JsMethod) : Program :=
  pp.updateClass fun jsp => { jsp with methods := jsp.methods.modify pp.curmethod f }

def method? (pp : Program) : Option JsMethod :=
  (pp.heap[pp.curclass]?).bind fun jsp => jsp.methods[pp.curmethod]?

/-- What the functions of a method body read of the program. -/
def scope (pp : Program) : Scope where
  fields := ((pp.heap[pp.curclass]?).map JsClass.fields).getD []
  isstatic := ((pp.method?).map JsMethod.isstatic).getD false
  isdebuging := pp.isdebuging
  findClass := pp.findClass

/-- Run a function of the method body level on `curmethod`. -/
def inMethod {α : Type} (f : Scope → Comp → Comp × α) (pp : Program) : Program × α :=
  let code := ((pp.method?).map JsMethod.code).getD []
  let hasretval := ((pp.method?).map JsMethod.hasretval).getD false
  let (s, a) := f pp.scope { pp.comp with code := code, hasretval := hasretval }
  ((pp.setComp s).updateMethod fun mp => { mp with code := s.code, hasretval := s.hasretval }, a)

/-- `programDefineClass`. -/
def defineClass (name basename : List Char) (pp : Program) : Program :=
  let c := pp.heap.length
  { pp with
    heap := pp.heap ++ [jsclassConstruct name basename]
    classes := pp.classes.put name c
    lclasses := pp.lclasses ++ [c]
    curclass := c }

/-- `programDefineMethod`: a new method of `curclass`, which becomes `curmethod`. -/
def defineMethod (name : List Char) (isstatic : Bool) (acc : JsAccess) (pp : Program) : Program :=
  let count := ((pp.heap[pp.curclass]?).map fun jsp => jsp.methods.length).getD 0
  let mp := jsmethodConstruct pp.curclass name isstatic acc
  { pp.updateClass fun jsp => { jsp with methods := jsp.methods ++ [mp] } with curmethod := count }

/-- `programDefineField`. -/
def defineField (name : List Char) (isstatic : Bool) (pp : Program) : Program × Vardef :=
  match pp.heap[pp.curclass]? with
  | none => (pp, createVar name isstatic .inst false)
  | some jsp =>
      let r := jsclassAddField jsp name isstatic
      (pp.updateClass fun _ => r.1, r.2)

end Program

/-! ## Methods -/

/-- `methodbody`, which closes the block that `method` opened. -/
def methodbody (P : Parsers) (g : Scope) (s : Comp) : Comp × Nat × Stmt :=
  if s.token ≠ .lbrace then (s.setupError YYER_EXPECTED_LBRACE, 0, .skip)
  else blockRest P g s.next

/-- The loop of `argdec`. -/
def argLoop : Nat → Program → Program
  | 0, pp => pp.setComp pp.comp.giveUp
  | n + 1, pp =>
      if pp.token = .id ∨ pp.token = .ampr then
        let isptr := decide (pp.token = .ampr)
        let pp := pp.skip .ampr
        let name := pp.comp.lexeme
        let pp := pp.updateMethod fun mp => jsmethodAddArg mp name isptr
        let pp := pp.setComp (symtabNote name isptr pp.comp).2
        let pp := pp.next
        if pp.token = .comma then argLoop n pp.next
        else if pp.token ≠ .rpar then pp.setupError YYER_EXPECTED_RPAR
        else argLoop n pp
      else if pp.token ≠ .rpar then pp.setupError YYER_EXPECTED_RPAR
      else pp.next

def argdec (P : Parsers) (pp : Program) : Program :=
  let pp := pp.next
  if pp.token ≠ .lpar then pp.setupError YYER_EXPECTED_LPAR
  else argLoop P.rounds pp.next

/-- `OP_ENTER` of the method's outer block, with its symbol table. -/
def enterMethod (pp : Program) : Program :=
  (pp.inMethod fun _ s => (symtabEnter (s.pc + 1) (s.emitIm .enter (some 0)), ())).1

/-- The body, and with it the record of what the method was compiled from. -/
def compileBody (P : Parsers) (pp : Program) : Program :=
  let (pp, n, body) := pp.inMethod (methodbody P)
  pp.updateMethod fun mp => { mp with body := .method n body }

/-- An instance method has `this` as its first parameter. -/
def thisArg (isstatic : Bool) (pp : Program) : Program :=
  if isstatic then pp
  else
    let pp := pp.updateMethod fun mp => jsmethodAddArg mp "this".toList false
    pp.setComp (symtabNote "this".toList false pp.comp).2

def method (P : Parsers) (acc : JsAccess) (isstatic : Bool) (pp : Program) : Program :=
  if pp.token ≠ .id then pp.setupError YYER_EXPECTED_METHOD_NAME
  else
    let pp := enterMethod (pp.defineMethod pp.comp.lexeme isstatic acc)
    let pp := argdec P (thisArg isstatic pp)
    if pp.errornum ≠ 0 then pp else compileBody P pp

/-! ## Fields -/

def Body.addInit (e : Expr) : Body → Body
  | .inits es => .inits (es.snoc e)
  | _ => .inits (.cons e .nil)

/-- The initialiser of a field, compiled into the `@@constructor` at hand. -/
def fieldInit (P : Parsers) (vdp : Vardef) (g : Scope) (s : Comp) : Comp × Option Expr :=
  if s.token = .assign then
    let s := ((s.setRhs true).emit1 .lvalue vdp.srcmode).emitArg (some vdp.offset)
    let (s, e) := P.expr g s.next
    ((s.emit0 .assign).setRhs false, some (.init vdp.srcmode vdp.offset e))
  else (s, none)

/-- `fieldInit` on the constructor at hand, which is recorded in its body. -/
def initField (P : Parsers) (vdp : Vardef) (pp : Program) : Program :=
  match pp.inMethod (fieldInit P vdp) with
  | (pp, none) => pp
  | (pp, some e) => pp.updateMethod fun mp => { mp with body := mp.body.addInit e }

/-- The number of the method `jsclassFindMethod` finds in `curclass`. -/
def Program.findMethodNum (pp : Program) (sig : List Char) : Nat :=
  ((pp.heap[pp.curclass]?).map fun jsp => jsp.methods.findIdx fun mp => sig = mp.sig).getD 0

/-- The signatures `cvardef` looks the two constructors up by. -/
def constructorSig (isstatic : Bool) : String :=
  if isstatic then "@@constructor:Sv" else "@@constructor:Ivv"

def Program.atConstructor (isstatic : Bool) (pp : Program) : Program :=
  { pp with curmethod := pp.findMethodNum (constructorSig isstatic).toList }

def cvardef (P : Parsers) (isstatic : Bool) (pp : Program) : Program :=
  let outer := pp.curmethod
  let pp := pp.next
  if pp.token ≠ .id then pp.setupError YYER_EXPECTED_ID
  else
    let (pp, vdp) := pp.defineField pp.comp.lexeme isstatic
    let pp := initField P vdp (pp.next.atConstructor vdp.isstatic)
    if pp.token ≠ .semi then pp.setupError YYER_EXPECTED_SEMI
    else { pp.next with curmethod := outer }

/-! ## Classes -/

def accessOf : Token → Option JsAccess
  | .accPublic => some .accPublic
  | .accPrivate => some .accPrivate
  | .accProtected => some .accProtected
  | _ => none

def classLoop (P : Parsers) : Nat → Program → Program
  | 0, pp => pp.setComp pp.comp.giveUp
  | n + 1, pp =>
      if pp.errornum = 0 ∧ pp.token ≠ .rbrace then
        match accessOf pp.token with
        | none => pp.setupError YYER_EXPECTED_ACCESS
        | some acc =>
            let pp := pp.next
            let isstatic := decide (pp.token = .static)
            let pp := (pp.skip .static).skip .const
            match pp.token with
            | .var => classLoop P n (cvardef P isstatic pp)
            | .id => classLoop P n (method P acc isstatic pp)
            | .lexerror => pp.setupError 0
            | _ => pp.setupError YYER_EXPECTED_VAR_OR_CLASS
      else pp

def classbody (P : Parsers) (pp : Program) : Program := classLoop P P.rounds pp.next

/-- `pp->curmethod = ..; programEmit0( pp, OP_VRET )`. -/
def closeConstructor (m : Nat) (pp : Program) : Program :=
  ({ pp with curmethod := m }.inMethod fun _ s => (s.emit0 .vret, ())).1

/-- A `@@constructor` of a new class, without code. -/
def openConstructor (isstatic : Bool) (pp : Program) : Program :=
  let pp := (pp.defineMethod "@@constructor".toList isstatic .accPrivate).updateMethod
    fun mp => { mp with body := .inits .nil }
  if isstatic then pp else pp.updateMethod fun mp => jsmethodAddArg mp "this".toList false

/-- A class definition behind its name and its base. -/
def classDeclaration (P : Parsers) (pp : Program) : Program :=
  if pp.token ≠ .lbrace then pp.setupError YYER_EXPECTED_LBRACE
  else
    let pp := openConstructor false pp
    let prconstructI := pp.curmethod
    let pp := openConstructor true pp
    let prconstructS := pp.curmethod
    let pp := classbody P pp
    if pp.errornum ≠ 0 then pp
    else if pp.token ≠ .rbrace then pp.setupError YYER_EXPECTED_RBRACE
    else closeConstructor prconstructS (closeConstructor prconstructI pp.next)

/-- The first branch of `declaration`. -/
def declareClass (P : Parsers) (pp : Program) : Program :=
  let pp := pp.next
  if pp.token ≠ .id then pp.setupError YYER_EXPECTED_CLASS_NAME
  else
    let classname := pp.comp.lexeme
    let pp := pp.next
    if pp.token = .colon then
      let pp := pp.next
      if pp.token ≠ .id then pp.setupError YYER_EXPECTED_SUPER_CLASS
      else
        let basename := pp.comp.lexeme
        classDeclaration P (pp.next.defineClass classname basename)
    else classDeclaration P (pp.defineClass classname "Object".toList)

/-- The second branch of `declaration`: a method outside its class. -/
def declareMethod (P : Parsers) (acc : JsAccess) (pp : Program) : Program :=
  let pp := pp.next
  let isstatic := decide (pp.token = .static)
  let pp := pp.skip .static
  if pp.token ≠ .id then pp.setupError YYER_EXPECTED_CLASS_NAME
  else
    match pp.findClassNum pp.comp.lexeme with
    | none => pp.setupError YYER_UNKNOWN_CLASS
    | some c =>
        let pp := { pp with curclass := c }.next
        if pp.token ≠ .scope then pp.setupError YYER_EXPECTED_SCOPE_OP
        else
          let pp := pp.next
          if pp.token ≠ .id then pp.setupError YYER_EXPECTED_METHOD_NAME
          else
            let pp := enterMethod (pp.defineMethod pp.comp.lexeme isstatic acc)
            compileBody P (argdec P pp)

def declaration (P : Parsers) (pp : Program) : Program :=
  if pp.token = .class then declareClass P pp
  else
    match accessOf pp.token with
    | some acc => declareMethod P acc pp
    | none => pp.setComp { pp.comp with
        errornum := YYER_EXPECTED_CLASS_DEF
        errorline := pp.comp.lex.lineno }

def fileLoop (P : Parsers) : Nat → Program → Program
  | 0, pp => pp.setComp pp.comp.giveUp
  | n + 1, pp =>
      if pp.token ≠ .jeof ∧ pp.errornum = 0 then
        if pp.token = .lexerror then
          pp.setComp { pp.comp with
            errornum := atoi pp.comp.lexeme
            errorline := pp.comp.lex.lineno }
        else fileLoop P n (declaration P pp)
      else pp

def file (P : Parsers) (pp : Program) : Program := fileLoop P P.rounds pp.next

/-- The classes a program is parsed against: their heap, and the class table of
each program that holds them. -/
structure Intrinsics where
  heap : List JsClass
  programs : List (Table Nat)

/-- `programConstruct` and `programSetIntrinsics`. -/
def programConstruct (scan : Scanned) (intrinsics : Intrinsics) : Program where
  comp :=
    { scan := scan
      errornum := 0
      errorline := -1
      errmsg := none
      isrhs := false
      hasretval := false
      code := []
      cdata := []
      symstack := []
      fuelOut := false
      printed := []
      tables := trivial }
  heap := intrinsics.heap
  classes := []
  lclasses := []
  curclass := intrinsics.heap.length
  curmethod := 0
  isdebuging := false
  intrinsics := intrinsics.programs

/-- Room for the recursion of the parser on a text of that many characters. -/
def parseFuel (text : List Char) : Nat := 4 * text.length + 16

def parseChar (intrinsics : Intrinsics) (text : List Char) : Program :=
  file (parsers (parseFuel text)) (programConstruct (.start text) intrinsics)

/-- `parseChar` accepted the text: `errornum` is 0. -/
def Program.accepted (pp : Program) : Prop := pp.comp.ok

instance (pp : Program) : Decidable pp.accepted := inferInstanceAs (Decidable pp.comp.ok)

end Jspp.Compiler
