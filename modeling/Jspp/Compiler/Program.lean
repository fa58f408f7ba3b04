/-
# Compiler.Program -- classes, methods, symbol tables and the emitters

Classes live in a heap (`List JsClass`) and are named by their number in it; a
hash table keyed by strings is a list of pairs whose newest entry for a key
counts (`Table`).  `Comp` is what the functions below the class level of
`parse.c` change; what they only read of the class and the method at hand is
`Scope`.

* `Comp.emit0`, `emit1`, `emit2`, `emitArg`, `emitArgAt`: the emitters of `program.c`.
* `Comp.setupError`: error number, line and message.
* `symtabEnter`, `symtabExit`, `symtabNote`, `symtabLookup`: the block symbol tables.
-/
import Jspp.Compiler.Lex
import Jspp.Compiler.Syntax
import Jspp.Kernel.Variant

namespace Jspp.Compiler

open Jspp.Kernel

set_option autoImplicit false

/-! ## Hash tables -/

abbrev Table (α : Type) := List (List Char × α)

namespace Table

variable {α : Type}

/-- `hashtableGet`. -/
def get (t : Table α) (key : List Char) : Option α := List.lookup key t

/-- `hashtableAdd`: the new entry hides an older one with the same key. -/
def put (t : Table α) (key : List Char) (v : α) : Table α := (key, v) :: t

@[simp] theorem get_put_self (t : Table α) (key : List Char) (v : α) :
    (t.put key v).get key = some v := by
  simp [get, put]

theorem get_put_ne (t : Table α) {key other : List Char} (v : α) (ne : other ≠ key) :
    (t.put key v).get other = t.get other := by
  simp [get, put, List.lookup_cons, beq_false_of_ne ne]

end Table

/-! ## Variables, methods and classes -/

inductive JsAccess where
  | accPrivate
  | accProtected
  | accPublic
  deriving DecidableEq

structure Vardef where
  name : List Char
  offset : Nat
  srcmode : ArgSource
  isstatic : Bool
  isauto : Bool
  isptr : Bool
  isnative : Bool
  deriving DecidableEq

/-- `createVar`; it leaves `offset` to its caller. -/
def createVar (name : List Char) (isstatic : Bool) (srcmode : ArgSource) (isptr : Bool) :
    Vardef where
  name := name
  offset := 0
  srcmode := srcmode
  isstatic := isstatic
  isauto := false
  isptr := isptr
  isnative := false

/-- `buildMethodSig`: the name, its kind, and the `v` that stands for the result. -/
def buildMethodSig (name : List Char) (isstatic : Bool) : List Char :=
  name ++ (if isstatic then ":Sv".toList else ":Iv".toList)

/-- `body`, `signed` and `numbered` are not fields of the C structure: the first
records what `code` was compiled from, the others that the signature has a `v`
for every argument and that the offset of an argument is its position, which
`jsmethodConstruct` and `jsmethodAddArg` keep. -/
structure JsMethod where
  name : List Char
  args : List Vardef
  isstatic : Bool
  isnative : Bool
  hasretval : Bool
  access : JsAccess
  sig : List Char
  myclass : Nat
  code : List Cell
  nativemethod : Nat
  body : Body
  signed : sig = buildMethodSig name isstatic ++ List.replicate args.length 'v'
  numbered : args.map Vardef.offset = List.range args.length

/-- Every field has the next free offset of its kind. -/
structure Laid (fields : List Vardef) (statics insts : Nat) : Prop where
  statics : (fields.filter fun vdp => vdp.isstatic).map Vardef.offset = List.range statics
  insts : (fields.filter fun vdp => !vdp.isstatic).map Vardef.offset = List.range insts
  modes : ∀ vdp ∈ fields, vdp.srcmode = if vdp.isstatic then .class else .inst

theorem Laid.add_static {fields : List Vardef} {statics insts : Nat}
    (laid : Laid fields statics insts) {vdp : Vardef} (static : vdp.isstatic = true)
    (mode : vdp.srcmode = .class) (offset : vdp.offset = statics) :
    Laid (fields ++ [vdp]) (statics + 1) insts where
  statics := by simp [List.filter_append, static, laid.statics, offset, List.range_succ]
  insts := by simp [List.filter_append, static, laid.insts]
  modes := by
    intro other mem
    rcases List.mem_append.mp mem with old | new
    · exact laid.modes other old
    · rw [List.mem_singleton.mp new, mode, static]; rfl

theorem Laid.add_inst {fields : List Vardef} {statics insts : Nat}
    (laid : Laid fields statics insts) {vdp : Vardef} (inst : vdp.isstatic = false)
    (mode : vdp.srcmode = .inst) (offset : vdp.offset = insts) :
    Laid (fields ++ [vdp]) statics (insts + 1) where
  statics := by simp [List.filter_append, inst, laid.statics]
  insts := by simp [List.filter_append, inst, laid.insts, offset, List.range_succ]
  modes := by
    intro other mem
    rcases List.mem_append.mp mem with old | new
    · exact laid.modes other old
    · rw [List.mem_singleton.mp new, mode, inst]; rfl

/-- `staticlocations` and `instancelocations` are counts here, the variants they
hold are the interpreter's; `spare` counts the static locations that preparing
the class appends, which no field has as its offset.  `constdata` is unset until
the class is prepared. -/
structure JsClass where
  name : List Char
  basename : List Char
  baseclass : Option Nat
  methods : List JsMethod
  fields : List Vardef
  staticlocations : Nat
  spare : Nat
  instancelocations : Nat
  vtable : Option (Table JsMethod)
  constdata : Option (List Variant)
  laid : Laid fields staticlocations instancelocations

def jsmethodConstruct (cls : Nat) (name : List Char) (isstatic : Bool) (acc : JsAccess) :
    JsMethod where
  name := name
  args := []
  isstatic := isstatic
  isnative := false
  hasretval := false
  access := acc
  sig := buildMethodSig name isstatic
  myclass := cls
  code := []
  nativemethod := 0
  body := .empty
  signed := by simp
  numbered := rfl

def jsmethodAddArg (mp : JsMethod) (name : List Char) (isptr : Bool) : JsMethod :=
  { mp with
    args := mp.args ++ [{ createVar name false .block isptr with offset := mp.args.length }]
    sig := mp.sig ++ ['v']
    signed := by simp [mp.signed, List.replicate_succ']
    numbered := by simp [mp.numbered, List.range_succ] }

def jsclassConstruct (name basename : List Char) : JsClass where
  name := name
  basename := basename
  baseclass := none
  methods := []
  fields := []
  staticlocations := 0
  spare := 0
  instancelocations := 0
  vtable := none
  constdata := none
  laid := ⟨rfl, rfl, nofun⟩

def jsclassAddField (jsp : JsClass) (name : List Char) (isstatic : Bool) : JsClass × Vardef :=
  if isstatic then
    let vdp := { createVar name true .class false with offset := jsp.staticlocations }
    ({ jsp with
      fields := jsp.fields ++ [vdp]
      staticlocations := jsp.staticlocations + 1
      laid := jsp.laid.add_static rfl rfl rfl }, vdp)
  else
    let vdp := { createVar name false .inst false with offset := jsp.instancelocations }
    ({ jsp with
      fields := jsp.fields ++ [vdp]
      instancelocations := jsp.instancelocations + 1
      laid := jsp.laid.add_inst rfl rfl rfl }, vdp)

/-- `vectorCount( jsp->staticlocations )`. -/
def JsClass.staticCount (jsp : JsClass) : Nat := jsp.staticlocations + jsp.spare

/-- The first field of that name, as the loop of `jsclassFindField` finds it. -/
def findField (fields : List Vardef) (name : List Char) : Option Vardef :=
  fields.find? fun vdp => vdp.name = name

def jsclassFindField (jsp : JsClass) (name : List Char) : Option Vardef := findField jsp.fields name

def jsclassFindMethod (jsp : JsClass) (sig : List Char) : Option JsMethod :=
  match jsp.vtable with
  | none => jsp.methods.find? fun mp => sig = mp.sig
  | some vtable => vtable.get sig

/-! ## The compile state -/

/-- `symtabNote` creates every variable it enters with `MODE_BLOCK`. -/
abbrev BlockVar := { vdp : Vardef // vdp.srcmode = .block }

structure Symtab where
  cumulative : Nat
  count : Nat
  patchupPc : Nat
  syms : Table BlockVar

namespace Symtab

/-- The variables of one table, in the order of their declaration. -/
def vars (stp : Symtab) : List Local := (stp.syms.map fun e => ⟨e.1, e.2.1.offset⟩).reverse

end Symtab

/-- The variables in scope, those of the outermost block first. -/
def scopeOf (symstack : List Symtab) : List Local := symstack.reverse.flatMap Symtab.vars

/-- The variables of a scope are numbered from 0 on, in their order. -/
def Numbered (scope : List Local) : Prop := scope.map Local.offset = List.range scope.length

/-- Every table counts its variables, and goes on with the numbers where the
table around it stopped. -/
def Scoped : List Symtab → Prop
  | [] => True
  | top :: rest =>
      top.count = top.vars.length ∧ top.cumulative = (scopeOf rest).length + top.count ∧
        Numbered (scopeOf rest ++ top.vars) ∧ Scoped rest

@[simp] theorem scopeOf_nil : scopeOf [] = [] := rfl

@[simp] theorem scopeOf_cons (top : Symtab) (rest : List Symtab) :
    scopeOf (top :: rest) = scopeOf rest ++ top.vars := by
  simp [scopeOf]

theorem Symtab.mem_vars {stp : Symtab} {id : List Char} {var : BlockVar}
    (found : stp.syms.get id = some var) : ⟨id, var.1.offset⟩ ∈ stp.vars := by
  obtain ⟨pre, post, entries, _⟩ := List.lookup_eq_some_iff.mp found
  simp [Symtab.vars, entries]

theorem mem_scopeOf {symstack : List Symtab} {stp : Symtab} (mem : stp ∈ symstack) {v : Local}
    (var : v ∈ stp.vars) : v ∈ scopeOf symstack :=
  List.mem_flatMap.mpr ⟨stp, List.mem_reverse.mpr mem, var⟩

theorem Scoped.tail {top : Symtab} {rest : List Symtab} (h : Scoped (top :: rest)) :
    Scoped rest :=
  h.2.2.2

theorem Scoped.numbered {symstack : List Symtab} (h : Scoped symstack) :
    Numbered (scopeOf symstack) := by
  cases symstack with
  | nil => rfl
  | cons top rest => exact (scopeOf_cons top rest).symm ▸ h.2.2.1

theorem Scoped.cumulative {top : Symtab} {rest : List Symtab} (h : Scoped (top :: rest)) :
    top.cumulative = (scopeOf (top :: rest)).length := by
  rw [h.2.1, h.1, scopeOf_cons, List.length_append]

theorem Numbered.snoc {scope : List Local} (h : Numbered scope) (name : List Char) :
    Numbered (scope ++ [⟨name, scope.length⟩]) := by
  simp only [Numbered, List.map_append, List.length_append, List.range_succ, List.map_cons,
    List.map_nil, List.length_cons, List.length_nil, Nat.zero_add]
  rw [h]

/-- Two variables of a scope never have the same offset. -/
theorem Numbered.nodup {scope : List Local} (h : Numbered scope) :
    (scope.map Local.offset).Nodup :=
  h ▸ List.nodup_range

theorem Numbered.lt {scope : List Local} (h : Numbered scope) {v : Local} (mem : v ∈ scope) :
    v.offset < scope.length := by
  have there : v.offset ∈ scope.map Local.offset := List.mem_map_of_mem mem
  rw [h] at there
  exact List.mem_range.mp there

/-- `cumulative` of the table on top, 0 when there is none. -/
def cumulativeOf : List Symtab → Nat
  | [] => 0
  | top :: _ => top.cumulative

theorem Scoped.enter {symstack : List Symtab} (h : Scoped symstack) (patchupPc : Nat) :
    Scoped (⟨cumulativeOf symstack, 0, patchupPc, []⟩ :: symstack) := by
  have counted : cumulativeOf symstack = (scopeOf symstack).length := by
    cases symstack with
    | nil => rfl
    | cons top rest => exact h.cumulative
  refine ⟨rfl, counted, ?_, h⟩
  simpa [Symtab.vars] using h.numbered

/-- A variable with the next free offset, behind those of the block. -/
def Symtab.put (name : List Char) (var : BlockVar) (stp : Symtab) : Symtab :=
  { stp with
    cumulative := stp.cumulative + 1
    count := stp.count + 1
    syms := Table.put stp.syms name var }

theorem Symtab.vars_put (name : List Char) (var : BlockVar) (stp : Symtab) :
    (stp.put name var).vars = stp.vars ++ [⟨name, var.1.offset⟩] := by
  simp [Symtab.vars, Symtab.put, Table.put]

theorem Scoped.put {top : Symtab} {rest : List Symtab} (h : Scoped (top :: rest))
    (name : List Char) {var : BlockVar} (next : var.1.offset = top.cumulative) :
    Scoped (top.put name var :: rest) := by
  have free : top.cumulative = (scopeOf rest ++ top.vars).length := by
    rw [h.cumulative, scopeOf_cons]
  refine ⟨?_, ?_, ?_, h.tail⟩
  · rw [Symtab.vars_put, List.length_append, ← h.1]
    rfl
  · have counted := h.2.1
    show top.cumulative + 1 = _ + (top.count + 1)
    omega
  · rw [Symtab.vars_put, next, free, ← List.append_assoc]
    exact h.2.2.1.snoc name

/-- The fields of `program` and of its `curmethod` that parsing a method body
changes.  `fuelOut` is set when the model's recursion bound was reached; `printed` lists
the calls of `setupError`, which prints the current token into a buffer of fixed size. -/
structure Comp where
  scan : Scanned
  errornum : Int
  errorline : Int
  errmsg : Option (List Char)
  isrhs : Bool
  hasretval : Bool
  code : List Cell
  cdata : List Variant
  symstack : List Symtab
  fuelOut : Bool
  printed : List (Jspplex × Int)
  tables : Scoped symstack

/-- What parsing a method body reads of its surroundings: the fields of
`curclass`, `curmethod->isstatic`, `isdebuging`, and `programFindClass`. -/
structure Scope where
  fields : List Vardef
  isstatic : Bool
  isdebuging : Bool
  findClass : List Char → Option JsClass

namespace Comp

/-- No error was recorded, and the model's bound was not reached. -/
def ok (s : Comp) : Prop := s.errornum = 0 ∧ s.fuelOut = false

instance (s : Comp) : Decidable s.ok := inferInstanceAs (Decidable (_ ∧ _))

def lex (s : Comp) : Jspplex := s.scan.lex

def token (s : Comp) : Token := s.lex.token

/-- The current lexeme, `lex->lex`. -/
def lexeme (s : Comp) : List Char := s.lex.lex

/-- `jsppLex( lex )`. -/
def next (s : Comp) : Comp := { s with scan := s.scan.next }

/-- `if ( t == lex->token ) jsppLex( lex )`. -/
def skip (t : Token) (s : Comp) : Comp := if s.token = t then s.next else s

/-- `pp->isrhs = b`. -/
def setRhs (b : Bool) (s : Comp) : Comp := { s with isrhs := b }

def pc (s : Comp) : Nat := s.code.length

/-- `_emit`. -/
def emit (op : OpCode) (argcount : Nat) (mode mode2 : ArgSource) (s : Comp) : Comp :=
  { s with
    code := s.code ++ [.word (encodeOp op argcount mode mode2)]
    hasretval := s.hasretval || op = .ret }

def emit0 (op : OpCode) (s : Comp) : Comp := s.emit op 0 .class .class

def emit1 (op : OpCode) (mode : ArgSource) (s : Comp) : Comp := s.emit op 1 mode .class

def emit2 (op : OpCode) (mode mode2 : ArgSource) (s : Comp) : Comp := s.emit op 2 mode mode2

/-- `programEmitArgAt`. -/
def emitArgAt (pc : Nat) (arg : Option Int) (s : Comp) : Comp :=
  { s with code := set2Element s.code arg pc }

/-- `programEmitArg`; its result, the address of the operand, is `s.pc`. -/
def emitArg (arg : Option Int) (s : Comp) : Comp := s.emitArgAt s.pc arg

/-- `programEmitConst..`: the constant and its index. -/
def emitConst (v : Variant) (s : Comp) : Nat × Comp :=
  (s.cdata.length, { s with cdata := s.cdata ++ [v] })

def emitConstChars (text : List Char) (s : Comp) : Nat × Comp := s.emitConst (.string text)

def emitConstFloat (f : UInt32) (s : Comp) : Nat × Comp := s.emitConst (.float f)

def emitConstChar (c : Int) (s : Comp) : Nat × Comp := s.emitConst (.char c)

end Comp

/-! ## Errors -/

/-! The numbers of `parseerrors.h` that the parser uses. -/

def YYER_EXPECTED_CLASS_DEF : Int := 1
def YYER_EXPECTED_CLASS_NAME : Int := 2
def YYER_EXPECTED_SUPER_CLASS : Int := 4
def YYER_EXPECTED_LBRACE : Int := 5
def YYER_EXPECTED_RBRACE : Int := 6
def YYER_EXPECTED_METHOD_NAME : Int := 7
def YYER_EXPECTED_LPAR : Int := 8
def YYER_EXPECTED_RPAR : Int := 9
def YYER_EXPECTED_VAR_NAME : Int := 10
def YYER_EXPECTED_SEMI : Int := 11
def YYER_NEW_SYNTAX : Int := 13
def YYER_EXPECTED_RBRAC : Int := 15
def YYER_EXPECTED_COMMA : Int := 16
def YYERR_SYNTAX : Int := 17
def YYER_EXPECTED_ID : Int := 18
def YYER_EXPECTED_COLON : Int := 19
def YYER_EXPECTED_CATCH : Int := 20
def YYER_UNKNOWN_CLASS : Int := 21
def YYER_EXPECTED_SCOPE_OP : Int := 22
def YYER_EXPECTED_ACCESS : Int := 23
def YYER_UNKNOWN_ID : Int := 25
def YYER_INST_REF_IN_STATIC : Int := 28
def YYER_EXPECTED_VAR_OR_CLASS : Int := 29
def YYER_ILLEGAL_CASE_VALUE : Int := 30
def YYER_ILLEGAL_ARRAY_INIT : Int := 31
def YYER_METH_RETURNS_VAL : Int := 32

/-- The first `switch` of `setupError`. -/
def lexMessage (errornum : Int) : String :=
  match errornum with
  | -1 => "invalid number format"
  | -2 => "unexpected escape sequence"
  | -3 => "unterminated char"
  | -4 => "unterminated string"
  | -5 => "internal error"
  | _ => "unknown error"

/-- The second `switch` of `setupError`. -/
def parseMessage (errornum : Int) : String :=
  match errornum with
  | 1 => "expected class definition"
  | 2 => "expected class name"
  | 3 => "out of memory"
  | 4 => "expected base class name"
  | 5 => "expected '\x7b'"
  | 6 => "expected '\x7d'"
  | 7 => "expected method name"
  | 8 => "expected '('"
  | 9 => "expected ')'"
  | 10 => "expected variable name"
  | 11 => "expected semi colon"
  | 12 => "assignment syntax error"
  | 13 => "'new' operator syntax error"
  | 14 => "expected array index"
  | 15 => "expected ']'"
  | 16 => "expected ','"
  | 17 => "syntax error"
  | 18 => "expected identifier"
  | 19 => "expected ':'"
  | 20 => "expected 'catch'"
  | 21 => "undefined class name"
  | 22 => "expected '::'"
  | 23 => "expected public, protected, or private"
  | 24 => "undefined method name"
  | 25 => "undefined indentifier"
  | 26 => "illegal static reference"
  | 27 => "invalid array index"
  | 28 => "instance method cannot be called from static method"
  | 29 => "expected var or class"
  | 30 => "illegal case value"
  | 31 => "illegal array initializer"
  | 32 => "Method must return a value"
  | _ => "unknown error"

/-- What `setupError` records for the current token: number, line and message. -/
def errorOf (lex : Jspplex) (parseerror : Int) : Int × Int × List Char :=
  if lex.token = .lexerror then
    let num := atoi lex.lex
    (num, lex.lineno,
      "ERROR in lexical analysis of '".toList ++ lex.lex ++ "' on line ".toList ++
        (toString lex.lineno).toList ++ "\n".toList ++ (lexMessage num).toList ++ "\n".toList)
  else
    (parseerror, lex.lineno,
      "ERROR parsing of '".toList ++ lex.lex ++ "' on line ".toList ++
        (toString lex.lineno).toList ++ "\n".toList ++ (parseMessage parseerror).toList ++
        "\n".toList)

def Comp.setupError (parseerror : Int) (s : Comp) : Comp :=
  let e := errorOf s.lex parseerror
  { s with
    errornum := e.1
    errorline := e.2.1
    errmsg := some e.2.2
    printed := s.printed ++ [(s.lex, parseerror)] }

/-- The model gives up: the recursion bound was reached. -/
def Comp.giveUp (s : Comp) : Comp := { s with fuelOut := true }

/-! ## Symbol tables -/

def symtabLookup (g : Scope) (s : Comp) (id : List Char) : Option Vardef :=
  match s.symstack.findSome? fun stp => stp.syms.get id with
  | some vdp => some vdp.1
  | none => findField g.fields id

/-- `symtabEnter` for the `OP_ENTER` whose operand is at `patchupPc`. -/
def symtabEnter (patchupPc : Nat) (s : Comp) : Comp :=
  { s with
    symstack := ⟨cumulativeOf s.symstack, 0, patchupPc, []⟩ :: s.symstack
    tables := s.tables.enter patchupPc }

@[simp] theorem scopeOf_symtabEnter (patchupPc : Nat) (s : Comp) :
    scopeOf (symtabEnter patchupPc s).symstack = scopeOf s.symstack := by
  simp [symtabEnter, Symtab.vars]

/-- `symtabExit`: the count of locals is written into the `OP_ENTER` of the
block, and is also returned. -/
def symtabExit (s : Comp) : Nat × Comp :=
  match stack : s.symstack with
  | [] => (0, s)
  | stp :: rest =>
      (stp.count, { s.emitArgAt stp.patchupPc (some stp.count) with
        symstack := rest
        tables := (stack ▸ s.tables : Scoped (stp :: rest)).tail })

/-- `symtabNote`: a new variable of the innermost block. -/
def symtabNote (name : List Char) (isptr : Bool) (s : Comp) : BlockVar × Comp :=
  let vdp := { createVar name false .block isptr with isauto := true }
  match stack : s.symstack with
  | [] => (⟨vdp, rfl⟩, s)
  | stp :: rest =>
      let var : BlockVar := ⟨{ vdp with offset := stp.cumulative }, rfl⟩
      (var, { s with
        symstack := stp.put name var :: rest
        tables := (stack ▸ s.tables : Scoped (stp :: rest)).put name rfl })

end Jspp.Compiler
