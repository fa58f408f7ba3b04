/-
# Compiler.Syntax -- the trees the parser recognises, and their code

The C parser builds no tree: every function emits code as it reads.  Its model
(`Compiler.Parse`) also returns the tree of what it read, so that a property of
the code can be stated about the source.  `Expr.code` and `Stmt.code` are the
instructions that `parse.c` emits for a tree; that it emits exactly these is
`Compiler.ParseEmits`.

The operands of `OP_JMP` are optional: the one behind a `for` without a post
expression is a C variable that was never set.
-/
import Jspp.Compiler.Opcodes

namespace Jspp.Compiler

set_option autoImplicit false

/-- The operators written before or behind one operand. -/
inductive UnOp where
  | negate | not | inc | dec | pinc | pdec
  deriving DecidableEq

def UnOp.op : UnOp → OpCode
  | .negate => .negate
  | .not => .not
  | .inc => .inc
  | .dec => .dec
  | .pinc => .pinc
  | .pdec => .pdec

/-- The operators between two operands. -/
inductive BinOp where
  | mult | div | mod | lshift | rshift | add | sub
  | lt | gt | lteq | gteq | eq | neq
  | binor | binand | and | or | xor
  deriving DecidableEq

def BinOp.op : BinOp → OpCode
  | .mult => .mult
  | .div => .div
  | .mod => .mod
  | .lshift => .lshift
  | .rshift => .rshift
  | .add => .add
  | .sub => .sub
  | .lt => .lt
  | .gt => .gt
  | .lteq => .lteq
  | .gteq => .gteq
  | .eq => .eq
  | .neq => .neq
  | .binor => .binor
  | .binand => .binand
  | .and => .and
  | .or => .or
  | .xor => .xor

mutual

/-- Expressions.  A number that names a constant is an index into `cdata`. -/
inductive Expr where
  | push (mode : ArgSource) (arg : Int)
  | null
  | lvalue (mode : ArgSource) (offset : Nat)
  | sderef (clsidx offset : Nat)
  | deref (recv : Expr) (name : Nat)
  /-- A method call; `recv` is the receiver, `OP_THIS` for a call in the class
  itself and for a base call. -/
  | call (base : Bool) (recv : Expr) (name : List Char) (args : Args) (sig : Nat)
  | this
  | scall (cls name : List Char) (args : Args) (sig : Nat)
  | new (cls : List Char) (clsidx : Nat) (args : Args) (sig : Nat)
  | array (clsidx addidx : Nat) (elems : Args)
  | unary (op : UnOp) (e : Expr)
  /-- An increment or decrement compiled with `isrhs` false: its value is popped. -/
  | drop (e : Expr)
  | binary (op : BinOp) (l r : Expr)
  /-- `==` or `!=` in `morelogop`, which emits the operator before the operand. -/
  | early (op : BinOp) (l r : Expr)
  | assign (l r : Expr)
  | assignOp (op : BinOp) (l r : Expr)
  /-- The initialiser of a local variable or of a field. -/
  | init (mode : ArgSource) (offset : Nat) (r : Expr)

inductive Args where
  | nil
  | cons (e : Expr) (rest : Args)

end

def Args.length : Args → Nat
  | .nil => 0
  | .cons _ rest => rest.length + 1

/-- Behind the last argument, another one. -/
def Args.snoc : Args → Expr → Args
  | .nil, e => .cons e .nil
  | .cons a rest, e => .cons a (rest.snoc e)

/-- A local variable or a parameter, with its offset in the frame's locals. -/
structure Local where
  name : List Char
  offset : Nat
  deriving DecidableEq

mutual

/-- Statements.  The body of an `if`, a loop, a protected block and a `finally`
is a `block`; a missing `else` or `finally` is `skip`. -/
inductive Stmt where
  | skip
  /-- A declaration; its initialiser is an expression statement behind it. -/
  | decl (v : Local)
  | seq (s t : Stmt)
  | line (n : Int)
  | expr (e : Expr)
  | ret (e : Expr)
  | vret
  | brk
  | cont
  | throw (e : Expr)
  | block (locals : Nat) (s : Stmt)
  | ite (c : Expr) (s t : Stmt)
  | while (c : Expr) (s : Stmt)
  | for (cond post : Option Expr) (s : Stmt)
  | switch (e : Expr) (locals : Nat) (cases : Cases)
  /-- `v` is the variable of the `catch`. -/
  | try (s : Stmt) (v : Local) (locals : Nat) (handler fin : Stmt)

inductive Cases where
  | nil
  | case (v : Expr) (s : Stmt) (rest : Cases)
  | default (s : Stmt) (rest : Cases)

end

/-! ## Instructions by the way their operand is written -/

/-- `programEmit1( pp, op, MODE_IM )` with an immediate operand. -/
def Instr.im (op : OpCode) (arg : Int) : Instr := .emit1 op .im (some arg)

def Instr.jmp (target : Option Int) : Instr := .emit1 .jmp .im target

@[simp] theorem Instr.size_im (op : OpCode) (arg : Int) : (Instr.im op arg).size = 3 := rfl

@[simp] theorem Instr.size_jmp (target : Option Int) : (Instr.jmp target).size = 3 := rfl

@[simp] theorem Instr.size_emit0 (op : OpCode) : (Instr.emit0 op).size = 1 := rfl

@[simp] theorem Instr.size_emit1 (op : OpCode) (m : ArgSource) (a : Option Int) :
    (Instr.emit1 op m a).size = 3 := rfl

@[simp] theorem Instr.size_emit2 (op : OpCode) (m n : ArgSource) (a b : Int) :
    (Instr.emit2 op m n a b).size = 5 := rfl

/-! ## The code of an expression -/

mutual

def Expr.code : Expr → List Instr
  | .push mode arg => [.emit1 .push mode (some arg)]
  | .null => [.emit0 .null]
  | .lvalue mode offset => [.emit1 .lvalue mode (some offset)]
  | .sderef clsidx offset => [.emit2 .sderef .const .im clsidx offset]
  | .deref recv name => recv.code ++ [.emit1 .deref .const (some name)]
  | .call base recv _ args sig =>
      recv.code ++ args.code ++
        [.emit2 (if base then .basecall else .call) .const .im sig args.length]
  | .this => [.emit0 .this]
  | .scall _ _ args sig => args.code ++ [.emit1 .scall .const (some sig)]
  | .new _ clsidx args sig =>
      .emit1 .new .const (some clsidx) ::
        (args.code ++ [.emit2 .construct .const .im sig args.length])
  | .array clsidx addidx elems =>
      .emit1 .new .const (some clsidx) :: .emit2 .construct .const .im clsidx 0 ::
        elems.addCode addidx
  | .unary op e => e.code ++ [.emit0 op.op]
  | .drop e => e.code ++ [.emit0 .pop]
  | .binary op l r => l.code ++ r.code ++ [.emit0 op.op]
  | .early op l r => l.code ++ .emit0 op.op :: r.code
  | .assign l r => l.code ++ r.code ++ [.emit0 .rvalue, .emit0 .assign]
  | .assignOp op l r =>
      l.code ++ .emit0 .dup :: (r.code ++ [.emit0 .rvalue, .emit0 op.op, .emit0 .assign])
  | .init mode offset r => .emit1 .lvalue mode (some offset) :: (r.code ++ [.emit0 .assign])

def Args.code : Args → List Instr
  | .nil => []
  | .cons e rest => e.code ++ rest.code

/-- The elements of an array literal: each is added by a call on a copy of the vector. -/
def Args.addCode (addidx : Nat) : Args → List Instr
  | .nil => []
  | .cons e rest =>
      .emit0 .dup :: (e.code ++ .emit2 .call .const .im addidx 1 :: rest.addCode addidx)

end

-- Made here once: many proofs behind want these equations at the same time.
section
attribute [local simp] Expr.code Args.code
end

/-- The number of cells of some instructions. -/
def codeSize (is : List Instr) : Nat := (is.map Instr.size).sum

@[simp] theorem codeSize_nil : codeSize [] = 0 := rfl

@[simp] theorem codeSize_cons (i : Instr) (is : List Instr) :
    codeSize (i :: is) = i.size + codeSize is := by
  simp [codeSize]

@[simp] theorem codeSize_append (is js : List Instr) :
    codeSize (is ++ js) = codeSize is + codeSize js := by
  simp [codeSize]

@[simp] theorem length_cells_list (is : List Instr) : (cells is).length = codeSize is := by
  induction is with
  | nil => rfl
  | cons i is ih => simp [ih, Instr.length_cells]

def Expr.size (e : Expr) : Nat := codeSize e.code

/-- The cells of an optional expression. -/
def optCode : Option Expr → List Instr
  | none => []
  | some e => e.code

/-! ## The code of a statement -/

/-- The cells between the test of a `for` and its body. -/
def postSize : Option Expr → Nat
  | none => 0
  | some e => 3 + e.size + 3

mutual

/-- The cells a statement takes; they do not depend on where it is placed. -/
def Stmt.size : Stmt → Nat
  | .skip | .decl _ => 0
  | .seq s t => s.size + t.size
  | .line _ => 3
  | .expr e => e.size
  | .ret e => e.size + 1
  | .vret => 2
  | .brk | .cont => 1
  | .throw e => e.size + 1
  | .block _ s => 3 + s.size + 1
  | .ite c s t => c.size + 3 + s.size + 3 + t.size
  | .while c s => 3 + c.size + 3 + s.size + 3 + 3
  | .for cond post s =>
      3 + codeSize (optCode cond) + 3 + postSize post + s.size + 3 + 3
  | .switch e _ cases => e.size + 3 + 3 + cases.size + 3 + 1
  | .try s _ _ handler fin => 3 + s.size + 17 + (3 + handler.size + 1) + fin.size + 3

def Cases.size : Cases → Nat
  | .nil => 0
  | .case v s rest => 1 + v.size + 4 + s.size + rest.size
  | .default s rest => 3 + s.size + rest.size

end

/-- `defaultPc`: the address of the last `default` clause, -1 when there is none. -/
def Cases.defaultPc (b : Nat) (pc : Int) : Cases → Int
  | .nil => pc
  | .case v s rest => rest.defaultPc (b + 1 + v.size + 4 + s.size) pc
  | .default s rest => rest.defaultPc (b + 3 + s.size) (b + 3)

/-- The part of a `for` between its test and its body, and where `postPc` is then set. -/
def postCode (eval b : Nat) : Option Expr → List Instr
  | none => []
  | some e => .jmp (some ↑(b + 3 + e.size + 3)) :: (e.code ++ [.jmp (some ↑eval)])

@[simp] theorem codeSize_postCode (eval b : Nat) (post : Option Expr) :
    codeSize (postCode eval b post) = postSize post := by
  cases post with
  | none => rfl
  | some e => simp [postCode, postSize, Expr.size]; omega

def postPc (b : Nat) : Option Expr → Option Int
  | none => none
  | some _ => some ↑(b + 3)

mutual

/-- The instructions of a statement that is placed at address `b`. -/
def Stmt.code (b : Nat) : Stmt → List Instr
  | .skip | .decl _ => []
  | .seq s t => s.code b ++ t.code (b + s.size)
  | .line n => [.im .line n]
  | .expr e => e.code
  | .ret e => e.code ++ [.emit0 .ret]
  | .vret => [.emit0 .leave, .emit0 .vret]
  | .brk => [.emit0 .break]
  | .cont => [.emit0 .continue]
  | .throw e => e.code ++ [.emit0 .throw]
  | .block locals s => .im .enter locals :: (s.code (b + 3) ++ [.emit0 .leave])
  | .ite c s t =>
      let body := b + c.size + 3
      let other := body + s.size + 3
      c.code ++ .im .jmpz other ::
        (s.code body ++ .jmp (some ↑(other + t.size)) :: t.code other)
  | .while c s =>
      let top := b + 3
      let body := top + c.size + 3
      let exit := body + s.size + 3
      .im .setbreak exit ::
        (c.code ++ .im .jmpz exit ::
          (s.code body ++ [.jmp (some ↑top), .im .setbreak (-1)]))
  | .for cond post s =>
      let eval := b + 3
      let after := eval + codeSize (optCode cond) + 3
      let body := after + postSize post
      let exit := body + s.size + 3
      .im .setbreak exit ::
        (optCode cond ++ .im .jmpz exit ::
          (postCode eval after post ++
            (s.code body ++ [.jmp (postPc after post), .im .setbreak (-1)])))
  | .switch e locals cases =>
      let first := b + e.size + 3 + 3
      let closing := first + cases.size
      e.code ++ .im .setbreak ↑(closing + 4) :: .im .enter locals ::
        (cases.code first ++ [.jmp (some (cases.defaultPc first (-1))), .emit0 .leave])
  | .try s v locals handler fin =>
      let after := b + 3 + s.size
      let catchpc := after + 6
      let startcatch := catchpc + 11
      let finpc := startcatch + (3 + handler.size + 1)
      .im .try catchpc ::
        (s.code (b + 3) ++ .im .push 0 :: .jmp (some ↑finpc) ::
          .emit1 .lvalue .block (some v.offset) :: .emit0 .rot :: .emit0 .assign ::
          .im .push 1 :: .jmp (some ↑finpc) ::
          .im .enter locals :: (handler.code (startcatch + 3) ++ .emit0 .leave ::
            (fin.code finpc ++ [.im .jmpnz startcatch])))

def Cases.code (b : Nat) : Cases → List Instr
  | .nil => []
  | .case v s rest =>
      let body := b + 1 + v.size + 4
      .emit0 .dup :: (v.code ++ .emit0 .eq :: .im .jmpz ↑(body + s.size) ::
        (s.code body ++ rest.code (body + s.size)))
  | .default s rest =>
      let body := b + 3
      .jmp (some ↑(body + s.size)) :: (s.code body ++ rest.code (body + s.size))

end

section
attribute [local simp] Stmt.code Cases.code
end

mutual

@[simp] theorem Stmt.codeSize_code (b : Nat) (s : Stmt) : codeSize (s.code b) = s.size := by
  cases s with
  | skip | decl | line | vret | brk | cont => rfl
  | expr e => rfl
  | seq s t => simp [Stmt.code, Stmt.size, Stmt.codeSize_code]
  | ret e | throw e => simp [Stmt.code, Stmt.size, Expr.size]
  | block n s => simp [Stmt.code, Stmt.size, Stmt.codeSize_code]; omega
  | ite c s t => simp [Stmt.code, Stmt.size, Expr.size, Stmt.codeSize_code]; omega
  | «while» c s => simp [Stmt.code, Stmt.size, Expr.size, Stmt.codeSize_code]; omega
  | «for» cond post s =>
      cases post <;>
        simp [Stmt.code, Stmt.size, postCode, postSize, Expr.size, Stmt.codeSize_code] <;> omega
  | switch e n cs => simp [Stmt.code, Stmt.size, Expr.size, Cases.codeSize_code]; omega
  | «try» s v n h f => simp [Stmt.code, Stmt.size, Stmt.codeSize_code]; omega

@[simp] theorem Cases.codeSize_code (b : Nat) (cs : Cases) : codeSize (cs.code b) = cs.size := by
  cases cs with
  | nil => rfl
  | case v s rest =>
      simp [Cases.code, Cases.size, Expr.size, Stmt.codeSize_code, Cases.codeSize_code]; omega
  | default s rest =>
      simp [Cases.code, Cases.size, Stmt.codeSize_code, Cases.codeSize_code]; omega

end

/-! ## Declarations -/

mutual

/-- The variables a statement declares in the block it stands in, in their order. -/
def Stmt.decls : Stmt → List Local
  | .skip | .line _ | .expr _ | .ret _ | .vret | .brk | .cont | .throw _ => []
  | .block _ _ | .switch _ _ _ => []
  | .decl v => [v]
  | .seq s t => s.decls ++ t.decls
  | .ite _ s t => s.decls ++ t.decls
  | .while _ s | .for _ _ s => s.decls
  | .try s v _ _ fin => s.decls ++ v :: fin.decls

def Cases.decls : Cases → List Local
  | .nil => []
  | .case _ s rest | .default s rest => s.decls ++ rest.decls

end

/-- What a method's code was compiled from. -/
inductive Body where
  /-- No code was emitted: a native method, or one that is only declared. -/
  | empty
  /-- A method: its parameters and locals, then its statements. -/
  | method (locals : Nat) (s : Stmt)
  /-- An `@@constructor`: the field initialisers, in source order. -/
  | inits (es : Args)

def Body.code : Body → List Instr
  | .empty => []
  | .method locals s => .im .enter locals :: (s.code 3 ++ [.emit0 .leave])
  | .inits es => es.code ++ [.emit0 .vret]

end Jspp.Compiler
