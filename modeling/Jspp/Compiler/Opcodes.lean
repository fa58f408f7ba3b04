/-
# Compiler.Opcodes -- instructions and the cells of a method's code

A method's code is an `int16array`.  `_emit` writes one cell per opcode
(`encodeOp`), and every operand takes two more cells, written by
`int16arraySet2Element` and read back by `int16arrayGetInt32`.  How those two
split a 32-bit operand is not in the repository, so a cell is either an encoded
opcode word or one half of an operand (`Cell`); reading both halves of one
operand gives that operand, which is all the code relies on.

* `encodeOp` / `decodeOp`: the bit layout of an opcode word; `decodeOp_encodeOp`.
* `Instr`: what one `programEmit0/1/2` call with its `programEmitArg` calls writes.
* `fetch`: what `_interp` reads at a program counter; `fetch_cells` says it reads
  the instruction that was written there.
-/
import Mathlib.Tactic.Ring

namespace Jspp.Compiler

set_option autoImplicit false

/-- Where an operand lives (`enum ArgSource`). -/
inductive ArgSource where
  | «class» | inst | block | const | im
  deriving DecidableEq, Repr

/-- `enum OpCode`, in the order of `opcodes.h`. -/
inductive OpCode where
  | nop | pop | push | rot | rot3 | dup
  | add | sub | negate | mult | div | mod | inc | dec | pinc | pdec
  | and | binand | or | binor | xor | compl | not
  | rshift | lshift
  | lt | gt | lteq | gteq | eq | neq
  | assign | this | rvalue | lvalue | deref | sderef | null
  | enter | leave | call | construct | basecall | scall | vret | ret | new | native
  | jmpz | jmpnz | jmp | break | setbreak | continue
  | try | throw
  | line
  deriving DecidableEq, Repr

def ArgSource.toNat : ArgSource → Nat
  | .class => 0
  | .inst => 1
  | .block => 2
  | .const => 3
  | .im => 4

def ArgSource.ofNat? : Nat → Option ArgSource
  | 0 => some .class
  | 1 => some .inst
  | 2 => some .block
  | 3 => some .const
  | 4 => some .im
  | _ => none

theorem ArgSource.ofNat?_toNat (m : ArgSource) : ArgSource.ofNat? m.toNat = some m := by
  cases m <;> rfl

/-- The opcodes in declaration order, so that an opcode's number is its position. -/
def OpCode.all : List OpCode :=
  [.nop, .pop, .push, .rot, .rot3, .dup,
   .add, .sub, .negate, .mult, .div, .mod, .inc, .dec, .pinc, .pdec,
   .and, .binand, .or, .binor, .xor, .compl, .not,
   .rshift, .lshift,
   .lt, .gt, .lteq, .gteq, .eq, .neq,
   .assign, .this, .rvalue, .lvalue, .deref, .sderef, .null,
   .enter, .leave, .call, .construct, .basecall, .scall, .vret, .ret, .new, .native,
   .jmpz, .jmpnz, .jmp, .break, .setbreak, .continue,
   .try, .throw,
   .line]

def OpCode.toNat (op : OpCode) : Nat := OpCode.all.idxOf op

def OpCode.ofNat? (n : Nat) : Option OpCode := OpCode.all[n]?

theorem OpCode.ofNat?_toNat (op : OpCode) : OpCode.ofNat? op.toNat = some op := by
  cases op <;> rfl

theorem OpCode.toNat_lt (op : OpCode) : op.toNat < 128 := by
  cases op <;> decide

/-- `encodeOp`: bits 0-6 the opcode, 7-8 the operand count, 9-11 and 12-14 the modes. -/
def encodeOp (op : OpCode) (argcount : Nat) (mode mode2 : ArgSource) : Nat :=
  op.toNat ||| argcount <<< 7 ||| mode.toNat <<< 9 ||| mode2.toNat <<< 12

/-- The four fields of an opcode word, cut out by the masks of `decodeOp`. -/
structure Decoded where
  op : Nat
  argcount : Nat
  mode : Nat
  mode2 : Nat
  deriving DecidableEq

def decodeOp (opcode : Nat) : Decoded where
  op := opcode &&& 127
  argcount := (opcode &&& (3 <<< 7)) >>> 7
  mode := (opcode &&& (7 <<< 9)) >>> 9
  mode2 := (opcode &&& (7 <<< 12)) >>> 12

theorem ArgSource.toNat_lt (m : ArgSource) : m.toNat < 8 := by
  cases m <;> decide

/-- An opcode word as a number: the four fields do not overlap. -/
theorem encodeOp_eq (op : OpCode) (argcount : Nat) (mode mode2 : ArgSource)
    (small : argcount < 4) :
    encodeOp op argcount mode mode2 =
      op.toNat + 2 ^ 7 * argcount + 2 ^ 9 * mode.toNat + 2 ^ 12 * mode2.toNat := by
  have opLt := op.toNat_lt
  have modeLt := mode.toNat_lt
  have join : ∀ a b i : Nat, b < 2 ^ i → b ||| a <<< i = b + 2 ^ i * a := by
    intro a b i lt
    rw [Nat.or_comm, ← Nat.shiftLeft_add_eq_or_of_lt lt, Nat.shiftLeft_eq]
    ring
  unfold encodeOp
  rw [join argcount _ 7 (by omega), join mode.toNat _ 9 (by omega),
    join mode2.toNat _ 12 (by omega)]

/-- Decoding an encoded word gives back its four fields. -/
theorem decodeOp_encodeOp (op : OpCode) (argcount : Nat) (mode mode2 : ArgSource)
    (small : argcount < 4) :
    decodeOp (encodeOp op argcount mode mode2) =
      ⟨op.toNat, argcount, mode.toNat, mode2.toNat⟩ := by
  have opLt := op.toNat_lt
  have modeLt := mode.toNat_lt
  have mode2Lt := mode2.toNat_lt
  have field : ∀ x k w : Nat, (x &&& ((2 ^ w - 1) <<< k)) >>> k = x / 2 ^ k % 2 ^ w := by
    intro x k w
    rw [Nat.shiftRight_and_distrib, Nat.shiftLeft_shiftRight, Nat.and_two_pow_sub_one_eq_mod,
      Nat.shiftRight_eq_div_pow]
  rw [encodeOp_eq op argcount mode mode2 small]
  unfold decodeOp
  have opField := field (op.toNat + 2 ^ 7 * argcount + 2 ^ 9 * mode.toNat + 2 ^ 12 * mode2.toNat)
  congr 1
  · exact (opField 0 7).trans (by omega)
  · exact (opField 7 2).trans (by omega)
  · exact (opField 9 3).trans (by omega)
  · exact (opField 12 3).trans (by omega)

/-- One cell of a method's `int16array`: an opcode word, or half of an operand.
The operand is `none` when the C variable it was taken from was never set. -/
inductive Cell where
  | word (w : Nat)
  | lo (arg : Option Int)
  | hi (arg : Option Int)
  deriving DecidableEq

/-- One emitted instruction with its operands. -/
inductive Instr where
  | emit0 (op : OpCode)
  | emit1 (op : OpCode) (mode : ArgSource) (arg : Option Int)
  | emit2 (op : OpCode) (mode mode2 : ArgSource) (arg1 arg2 : Int)
  deriving DecidableEq

namespace Instr

def op : Instr → OpCode
  | .emit0 op => op
  | .emit1 op _ _ => op
  | .emit2 op _ _ _ _ => op

/-- The cells one instruction occupies. -/
def cells : Instr → List Cell
  | .emit0 op => [.word (encodeOp op 0 .class .class)]
  | .emit1 op mode arg => [.word (encodeOp op 1 mode .class), .lo arg, .hi arg]
  | .emit2 op mode mode2 arg1 arg2 =>
      [.word (encodeOp op 2 mode mode2), .lo (some arg1), .hi (some arg1),
        .lo (some arg2), .hi (some arg2)]

def size : Instr → Nat
  | .emit0 _ => 1
  | .emit1 _ _ _ => 3
  | .emit2 _ _ _ _ _ => 5

theorem length_cells (i : Instr) : i.cells.length = i.size := by
  cases i <;> rfl

theorem size_pos (i : Instr) : 0 < i.size := by
  cases i <;> simp [size]

end Instr

/-- The cells of a list of instructions. -/
def cells (is : List Instr) : List Cell := is.flatMap Instr.cells

@[simp] theorem cells_nil : cells [] = [] := rfl

@[simp] theorem cells_cons (i : Instr) (is : List Instr) : cells (i :: is) = i.cells ++ cells is := rfl

@[simp] theorem cells_append (is js : List Instr) : cells (is ++ js) = cells is ++ cells js := by
  simp [cells]

/-- `int16arrayGetInt32`: both halves of one operand give that operand. -/
def getInt32 (code : List Cell) (pc : Nat) : Option (Option Int) :=
  match code[pc]?, code[pc + 1]? with
  | some (.lo a), some (.hi b) => if a = b then some a else none
  | _, _ => none

/-- `int16arraySet2Element`: the two cells from `pc` on become the halves of `arg`. -/
def set2Element (code : List Cell) (arg : Option Int) (pc : Nat) : List Cell :=
  code.take pc ++ [.lo arg, .hi arg] ++ code.drop (pc + 2)

/-- What `_interp` decodes at `pc`.  `none` when the cell there is not an opcode
word (the middle of an instruction, or outside the code): its bits are unknown. -/
def fetchAt (code : List Cell) (pc : Nat) : Option Instr :=
  match code[pc]? with
  | some (.word w) =>
      let d := decodeOp w
      match OpCode.ofNat? d.op, ArgSource.ofNat? d.mode, ArgSource.ofNat? d.mode2 with
      | some op, some mode, some mode2 =>
          match d.argcount with
          | 0 => some (.emit0 op)
          | 1 => (getInt32 code (pc + 1)).map fun a => .emit1 op mode a
          | 2 =>
              match getInt32 code (pc + 1), getInt32 code (pc + 3) with
              | some (some a), some (some b) => some (.emit2 op mode mode2 a b)
              | _, _ => none
          | _ => none
      | _, _, _ => none
  | _ => none

/-- The program counter is a C `int`: it can be negative. -/
def fetch (code : List Cell) (pc : Int) : Option Instr :=
  if pc < 0 then none else fetchAt code pc.toNat

/-- Fetching at the address an instruction was written to reads that instruction. -/
theorem fetchAt_cells (pre post : List Cell) (i : Instr) :
    fetchAt (pre ++ (i.cells ++ post)) pre.length = some i := by
  cases i <;>
    simp [Instr.cells, fetchAt, getInt32, Nat.add_assoc, decodeOp_encodeOp, OpCode.ofNat?_toNat,
      ArgSource.ofNat?_toNat]

end Jspp.Compiler
