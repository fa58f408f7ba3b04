/-
# Kernel.Variant -- the tagged values of the interpreter

A `variant` is a type tag and a union.  Here the tag is the constructor, and the
payload is what the C code reads back under that tag: an `int32` as an `Int`
(`wrap32` after arithmetic), a `float` as its 32 bits, a string by its bytes, an
instance by its number in the store, and a pointer by the place it points to.

The operators take arguments that `normalize` has already looked through, and
answer `VarResult.undefined` where the C code reads a variable it never set,
divides by zero, or shifts by a count outside the width.
-/
import Mathlib.Data.Int.Bitwise

namespace Jspp.Kernel

set_option autoImplicit false

/-- A place a `TYPE_PTR` variant can point to.  A local is named by the depth of
its stack frame: `stkframecache` hands a frame's vectors to the next call at the
same depth. -/
inductive Loc where
  | local (depth slot : Nat)
  | static (cls offset : Nat)
  | field (inst offset : Nat)
  | elem (inst index : Nat)
  deriving DecidableEq

inductive Variant where
  | void
  | null
  | int (i : Int)
  | char (i : Int)
  | bool (i : Int)
  | float (f : UInt32)
  | inst (ip : Nat)
  | delegate
  | string (sp : List Char)
  | ptr (vp : Loc)
  deriving DecidableEq

/-- Reduction of a mathematical integer to an `int32`. -/
def wrap32 (x : Int) : Int := Int.bmod x (2 ^ 32)

/-- What an operator did: stored a value and returned true, returned false, or
reached a step the C language does not define. -/
inductive VarResult where
  | value (v : Variant)
  | mismatch
  | undefined
  deriving DecidableEq

namespace Variant

def isPtr : Variant → Bool
  | .ptr _ => true
  | _ => false

def isInst : Variant → Bool
  | .inst _ => true
  | _ => false

def varIsFloat : Variant → Bool
  | .float _ => true
  | _ => false

def varIsNumeric : Variant → Bool
  | .void | .null | .int _ | .char _ | .bool _ | .float _ => true
  | _ => false

/-- `(int)f`; C leaves values outside the range undefined, here they saturate. -/
def floatToInt (f : UInt32) : Int := (Float32.ofBits f).toInt32.toInt

def intToFloat (i : Int) : UInt32 := (Float32.ofInt i).toBits

def varGetInt : Variant → Option Int
  | .void | .null => some 0
  | .int i | .char i | .bool i => some i
  | .float f => some (floatToInt f)
  | _ => none

def varGetFloat : Variant → Option UInt32
  | .void | .null => some (intToFloat 0)
  | .int i | .char i | .bool i => some (intToFloat i)
  | .float f => some f
  | _ => none

/-- `buf[0] = (char)i`: a NUL byte ends the string. -/
def byteText (i : Int) : List Char :=
  let b := (i % 256).toNat
  if b = 0 then [] else [Char.ofNat b]

/-- `varToString`, on a variant that is not a pointer. -/
def varToString : Variant → List Char
  | .void => "*unassigned*".toList
  | .null => "<null>".toList
  | .int i => (toString i).toList
  | .float f => (Float32.ofBits f).toString.toList
  | .char i => byteText i
  | .bool i => if i ≠ 0 then "true".toList else "false".toList
  | .inst _ => "<instance>".toList
  | .delegate => "<delegate>".toList
  | .string sp => sp
  | .ptr _ => []

def ofBool (b : Bool) : Variant := .bool (if b then 1 else 0)

/-- The shape shared by `varAssignOpLT`, `LE`, `GT`, `GE`, `Sub`, `Mul`, `Div`
and the numeric part of `varAssignOpPlus`: floats when either side is one (both
`varGetFloat` results are ignored), else integers when both are numeric. -/
def arith (onFloat : Float32 → Float32 → Variant) (onInt : Int → Int → VarResult)
    (a b : Variant) : VarResult :=
  if a.varIsFloat || b.varIsFloat then
    match a.varGetFloat, b.varGetFloat with
    | some x, some y => .value (onFloat (Float32.ofBits x) (Float32.ofBits y))
    | _, _ => .undefined
  else if a.varIsNumeric && b.varIsNumeric then
    match a.varGetInt, b.varGetInt with
    | some x, some y => onInt x y
    | _, _ => .undefined
  else .mismatch

def varAssignOpLT : Variant → Variant → VarResult :=
  arith (fun a b => ofBool (a < b)) (fun a b => .value (ofBool (a < b)))

def varAssignOpLE : Variant → Variant → VarResult :=
  arith (fun a b => ofBool (a ≤ b)) (fun a b => .value (ofBool (a ≤ b)))

def varAssignOpGT : Variant → Variant → VarResult :=
  arith (fun a b => ofBool (a > b)) (fun a b => .value (ofBool (a > b)))

def varAssignOpGE : Variant → Variant → VarResult :=
  arith (fun a b => ofBool (a ≥ b)) (fun a b => .value (ofBool (a ≥ b)))

def varAssignOpSub : Variant → Variant → VarResult :=
  arith (fun a b => .float (a - b).toBits) (fun a b => .value (.int (wrap32 (a - b))))

def varAssignOpMul : Variant → Variant → VarResult :=
  arith (fun a b => .float (a * b).toBits) (fun a b => .value (.int (wrap32 (a * b))))

/-- The smallest `int32`, whose quotient by -1 does not fit. -/
def intMin : Int := -2 ^ 31

def varAssignOpDiv : Variant → Variant → VarResult :=
  arith (fun a b => .float (a / b).toBits) fun a b =>
    if b = 0 ∨ (a = intMin ∧ b = -1) then .undefined else .value (.int (a.tdiv b))

def isString : Variant → Bool
  | .string _ => true
  | _ => false

def varAssignOpPlus (a b : Variant) : VarResult :=
  if a.isString || b.isString then .value (.string (a.varToString ++ b.varToString))
  else arith (fun x y => .float (x + y).toBits) (fun x y => .value (.int (wrap32 (x + y)))) a b

/-- `varAssignOpEQ` and `varAssignOpNEQ` (`negated`): one numeric side is enough
to compare as numbers, and then both must convert. -/
def equality (negated : Bool) (a b : Variant) : VarResult :=
  if a.varIsNumeric || b.varIsNumeric then
    if a.varIsFloat || b.varIsFloat then
      match a.varGetFloat, b.varGetFloat with
      | some x, some y =>
          .value (ofBool ((Float32.ofBits x == Float32.ofBits y) != negated))
      | _, _ => .mismatch
    else
      match a.varGetInt, b.varGetInt with
      | some x, some y => .value (ofBool ((x == y) != negated))
      | _, _ => .mismatch
  else
    match a, b with
    | .string x, .string y => .value (ofBool ((x == y) != negated))
    | _, _ => .mismatch

def varAssignOpEQ : Variant → Variant → VarResult := equality false

def varAssignOpNEQ : Variant → Variant → VarResult := equality true

/-- The operators that only need `varGetInt` of both sides. -/
def integral (f : Int → Int → VarResult) (a b : Variant) : VarResult :=
  match a.varGetInt, b.varGetInt with
  | some x, some y => f x y
  | _, _ => .mismatch

def varAssignOpMod : Variant → Variant → VarResult :=
  integral fun a b =>
    if b = 0 ∨ (a = intMin ∧ b = -1) then .undefined else .value (.int (a.tmod b))

def varAssignOpBinOr : Variant → Variant → VarResult :=
  integral fun a b => .value (.int (Int.lor a b))

def varAssignOpBinAnd : Variant → Variant → VarResult :=
  integral fun a b => .value (.int (Int.land a b))

def varAssignOpBinXOr : Variant → Variant → VarResult :=
  integral fun a b => .value (.int (Int.xor a b))

/-- Both `varGetInt` calls of `varAssignOpRightShift` read `arg1`: the second
operand is never looked at, and the value is shifted by itself. -/
def varAssignOpRightShift (a _b : Variant) : VarResult :=
  match a.varGetInt with
  | some x => if 0 ≤ x ∧ x < 32 then .value (.int (x >>> x.toNat)) else .undefined
  | none => .mismatch

def varComp (a : Variant) : Option Variant := a.varGetInt.map fun i => .int (-i - 1)

def varLogNot (a : Variant) : Option Variant := a.varGetInt.map fun i => ofBool (i == 0)

def varNegate (a : Variant) : Option Variant := a.varGetInt.map fun i => .int (wrap32 (-i))

/-- The value `OP_OR` and `OP_AND` test: anything that is not a number counts as 1. -/
def truth (a : Variant) : Int :=
  if a.varIsNumeric then a.varGetInt.getD 1 else 1

/-- `varCast( var, TYPE_BOOL )` on a variant that is not a pointer.  The string
case frees the text and stores a flag over the pointer but leaves the tag
`TYPE_STRING`, so the variant's next use reads a freed string. -/
def varCastBool : Variant → VarResult
  | .void => .value (.bool 0)
  | .char i | .int i => .value (ofBool (i != 0))
  | .float f => .value (ofBool (!(Float32.ofBits f == 0)))
  | .bool i => .value (.bool i)
  | .string sp =>
      if sp = "true".toList ∨ sp = "TRUE".toList ∨ sp = "false".toList ∨ sp = "FALSE".toList then
        .undefined
      else .mismatch
  | _ => .mismatch

end Variant

end Jspp.Kernel
