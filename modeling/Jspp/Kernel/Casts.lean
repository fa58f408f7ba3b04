/-
# Kernel.Casts -- `varCast`

`varCast` is a table of a source and a target type.  Three of its places are off: a
value whose tag is not above `TYPE_BOOL` keeps it when it is cast to `TYPE_VOID`, a
character runs on into the case of the integers and is converted to a float twice, and
the text true stays a text after it was freed.

* `castValue`, `varCast`: the table, and the walk through the pointers.
* `asInt`, `asFloat`, `asBool`, `convert`: the value a conversion is to give.
* `Misses`, `cast_iff`: the places of the table that are off.
-/
import Jspp.Kernel.Arrays
import Jspp.Kernel.Prepare

namespace Jspp.Kernel

set_option autoImplicit false

/-! ## The table -/

/-- `enum jstype`. -/
inductive Jstype where
  | void
  | null
  | int
  | char
  | bool
  | float
  | inst
  | delegate
  | string
  | ptr
  deriving DecidableEq

/-- The tag of a variant. -/
def Variant.type : Variant → Jstype
  | .void => .void
  | .null => .null
  | .int _ => .int
  | .char _ => .char
  | .bool _ => .bool
  | .float _ => .float
  | .inst _ => .inst
  | .delegate => .delegate
  | .string _ => .string
  | .ptr _ => .ptr

/-- The string library's `stringIsint` and `stringIsfloat`, and `atoi` and `atof`. -/
structure Numerals where
  isint : List Char → Bool
  isfloat : List Char → Bool
  atoi : List Char → Int
  atof : List Char → UInt32
  atoi_int : ∀ s, IsInt (atoi s)

/-- `(char)i`, where a `char` is signed. -/
def toChar (i : Int) : Int := Int.bmod i 256

/-- The bits of a float, read as an `int32`. -/
def bitsAsInt (f : UInt32) : Int := wrap32 f.toNat

/-- What `varCast` does: it returns true and leaves a value, returns false before it has
written anything, or returns true and leaves the tag of a text that was freed. -/
inductive Cast where
  | converted (v : Variant)
  | refused
  | freed

section

variable (lib : Numerals)

/-- `varCast` on a variant that is not a pointer. -/
def castValue : Jstype → Variant → Cast
  | .void, var => .converted var.varclear
  | .null, _ => .converted .null
  | .char, var =>
      match var with
      | .void => .converted (.char 0)
      | .int i => .converted (.char (toChar i))
      | .float f => .converted (.char (toChar (Variant.floatToInt f)))
      | .bool i => .converted (.char i)
      | .string sp =>
          if lib.isint sp then .converted (.char (toChar (lib.atoi sp))) else .refused
      | _ => .refused
  | .int, var =>
      match var with
      | .void => .converted (.int 0)
      | .char i | .int i | .bool i => .converted (.int i)
      | .float f => .converted (.int (Variant.floatToInt f))
      | .string sp =>
          if lib.isint sp then .converted (.int (lib.atoi sp))
          else if lib.isfloat sp then .converted (.int (Variant.floatToInt (lib.atof sp)))
          else .refused
      | _ => .refused
  | .float, var =>
      match var with
      | .void => .converted (.float 0)
      -- no break: the case of the integers converts the bits once more
      | .char i => .converted (.float (Variant.intToFloat (bitsAsInt (Variant.intToFloat i))))
      | .int i | .bool i => .converted (.float (Variant.intToFloat i))
      | .float f => .converted (.float f)
      | .string sp =>
          if lib.isfloat sp then .converted (.float (lib.atof sp))
          else if lib.isint sp then .converted (.float (Variant.intToFloat (lib.atoi sp)))
          else .refused
      | _ => .refused
  | .bool, var =>
      match var with
      | .void => .converted (.bool 0)
      | .char i | .int i => .converted (Variant.ofBool (i != 0))
      | .float f => .converted (Variant.ofBool (!(Float32.ofBits f == 0)))
      | .bool i => .converted (.bool i)
      | .string sp =>
          if sp = "true".toList ∨ sp = "TRUE".toList ∨ sp = "false".toList ∨
              sp = "FALSE".toList then
            .freed
          else .refused
      | _ => .refused
  | .inst, var =>
      match var with
      | .null => .converted .null
      | .inst ip => .converted (.inst ip)
      | _ => .refused
  | .delegate, var =>
      match var with
      | .null => .converted .null
      | _ => .refused
  | .string, var => .converted (.string var.varToString)
  | .ptr, _ => .refused

/-- `varCast` at a place.  Only a cast to `TYPE_NULL` stops at a pointer. -/
def varCast (st : Store) (type : Jstype) : Nat → Loc → Option (Bool × Store)
  | 0, _ => none
  | n + 1, l =>
      match st.get l with
      | .ptr vp => if type = .null then some (true, st.set l .null) else varCast st type n vp
      | var =>
          match castValue lib type var with
          | .converted w => some (true, st.set l w)
          | .refused => some (false, st)
          | .freed => none

end

/-! ## The values -/

section

variable (lib : Numerals)

/-- The number that a value is, as an integer. -/
def asInt : Variant → Option Int
  | .void => some 0
  | .int i | .char i | .bool i => some i
  | .float f => some (Variant.floatToInt f)
  | .string sp =>
      if lib.isint sp then some (lib.atoi sp)
      else if lib.isfloat sp then some (Variant.floatToInt (lib.atof sp))
      else none
  | _ => none

/-- The number that a value is, as a float. -/
def asFloat : Variant → Option UInt32
  | .void => some (Variant.intToFloat 0)
  | .int i | .char i | .bool i => some (Variant.intToFloat i)
  | .float f => some f
  | .string sp =>
      if lib.isfloat sp then some (lib.atof sp)
      else if lib.isint sp then some (Variant.intToFloat (lib.atoi sp))
      else none
  | _ => none

/-- The truth of a value; a text has one when it spells it. -/
def asBool : Variant → Option Bool
  | .void => some false
  | .int i | .char i | .bool i => some (i != 0)
  | .float f => some (!(Float32.ofBits f == 0))
  | .string sp =>
      if sp = "true".toList ∨ sp = "TRUE".toList then some true
      else if sp = "false".toList ∨ sp = "FALSE".toList then some false
      else none
  | _ => none

/-- The value under the requested type. -/
def convert : Jstype → Variant → Option Variant
  | .void, _ => some .void
  | .null, _ => some .null
  | .char, var => (asInt lib var).map fun i => .char (toChar i)
  | .int, var => (asInt lib var).map .int
  | .float, var => (asFloat lib var).map .float
  | .bool, var => (asBool var).map Variant.ofBool
  | .inst, var => if var.isInst = true ∨ var = .null then some var else none
  | .delegate, var => if var = .null then some .null else none
  | .string, var => some (.string var.varToString)
  | .ptr, _ => none

/-- A payload that the C type behind the tag can hold. -/
def Variant.WellFormed : Variant → Prop
  | .int i => IsInt i
  | .char i => -128 ≤ i ∧ i < 128
  | .bool i => i = 0 ∨ i = 1
  | _ => True

/-- The value is well formed, has the requested type, and is the converted one. -/
structure Converted (type : Jstype) (var w : Variant) : Prop where
  formed : w.WellFormed
  typed : w.type = type ∨ (type = .inst ∨ type = .delegate) ∧ var = .null ∧ w = .null
  value : convert lib type var = some w

/-- The places of the table that are off. -/
def Misses : Jstype → Variant → Prop
  | .void, .null | .void, .int _ | .void, .char _ | .void, .bool _ => True
  | .float, .char i => i ≠ 0
  | .bool, .string sp =>
      sp = "true".toList ∨ sp = "TRUE".toList ∨ sp = "false".toList ∨ sp = "FALSE".toList
  | _, _ => False

/-- What is to be left behind. -/
def Cast.Right (type : Jstype) (var : Variant) : Cast → Prop
  | .converted w => Converted lib type var w
  | .refused => True
  | .freed => False

end

/-! ## The table is right but for three places -/

section

variable {lib : Numerals} {var : Variant}

theorem toChar_formed (i : Int) : (Variant.char (toChar i)).WellFormed := by
  have low := Int.le_bmod (x := i) (m := 256) (by decide)
  have high := Int.bmod_lt (x := i) (m := 256) (by decide)
  exact ⟨low, high⟩

theorem toChar_of_formed {i : Int} (formed : -128 ≤ i ∧ i < 128) : toChar i = i :=
  Int.bmod_eq_of_le (by omega) (by omega)

theorem floatToInt_formed (f : UInt32) : IsInt (Variant.floatToInt f) :=
  ⟨Int32.le_toInt _, Int32.toInt_lt _⟩

theorem ofBool_formed (b : Bool) : (Variant.ofBool b).WellFormed := by
  cases b with
  | false => exact .inl rfl
  | true => exact .inr rfl

/-- Of the characters only 0 is converted to the right float. -/
theorem twice_converted {i : Int} (formed : -128 ≤ i ∧ i < 128) :
    Variant.intToFloat (bitsAsInt (Variant.intToFloat i)) = Variant.intToFloat i ↔ i = 0 := by
  have all : ((List.range 256).all fun n : Nat => decide
      (Variant.intToFloat (bitsAsInt (Variant.intToFloat ((n : Int) - 128))) =
        Variant.intToFloat ((n : Int) - 128) ↔ (n : Int) - 128 = 0)) = true := by decide +kernel
  have here := List.all_eq_true.mp all (i + 128).toNat (List.mem_range.mpr (by omega))
  have same : (((i + 128).toNat : Nat) : Int) - 128 = i := by omega
  rw [same] at here
  exact of_decide_eq_true here

theorem Variant.WellFormed.int {i : Int} (formed : -128 ≤ i ∧ i < 128 ∨ i = 0 ∨ i = 1) :
    (Variant.int i).WellFormed := by
  refine ⟨?_, ?_⟩
  · omega
  · omega

theorem castValue_char (formed : var.WellFormed) :
    (castValue lib .char var).Right lib .char var := by
  cases var with
  | void => exact ⟨⟨by decide, by decide⟩, .inl rfl, rfl⟩
  | int i => exact ⟨toChar_formed i, .inl rfl, rfl⟩
  | float f => exact ⟨toChar_formed _, .inl rfl, rfl⟩
  | bool i =>
      have small : -128 ≤ i ∧ i < 128 := by
        rcases formed with rfl | rfl <;> decide
      refine ⟨small, .inl rfl, ?_⟩
      show some (Variant.char (toChar i)) = some (.char i)
      rw [toChar_of_formed small]
  | string sp =>
      rw [castValue]
      by_cases isint : lib.isint sp = true
      · simp only [if_pos isint]
        refine ⟨toChar_formed _, .inl rfl, ?_⟩
        rw [convert, asInt, if_pos isint]
        rfl
      · simp only [if_neg isint]
        trivial
  | null | char i | inst ip | delegate | ptr vp => trivial

theorem castValue_int (formed : var.WellFormed) : (castValue lib .int var).Right lib .int var := by
  cases var with
  | void => exact ⟨⟨by decide, by decide⟩, .inl rfl, rfl⟩
  | int i => exact ⟨formed, .inl rfl, rfl⟩
  | char i => exact ⟨Variant.WellFormed.int (.inl formed), .inl rfl, rfl⟩
  | bool i => exact ⟨Variant.WellFormed.int (.inr formed), .inl rfl, rfl⟩
  | float f => exact ⟨floatToInt_formed f, .inl rfl, rfl⟩
  | string sp =>
      rw [castValue]
      by_cases isint : lib.isint sp = true
      · simp only [if_pos isint]
        refine ⟨lib.atoi_int sp, .inl rfl, ?_⟩
        rw [convert, asInt, if_pos isint]
        rfl
      · by_cases isfloat : lib.isfloat sp = true
        · simp only [if_neg isint, if_pos isfloat]
          refine ⟨floatToInt_formed _, .inl rfl, ?_⟩
          rw [convert, asInt, if_neg isint, if_pos isfloat]
          rfl
        · simp only [if_neg isint, if_neg isfloat]
          trivial
  | null | inst ip | delegate | ptr vp => trivial

/-- A character is converted twice. -/
theorem castValue_float (formed : var.WellFormed) :
    (castValue lib .float var).Right lib .float var ↔ ¬ Misses .float var := by
  cases var with
  | void =>
      have zero : Variant.intToFloat 0 = 0 := by decide +kernel
      exact iff_of_true ⟨trivial, .inl rfl, congrArg (some ∘ Variant.float) zero⟩ id
  | char i =>
      have once := twice_converted formed
      show Converted lib .float (.char i) _ ↔ ¬ (i ≠ 0)
      rw [not_not, ← once]
      constructor
      · rintro ⟨_, _, value⟩
        exact (Variant.float.inj (Option.some.inj value)).symm
      · intro same
        exact ⟨trivial, .inl rfl, congrArg (some ∘ Variant.float) same.symm⟩
  | int i | bool i | float f => exact iff_of_true ⟨trivial, .inl rfl, rfl⟩ id
  | string sp =>
      refine iff_of_true ?_ id
      rw [castValue]
      by_cases isfloat : lib.isfloat sp = true
      · simp only [if_pos isfloat]
        refine ⟨trivial, .inl rfl, ?_⟩
        rw [convert, asFloat, if_pos isfloat]
        rfl
      · by_cases isint : lib.isint sp = true
        · simp only [if_neg isfloat, if_pos isint]
          refine ⟨trivial, .inl rfl, ?_⟩
          rw [convert, asFloat, if_neg isfloat, if_pos isint]
          rfl
        · simp only [if_neg isint, if_neg isfloat]
          trivial
  | null | inst ip | delegate | ptr vp => exact iff_of_true trivial id

/-- The text true keeps its tag. -/
theorem castValue_truth (formed : var.WellFormed) :
    (castValue lib .bool var).Right lib .bool var ↔ ¬ Misses .bool var := by
  cases var with
  | void => exact iff_of_true ⟨.inl rfl, .inl rfl, rfl⟩ id
  | char i | int i | float f => exact iff_of_true ⟨ofBool_formed _, .inl rfl, rfl⟩ id
  | bool i =>
      refine iff_of_true ⟨formed, .inl rfl, ?_⟩ id
      rcases formed with rfl | rfl <;> rfl
  | string sp =>
      rw [castValue]
      by_cases spelled :
          sp = "true".toList ∨ sp = "TRUE".toList ∨ sp = "false".toList ∨ sp = "FALSE".toList
      · simp only [if_pos spelled]
        exact iff_of_false id (fun no => no spelled)
      · simp only [if_neg spelled]
        exact iff_of_true trivial spelled
  | null | inst ip | delegate | ptr vp => exact iff_of_true trivial id

theorem castValue_void : (castValue lib .void var).Right lib .void var ↔ ¬ Misses .void var := by
  have kept : ∀ w : Variant, w.type ≠ .void → ¬ Converted lib .void var w := by
    rintro w other ⟨_, typed | ⟨no | no, _⟩, _⟩
    · exact other typed
    · cases no
    · cases no
  cases var with
  | null | int i | char i | bool i => exact iff_of_false (kept _ nofun) (fun no => no trivial)
  | void | float f | inst ip | delegate | string sp | ptr vp =>
      exact iff_of_true ⟨trivial, .inl rfl, rfl⟩ id

/-- The table is right but for the places that are off. -/
theorem castValue_iff (formed : var.WellFormed) (type : Jstype) :
    (castValue lib type var).Right lib type var ↔ ¬ Misses type var := by
  cases type with
  | void => exact castValue_void
  | float => exact castValue_float formed
  | bool => exact castValue_truth formed
  | char => exact iff_of_true (castValue_char formed) id
  | int => exact iff_of_true (castValue_int formed) id
  | null => exact iff_of_true ⟨trivial, .inl rfl, rfl⟩ id
  | string => exact iff_of_true ⟨trivial, .inl rfl, rfl⟩ id
  | ptr => exact iff_of_true trivial id
  | inst =>
      refine iff_of_true ?_ id
      cases var with
      | null => exact ⟨trivial, .inr ⟨.inl rfl, rfl, rfl⟩, rfl⟩
      | inst ip => exact ⟨trivial, .inl rfl, rfl⟩
      | _ => trivial
  | delegate =>
      refine iff_of_true ?_ id
      cases var with
      | null => exact ⟨trivial, .inr ⟨.inr rfl, rfl, rfl⟩, rfl⟩
      | _ => trivial

end

/-! ## The walk through the pointers -/

/-- After so many pointers there is a value. -/
inductive Points (st : Store) : Nat → Loc → Loc → Prop where
  | here {l : Loc} (value : (st.get l).isPtr = false) : Points st 0 l l
  | behind {n : Nat} {l vp e : Loc} (ptr : st.get l = .ptr vp) (points : Points st n vp e) :
      Points st (n + 1) l e

/-- `varCast` ends; when it returns true the value behind the pointers is the converted one
(and a pointer that is cast to `TYPE_NULL` is null itself), when it returns false nothing
has changed. -/
def CastRight (lib : Numerals) (type : Jstype) (st : Store) (l e : Loc)
    (result : Option (Bool × Store)) : Prop :=
  ∃ ok st', result = some (ok, st') ∧
    (ok = true → ∃ w, Converted lib type (st.get e) w ∧
      st' = st.set (if type = .null then l else e) w) ∧
    (ok = false → st' = st)

section

variable {lib : Numerals} {st : Store} {type : Jstype} {n : Nat} {l e : Loc}

theorem varCast_value (value : (st.get l).isPtr = false) :
    varCast lib st type (n + 1) l =
      match castValue lib type (st.get l) with
      | .converted w => some (true, st.set l w)
      | .refused => some (false, st)
      | .freed => none := by
  rw [varCast]
  split
  case h_1 vp ptr =>
      rw [ptr] at value
      cases value
  case h_2 => rfl

theorem castRight_value (value : (st.get l).isPtr = false) :
    CastRight lib type st l l (varCast lib st type (n + 1) l) ↔
      (castValue lib type (st.get l)).Right lib type (st.get l) := by
  rw [varCast_value value]
  cases castValue lib type (st.get l) with
  | converted w =>
      constructor
      · rintro ⟨ok, st', result, right, _⟩
        cases result
        obtain ⟨w', converted, same⟩ := right rfl
        rw [ite_self] at same
        have written := congrArg (Store.get · l) same
        simp only [Store.get_set_self] at written
        rw [written]
        exact converted
      · intro converted
        refine ⟨true, _, rfl, fun _ => ⟨w, converted, ?_⟩, nofun⟩
        rw [ite_self]
  | refused => exact iff_of_true ⟨false, st, rfl, nofun, fun _ => rfl⟩ trivial
  | freed => exact iff_of_false (fun ⟨_, _, result, _⟩ => nomatch result) id

theorem castRight_null (points : Points st n l e) (m : Nat) :
    CastRight lib .null st l e (varCast lib st .null (n + 1 + m) l) := by
  have right : ∀ w, Converted lib .null w .null := fun _ => ⟨trivial, .inl rfl, rfl⟩
  cases points with
  | here value =>
      rw [Nat.add_right_comm, varCast_value value]
      exact ⟨true, _, rfl, fun _ => ⟨.null, right _, by rw [if_pos rfl]⟩, nofun⟩
  | behind ptr points =>
      refine ⟨true, st.set l .null, ?_, fun _ => ⟨.null, right _, by rw [if_pos rfl]⟩, nofun⟩
      rw [Nat.add_right_comm, varCast, ptr]
      rfl

/-- At any other type than `TYPE_NULL` the walk goes to the end of the pointers. -/
theorem castRight_points (other : type ≠ .null) (points : Points st n l e) (m : Nat) :
    CastRight lib type st l e (varCast lib st type (n + 1 + m) l) ↔
      (castValue lib type (st.get e)).Right lib type (st.get e) := by
  induction points with
  | here value =>
      rw [Nat.add_right_comm]
      exact castRight_value value
  | @behind n l vp e ptr points ih =>
      have walk : varCast lib st type (n + 1 + 1 + m) l = varCast lib st type (n + 1 + m) vp := by
        rw [Nat.add_right_comm (n + 1), varCast, ptr]
        exact if_neg other
      rw [walk, ← ih]
      unfold CastRight
      simp only [if_neg other]

end

/-- Decimal digits, as the string library reads them. -/
def plainNumerals : Numerals where
  isint s := !s.isEmpty && s.all Char.isDigit
  isfloat _ := false
  atoi s := wrap32 (s.foldl (fun n c => n * 10 + (c.toNat - 48)) 0 : Nat)
  atof _ := 0
  atoi_int _ := ⟨Int.le_bmod (by decide), Int.bmod_lt (by decide)⟩

end Jspp.Kernel
