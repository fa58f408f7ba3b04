/-
# Kernel.Compare -- the operators on two numbers

The comparisons and the arithmetic operators share one shape: with a float on
either side both operands are read as floats, whether they are numbers or not;
otherwise both have to be numbers.  So a float hides a second operand that is
no number, and an integer division is done with any divisor.

* `arith_cases`: the three ends of the shape.
* `Verdict`, `verdict_iff`: when an operator tells numbers from the rest.
* `CompareLaws`, `comparison_algebra`: the six comparisons on numbers that are no floats.
* `shift_iff`, `division_iff`: the shifts, and the divisions along runs.
-/
import Jspp.Kernel.Blocks
import Jspp.Kernel.Operators

namespace Jspp.Kernel

open Jspp.Compiler Jspp.Theory

set_option autoImplicit false

namespace Variant

/-! ## Numbers -/

section

variable {x y : Variant}

theorem getInt_of_numeric (numeric : x.varIsNumeric = true) : ∃ i, x.varGetInt = some i := by
  cases x with
  | void | null | int i | char i | bool i | float f => exact ⟨_, rfl⟩
  | inst ip | delegate | string sp | ptr vp => cases numeric

theorem getFloat_isSome : x.varGetFloat.isSome = x.varIsNumeric := by
  cases x <;> rfl

theorem getInt_isSome : x.varGetInt.isSome = x.varIsNumeric := by
  cases x <;> rfl

theorem arith_float (onFloat : Float32 → Float32 → Variant) (onInt : Int → Int → VarResult)
    (float : x.varIsFloat = true ∨ y.varIsFloat = true) (nx : x.varIsNumeric = true)
    (ny : y.varIsNumeric = true) : ∃ v, arith onFloat onInt x y = .value v := by
  obtain ⟨f, fx⟩ := Option.isSome_iff_exists.mp (getFloat_isSome.trans nx)
  obtain ⟨g, gy⟩ := Option.isSome_iff_exists.mp (getFloat_isSome.trans ny)
  unfold arith
  rw [if_pos (Bool.or_eq_true_iff.mpr float), fx, gy]
  exact ⟨_, rfl⟩

/-- A float beside something that is no number. -/
theorem arith_garbage (onFloat : Float32 → Float32 → Variant) (onInt : Int → Int → VarResult)
    (float : x.varIsFloat = true ∨ y.varIsFloat = true)
    (other : ¬(x.varIsNumeric = true ∧ y.varIsNumeric = true)) :
    arith onFloat onInt x y = .undefined := by
  unfold arith
  rw [if_pos (Bool.or_eq_true_iff.mpr float)]
  split
  · rename_i f g fx gy
    refine absurd ⟨?_, ?_⟩ other
    · rw [← getFloat_isSome, fx]
      rfl
    · rw [← getFloat_isSome, gy]
      rfl
  · rfl

theorem arith_int (onFloat : Float32 → Float32 → Variant) (onInt : Int → Int → VarResult)
    (plain : ¬(x.varIsFloat = true ∨ y.varIsFloat = true)) {i j : Int}
    (ix : x.varGetInt = some i) (jy : y.varGetInt = some j) :
    arith onFloat onInt x y = onInt i j := by
  have nx : x.varIsNumeric = true := by
    rw [← getInt_isSome, ix]
    rfl
  have ny : y.varIsNumeric = true := by
    rw [← getInt_isSome, jy]
    rfl
  unfold arith
  rw [if_neg (by rwa [Bool.or_eq_true_iff]), if_pos (by rw [nx, ny]; rfl), ix, jy]

theorem arith_mismatch (onFloat : Float32 → Float32 → Variant) (onInt : Int → Int → VarResult)
    (plain : ¬(x.varIsFloat = true ∨ y.varIsFloat = true))
    (other : ¬(x.varIsNumeric = true ∧ y.varIsNumeric = true)) :
    arith onFloat onInt x y = .mismatch := by
  unfold arith
  rw [if_neg (by rwa [Bool.or_eq_true_iff]), if_neg (by rwa [Bool.and_eq_true_iff])]

end

end Variant

/-! ## The verdict on two operands -/

/-- The operators whose operands have to be numbers. -/
inductive Numeric where
  | lt | le | gt | ge | sub | mul | div | plus
  deriving DecidableEq

namespace Numeric

def op : Numeric → OpCode
  | .lt => .lt
  | .le => .lteq
  | .gt => .gt
  | .ge => .gteq
  | .sub => .sub
  | .mul => .mult
  | .div => .div
  | .plus => .add

/-- The function of `variant.c` behind the operator. -/
def code : Numeric → Variant → Variant → VarResult
  | .lt => Variant.varAssignOpLT
  | .le => Variant.varAssignOpLE
  | .gt => Variant.varAssignOpGT
  | .ge => Variant.varAssignOpGE
  | .sub => Variant.varAssignOpSub
  | .mul => Variant.varAssignOpMul
  | .div => Variant.varAssignOpDiv
  | .plus => Variant.varAssignOpPlus

end Numeric

/-- The quotient of two `int32` that C does not define. -/
def Faults (i j : Int) : Prop := j = 0 ∨ i = Variant.intMin ∧ j = -1

instance (i j : Int) : Decidable (Faults i j) := inferInstanceAs (Decidable (_ ∨ _))

/-- A float beside something that is no number, or an integer division that faults. -/
def Numeric.Garbage (n : Numeric) (x y : Variant) : Prop :=
  (x.varIsFloat = true ∨ y.varIsFloat = true) ∧
      ¬(x.varIsNumeric = true ∧ y.varIsNumeric = true) ∨
    n = .div ∧ ¬(x.varIsFloat = true ∨ y.varIsFloat = true) ∧
      ∃ i j, x.varGetInt = some i ∧ y.varGetInt = some j ∧ Faults i j

/-- Two numbers give a result that is a function of their values; anything else is
reported, and the stack is left. -/
def Verdict (n : Numeric) (a : Act) (x y : Variant) (rest : List Variant) : Prop :=
  (x.varIsNumeric = true ∧ y.varIsNumeric = true →
      ∃ r, n.code x y = .value r ∧ a.exec0 n.op = some { a with stack := r :: rest }) ∧
    (¬(x.varIsNumeric = true ∧ y.varIsNumeric = true) →
      a.exec0 n.op = some (a.raise .typeMismatch))

section

variable {a : Act} {v w : Variant} {rest : List Variant}

theorem binop_top {f : Variant → Variant → VarResult} (top : a.stack = w :: v :: rest) :
    a.binop f =
      match f (a.store.operand a.depth v) (a.store.operand a.depth w) with
      | .value r => some { a with stack := r :: rest }
      | .mismatch => some (a.raise .typeMismatch)
      | .undefined => none := by
  cases a
  cases top
  rfl

/-- The texts that `OP_ADD` joins. -/
def Numeric.Joins (n : Numeric) (x y : Variant) : Prop :=
  n = .plus ∧ (x.isString = true ∨ y.isString = true)

theorem exec0_numeric (n : Numeric) (top : a.stack = w :: v :: rest)
    (plain : ¬ n.Joins (a.store.operand a.depth v) (a.store.operand a.depth w)) :
    a.exec0 n.op =
      match n.code (a.store.operand a.depth v) (a.store.operand a.depth w) with
      | .value r => some { a with stack := r :: rest }
      | .mismatch => some (a.raise .typeMismatch)
      | .undefined => none := by
  cases n with
  | plus =>
      have adds : a.plus (a.store.operand a.depth v) (a.store.operand a.depth w) =
          Variant.varAssignOpPlus (a.store.operand a.depth v) (a.store.operand a.depth w) := by
        rw [Act.plus, if_neg]
        rw [Bool.or_eq_true_iff]
        exact fun texts => plain ⟨rfl, texts⟩
      refine (binop_top top).trans ?_
      rw [adds]
      rfl
  | lt | le | gt | ge | sub | mul | div => exact binop_top top

/-- What the operator does with two floats. -/
def Numeric.onFloat : Numeric → Float32 → Float32 → Variant
  | .lt, a, b => Variant.ofBool (a < b)
  | .le, a, b => Variant.ofBool (a ≤ b)
  | .gt, a, b => Variant.ofBool (a > b)
  | .ge, a, b => Variant.ofBool (a ≥ b)
  | .sub, a, b => .float (a - b).toBits
  | .mul, a, b => .float (a * b).toBits
  | .div, a, b => .float (a / b).toBits
  | .plus, a, b => .float (a + b).toBits

/-- What the operator does with two integers. -/
def Numeric.onInt : Numeric → Int → Int → VarResult
  | .lt, a, b => .value (Variant.ofBool (a < b))
  | .le, a, b => .value (Variant.ofBool (a ≤ b))
  | .gt, a, b => .value (Variant.ofBool (a > b))
  | .ge, a, b => .value (Variant.ofBool (a ≥ b))
  | .sub, a, b => .value (.int (wrap32 (a - b)))
  | .mul, a, b => .value (.int (wrap32 (a * b)))
  | .div, a, b => if Faults a b then .undefined else .value (.int (a.tdiv b))
  | .plus, a, b => .value (.int (wrap32 (a + b)))

theorem Numeric.code_arith (n : Numeric) {x y : Variant} (plain : ¬ n.Joins x y) :
    n.code x y = Variant.arith n.onFloat n.onInt x y := by
  cases n with
  | plus =>
      refine if_neg ?_
      rw [Bool.or_eq_true_iff]
      exact fun texts => plain ⟨rfl, texts⟩
  | lt | le | gt | ge | sub | mul | div => rfl

/-- Only a division can fault. -/
theorem Numeric.onInt_cases (n : Numeric) (i j : Int) :
    n = .div ∧ Faults i j ∧ n.onInt i j = .undefined ∨
      ¬(n = .div ∧ Faults i j) ∧ ∃ r, n.onInt i j = .value r := by
  cases n with
  | div =>
      by_cases faults : Faults i j
      · exact .inl ⟨rfl, faults, if_pos faults⟩
      · exact .inr ⟨fun both => faults both.2, _, if_neg faults⟩
  | lt | le | gt | ge | sub | mul | plus => exact .inr ⟨nofun, _, rfl⟩

/-- With a float beside something that is no number the operator reads an unset float. -/
theorem exec0_garbage (n : Numeric) (top : a.stack = w :: v :: rest)
    (plain : ¬ n.Joins (a.store.operand a.depth v) (a.store.operand a.depth w))
    (float : (a.store.operand a.depth v).varIsFloat = true ∨
      (a.store.operand a.depth w).varIsFloat = true)
    (other : ¬((a.store.operand a.depth v).varIsNumeric = true ∧
      (a.store.operand a.depth w).varIsNumeric = true)) : a.exec0 n.op = none := by
  rw [exec0_numeric n top plain, n.code_arith plain,
    Variant.arith_garbage n.onFloat n.onInt float other]

/-- An operator tells two numbers from anything else exactly when there is no float beside
something that is no number, and no integer division that faults. -/
theorem verdict_iff (n : Numeric) (top : a.stack = w :: v :: rest)
    (plain : ¬ n.Joins (a.store.operand a.depth v) (a.store.operand a.depth w)) :
    Verdict n a (a.store.operand a.depth v) (a.store.operand a.depth w) rest ↔
      ¬ n.Garbage (a.store.operand a.depth v) (a.store.operand a.depth w) := by
  have executed := exec0_numeric n top plain
  have code := n.code_arith plain
  generalize a.store.operand a.depth v = x at *
  generalize a.store.operand a.depth w = y at *
  by_cases numbers : x.varIsNumeric = true ∧ y.varIsNumeric = true
  · by_cases float : x.varIsFloat = true ∨ y.varIsFloat = true
    · -- two numbers, read as floats
      obtain ⟨r, value⟩ := Variant.arith_float n.onFloat n.onInt float
        numbers.1 numbers.2
      rw [← code] at value
      rw [value] at executed
      refine iff_of_true ⟨fun _ => ⟨r, value, executed⟩, fun no => absurd numbers no⟩ ?_
      rintro (⟨_, no⟩ | ⟨_, no, _⟩)
      · exact no numbers
      · exact no float
    · -- two integers
      obtain ⟨i, ix⟩ := Variant.getInt_of_numeric numbers.1
      obtain ⟨j, jy⟩ := Variant.getInt_of_numeric numbers.2
      have value := Variant.arith_int n.onFloat n.onInt float ix jy
      rw [← code] at value
      rcases n.onInt_cases i j with ⟨div, faults, undefined⟩ | ⟨fine, r, result⟩
      · rw [value, undefined] at executed
        refine iff_of_false ?_ (fun no => no (.inr ⟨div, float, i, j, ix, jy, faults⟩))
        rintro ⟨numeric, _⟩
        obtain ⟨r, _, done⟩ := numeric numbers
        rw [executed] at done
        cases done
      · rw [value, result] at executed
        rw [result] at value
        refine iff_of_true ⟨fun _ => ⟨r, value, executed⟩, fun no => absurd numbers no⟩ ?_
        rintro (⟨float', _⟩ | ⟨div, _, i', j', ix', jy', faults⟩)
        · exact float float'
        · rw [ix] at ix'
          rw [jy] at jy'
          cases ix'
          cases jy'
          exact fine ⟨div, faults⟩
  · by_cases float : x.varIsFloat = true ∨ y.varIsFloat = true
    · -- a float beside something that is no number
      have value := Variant.arith_garbage n.onFloat n.onInt float numbers
      rw [code, value] at executed
      refine iff_of_false ?_ (fun no => no (.inl ⟨float, numbers⟩))
      rintro ⟨_, other⟩
      rw [other numbers] at executed
      cases executed
    · have value := Variant.arith_mismatch n.onFloat n.onInt float numbers
      rw [code, value] at executed
      refine iff_of_true ⟨fun both => absurd both numbers, fun _ => executed⟩ ?_
      rintro (⟨float', _⟩ | ⟨_, _, i, j, ix, jy, _⟩)
      · exact float float'
      · refine numbers ⟨?_, ?_⟩
        · rw [← Variant.getInt_isSome, ix]
          rfl
        · rw [← Variant.getInt_isSome, jy]
          rfl

end

/-- An operator that is executed tells two numbers from anything else. -/
def Event.VerdictRight (e : Event) : Prop :=
  ∀ (n : Numeric) a v w rest, e.reads = some (.emit0 n.op, a) → a.stack = w :: v :: rest →
    ¬ n.Joins (a.store.operand a.depth v) (a.store.operand a.depth w) →
      Verdict n a (a.store.operand a.depth v) (a.store.operand a.depth w) rest

/-- A float is compared with a text. -/
def Event.floatBesideText (e : Event) : Bool :=
  match e.reads with
  | some (.emit0 .lt, a) =>
      match a.stack with
      | w :: v :: _ =>
          (a.store.operand a.depth v).varIsFloat && (a.store.operand a.depth w).isString
      | _ => false
  | _ => false

theorem Event.not_verdictRight {e : Event} (h : e.floatBesideText = true) : ¬ e.VerdictRight := by
  unfold floatBesideText at h
  split at h
  case h_2 => cases h
  case h_1 a reads =>
      split at h
      case h_2 => cases h
      case h_1 w v rest top =>
          obtain ⟨float, text⟩ := Bool.and_eq_true_iff.mp h
          intro right
          have plain : ¬ Numeric.Joins .lt (a.store.operand a.depth v)
              (a.store.operand a.depth w) := by
            rintro ⟨no, _⟩
            cases no
          have verdict := right .lt a v w rest reads top plain
          have other : ¬((a.store.operand a.depth v).varIsNumeric = true ∧
              (a.store.operand a.depth w).varIsNumeric = true) := by
            rintro ⟨_, number⟩
            cases value : a.store.operand a.depth w with
            | string sp =>
                rw [value] at number
                cases number
            | _ =>
                rw [value] at text
                cases text
          have reported := verdict.2 other
          rw [exec0_garbage .lt top plain (.inl float) other] at reported
          cases reported

/-- A program that compares a float with a text. -/
def floatText : List Char :=
  "class A \x7b public static main() \x7b return 1.5 < \"x\"; \x7d \x7d".toList

/-- The comparison reads a float that was never set. -/
theorem verdict_broken : ∃ e ∈ mainLog floatText, ¬ e.VerdictRight := by
  have found : (mainLog floatText).any Event.floatBesideText = true := by
    rw [show floatText = _ from String.toList_ofList]
    decide +kernel
  obtain ⟨e, mem, mixed⟩ := List.any_eq_true.mp found
  exact ⟨e, mem, Event.not_verdictRight mixed⟩

theorem verdict_iff_null :
    Verdict .le ⟨⟨0, none, 0, [], .none, .void, 0, 3⟩, 1, [.null, .int 5], objectSession.q.store, 0⟩
      (.int 5) .null [] :=
  (verdict_iff .le (a := ⟨⟨0, none, 0, [], .none, .void, 0, 3⟩, 1, [.null, .int 5],
    objectSession.q.store, 0⟩) rfl (fun joins => nomatch joins.1)).mpr (by
      rintro (⟨float, _⟩ | ⟨div, _⟩)
      · exact absurd float (by decide)
      · cases div)

/-! ## The comparisons -/

namespace Variant

section

variable {x y : Variant}

theorem equality_numbers (negated : Bool) (plain : ¬(x.varIsFloat = true ∨ y.varIsFloat = true))
    {i j : Int} (ix : x.varGetInt = some i) (jy : y.varGetInt = some j) :
    equality negated x y = .value (ofBool ((i == j) != negated)) := by
  have number : x.varIsNumeric = true := by
    rw [← getInt_isSome, ix]
    rfl
  unfold equality
  rw [if_pos (by rw [number]; rfl), if_neg (by rwa [Bool.or_eq_true_iff]), ix, jy]

/-- A number beside something that is none. -/
theorem equality_half (negated : Bool) (plain : ¬(x.varIsFloat = true ∨ y.varIsFloat = true))
    (one : x.varIsNumeric = true ∨ y.varIsNumeric = true)
    (other : ¬(x.varIsNumeric = true ∧ y.varIsNumeric = true)) :
    equality negated x y = .mismatch := by
  unfold equality
  rw [if_pos (Bool.or_eq_true_iff.mpr one), if_neg (by rwa [Bool.or_eq_true_iff])]
  split
  · rename_i i j ix jy
    refine absurd ⟨?_, ?_⟩ other
    · rw [← getInt_isSome, ix]
      rfl
    · rw [← getInt_isSome, jy]
      rfl
  · rfl

/-- Two operands that are no numbers: only texts are compared. -/
theorem equality_texts (negated : Bool) (none : ¬(x.varIsNumeric = true ∨ y.varIsNumeric = true)) :
    (∃ s t, x = .string s ∧ y = .string t ∧
        equality negated x y = .value (ofBool ((s == t) != negated))) ∨
      (∀ s t, ¬(x = .string s ∧ y = .string t)) ∧ equality negated x y = .mismatch := by
  unfold equality
  rw [if_neg (by rwa [Bool.or_eq_true_iff])]
  split
  · exact .inl ⟨_, _, rfl, rfl, rfl⟩
  · rename_i apart
    exact .inr ⟨fun s t both => apart s t both.1 both.2, rfl⟩

end

end Variant

/-- What the six comparisons say about two operands. -/
structure CompareLaws (x y : Variant) : Prop where
  decided : (∃ b, Variant.varAssignOpEQ x y = .value (.ofBool b) ∧
      Variant.varAssignOpNEQ x y = .value (.ofBool !b)) ∨
    (Variant.varAssignOpEQ x y = .mismatch ∧ Variant.varAssignOpNEQ x y = .mismatch)
  symmetric : Variant.varAssignOpEQ x y = Variant.varAssignOpEQ y x
  ordered : x.varIsNumeric = true → y.varIsNumeric = true → ∃ lt eq gt : Bool,
    Variant.varAssignOpLT x y = .value (.ofBool lt) ∧
      Variant.varAssignOpEQ x y = .value (.ofBool eq) ∧
        Variant.varAssignOpGT x y = .value (.ofBool gt) ∧
          Variant.varAssignOpLE x y = .value (.ofBool (lt || eq)) ∧
            Variant.varAssignOpGE x y = .value (.ofBool (gt || eq)) ∧
              Variant.varAssignOpGT y x = .value (.ofBool lt) ∧
                [lt, eq, gt].count true = 1

/-- On two operands that are no floats the comparisons agree. -/
theorem compareLaws {x y : Variant} (plain : ¬(x.varIsFloat = true ∨ y.varIsFloat = true)) :
    CompareLaws x y := by
  have plain' : ¬(y.varIsFloat = true ∨ x.varIsFloat = true) := fun float => plain float.symm
  by_cases numbers : x.varIsNumeric = true ∧ y.varIsNumeric = true
  · obtain ⟨i, ix⟩ := Variant.getInt_of_numeric numbers.1
    obtain ⟨j, jy⟩ := Variant.getInt_of_numeric numbers.2
    have eq := Variant.equality_numbers false plain ix jy
    have ne := Variant.equality_numbers true plain ix jy
    have swap := Variant.equality_numbers false plain' jy ix
    rw [Bool.bne_false] at eq swap
    refine ⟨.inl ⟨i == j, eq, by rw [← Bool.bne_true]; exact ne⟩, ?_, fun _ _ => ?_⟩
    · refine eq.trans ?_
      rw [Variant.varAssignOpEQ, swap, Bool.beq_comm]
    · have lt := Variant.arith_int Numeric.lt.onFloat Numeric.lt.onInt plain ix jy
      have gt := Variant.arith_int Numeric.gt.onFloat Numeric.gt.onInt plain ix jy
      have le := Variant.arith_int Numeric.le.onFloat Numeric.le.onInt plain ix jy
      have ge := Variant.arith_int Numeric.ge.onFloat Numeric.ge.onInt plain ix jy
      have turned := Variant.arith_int Numeric.gt.onFloat Numeric.gt.onInt plain' jy ix
      have less : decide (i ≤ j) = (decide (i < j) || i == j) := by
        rw [Bool.eq_iff_iff]
        simp
        omega
      have more : decide (i ≥ j) = (decide (i > j) || i == j) := by
        rw [Bool.eq_iff_iff]
        simp
        omega
      refine ⟨decide (i < j), i == j, decide (i > j), lt, eq, gt, ?_, ?_, turned, ?_⟩
      · rw [← less]
        exact le
      · rw [← more]
        exact ge
      · rcases Int.lt_trichotomy i j with low | same | high
        · rw [decide_eq_true low, beq_false_of_ne (by omega), decide_eq_false (by omega)]
          rfl
        · rw [decide_eq_false (by omega), beq_iff_eq.mpr same, decide_eq_false (by omega)]
          rfl
        · rw [decide_eq_false (by omega), beq_false_of_ne (by omega), decide_eq_true high]
          rfl
  · by_cases one : x.varIsNumeric = true ∨ y.varIsNumeric = true
    · have eq := Variant.equality_half false plain one numbers
      have ne := Variant.equality_half true plain one numbers
      have swap := Variant.equality_half false plain' one.symm (fun both => numbers both.symm)
      exact ⟨.inr ⟨eq, ne⟩, eq.trans swap.symm, fun nx ny => absurd ⟨nx, ny⟩ numbers⟩
    · have none' : ¬(y.varIsNumeric = true ∨ x.varIsNumeric = true) := fun h => one h.symm
      refine ⟨?_, ?_, fun nx _ => absurd (.inl nx) one⟩
      · rcases Variant.equality_texts false one with ⟨s, t, xs, yt, eq⟩ | ⟨apart, eq⟩
        · rcases Variant.equality_texts true one with ⟨s', t', xs', yt', ne⟩ | ⟨apart, _⟩
          · rw [xs] at xs'
            rw [yt] at yt'
            cases xs'
            cases yt'
            rw [Bool.bne_false] at eq
            rw [Bool.bne_true] at ne
            exact .inl ⟨_, eq, ne⟩
          · exact absurd ⟨xs, yt⟩ (apart s t)
        · rcases Variant.equality_texts true one with ⟨s', t', xs', yt', _⟩ | ⟨_, ne⟩
          · exact absurd ⟨xs', yt'⟩ (apart s' t')
          · exact .inr ⟨eq, ne⟩
      · rcases Variant.equality_texts false one with ⟨s, t, xs, yt, eq⟩ | ⟨apart, eq⟩
        · rcases Variant.equality_texts false none' with ⟨t', s', yt', xs', swap⟩ | ⟨apart, _⟩
          · rw [xs] at xs'
            rw [yt] at yt'
            cases xs'
            cases yt'
            refine eq.trans ?_
            rw [Variant.varAssignOpEQ, swap, Bool.beq_comm]
          · exact absurd ⟨yt, xs⟩ (apart t s)
        · rcases Variant.equality_texts false none' with ⟨t', s', yt', xs', _⟩ | ⟨_, swap⟩
          · exact absurd ⟨xs', yt'⟩ (apart s' t')
          · exact eq.trans swap.symm

/-- The opcodes of the comparisons. -/
def OpCode.compares : OpCode → Bool
  | .lt | .lteq | .gt | .gteq | .eq | .neq => true
  | _ => false

theorem binop_frame {f : Variant → Variant → VarResult} {a a' : Act} (h : a.binop f = some a') :
    a'.store = a.store ∧ (a'.stack = a.stack ∨ a'.stack.tail = a.stack.tail.tail) := by
  unfold Act.binop at h
  split at h
  case h_2 => cases h
  case h_1 top =>
      split at h
      case h_1 =>
          cases h
          exact ⟨rfl, .inr (by rw [top]; rfl)⟩
      case h_2 =>
          cases h
          exact ⟨rfl, .inl rfl⟩
      case h_3 => cases h

/-- The comparisons of two operands that are no floats agree, and executing one changes
no variable and nothing below the operands. -/
theorem comparison_algebra (a : Act) (v w : Variant)
    (plain : ¬((a.store.operand a.depth v).varIsFloat = true ∨
      (a.store.operand a.depth w).varIsFloat = true)) :
    CompareLaws (a.store.operand a.depth v) (a.store.operand a.depth w) ∧
      ∀ op, OpCode.compares op = true → ∀ a', a.exec0 op = some a' →
        a'.store = a.store ∧ (a'.stack = a.stack ∨ a'.stack.tail = a.stack.tail.tail) := by
  refine ⟨compareLaws plain, ?_⟩
  intro op compares a' executed
  cases op with
  | lt | lteq | gt | gteq | eq | neq => exact binop_frame executed
  | _ => cases compares

theorem comparison_algebra_null :
    CompareLaws (objectSession.q.store.operand 1 .null)
      (objectSession.q.store.operand 1 (.int 0)) :=
  (comparison_algebra ⟨⟨0, none, 0, [], .none, .void, 0, 3⟩, 1, [], objectSession.q.store, 0⟩ .null
    (.int 0) (by decide)).1

/-! ## The shifts -/

/-- A value shifted right by itself. -/
theorem shift_self {i : Int} (low : 0 ≤ i) : i >>> i.toNat = 0 := by
  obtain ⟨n, rfl⟩ := Int.eq_ofNat_of_zero_le low
  rw [Int.toNat_natCast, Int.shiftRight_eq_div_pow]
  have less : n < 2 ^ n := Nat.lt_two_pow_self
  exact_mod_cast Nat.div_eq_of_lt less

/-- What both shifts do: the second operand is not looked at. -/
theorem exec0_shift {a : Act} {v w : Variant} {rest : List Variant}
    (top : a.stack = w :: v :: rest) {i : Int} (left : a.store.operand a.depth v = .int i)
    {op : OpCode} (shifts : op = .lshift ∨ op = .rshift) :
    a.exec0 op = if 0 ≤ i ∧ i < 32 then some { a with stack := .int 0 :: rest } else none := by
  have right : a.exec0 op = a.binop Variant.varAssignOpRightShift := by
    rcases shifts with rfl | rfl <;> rfl
  rw [right, binop_top top, left]
  by_cases small : 0 ≤ i ∧ i < 32
  · have zero : Variant.varAssignOpRightShift (.int i) (a.store.operand a.depth w) =
        .value (.int 0) := by
      refine (if_pos small).trans ?_
      rw [shift_self small.1]
    rw [zero, if_pos small]
  · have undefined : Variant.varAssignOpRightShift (.int i) (a.store.operand a.depth w) =
        .undefined := if_neg small
    rw [undefined, if_neg small]

/-- On two `int32`, with a count below the width, the instruction leaves that result. -/
def ShiftSpec (op : OpCode) (result : Int → Nat → Int) (a : Act) (v w : Variant)
    (rest : List Variant) : Prop :=
  ∀ i j, a.store.operand a.depth v = .int i → a.store.operand a.depth w = .int j → 0 ≤ j → j < 32 →
    a.exec0 op = some { a with stack := .int (result i j.toNat) :: rest }

/-- The left operand is itself a count, and the right result is 0. -/
def ShiftGood (zero : Int → Nat → Prop) (a : Act) (v w : Variant) : Prop :=
  ∀ i j, a.store.operand a.depth v = .int i → a.store.operand a.depth w = .int j → 0 ≤ j → j < 32 →
    (0 ≤ i ∧ i < 32) ∧ zero i j.toNat

theorem wrap32_eq_zero (x : Int) : wrap32 x = 0 ↔ 2 ^ 32 ∣ x := by
  have range := Int.bmod_emod (x := x) (m := 2 ^ 32)
  constructor
  · intro zero
    rw [wrap32] at zero
    rw [zero] at range
    exact Int.dvd_of_emod_eq_zero range.symm
  · rintro ⟨k, rfl⟩
    exact Int.bmod_eq_zero_of_dvd ⟨k, rfl⟩

theorem shiftSpec_iff {a : Act} {v w : Variant} {rest : List Variant} {op : OpCode}
    {result : Int → Nat → Int} {zero : Int → Nat → Prop} (top : a.stack = w :: v :: rest)
    (shifts : op = .lshift ∨ op = .rshift)
    (when : ∀ i n, 0 ≤ i ∧ i < 32 → (result i n = 0 ↔ zero i n)) :
    ShiftSpec op result a v w rest ↔ ShiftGood zero a v w := by
  refine forall₂_congr fun i j => forall₄_congr fun left _ _ _ => ?_
  rw [exec0_shift top left shifts]
  by_cases small : 0 ≤ i ∧ i < 32
  · rw [if_pos small, ← when i j.toNat small]
    constructor
    · intro done
      have tops := congrArg (fun x : Option Act => x.map Act.stack) done
      simp only [Option.map_some, Option.some_inj, List.cons.injEq, and_true,
        Variant.int.injEq] at tops
      exact ⟨small, tops.symm⟩
    · rintro ⟨_, none⟩
      rw [none]
  · rw [if_neg small]
    exact iff_of_false nofun (fun good => small good.1)

/-- The two tokens give their opcodes.  On two `int32` with a count below the width the
instructions shift as they should exactly when the left operand is itself a count and the
result is 0: both shift it right by itself. -/
theorem shift_iff (a : Act) {v w : Variant} {rest : List Variant}
    (top : a.stack = w :: v :: rest) :
    ((factorOp .lshift).map BinOp.op = some .lshift ∧
        (factorOp .rshift).map BinOp.op = some .rshift) ∧
      (ShiftSpec .lshift (fun i n => wrap32 (i * 2 ^ n)) a v w rest ↔
        ShiftGood (fun i n => 2 ^ 32 ∣ i * 2 ^ n) a v w) ∧
      (ShiftSpec .rshift (fun i n => i / 2 ^ n) a v w rest ↔
        ShiftGood (fun i n => i < 2 ^ n) a v w) := by
  refine ⟨⟨rfl, rfl⟩, shiftSpec_iff top (.inl rfl) fun i n _ => wrap32_eq_zero _,
    shiftSpec_iff top (.inr rfl) fun i n small => ?_⟩
  have pos : (0 : Int) < 2 ^ n := Int.pow_pos (by decide)
  constructor
  · intro zero
    by_contra far
    have one : 1 ≤ i / 2 ^ n := Int.le_ediv_of_mul_le pos (by omega)
    omega
  · exact Int.ediv_eq_zero_of_lt small.1

/-- The shift of 1 by 1 returns 0. -/
theorem shift_broken :
    ((mainRun "class A { public static main() { return 1 << 1; } }".toList 0 []).bind
      fun t => t.result?.bind fun r => r.2.2) = some (.int 0) ∧ wrap32 (1 * 2 ^ 1) ≠ 0 := by
  constructor
  · decide +kernel
  · decide

theorem shift_iff_zero :
    ShiftSpec .lshift (fun i n => wrap32 (i * 2 ^ n))
      ⟨⟨0, none, 0, [], .none, .void, 0, 3⟩, 1, [.int 28, .int 16], objectSession.q.store, 0⟩
      (.int 16) (.int 28) [] :=
  (shift_iff ⟨⟨0, none, 0, [], .none, .void, 0, 3⟩, 1, [.int 28, .int 16], objectSession.q.store, 0⟩
    rfl).2.1.mpr (by
      rintro i j left right _ _
      cases left
      cases right
      decide)

/-! ## The divisions -/

/-- The opcodes that divide, also behind `/=` and `%=`. -/
def Divides (op : OpCode) : Prop := op = .div ∨ op = .mod

/-- A division that is executed on operands that are no floats sets an error code, or it
divides by a number other than zero and without an overflow. -/
def Event.DivisionSafe (e : Event) : Prop :=
  ∀ op a v w rest, Divides op → e.reads = some (.emit0 op, a) → a.stack = w :: v :: rest →
    ¬((a.store.operand a.depth v).varIsFloat = true ∨
      (a.store.operand a.depth w).varIsFloat = true) →
      (∃ a', a.exec0 op = some a' ∧ a'.frame.err ≠ .none) ∨
        ∃ i j r, (a.store.operand a.depth v).varGetInt = some i ∧
          (a.store.operand a.depth w).varGetInt = some j ∧ ¬ Faults i j ∧
            a.exec0 op = some { a with stack := .int r :: rest }

/-- No division is executed on operands that are no floats, that convert to integers, and
whose quotient C does not define. -/
def Event.NoFault (e : Event) : Prop :=
  ∀ op a v w rest, Divides op → e.reads = some (.emit0 op, a) → a.stack = w :: v :: rest →
    ¬((a.store.operand a.depth v).varIsFloat = true ∨
      (a.store.operand a.depth w).varIsFloat = true) →
      ∀ i j, (a.store.operand a.depth v).varGetInt = some i →
        (a.store.operand a.depth w).varGetInt = some j → ¬ Faults i j

/-- The two division functions on operands that are no floats. -/
theorem division_code {code : Variant → Variant → VarResult}
    (divides : code = Variant.varAssignOpDiv ∨ code = Variant.varAssignOpMod) {x y : Variant}
    (plain : ¬(x.varIsFloat = true ∨ y.varIsFloat = true)) :
    (∃ i j, x.varGetInt = some i ∧ y.varGetInt = some j ∧
        ∃ r, code x y = if Faults i j then .undefined else .value (.int r)) ∨
      (∀ i j, ¬(x.varGetInt = some i ∧ y.varGetInt = some j)) ∧ code x y = .mismatch := by
  by_cases numbers : x.varIsNumeric = true ∧ y.varIsNumeric = true
  · obtain ⟨i, ix⟩ := Variant.getInt_of_numeric numbers.1
    obtain ⟨j, jy⟩ := Variant.getInt_of_numeric numbers.2
    refine .inl ⟨i, j, ix, jy, ?_⟩
    rcases divides with rfl | rfl
    · exact ⟨i.tdiv j, Variant.arith_int Numeric.div.onFloat Numeric.div.onInt plain ix jy⟩
    · refine ⟨i.tmod j, ?_⟩
      rw [Variant.varAssignOpMod, Variant.integral, ix, jy]
      rfl
  · have apart : ∀ i j, ¬(x.varGetInt = some i ∧ y.varGetInt = some j) := by
      rintro i j ⟨ix, jy⟩
      refine numbers ⟨?_, ?_⟩
      · rw [← Variant.getInt_isSome, ix]
        rfl
      · rw [← Variant.getInt_isSome, jy]
        rfl
    refine .inr ⟨apart, ?_⟩
    rcases divides with rfl | rfl
    · exact Variant.arith_mismatch Numeric.div.onFloat Numeric.div.onInt plain numbers
    · unfold Variant.varAssignOpMod Variant.integral
      split
      · rename_i i j ix jy
        exact absurd ⟨ix, jy⟩ (apart i j)
      · rfl

/-- A division that is executed is safe exactly when its integer operands do not fault. -/
theorem Event.divisionSafe_iff (e : Event) : e.DivisionSafe ↔ e.NoFault := by
  refine forall_congr' fun op => forall₄_congr fun a v w rest =>
    forall₄_congr fun divides _ top plain => ?_
  obtain ⟨code, runs, kind⟩ : ∃ code, a.exec0 op = a.binop code ∧
      (code = Variant.varAssignOpDiv ∨ code = Variant.varAssignOpMod) := by
    rcases divides with rfl | rfl
    · exact ⟨_, rfl, .inl rfl⟩
    · exact ⟨_, rfl, .inr rfl⟩
  have executed := runs.trans (binop_top top)
  rcases division_code kind plain with ⟨i, j, ix, jy, r, value⟩ | ⟨apart, value⟩
  · by_cases faults : Faults i j
    · rw [value, if_pos faults] at executed
      refine iff_of_false ?_ (fun fine => fine i j ix jy faults)
      rintro (⟨a', done, _⟩ | ⟨_, _, _, _, _, _, done⟩)
      · rw [executed] at done
        cases done
      · rw [executed] at done
        cases done
    · rw [value, if_neg faults] at executed
      refine iff_of_true (.inr ⟨i, j, r, ix, jy, faults, executed⟩) ?_
      intro i' j' ix' jy'
      rw [ix] at ix'
      rw [jy] at jy'
      cases ix'
      cases jy'
      exact faults
  · rw [value] at executed
    exact iff_of_true (.inl ⟨_, executed, nofun⟩) (fun i j ix jy => absurd ⟨ix, jy⟩ (apart i j))

/-- An integer is divided by 0. -/
def Event.dividesByZero (e : Event) : Bool :=
  match e.reads with
  | some (.emit0 .div, a) =>
      match a.stack with
      | w :: v :: _ => a.store.operand a.depth v == .int 1 && a.store.operand a.depth w == .int 0
      | _ => false
  | _ => false

theorem Event.not_divisionSafe {e : Event} (h : e.dividesByZero = true) : ¬ e.DivisionSafe := by
  unfold dividesByZero at h
  split at h
  case h_2 => cases h
  case h_1 a reads =>
      split at h
      case h_2 => cases h
      case h_1 w v rest top =>
          obtain ⟨one, zero⟩ := Bool.and_eq_true_iff.mp h
          have left := beq_iff_eq.mp one
          have right := beq_iff_eq.mp zero
          rw [Event.divisionSafe_iff]
          intro fine
          refine fine .div a v w rest (.inl rfl) reads top ?_ 1 0 ?_ ?_ (.inl rfl)
          · rw [left, right]
            decide
          · rw [left]
            rfl
          · rw [right]
            rfl

/-- In every run, the divisions are safe exactly when no integer operands fault; and in a run
so far as none fault, all are. -/
theorem division_iff {host : Host} {log : List Event} (_ : Ran host log) :
    ((∀ e ∈ log, e.DivisionSafe) ↔ ∀ e ∈ log, e.NoFault) ∧
      ∀ e ∈ log, e.NoFault → e.DivisionSafe :=
  ⟨forall₂_congr fun e _ => e.divisionSafe_iff, fun e _ => e.divisionSafe_iff.mpr⟩

/-- A run that divides by 0. -/
theorem division_broken :
    ∃ e ∈ mainLog "class A { public static main() { return 1 / 0; } }".toList,
      ¬ e.DivisionSafe := by
  have found : (mainLog "class A { public static main() { return 1 / 0; } }".toList).any
      Event.dividesByZero = true :=
    of_text (P := fun t => (mainLog t).any Event.dividesByZero = true) (by decide +kernel)
  obtain ⟨e, mem, divides⟩ := List.any_eq_true.mp found
  exact ⟨e, mem, Event.not_divisionSafe divides⟩

/-- A division is executed. -/
def Event.divides (e : Event) : Bool := e.reads.any fun (i, _) => i matches .emit0 .div

theorem division_iff_quotient :
    ∃ log, Ran plainHost log ∧ (∃ e ∈ log, e.divides = true) ∧
      ((∀ e ∈ log, e.DivisionSafe) ↔ ∀ e ∈ log, e.NoFault) := by
  have found : (mainLog "class A { public static main() { return 6 / 3; } }".toList).any
      Event.divides = true :=
    of_text (P := fun t => (mainLog t).any Event.divides = true) (by decide +kernel)
  obtain ⟨e, mem, divides⟩ := List.any_eq_true.mp found
  exact ⟨_, mainLog_ran mem, ⟨e, mem, divides⟩, (division_iff (mainLog_ran mem)).1⟩

end Jspp.Kernel
