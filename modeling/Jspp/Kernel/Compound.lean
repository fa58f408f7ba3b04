/-
# Kernel.Compound -- `a op= e` beside `a = a op (e)`

`moreterms` copies the place that `a` leaves with an `OP_DUP` and puts the
`OP_RVALUE` in front of the operator; the assignment evaluates `a` twice and has
it behind.  The operator looks through one pointer by itself, so `a op= e` looks
through two.

* `Assignable`: what a target without side effects does; the paths of variables
  and fields are such targets (`Path.assignable`).
* `tails_iff`: when the two orders of `OP_RVALUE` and the operator agree.
* `assignOp_iff`: when the two statements do.
-/
import Jspp.Kernel.Straight
import Jspp.Kernel.Operators

namespace Jspp.Kernel

open Jspp.Compiler Jspp.Theory Qinterp

set_option autoImplicit false

/-! ## The operators -/

/-- The operators of `moreterms` that assign. -/
def Compound (op : BinOp) : Prop := ∃ t, assignOp t = some op

/-- What such an operator makes of its operands, once it looked through them. -/
def Compound.apply (op : BinOp) (a : Act) : Variant → Variant → VarResult :=
  match op with
  | .add => a.plus
  | .sub => Variant.varAssignOpSub
  | .mult => Variant.varAssignOpMul
  | .div => Variant.varAssignOpDiv
  | .mod => Variant.varAssignOpMod
  | .xor => Variant.varAssignOpBinXOr
  | .binor => Variant.varAssignOpBinOr
  | .binand => Variant.varAssignOpBinAnd
  | _ => fun _ _ => .undefined

/-- The operands are of types that the operator is not defined for. -/
def Rejects (op : BinOp) (x y : Variant) : Prop :=
  match op with
  | .mod | .xor | .binor | .binand => (x.varIsNumeric && y.varIsNumeric) = false
  | .add =>
      (x.varIsFloat || y.varIsFloat) = false ∧ (x.varIsNumeric && y.varIsNumeric) = false ∧
        (x.isString || y.isString) = false
  | _ => (x.varIsFloat || y.varIsFloat) = false ∧ (x.varIsNumeric && y.varIsNumeric) = false

theorem compound_cases {op : BinOp} (compound : Compound op) :
    op = .add ∨ op = .sub ∨ op = .mult ∨ op = .div ∨ op = .mod ∨ op = .xor ∨ op = .binor ∨
      op = .binand := by
  obtain ⟨t, found⟩ := compound
  cases t <;> simp [assignOp] at found <;> simp [← found]

theorem exec0_compound {op : BinOp} (compound : Compound op) (a : Act) :
    a.exec0 op.op = a.binop (Compound.apply op a) := by
  rcases compound_cases compound with rfl | rfl | rfl | rfl | rfl | rfl | rfl | rfl <;> rfl

section

open Variant

theorem varIsNumeric_of_float {v : Variant} (float : v.varIsFloat = true) :
    v.varIsNumeric = true := by
  cases v <;> first | rfl | cases float

theorem isString_of_float {v : Variant} (float : v.varIsFloat = true) : v.isString = false := by
  cases v <;> first | rfl | cases float

theorem varGetInt_none_iff (v : Variant) : v.varGetInt = none ↔ v.varIsNumeric = false := by
  cases v <;> simp [varGetInt, varIsNumeric]

theorem varGetFloat_none_iff (v : Variant) : v.varGetFloat = none ↔ v.varIsNumeric = false := by
  cases v <;> simp [varGetFloat, varIsNumeric]

variable {onFloat : Float32 → Float32 → Variant} {onInt : Int → Int → VarResult}

theorem arith_mismatch_iff (calm : ∀ i j, onInt i j ≠ .mismatch) (x y : Variant) :
    arith onFloat onInt x y = .mismatch ↔
      (x.varIsFloat || y.varIsFloat) = false ∧ (x.varIsNumeric && y.varIsNumeric) = false := by
  unfold arith
  split
  · rename_i float
    refine ⟨fun h => ?_, fun h => absurd h.1 (by simp [float])⟩
    split at h <;> cases h
  · rename_i float
    split
    · rename_i numeric
      refine ⟨fun h => ?_, fun h => absurd h.2 (by simp [numeric])⟩
      split at h
      · exact absurd h (calm _ _)
      · cases h
    · rename_i numeric
      simp only [float, numeric, and_self]

theorem integral_mismatch_iff (calm : ∀ i j, onInt i j ≠ .mismatch) (x y : Variant) :
    integral onInt x y = .mismatch ↔ (x.varIsNumeric && y.varIsNumeric) = false := by
  cases left : x.varGetInt with
  | none => simp [integral, left, (varGetInt_none_iff x).mp left]
  | some i =>
      have numeric : x.varIsNumeric = true := by
        cases known : x.varIsNumeric
        · exact absurd ((varGetInt_none_iff x).mpr known) (by simp [left])
        · rfl
      cases right : y.varGetInt with
      | none => simp [integral, left, right, (varGetInt_none_iff y).mp right]
      | some j =>
          have numeric' : y.varIsNumeric = true := by
            cases known : y.varIsNumeric
            · exact absurd ((varGetInt_none_iff y).mpr known) (by simp [right])
            · rfl
          simp [integral, left, right, numeric, numeric', calm]

theorem arith_float {x y : Variant} (float : x.varIsFloat = true) (other : y.varIsNumeric = false) :
    arith onFloat onInt x y = .undefined := by
  simp [arith, float, (varGetFloat_none_iff y).mpr other]

/-- A second operand that is no number only counts as that. -/
theorem arith_congr {x y y' : Variant} (other : y.varIsNumeric = false)
    (other' : y'.varIsNumeric = false) :
    arith onFloat onInt x y = arith onFloat onInt x y' := by
  have plain : ∀ {v : Variant}, v.varIsNumeric = false → v.varIsFloat = false := fun {v} no => by
    cases float : v.varIsFloat
    · rfl
    · exact absurd (varIsNumeric_of_float float) (by simp [no])
  simp only [arith, plain other, plain other', other, other', (varGetFloat_none_iff y).mpr other,
    (varGetFloat_none_iff y').mpr other', (varGetInt_none_iff y).mpr other,
    (varGetInt_none_iff y').mpr other']

theorem integral_congr {x y y' : Variant} (other : y.varIsNumeric = false)
    (other' : y'.varIsNumeric = false) : integral onInt x y = integral onInt x y' := by
  simp only [integral, (varGetInt_none_iff y).mpr other, (varGetInt_none_iff y').mpr other']

/-- What the operators make of numbers: a value that is no pointer, or nothing at all. -/
def Computes (r : VarResult) : Prop := r = .undefined ∨ ∃ v, v.isPtr = false ∧ r = .value v

theorem Computes.int (i : Int) : Computes (.value (.int i)) := .inr ⟨_, rfl, rfl⟩

theorem Computes.guarded {p : Prop} [Decidable p] (i : Int) :
    Computes (if p then .undefined else .value (.int i)) := by
  split
  · exact .inl rfl
  · exact .int i

theorem Computes.ne_mismatch {r : VarResult} (h : Computes r) : r ≠ .mismatch := by
  rcases h with rfl | ⟨_, _, rfl⟩ <;> exact VarResult.noConfusion

theorem Computes.plain {r : VarResult} (h : Computes r) {v : Variant} (value : r = .value v) :
    v.isPtr = false := by
  rcases h with rfl | ⟨w, plain, rfl⟩
  · cases value
  · cases value; exact plain

theorem arith_value (floats : ∀ f g, (onFloat f g).isPtr = false)
    (ints : ∀ i j, Computes (onInt i j)) {x y v : Variant}
    (value : arith onFloat onInt x y = .value v) : v.isPtr = false := by
  unfold arith at value
  split at value
  · split at value
    · cases value; exact floats _ _
    · cases value
  · split at value
    · split at value
      · exact (ints _ _).plain value
      · cases value
    · cases value

theorem integral_value (ints : ∀ i j, Computes (onInt i j)) {x y v : Variant}
    (value : integral onInt x y = .value v) : v.isPtr = false := by
  unfold integral at value
  split at value
  · exact (ints _ _).plain value
  · cases value

/-- The operators but `+` work on numbers alone. -/
theorem apply_numbers {op : BinOp} (compound : Compound op) (a : Act) :
    op = .add ∨
      (∃ onFloat onInt, (∀ f g, (onFloat f g).isPtr = false) ∧ (∀ i j, Computes (onInt i j)) ∧
        Compound.apply op a = arith onFloat onInt ∧
        ∀ x y, Rejects op x y ↔ (x.varIsFloat || y.varIsFloat) = false ∧
          (x.varIsNumeric && y.varIsNumeric) = false) ∨
      ∃ onInt, (∀ i j, Computes (onInt i j)) ∧ Compound.apply op a = integral onInt ∧
        ∀ x y, Rejects op x y ↔ (x.varIsNumeric && y.varIsNumeric) = false := by
  rcases compound_cases compound with rfl | rfl | rfl | rfl | rfl | rfl | rfl | rfl
  · exact .inl rfl
  · refine .inr (.inl ⟨fun f g => .float (f - g).toBits, fun i j => .value (.int (wrap32 (i - j))),
      fun _ _ => rfl, fun _ _ => .int _, rfl, fun _ _ => .rfl⟩)
  · refine .inr (.inl ⟨fun f g => .float (f * g).toBits, fun i j => .value (.int (wrap32 (i * j))),
      fun _ _ => rfl, fun _ _ => .int _, rfl, fun _ _ => .rfl⟩)
  · refine .inr (.inl ⟨_, _, ?_, ?_, (rfl : varAssignOpDiv = _), fun _ _ => .rfl⟩)
    · exact fun _ _ => rfl
    · exact fun _ _ => .guarded _
  · exact .inr (.inr ⟨_, fun _ _ => .guarded _, rfl, fun _ _ => .rfl⟩)
  · exact .inr (.inr ⟨_, fun _ _ => .int _, rfl, fun _ _ => .rfl⟩)
  · exact .inr (.inr ⟨_, fun _ _ => .int _, rfl, fun _ _ => .rfl⟩)
  · exact .inr (.inr ⟨_, fun _ _ => .int _, rfl, fun _ _ => .rfl⟩)

theorem plus_text {a : Act} {x y : Variant} (text : (x.isString || y.isString) = true) :
    a.plus x y = .value (.string ((a.store.chase a.depth x).varToString ++
      (a.store.chase a.depth y).varToString)) := by
  rw [Act.plus, if_pos text]

/-- Without a text, `+` is arithmetic too. -/
theorem plus_numbers {a : Act} {x y : Variant} (numbers : (x.isString || y.isString) = false) :
    a.plus x y = arith (fun f g => .float (f + g).toBits)
      (fun i j => .value (.int (wrap32 (i + j)))) x y := by
  rw [Act.plus, numbers, if_neg Bool.false_ne_true, varAssignOpPlus, numbers,
    if_neg Bool.false_ne_true]

theorem apply_mismatch_iff {op : BinOp} (compound : Compound op) (a : Act) (x y : Variant) :
    Compound.apply op a x y = .mismatch ↔ Rejects op x y := by
  rcases apply_numbers compound a with rfl | ⟨_, _, _, ints, eq, rejects⟩ | ⟨_, ints, eq, rejects⟩
  · cases text : (x.isString || y.isString) with
    | true => simp [Compound.apply, Rejects, plus_text text, text]
    | false =>
        rw [Compound.apply, plus_numbers text,
          arith_mismatch_iff (fun _ _ => Computes.ne_mismatch (.int _))]
        simp [Rejects, text]
  · rw [eq, rejects, arith_mismatch_iff fun i j => (ints i j).ne_mismatch]
  · rw [eq, rejects, integral_mismatch_iff fun i j => (ints i j).ne_mismatch]

/-- No operator computes a pointer. -/
theorem apply_value {op : BinOp} (compound : Compound op) {a : Act} {x y v : Variant}
    (value : Compound.apply op a x y = .value v) : v.isPtr = false := by
  rcases apply_numbers compound a with rfl | ⟨_, _, floats, ints, eq, -⟩ | ⟨_, ints, eq, -⟩
  · cases text : (x.isString || y.isString) with
    | true =>
        rw [Compound.apply, plus_text text] at value
        cases value
        rfl
    | false =>
        rw [Compound.apply, plus_numbers text] at value
        exact arith_value (fun _ _ => rfl) (fun _ _ => .int _) value
  · exact arith_value floats ints (eq ▸ value)
  · exact integral_value ints (eq ▸ value)

/-- Second operands that are neither numbers nor texts count the same. -/
theorem apply_congr {op : BinOp} (compound : Compound op) (a : Act) {x y y' : Variant}
    (other : y.varIsNumeric = false) (other' : y'.varIsNumeric = false)
    (text : op = .add → (x.isString || y.isString) = false ∧ (x.isString || y'.isString) = false) :
    Compound.apply op a x y = Compound.apply op a x y' := by
  rcases apply_numbers compound a with rfl | ⟨_, _, -, -, eq, -⟩ | ⟨_, -, eq, -⟩
  · obtain ⟨plain, plain'⟩ := text rfl
    rw [Compound.apply, plus_numbers plain, plus_numbers plain', arith_congr other other']
  · rw [eq, arith_congr other other']
  · rw [eq, integral_congr other other']

end

/-! ## Behind one more pointer -/

namespace Store

variable {st : Store} {n : Nat} {l l' : Loc}

theorem chase_succ {v : Variant} (ends : (st.chase n v).isPtr = false) :
    st.chase (n + 1) v = st.chase n v := by
  induction n generalizing v with
  | zero => exact chase_plain _ _ ends
  | succ n ih =>
      cases v with
      | ptr l => exact ih ends
      | _ => rfl

/-- Where a chain of pointers ends, it ends for its second pointer as well. -/
theorem chase_get (ends : (st.chase n (.ptr l)).isPtr = false) :
    st.chase n (st.get l) = st.chase n (.ptr l) := by
  cases n with
  | zero => cases ends
  | succ n => exact chase_succ ends

/-- A place that points to itself is a chain without end. -/
theorem chase_self (self : st.get l = .ptr l) (n : Nat) : st.chase n (.ptr l) = .ptr l := by
  induction n with
  | zero => rfl
  | succ n ih => rw [chase, self, ih]

theorem operand_plain {v : Variant} (plain : v.isPtr = false) : st.operand n v = v := by
  have same : st.deref v = v := by cases v <;> first | rfl | cases plain
  simp only [operand, same, chase_plain _ _ plain, ite_self]

/-- The operator looks through one pointer by itself. -/
theorem operand_once (plain : (st.get l).isPtr = false) :
    st.operand n (st.get l) = st.operand n (.ptr l) := by
  rw [operand_plain plain, operand, deref, chase_plain _ _ plain, ite_self]

/-- Behind two pointers it only finds a number. -/
theorem operand_twice (ends : (st.chase n (.ptr l')).isPtr = false) (more : st.get l = .ptr l') :
    if (st.chase n (.ptr l')).varIsNumeric then
      st.operand n (.ptr l') = st.operand n (.ptr l)
    else st.operand n (.ptr l) = .ptr l' ∧ st.operand n (.ptr l') = st.get l' ∧
      (st.get l').varIsNumeric = false := by
  have same := chase_get ends
  split
  · rename_i numeric
    simp only [operand, deref, more, same, numeric, if_true]
  · rename_i numeric
    rw [Bool.not_eq_true] at numeric
    refine ⟨by simp [operand, deref, more, numeric], by simp [operand, deref, same, numeric], ?_⟩
    cases found : st.get l' with
    | ptr l'' => rfl
    | _ =>
        rw [← same, found, chase_plain _ _ rfl] at numeric
        exact numeric

end Store

/-! ## The two orders of `OP_RVALUE` and the operator -/

/-- What the statements have to agree in. -/
structure Outcome where
  store : Store
  stack : List Variant
  err : Option InterpErrors

def Act.outcome (a : Act) : Outcome := ⟨a.store, a.stack, some a.frame.err⟩

/-- Instructions without operands one after another, as long as there is no error. -/
def Act.execs : List OpCode → Act → Option Act
  | [], a => some a
  | op :: ops, a => if a.frame.err = .none then (a.exec0 op).bind (execs ops) else some a

theorem Act.bind_execs_nil (o : Option Act) : o.bind (Act.execs []) = o := by
  cases o <;> rfl

/-- What follows the operator, by its result. -/
def Act.finish (rest : List Variant) (a : Act) : VarResult → Option Act
  | .value v => { a with stack := v :: rest }.assign
  | .mismatch => some (a.raise .typeMismatch)
  | .undefined => none

/-- The operand that `a` left. -/
def Act.target (y : Variant) (a : Act) : Variant := a.store.operand a.depth y

/-- The states behind the operands in which it matters whether the right one is looked through
before the operator: it is a pointer, and the operator rejects the operands, or it adds a float
to a text behind two pointers, which without the `OP_RVALUE` is not defined. -/
def Differ (op : BinOp) (a : Act) : Prop :=
  ∃ l y rest, a.stack = .ptr l :: y :: rest ∧
    (Rejects op (a.target y) (a.target (.ptr l)) ∨
      (op = .add ∧ (a.target y).varIsFloat = true ∧
        (∃ l', a.store.get l = .ptr l' ∧ (a.store.get l').isString = true) ∧
        ∃ l' rest', rest = .ptr l' :: rest'))

/-- The chain of pointers on top ends; the recursion of `varGetInt` through another one would
not. -/
def Ends (a : Act) : Prop :=
  ∀ l rest, a.stack = .ptr l :: rest → (a.store.chase a.depth (a.store.get l)).isPtr = false

section

variable {op : BinOp} {a : Act} {v y : Variant} {rest : List Variant}

theorem execs_early (compound : Compound op) (clean : a.frame.err = .none)
    (stack : a.stack = v :: y :: rest) :
    a.execs [.rvalue, op.op, .assign] =
      { a with stack := a.store.deref v :: y :: rest }.finish rest
        (Compound.apply op a (a.target y) (a.target (a.store.deref v))) := by
  have looked : a.exec0 .rvalue = some { a with stack := a.store.deref v :: y :: rest } := by
    rw [Act.exec0, stack]
  have shape : ∀ f, Act.binop f { a with stack := a.store.deref v :: y :: rest } =
      match f (a.target y) (a.target (a.store.deref v)) with
      | .value v => some { a with stack := v :: rest }
      | .mismatch => some ({ a with stack := a.store.deref v :: y :: rest }.raise .typeMismatch)
      | .undefined => none := fun _ => rfl
  rw [Act.execs, if_pos clean, looked, Option.bind_some, Act.execs, if_pos clean,
    exec0_compound compound, shape]
  have same : Compound.apply op { a with stack := a.store.deref v :: y :: rest } =
      Compound.apply op a := by
    rcases compound_cases compound with rfl | rfl | rfl | rfl | rfl | rfl | rfl | rfl <;> rfl
  rw [same]
  cases Compound.apply op a (a.target y) (a.target (a.store.deref v)) with
  | value v =>
      rw [Option.bind_some, Act.execs, if_pos clean]
      exact Act.bind_execs_nil _
  | mismatch => rfl
  | undefined => rfl

theorem execs_late (compound : Compound op) (clean : a.frame.err = .none)
    (stack : a.stack = v :: y :: rest) :
    a.execs [op.op, .rvalue, .assign] =
      a.finish rest (Compound.apply op a (a.target y) (a.target v)) := by
  rw [Act.execs, if_pos clean, exec0_compound compound, Act.binop, stack]
  simp only [← Act.target.eq_def]
  cases computed : Compound.apply op a (a.target y) (a.target v) with
  | value w =>
      have plain := apply_value compound computed
      have same : a.store.deref w = w := by cases w <;> first | rfl | cases plain
      have looked : Act.exec0 .rvalue { a with stack := w :: rest } =
          some { a with stack := w :: rest } := by
        simp only [Act.exec0, same]
      simp only [Option.bind_some]
      rw [Act.execs, if_pos clean, looked, Option.bind_some, Act.execs, if_pos clean]
      exact Act.bind_execs_nil _
  | mismatch => rfl
  | undefined => rfl

theorem target_text {l l' : Loc} {text : List Char} (more : a.store.get l = .ptr l')
    (ends : (a.store.chase a.depth (.ptr l')).isPtr = false)
    (found : a.store.get l' = .string text) :
    a.target (.ptr l) = .ptr l' ∧ a.target (.ptr l') = .string text := by
  have twice := Store.operand_twice ends more
  rw [← Store.chase_get ends, found, chase_plain _ _ rfl, if_neg (by exact Bool.false_ne_true)]
    at twice
  exact ⟨twice.1, twice.2.1⟩

/-- Unless it is a text behind two pointers, looking through the right operand first is no
difference to the operator. -/
theorem target_apply (compound : Compound op) {l : Loc} (x : Variant)
    (ends : (a.store.chase a.depth (a.store.get l)).isPtr = false)
    (simple : op = .add → x.isString = true ∨
      ∀ l', a.store.get l = .ptr l' → (a.store.get l').isString = false) :
    Compound.apply op a x (a.target (a.store.get l)) =
      Compound.apply op a x (a.target (.ptr l)) := by
  cases plain : (a.store.get l).isPtr with
  | false => rw [Act.target, Store.operand_once plain, Act.target]
  | true =>
      obtain ⟨l', more⟩ : ∃ l', a.store.get l = .ptr l' := by
        cases found : a.store.get l with
        | ptr l' => exact ⟨l', rfl⟩
        | _ => rw [found] at plain; cases plain
      rw [more] at ends ⊢
      have twice := Store.operand_twice ends more
      split at twice
      · rw [Act.target, twice, Act.target]
      · obtain ⟨once, twice, other⟩ := twice
        rw [Act.target, Act.target, once, twice]
        by_cases joins : op = .add ∧ x.isString = true
        · obtain ⟨rfl, text⟩ := joins
          rw [Compound.apply, plus_text (by simp [text]), plus_text (by simp [text]),
            Store.chase_get ends]
        · refine apply_congr compound a other rfl fun plus => ?_
          have noText : x.isString = false := by
            simpa [plus] using joins
          have noText' := (simple plus).resolve_left (by simp [noText]) l' more
          exact ⟨by rw [noText, noText']; rfl, by rw [noText]; rfl⟩

theorem finish_value {rest : List Variant} (text : List Char) (a : Act) :
    (∃ l rest' a', rest = .ptr l :: rest' ∧ a.finish rest (.value (.string text)) = some a' ∧
      a'.frame = a.frame) ∨
    ((∀ l rest', rest ≠ .ptr l :: rest') ∧ a.finish rest (.value (.string text)) = none) := by
  cases rest with
  | nil => exact .inr ⟨fun _ _ => List.cons_ne_nil _ _ |>.symm, rfl⟩
  | cons w rest =>
      cases w with
      | ptr l => exact .inl ⟨l, rest, _, rfl, rfl, rfl⟩
      | _ => exact .inr ⟨fun _ _ => by simp, rfl⟩

theorem pointed_iff (compound : Compound op) (clean : a.frame.err = .none) {l : Loc}
    (stack : a.stack = .ptr l :: y :: rest)
    (ends : (a.store.chase a.depth (a.store.get l)).isPtr = false) :
    (Act.finish rest { a with stack := a.store.get l :: y :: rest }
          (Compound.apply op a (a.target y) (a.target (a.store.get l)))).map Act.outcome =
        (a.finish rest (Compound.apply op a (a.target y) (a.target (.ptr l)))).map Act.outcome ↔
      ¬ Differ op a := by
  have differ : Differ op a ↔ Rejects op (a.target y) (a.target (.ptr l)) ∨
      (op = .add ∧ (a.target y).varIsFloat = true ∧
        (∃ l', a.store.get l = .ptr l' ∧ (a.store.get l').isString = true) ∧
        ∃ l' rest', rest = .ptr l' :: rest') := by
    constructor
    · rintro ⟨l₁, y₁, rest₁, other, meets⟩
      rw [stack] at other
      cases other
      exact meets
    · exact fun meets => ⟨l, y, rest, stack, meets⟩
  have moved : a.store.get l ≠ .ptr l := fun self => by
    rw [self, Store.chase_self self] at ends
    cases ends
  rw [differ]
  by_cases hidden : op = .add ∧ (a.target y).isString = false ∧
      ∃ l', a.store.get l = .ptr l' ∧ (a.store.get l').isString = true
  case neg =>
    -- the operator computes the same, so only the operand an error leaves can differ
    have same := target_apply compound (a.target y) ends fun plus => by
      by_cases text : (a.target y).isString = true
      · exact .inl text
      · refine .inr fun l' more => ?_
        rw [Bool.not_eq_true] at text
        cases behind : (a.store.get l').isString
        · rfl
        · exact absurd ⟨plus, text, l', more, behind⟩ hidden
    have alone : ¬ (op = .add ∧ (a.target y).varIsFloat = true ∧
        (∃ l', a.store.get l = .ptr l' ∧ (a.store.get l').isString = true) ∧
        ∃ l' rest', rest = .ptr l' :: rest') := by
      rintro ⟨plus, float, behind, -⟩
      exact hidden ⟨plus, isString_of_float float, behind⟩
    rw [same, or_iff_left alone, ← apply_mismatch_iff compound a]
    cases computed : Compound.apply op a (a.target y) (a.target (.ptr l)) with
    | value v => exact ⟨fun _ => VarResult.noConfusion, fun _ => rfl⟩
    | undefined => exact ⟨fun _ => VarResult.noConfusion, fun _ => rfl⟩
    | mismatch =>
        refine ⟨fun alike => ?_, fun no => absurd rfl no⟩
        have tops := congrArg Outcome.stack (Option.some.inj alike)
        simp only [Act.outcome, Act.raise, stack] at tops
        exact absurd (List.cons.inj tops).1 moved
  case pos =>
    -- a text that the operator does not find behind the two pointers
    obtain ⟨rfl, noText, l', more, behind⟩ := hidden
    obtain ⟨text, found⟩ : ∃ text, a.store.get l' = .string text := by
      cases found : a.store.get l' with
      | string text => exact ⟨text, rfl⟩
      | _ => rw [found] at behind; cases behind
    rw [more] at ends ⊢
    obtain ⟨once, twice⟩ := target_text more ends found
    have joined : Compound.apply .add a (a.target y) (a.target (.ptr l')) = .value (.string
        ((a.store.chase a.depth (a.target y)).varToString ++
          (a.store.chase a.depth (.string text)).varToString)) := by
      rw [twice]
      exact plus_text (by simp [Variant.isString])
    rw [joined, once]
    generalize (a.store.chase a.depth (a.target y)).varToString ++ _ = joined
    cases float : (a.target y).varIsFloat with
    | true =>
        have undefined : Compound.apply .add a (a.target y) (.ptr l') = .undefined := by
          rw [Compound.apply, plus_numbers (by rw [noText]; rfl), arith_float float rfl]
        have defined : ¬ Rejects .add (a.target y) (.ptr l') := fun rejects => by
          rw [← apply_mismatch_iff compound a, undefined] at rejects
          cases rejects
        rw [undefined, or_iff_right defined]
        rcases finish_value joined { a with stack := .ptr l' :: y :: rest } with
          ⟨l₁, rest₁, a₁, shape, run, -⟩ | ⟨shape, run⟩
        · rw [run]
          refine ⟨fun alike => ?_, fun no => absurd ⟨rfl, rfl, ⟨l', rfl, behind⟩, l₁, rest₁, shape⟩ no⟩
          cases alike
        · rw [run]
          refine ⟨fun _ differs => ?_, fun _ => rfl⟩
          obtain ⟨-, -, -, l₁, rest₁, other⟩ := differs
          exact shape l₁ rest₁ other
    | false =>
        have rejects : Rejects .add (a.target y) (.ptr l') := by
          refine ⟨by rw [float]; rfl, Bool.and_false _, by rw [noText]; rfl⟩
        rw [(apply_mismatch_iff compound a _ _).mpr rejects]
        refine ⟨fun alike => ?_, fun no => absurd (.inl rejects) no⟩
        rcases finish_value joined { a with stack := .ptr l' :: y :: rest } with
          ⟨l₁, rest₁, a₁, shape, run, framed⟩ | ⟨shape, run⟩
        · rw [run] at alike
          have errs := congrArg Outcome.err (Option.some.inj alike)
          simp only [Act.outcome, Act.raise, framed, clean] at errs
          cases errs
        · rw [run] at alike
          cases alike

/-- The operator may be looked at before or behind the `OP_RVALUE` but in the states that
`Differ` names. -/
theorem tails_iff (compound : Compound op) (clean : a.frame.err = .none) (ends : Ends a) :
    (a.execs [.rvalue, op.op, .assign]).map Act.outcome =
        (a.execs [op.op, .rvalue, .assign]).map Act.outcome ↔ ¬ Differ op a := by
  match stack : a.stack with
  | [] =>
      have early : a.execs [.rvalue, op.op, .assign] = none := by
        rw [Act.execs, if_pos clean, Act.exec0, stack]
        rfl
      have late : a.execs [op.op, .rvalue, .assign] = none := by
        rw [Act.execs, if_pos clean, exec0_compound compound, Act.binop, stack]
        rfl
      rw [early, late]
      exact ⟨fun _ ⟨_, _, _, other, _⟩ => by simp [stack] at other, fun _ => rfl⟩
  | [v] =>
      have early : a.execs [.rvalue, op.op, .assign] = none := by
        rw [Act.execs, if_pos clean, Act.exec0, stack]
        simp only [Option.bind_some]
        rw [Act.execs, if_pos clean, exec0_compound compound]
        rfl
      have late : a.execs [op.op, .rvalue, .assign] = none := by
        rw [Act.execs, if_pos clean, exec0_compound compound, Act.binop, stack]
        rfl
      rw [early, late]
      exact ⟨fun _ ⟨_, _, _, other, _⟩ => by simp [stack] at other, fun _ => rfl⟩
  | v :: y :: rest =>
      rw [execs_early compound clean stack, execs_late compound clean stack]
      cases plain : v.isPtr with
      | false =>
          have same : a.store.deref v = v := by cases v <;> first | rfl | cases plain
          rw [same, ← stack]
          refine ⟨fun _ ⟨l, _, _, other, _⟩ => ?_, fun _ => rfl⟩
          rw [stack] at other
          cases other
          cases plain
      | true =>
          obtain ⟨l, rfl⟩ : ∃ l, v = .ptr l := by
            cases v with
            | ptr l => exact ⟨l, rfl⟩
            | _ => cases plain
          exact pointed_iff compound clean stack (ends l _ stack)

end

/-! ## The code of the statements -/

namespace Qinterp

/-- The current frame stands at that address. -/
def goto (target : Int) (q : Qinterp) : Qinterp :=
  match q.frames with
  | [] => q
  | f :: rest => { q with frames := { f with pc := target } :: rest }

def push (v : Variant) (q : Qinterp) : Qinterp := { q with stack := v :: q.stack }

def outcome (q : Qinterp) : Outcome := ⟨q.store, q.stack, q.err⟩

end Qinterp

def outcome (t : Traced Event (Qinterp × Bool)) : Ending Outcome :=
  match t.ending with
  | .done r => .done r.1.outcome
  | .fault => .fault
  | .timeout => .timeout

/-- What an instruction does is the same wherever it stands. -/
def Anywhere (op : OpCode) : Prop :=
  ∀ target (a : Act), (a.goto target).exec0 op = (a.exec0 op).map (Act.goto target)

theorem anywhere_rvalue : Anywhere .rvalue := fun target a => by
  simp only [Act.exec0, Act.goto]
  cases a.stack <;> rfl

theorem anywhere_assign : Anywhere .assign := fun target a => by
  simp only [Act.exec0, Act.assign, Act.goto]
  match a.stack with
  | [] => rfl
  | [_] => rfl
  | v :: w :: rest =>
      cases w with
      | ptr l =>
          by_cases delegate : Act.assigned a.store l v = .delegate <;> simp [delegate, Act.goto,
            Act.raise]
      | _ => rfl

theorem anywhere_compound {op : BinOp} (compound : Compound op) : Anywhere op.op :=
  fun target a => by
    have same : Compound.apply op (a.goto target) = Compound.apply op a := by
      rcases compound_cases compound with rfl | rfl | rfl | rfl | rfl | rfl | rfl | rfl <;> rfl
    rw [exec0_compound compound, exec0_compound compound, same]
    generalize Compound.apply op a = apply
    obtain ⟨frame, depth, stack, store, linenum⟩ := a
    match stack with
    | [] => rfl
    | [_] => rfl
    | v :: w :: rest =>
        simp only [Act.binop, Act.goto]
        split <;> rfl

theorem execs_goto {ops : List OpCode} (anywhere : ∀ op ∈ ops, Anywhere op) (target : Int)
    (a : Act) : (a.goto target).execs ops = (a.execs ops).map (Act.goto target) := by
  induction ops generalizing a with
  | nil => rfl
  | cons op ops ih =>
      by_cases clean : a.frame.err = .none
      · have clean' : (a.goto target).frame.err = .none := clean
        rw [Act.execs, if_pos clean', anywhere op List.mem_cons_self, Act.execs, if_pos clean]
        cases a.exec0 op with
        | none => rfl
        | some a' => exact ih (fun op mem => anywhere op (List.mem_cons_of_mem _ mem)) a'
      · have wrong : ¬ (a.goto target).frame.err = .none := clean
        rw [Act.execs, if_neg wrong, Act.execs, if_neg clean]
        rfl

section

variable {env : Env} {run : Run} {fuel : Nat}

theorem outcome_act {q : Qinterp} {a : Act} (act : q.act? = some a) : q.outcome = a.outcome := by
  obtain ⟨-, stack, store, -⟩ := Qinterp.act?_some act
  rw [Qinterp.outcome, Act.outcome, Qinterp.err_act act, stack, store]

/-- Code that calls nothing and stays where it is put does to an interpreter what it does to its
current frame. -/
theorem outcome_execs {ops : List OpCode} (anywhere : ∀ op ∈ ops, Anywhere op) {q : Qinterp}
    {a : Act} (act : q.act? = some a) :
    outcome (q.runCode env run fuel (ops.map .emit0)) =
      match (a.execs ops).map Act.outcome with
      | some o => .done o
      | none => .fault := by
  induction ops generalizing q a with
  | nil =>
      exact congrArg Ending.done (outcome_act act)
  | cons op ops ih =>
      by_cases clean : a.frame.err = .none
      case neg =>
        have bad : q.err ≠ some .none := fun none =>
          clean (Option.some.inj ((Qinterp.err_act act).symm.trans none))
        rw [Act.execs, if_neg clean, Qinterp.runCode_error bad]
        exact congrArg Ending.done (outcome_act act)
      have moved := anywhere op List.mem_cons_self (a.frame.pc + 1) a
      rw [List.map_cons, Qinterp.runCode_cons act clean, Act.execs, if_pos clean]
      have stepped : Qinterp.step env run fuel (.emit0 op) (Qinterp.advance (.emit0 op) a)
          (q.put (Qinterp.advance (.emit0 op) a)) =
            Traced.ofOption (((a.exec0 op).map (Act.goto (a.frame.pc + 1))).map
              (q.put (Qinterp.advance (.emit0 op) a)).put) := by
        rw [← moved]
        rfl
      rw [stepped]
      cases executed : a.exec0 op with
      | none => rfl
      | some a' =>
          have kept := (Act.exec0_moves executed).1
          have depth : (q.put (Qinterp.advance (.emit0 op) a)).frames.tail.length + 1 =
              (a'.goto (a.frame.pc + 1)).depth := by
            have len := congrArg List.length (Qinterp.act?_some act).1
            rw [List.length_cons, ← (Qinterp.act?_some act).2.2.2] at len
            exact len.symm.trans kept.depth.symm
          have act' := Qinterp.act?_put (q.put (Qinterp.advance (.emit0 op) a)) depth
          simp only [Option.map_some, Traced.ofOption, Traced.pure_bind, Option.bind_some]
          rw [if_pos (by rfl), ih (fun op mem => anywhere op (List.mem_cons_of_mem _ mem)) act',
            execs_goto (fun op mem => anywhere op (List.mem_cons_of_mem _ mem)), Option.map_map]
          rfl

/-- What the code of an assignable expression without side effects does to an interpreter:
wherever it stands, it leaves the same place on the stack, and when it is evaluated again it
leaves that place once more; or it stops, wherever it stands, in the same way. -/
inductive Assignable (env : Env) (run : Run) (fuel : Nat) (l : List Instr) (q : Qinterp) : Prop where
  | place (q' : Qinterp) (x : Loc)
      (first : ∀ start, (runCode env run fuel l (q.goto start)).ending =
        .done ((q'.push (.ptr x)).goto (start + codeSize l), true))
      (again : ∀ start, (runCode env run fuel l ((q'.push (.ptr x)).goto start)).ending =
        .done (((q'.push (.ptr x)).push (.ptr x)).goto (start + codeSize l), true))
  | stops
      (same : ∀ start start', outcome (runCode env run fuel l (q.goto start)) =
        outcome (runCode env run fuel l (q.goto start')))
      (stopped : ∀ start r, (runCode env run fuel l (q.goto start)).ending = .done r → r.2 = false)

/-- Both operands of the operator were evaluated; `stop` is the address behind the statement. -/
def Operands (env : Env) (run : Run) (fuel : Nat) (l r : Expr) (q : Qinterp) (stop : Int)
    (a : Act) : Prop :=
  let code := l.code ++ .emit0 .dup :: r.code
  ∃ q', (runCode env run fuel code (q.goto (stop - 3 - codeSize code))).ending = .done (q', true) ∧
    q'.act? = some a

theorem runCode_done {is : List Instr} {q q' : Qinterp}
    (ran : (runCode env run fuel is q).ending = .done (q', true)) (js : List Instr) :
    (runCode env run fuel (is ++ js) q).ending = (runCode env run fuel js q').ending := by
  rw [runCode_append, Traced.bind_done ran]
  rfl

theorem outcome_done {is : List Instr} {q q' : Qinterp}
    (ran : (runCode env run fuel is q).ending = .done (q', true)) (js : List Instr) :
    outcome (runCode env run fuel (is ++ js) q) = outcome (runCode env run fuel js q') := by
  rw [outcome, runCode_done ran, outcome]

theorem outcome_stopped {is : List Instr} {q : Qinterp}
    (stopped : ∀ r, (runCode env run fuel is q).ending = .done r → r.2 = false) (js : List Instr) :
    outcome (runCode env run fuel (is ++ js) q) = outcome (runCode env run fuel is q) := by
  rw [runCode_append]
  cases ended : (runCode env run fuel is q).ending with
  | done r =>
      rw [outcome, Traced.bind_done ended, stopped r ended, outcome, ended]
      rfl
  | fault => simp [outcome, Traced.bind, ended]
  | timeout => simp [outcome, Traced.bind, ended]

/-- `OP_DUP` behind a place. -/
theorem runCode_dup {q : Qinterp} {x : Loc} {start : Int}
    (clean : ((q.push (.ptr x)).goto start).err = some .none) :
    (runCode env run fuel [.emit0 .dup] ((q.push (.ptr x)).goto start)).ending =
      .done (((q.push (.ptr x)).push (.ptr x)).goto (start + 1), true) := by
  obtain ⟨frames, stack, store, linenum⟩ := q
  cases frames with
  | nil => cases clean
  | cons f rest =>
      have good : f.err = .none := Option.some.inj clean
      simp [Qinterp.push, Qinterp.goto, runCode, Qinterp.act?, good, Qinterp.step, Act.exec,
        Act.exec0, Act.peekN, Act.stackPush, Act.push, Qinterp.advance, Act.goto, Qinterp.put,
        Traced.ofOption, Qinterp.pc, Qinterp.err]

/-- The right operand with what follows it, from the state behind the left ones. -/
theorem outcome_right {op : BinOp} (compound : Compound op) (r : List Instr) (q : Qinterp)
    (ends : ∀ q' a, (runCode env run fuel r q).ending = .done (q', true) → q'.act? = some a →
      Ends a) :
    outcome (runCode env run fuel (r ++ [.emit0 .rvalue, .emit0 op.op, .emit0 .assign]) q) =
        outcome (runCode env run fuel (r ++ [.emit0 op.op, .emit0 .rvalue, .emit0 .assign]) q) ↔
      ∀ q' a, (runCode env run fuel r q).ending = .done (q', true) → q'.act? = some a →
        ¬ Differ op a := by
  by_cases stopped : ∀ o, (runCode env run fuel r q).ending = .done o → o.2 = false
  case pos =>
    rw [outcome_stopped stopped, outcome_stopped stopped]
    refine ⟨fun _ q' _ ran => ?_, fun _ => rfl⟩
    cases stopped _ ran
  case neg =>
    simp only [not_forall] at stopped
    obtain ⟨⟨q', flag⟩, ran, next⟩ := stopped
    obtain rfl : flag = true := Bool.not_eq_false _ |>.mp next
    obtain ⟨a, act⟩ : ∃ a, q'.act? = some a := by
      have clean := runCode_clean ran
      cases frames : q'.frames with
      | nil => simp [Qinterp.err, frames] at clean
      | cons f rest => exact ⟨_, act?_of_frames frames⟩
    have clean : a.frame.err = .none :=
      Option.some.inj ((err_act act).symm.trans (runCode_clean ran))
    have anywhere : ∀ o ∈ [.rvalue, op.op, .assign], Anywhere o := by
      simp [anywhere_rvalue, anywhere_assign, anywhere_compound compound]
    have anywhere' : ∀ o ∈ [op.op, .rvalue, .assign], Anywhere o := by
      simp [anywhere_rvalue, anywhere_assign, anywhere_compound compound]
    have early := @outcome_execs env run fuel _ anywhere _ _ act
    have late := @outcome_execs env run fuel _ anywhere' _ _ act
    simp only [List.map_cons, List.map_nil] at early late
    rw [outcome_done ran, outcome_done ran, early, late]
    have only : (∀ q₁ a₁, (runCode env run fuel r q).ending = .done (q₁, true) →
        q₁.act? = some a₁ → ¬ Differ op a₁) ↔ ¬ Differ op a := by
      refine ⟨fun all => all q' a ran act, fun no q₁ a₁ ran₁ act₁ => ?_⟩
      rw [ran] at ran₁
      cases ran₁
      rw [act] at act₁
      cases act₁
      exact no
    rw [only, ← tails_iff compound clean (ends q' a ran act)]
    cases (a.execs [.rvalue, op.op, .assign]).map Act.outcome <;>
      cases (a.execs [op.op, .rvalue, .assign]).map Act.outcome <;> simp

/-! ## Variables and fields -/

/-- A variable, a static field, or a field of what such a path names. -/
inductive Path : Expr → Prop where
  | lvalue (mode : ArgSource) (offset : Nat) : Path (.lvalue mode offset)
  | sderef (clsidx offset : Nat) : Path (.sderef clsidx offset)
  | deref (name : Nat) {recv : Expr} (path : Path recv) : Path (.deref recv name)

/-- Code that only reads: on any operand stack it leaves the same place, or it stops. -/
inductive Looks (env : Env) (run : Run) (fuel : Nat) (is : List Instr) (q : Qinterp) : Prop where
  | place (x : Loc)
      (ran : ∀ stack start, (runCode env run fuel is ({ q with stack := stack }.goto start)).ending =
        .done ({ q with stack := .ptr x :: stack }.goto (start + codeSize is), true))
  | stops
      (same : ∀ stack start start',
        outcome (runCode env run fuel is ({ q with stack := stack }.goto start)) =
          outcome (runCode env run fuel is ({ q with stack := stack }.goto start')))
      (stopped : ∀ stack start r,
        (runCode env run fuel is ({ q with stack := stack }.goto start)).ending = .done r →
          r.2 = false)

theorem Looks.assignable {is : List Instr} {q : Qinterp} (looks : Looks env run fuel is q) :
    Assignable env run fuel is q := by
  cases looks with
  | place x ran => exact .place q x (ran q.stack) (ran (.ptr x :: q.stack))
  | stops same stopped => exact .stops (same q.stack) (stopped q.stack)

/-- What `_interp` works on at that address, with that operand stack. -/
def here (q : Qinterp) (f : StackFrame) (stack : List Variant) (pc : Int) : Act :=
  ⟨{ f with pc := pc }, q.frames.length, stack, q.store, q.linenum⟩

/-- An instruction that replaces the operands `pre` by a place, or fails, and looks neither at the
operands below nor at its address. -/
inductive Settles (env : Env) (i : Instr) (q : Qinterp) (f : StackFrame) (pre : List Variant) :
    Prop where
  | faults (ran : ∀ stack pc, (here q f (pre ++ stack) pc).exec env i = none)
  | fails (e : InterpErrors) (error : e ≠ .none)
      (ran : ∀ stack pc, (here q f (pre ++ stack) pc).exec env i =
        some ((here q f (pre ++ stack) pc).raise e))
  | place (x : Loc)
      (ran : ∀ stack pc, (here q f (pre ++ stack) pc).exec env i =
        some (here q f (.ptr x :: stack) pc))

theorem settles_lvalue (mode : ArgSource) (offset : Int) (q : Qinterp) (f : StackFrame) :
    Settles env (.emit1 .lvalue mode (some offset)) q f [] := by
  have same : ∀ stack pc, (here q f stack pc).resolveLoc env mode offset =
      (here q f [] 0).resolveLoc env mode offset := fun _ _ => rfl
  cases found : (here q f [] 0).resolveLoc env mode offset with
  | none => exact .faults fun stack pc => by simp [Act.exec, Act.exec1, same, found]
  | some x => exact .place x fun stack pc => by simp [Act.exec, Act.exec1, same, found]; rfl

theorem settles_sderef (arg1 arg2 : Int) (q : Qinterp) (f : StackFrame) :
    Settles env (.emit2 .sderef .const .im arg1 arg2) q f [] := by
  have same : ∀ mode arg stack pc, (here q f stack pc).resolveValue env mode arg =
      (here q f [] 0).resolveValue env mode arg := fun _ _ _ _ => rfl
  have ran : ∀ stack pc, (here q f stack pc).exec env (.emit2 .sderef .const .im arg1 arg2) =
      (here q f stack pc).sderef env .const .im arg1 arg2 := fun _ _ => rfl
  simp only [Act.sderef, same] at ran
  split at ran
  case h_2 => exact .faults ran
  rename_i name offset _ _
  split at ran
  case h_1 => exact .fails .classNotFound InterpErrors.noConfusion ran
  rename_i c _
  cases number : offset.varGetInt with
  | none => exact .faults fun stack pc => by rw [List.nil_append, ran, number]; rfl
  | some o =>
      cases known : env.classes[c]? with
      | none =>
          refine .faults fun stack pc => ?_
          rw [List.nil_append, ran, number, Option.bind_some, known]
          rfl
      | some jsp =>
          by_cases inside : 0 ≤ o ∧ o < jsp.staticCount
          · refine .place (.static c o.toNat) fun stack pc => ?_
            rw [List.nil_append, ran, number, Option.bind_some, known, Option.bind_some,
              if_pos inside]
            rfl
          · refine .faults fun stack pc => ?_
            rw [List.nil_append, ran, number, Option.bind_some, known, Option.bind_some,
              if_neg inside]

theorem settles_deref (arg : Int) (x : Loc) (q : Qinterp) (f : StackFrame) :
    Settles env (.emit1 .deref .const (some arg)) q f [.ptr x] := by
  have same : ∀ stack pc, (here q f stack pc).resolveValue env .const arg =
      (here q f [] 0).resolveValue env .const arg := fun _ _ => rfl
  have field : ∀ fname stack pc, (here q f stack pc).qinterpFindField env (.ptr x) fname =
      (here q f [] 0).qinterpFindField env (.ptr x) fname := fun _ _ _ => rfl
  cases found : (here q f [] 0).resolveValue env .const arg with
  | none => exact .faults fun stack pc => by simp [Act.exec, Act.exec1, Act.deref, same, found]
  | some v =>
      cases v with
      | string fname =>
          cases known : (here q f [] 0).qinterpFindField env (.ptr x) fname with
          | none =>
              refine .faults fun stack pc => ?_
              simp only [Act.exec, Act.exec1, Act.deref, same, found]
              show ((here q f (.ptr x :: stack) pc).qinterpFindField env (.ptr x) fname).map _ = _
              rw [field, known]
              rfl
          | some place =>
              cases place with
              | missing =>
                  refine .fails .fieldNotFound InterpErrors.noConfusion fun stack pc => ?_
                  simp only [Act.exec, Act.exec1, Act.deref, same, found]
                  show ((here q f (.ptr x :: stack) pc).qinterpFindField env (.ptr x) fname).map _ = _
                  rw [field, known]
                  rfl
              | place l =>
                  refine .place l fun stack pc => ?_
                  simp only [Act.exec, Act.exec1, Act.deref, same, found]
                  show ((here q f (.ptr x :: stack) pc).qinterpFindField env (.ptr x) fname).map _ = _
                  rw [field, known]
                  rfl
      | _ => exact .faults fun stack pc => by simp [Act.exec, Act.exec1, Act.deref, same, found]

/-- One instruction that calls nothing. -/
theorem runCode_here {q : Qinterp} {f : StackFrame} {rest : List StackFrame}
    (frames : q.frames = f :: rest) (clean : f.err = .none) {i : Instr}
    (silent : ∀ a q, Qinterp.step env run fuel i a q = .ofOption ((a.exec env i).map q.put))
    (stack : List Variant) (start : Int) :
    (runCode env run fuel [i] ({ q with stack := stack }.goto start)).ending =
      match (here q f stack (start + i.size)).exec env i with
      | none => .fault
      | some a => .done (q.put a, decide (a.frame.pc = start + i.size ∧ a.frame.err = .none)) := by
  obtain ⟨frames', stack', store, linenum⟩ := q
  cases frames
  have act : ({ frames := f :: rest, stack := stack, store := store, linenum := linenum : Qinterp }.goto
      start).act? = some (here ⟨f :: rest, stack', store, linenum⟩ f stack start) := rfl
  have good : (here ⟨f :: rest, stack', store, linenum⟩ f stack start).frame.err = .none := clean
  rw [runCode_cons act good, silent]
  have read : (advance i (here ⟨f :: rest, stack', store, linenum⟩ f stack start)).exec env i =
      (here ⟨f :: rest, stack', store, linenum⟩ f stack (start + i.size)).exec env i := rfl
  rw [read]
  cases (here ⟨f :: rest, stack', store, linenum⟩ f stack (start + i.size)).exec env i with
  | none => rfl
  | some a =>
      simp only [Option.map_some, Traced.ofOption, Traced.pure_bind]
      split
      · rename_i next
        have next : a.frame.pc = start + i.size := Option.some.inj next
        simp [runCode, Qinterp.err, Qinterp.put, Qinterp.goto, next]
      · rename_i next
        have next : ¬ a.frame.pc = start + i.size := fun same => next (congrArg some same)
        simp [next, Qinterp.put, Qinterp.goto]

/-- An instruction behind code that leaves what it needs. -/
theorem Settles.looks {is : List Instr} {i : Instr} {q : Qinterp} {pre : List Variant}
    (silent : ∀ a q, Qinterp.step env run fuel i a q = .ofOption ((a.exec env i).map q.put))
    (ran : q.err = some .none → ∀ stack start,
      (runCode env run fuel is ({ q with stack := stack }.goto start)).ending =
        .done ({ q with stack := pre ++ stack }.goto (start + codeSize is), true))
    (settles : ∀ f, Settles env i q f pre) : Looks env run fuel (is ++ [i]) q := by
  by_cases clean : q.err = some .none
  case neg =>
    have bad : ∀ stack start, ({ q with stack := stack }.goto start).err ≠ some .none := by
      intro stack start
      obtain ⟨frames, stack', store, linenum⟩ := q
      cases frames <;> exact clean
    refine .stops (fun stack start start' => ?_) fun stack start r ended => ?_
    · rw [runCode_error (bad _ _), runCode_error (bad _ _)]
      obtain ⟨frames, stack', store, linenum⟩ := q
      cases frames <;> rfl
    · rw [runCode_error (bad _ _)] at ended
      cases ended
      rfl
  obtain ⟨f, rest, frames⟩ : ∃ f rest, q.frames = f :: rest := by
    cases frames : q.frames with
    | nil => simp [Qinterp.err, frames] at clean
    | cons f rest => exact ⟨f, rest, rfl⟩
  have good : f.err = .none := by
    rw [Qinterp.err, frames] at clean
    exact Option.some.inj clean
  have last := fun stack start => (runCode_done (ran clean stack start) [i]).trans
    (runCode_here frames good silent (pre ++ stack) (start + codeSize is))
  cases settles f with
  | faults fails =>
      simp only [fails] at last
      refine .stops (fun stack start start' => ?_) fun stack start r ended => ?_
      · rw [outcome, last, outcome, last]
      · rw [last] at ended
        cases ended
  | fails e error fails =>
      simp only [fails] at last
      refine .stops (fun stack start start' => ?_) fun stack start r ended => ?_
      · rw [outcome, last, outcome, last]
        rfl
      · rw [last] at ended
        cases ended
        exact decide_eq_false fun h => error h.2
  | place x places =>
      simp only [places] at last
      refine .place x fun stack start => ?_
      rw [last]
      obtain ⟨frames', stack', store, linenum⟩ := q
      cases frames
      simp [here, Qinterp.put, Qinterp.goto, good, Int.add_assoc]

theorem Path.looks {l : Expr} (path : Path l) (q : Qinterp) : Looks env run fuel l.code q := by
  have begin : q.err = some .none → ∀ stack start,
      (runCode env run fuel [] ({ q with stack := stack }.goto start)).ending =
        .done ({ q with stack := [] ++ stack }.goto (start + codeSize []), true) := by
    intro clean stack start
    obtain ⟨frames, stack', store, linenum⟩ := q
    cases frames with
    | nil => cases clean
    | cons f rest => simp [runCode, Qinterp.goto, Qinterp.err, Option.some.inj clean]
  induction path with
  | lvalue mode offset =>
      exact Settles.looks (fun _ _ => rfl) begin (settles_lvalue mode offset q)
  | sderef clsidx offset =>
      exact Settles.looks (fun _ _ => rfl) begin (settles_sderef clsidx offset q)
  | deref name path ih =>
      cases ih with
      | place x ran =>
          exact Settles.looks (fun _ _ => rfl) (fun _ => ran) (settles_deref name x q)
      | stops same stopped =>
          refine .stops (fun stack start start' => ?_) fun stack start r ended => ?_
          · rw [Expr.code, outcome_stopped (stopped _ _), outcome_stopped (stopped _ _)]
            exact same _ _ _
          · rw [Expr.code, runCode_append] at ended
            obtain ⟨o, first, second⟩ := Traced.ending_bind ended
            have flag := stopped _ _ _ first
            rw [flag] at second
            cases second
            exact flag

/-- A path to a variable or a field has no side effects. -/
theorem Path.assignable {l : Expr} (path : Path l) (q : Qinterp) :
    Assignable env run fuel l.code q :=
  (path.looks q).assignable

/-! ## The two statements -/

/-- `a op= e` and `a = a op (e)` lead to the same store, the same operand stack and the same error
code exactly when the operands are none of those that `Differ` names.  One tree `l` stands for both
occurrences of the target in `a = a op (e)`, the indices of its constants included, where the
parser numbers the constants of the second occurrence anew. -/
theorem assignOp_iff {op : BinOp} (compound : Compound op) (l r : Expr) (q : Qinterp) (stop : Int)
    (assignable : Assignable env run fuel l.code q)
    (ends : ∀ a, Operands env run fuel l r q stop a → Ends a) :
    outcome (runCode env run fuel (Expr.assignOp op l r).code
        (q.goto (stop - (Expr.assignOp op l r).size))) =
      outcome (runCode env run fuel (Expr.assign l (.binary op l r)).code
        (q.goto (stop - (Expr.assign l (.binary op l r)).size))) ↔
      ∀ a, Operands env run fuel l r q stop a → ¬ Differ op a := by
  have early : (Expr.assignOp op l r).code = l.code ++ [.emit0 .dup] ++
      (r.code ++ [.emit0 .rvalue, .emit0 op.op, .emit0 .assign]) := by
    simp [Expr.code]
  have late : (Expr.assign l (.binary op l r)).code = l.code ++ l.code ++
      (r.code ++ [.emit0 op.op, .emit0 .rvalue, .emit0 .assign]) := by
    simp [Expr.code]
  have left : l.code ++ .emit0 .dup :: r.code = l.code ++ [.emit0 .dup] ++ r.code := by simp
  cases assignable with
  | place q' x first again =>
      have copied : ∀ start, (runCode env run fuel (l.code ++ [.emit0 .dup]) (q.goto start)).ending =
          .done (((q'.push (.ptr x)).push (.ptr x)).goto (start + codeSize l.code + 1), true) :=
        fun start => (runCode_done (first start) _).trans (runCode_dup (runCode_clean (first start)))
      have again : ∀ start, (runCode env run fuel (l.code ++ l.code) (q.goto start)).ending =
          .done (((q'.push (.ptr x)).push (.ptr x)).goto
            (start + codeSize l.code + codeSize l.code), true) :=
        fun start => (runCode_done (first start) _).trans (again _)
      have met : ∀ a, Operands env run fuel l r q stop a ↔ ∃ q₁,
          (runCode env run fuel r.code (((q'.push (.ptr x)).push (.ptr x)).goto
            (stop - 3 - codeSize r.code))).ending = .done (q₁, true) ∧ q₁.act? = some a := by
        intro a
        simp only [Operands]
        rw [left, runCode_done (copied _)]
        simp only [codeSize_append, codeSize_cons, codeSize_nil, Instr.size_emit0]
        rw [show stop - 3 - ((codeSize l.code + (1 + 0) + codeSize r.code : Nat) : Int) +
          codeSize l.code + 1 = stop - 3 - codeSize r.code by push_cast; ring]
      rw [early, late, outcome_done (copied _), outcome_done (again _)]
      have place : stop - ((Expr.assignOp op l r).size : Int) + codeSize l.code + 1 =
          stop - 3 - codeSize r.code := by
        rw [Expr.size, early]
        simp only [codeSize_append, codeSize_cons, codeSize_nil, Instr.size_emit0]
        push_cast
        ring
      have place' : stop - ((Expr.assign l (.binary op l r)).size : Int) + codeSize l.code +
          codeSize l.code = stop - 3 - codeSize r.code := by
        rw [Expr.size, late]
        simp only [codeSize_append, codeSize_cons, codeSize_nil, Instr.size_emit0]
        push_cast
        ring
      rw [place, place', outcome_right compound r.code _ fun q₁ a ran act =>
        ends a ((met a).mpr ⟨q₁, ran, act⟩)]
      exact ⟨fun all a operands => (met a).mp operands |>.elim fun q₁ h => all q₁ a h.1 h.2,
        fun all q₁ a ran act => all a ((met a).mpr ⟨q₁, ran, act⟩)⟩
  | stops same stopped =>
      rw [early, late, List.append_assoc, List.append_assoc, outcome_stopped (stopped _),
        outcome_stopped (stopped _)]
      refine ⟨fun _ a ⟨q', ran, _⟩ => ?_, fun _ => same _ _⟩
      rw [runCode_append] at ran
      obtain ⟨o, ended, rest⟩ := Traced.ending_bind ran
      rw [stopped _ o ended] at rest
      cases rest
      cases stopped _ _ ended

end

/-- A machine in a method with one local variable, which is 1. -/
def oneVariable : Qinterp where
  frames := [⟨0, none, 1, [], .none, .void, 0, 0⟩]
  stack := []
  store := ⟨fun _ => .int 1, []⟩
  linenum := 0

/-- `i += 2` on a variable. -/
theorem assignOp_variable :
    outcome (runCode ⟨plainHost, [], []⟩ (fun _ => .timeout) 0
        (Expr.assignOp .add (.lvalue .block 0) (.push .im 2)).code (oneVariable.goto (10 - 10))) =
      outcome (runCode ⟨plainHost, [], []⟩ (fun _ => .timeout) 0
        (Expr.assign (.lvalue .block 0) (.binary .add (.lvalue .block 0) (.push .im 2))).code
        (oneVariable.goto (10 - 12))) := by
  have ran : (runCode ⟨plainHost, [], []⟩ (fun _ => .timeout) 0
      ((Expr.lvalue .block 0).code ++ .emit0 .dup :: (Expr.push .im 2).code)
      (oneVariable.goto (10 - 3 - 7))).ending = .done ({ oneVariable with
        stack := [.int 2, .ptr (.local 1 0), .ptr (.local 1 0)] }.goto 7, true) := rfl
  have top : ∀ a, Operands ⟨plainHost, [], []⟩ (fun _ => .timeout) 0 (.lvalue .block 0)
      (.push .im 2) oneVariable 10 a → a.stack.head? = some (.int 2) := by
    rintro a ⟨q', ran', act⟩
    obtain ⟨rfl, -⟩ := Prod.mk.inj (Ending.done.inj (ran.symm.trans ran'))
    obtain rfl := Option.some.inj act
    rfl
  refine (assignOp_iff ⟨.pluseq, rfl⟩ (.lvalue .block 0) (.push .im 2) oneVariable 10
    (Path.assignable (.lvalue .block 0) oneVariable) fun a met l rest stack => ?_).mpr ?_
  · have other := top a met
    rw [stack] at other
    cases other
  · rintro a met ⟨l, y, rest, stack, -⟩
    have other := top a met
    rw [stack] at other
    cases other

/-- A text in which `#` stands for a double quote. -/
def quoted (text : String) : List Char :=
  text.toList.map fun c => if c = '#' then Char.ofNat 34 else c

/-- `n += r;` with a number and a reference to a text. -/
def joinsReference : List Char :=
  quoted "class A { public static f(&r) { var n = 1; n += r; return n; }
    public static main() { var s = #x#; return A::f(s); } }"

/-- `n = n + (r);` with the same. -/
def addsReference : List Char :=
  quoted "class A { public static f(&r) { var n = 1; n = n + (r); return n; }
    public static main() { var s = #x#; return A::f(s); } }"

/-- `n += r;` joins the number and the text, and `n = n + (r);` is a type mismatch. -/
theorem reference_joined :
    ((mainRun joinsReference 0 []).bind Traced.result?).map (fun r => r.2) =
      some (.none, some (.string "1x".toList)) ∧
    ((mainRun addsReference 0 []).bind Traced.result?).map (fun r => r.2.1) =
      some .typeMismatch := by
  constructor
  · rw [joinsReference, quoted, String.toList_ofList]
    decide +kernel
  · rw [addsReference, quoted, String.toList_ofList]
    decide +kernel

end Jspp.Kernel
