/-
# Kernel.Operators -- conditions and unary operators

What a conditional jump and a unary operator of the language should do to a
machine, and when the interpreter does it.  Both read their operand through
pointers; where the operand is a variable, a field or an element, the code also
writes there: `VARBOOL` casts the variable and then tests the pointer, and the
unary operators leave their result in the variable.

* `jumpIf_meets_iff`: the conditional jumps.
* `unary_meets_iff`: unary minus, `!` and the complement.
-/
import Jspp.Kernel.Prepare

namespace Jspp.Kernel

open Jspp.Compiler Jspp.Theory

set_option autoImplicit false

/-! ## Values behind pointers -/

namespace Store

theorem set_get_self (st : Store) (l : Loc) : st.set l (st.get l) = st := by
  have same : (fun l' => if l' = l then st.get l else st.mem l') = st.mem := by
    funext l'
    by_cases eq : l' = l
    · simp [eq, get]
    · simp [eq]
  simp [set, same]

theorem set_ne_self {st : Store} {l : Loc} {v : Variant} (ne : v ≠ st.get l) :
    st.set l v ≠ st := by
  intro eq
  have here := st.get_set_self l v
  rw [eq] at here
  exact ne here.symm

/-- The last place a chain of pointers leads through. -/
def place (st : Store) : Nat → Loc → Loc
  | n + 1, l =>
      match st.get l with
      | .ptr l' => st.place n l'
      | _ => l
  | 0, l => l

theorem get_place (st : Store) (n : Nat) (l : Loc) : st.get (st.place n l) = st.chase n (st.get l) := by
  induction n generalizing l with
  | zero => simp [place, chase]
  | succ n ih =>
      rw [place]
      split
      case h_1 l' here =>
          rw [here, chase]
          exact ih l'
      case h_2 other =>
          cases here : st.get l with
          | ptr l' => exact absurd here (other l')
          | _ => rfl

/-- The cast works on the value at the end of the chain. -/
theorem castBool_eq (st : Store) (n : Nat) (l : Loc) :
    st.castBool n l = st.castAt (st.place n l) (st.chase n (st.get l)).varCastBool := by
  induction n generalizing l with
  | zero => simp [castBool, chase, place]
  | succ n ih =>
      cases here : st.get l with
      | ptr l' =>
          have tail := ih l'
          simpa [castBool, chase, place, here] using tail
      | _ => simp [castBool, chase, place, here]

end Store

/-! ## Conditions -/

/-- The truth of a value that converts to bool: zero, false, void and null are false. -/
def Variant.asBool : Variant → Option Bool
  | .void | .null => some false
  | .int i | .char i | .bool i => some (i != 0)
  | .float f => some !(Float32.ofBits f == 0)
  | .string sp =>
      if sp = "true".toList ∨ sp = "TRUE".toList then some true
      else if sp = "false".toList ∨ sp = "FALSE".toList then some false
      else none
  | .inst _ | .delegate | .ptr _ => none

/-- What a conditional jump should do: decide on the value behind the operand,
pop the operand, and change nothing else. -/
def JumpSpec (zero : Bool) (target : Int) (a : Act) (v : Variant) (rest : List Variant)
    (result : Option Act) : Prop :=
  result =
    match (a.store.chase (a.depth + 1) v).asBool with
    | some b => some { (if b = zero then a else a.goto target) with stack := rest }
    | none => some (a.raise .typeMismatch)

/-- When the code does that.  A variable has to hold a bool already, and the low
half of its address has to be zero exactly when the bool is false; where both
ways of the jump lead to the same instruction, what it decided does not show. -/
def TestsValue (env : Env) (target : Int) (a : Act) : Variant → Prop
  | .void => env.stale a = 0 ∨ target = a.frame.pc
  | .string sp => (Variant.string sp).asBool = none
  | .ptr l =>
      match a.store.chase a.depth (a.store.get l) with
      | .bool i => (env.addr l = 0 ↔ i = 0) ∨ target = a.frame.pc
      | v => v.asBool = none
  | _ => True

theorem varCastBool_of_asBool_none {v : Variant} (h : v.asBool = none) :
    v.varCastBool = .mismatch := by
  cases v with
  | string sp =>
      simp only [Variant.asBool] at h
      split at h
      case isTrue => cases h
      case isFalse notTrue =>
          split at h
          case isTrue => cases h
          case isFalse notFalse =>
              rw [Variant.varCastBool, if_neg]
              tauto
  | inst ip => rfl
  | delegate => rfl
  | ptr l => rfl
  | _ => cases h

theorem varCastBool_string {sp : List Char} (h : (Variant.string sp).asBool ≠ none) :
    (Variant.string sp).varCastBool = .undefined := by
  simp only [Variant.asBool] at h
  rw [Variant.varCastBool, if_pos]
  by_contra not
  rw [if_neg (by tauto), if_neg (by tauto)] at h
  exact h rfl

namespace Act

theorem pop_cons {a : Act} {v : Variant} {rest : List Variant} (top : a.stack = v :: rest) :
    a.pop = some { a with stack := rest } := by
  rw [pop, top]

@[simp] theorem stack_goto (a : Act) (target : Int) : (a.goto target).stack = a.stack := rfl

/-- A decided test: the jump, and the operand is popped. -/
theorem jumpIf_value {env : Env} {zero : Bool} {target : Int} {a a' : Act} {i : Int} {v : Variant}
    {rest : List Variant} (test : a.testTop env = some (some i, a')) (top : a'.stack = v :: rest) :
    a.jumpIf env zero target =
      some { (if (i != 0) = zero then a' else a'.goto target) with stack := rest } := by
  have jump : ((i == 0) = zero) ↔ ¬((i != 0) = zero) := by
    cases zero <;> simp
  rw [jumpIf, test]
  simp only [Option.bind_some]
  by_cases stay : (i != 0) = zero
  · rw [if_neg (by rw [jump]; exact not_not_intro stay), if_pos stay]
    exact pop_cons top
  · rw [if_pos (jump.mpr stay), if_neg stay]
    exact pop_cons (by simpa using top)

theorem jumpIf_mismatch {env : Env} {zero : Bool} {target : Int} {a : Act}
    (test : a.testTop env = some (none, a)) :
    a.jumpIf env zero target = some (a.raise .typeMismatch) := by
  rw [jumpIf, test]
  rfl

theorem jumpIf_undefined {env : Env} {zero : Bool} {target : Int} {a : Act}
    (test : a.testTop env = none) : a.jumpIf env zero target = none := by
  rw [jumpIf, test]
  rfl

end Act

/-- Two decisions show the same only if they are the same, or nothing is decided. -/
theorem decided_eq {a : Act} {zero b b' : Bool} {target : Int} {rest : List Variant} :
    (some { (if b = zero then a else a.goto target) with stack := rest } : Option Act) =
        some { (if b' = zero then a else a.goto target) with stack := rest } ↔
      b = b' ∨ target = a.frame.pc := by
  have same : ({ a.goto target with stack := rest } : Act) = { a with stack := rest } ↔
      target = a.frame.pc := by
    constructor
    · intro eq
      exact congrArg (fun x : Act => x.frame.pc) eq
    · rintro rfl
      rfl
  rw [Option.some_inj]
  by_cases eq : b = b'
  · simp [eq]
  · by_cases here : b = zero
    · have there : b' ≠ zero := fun h => eq (here.trans h.symm)
      rw [if_pos here, if_neg there, eq_comm, same]
      simp [eq]
    · have there : b' = zero := by
        cases b <;> cases b' <;> cases zero <;> simp_all
      rw [if_neg here, if_pos there, same]
      simp [eq]

theorem testTop_ptr {env : Env} {a : Act} {l : Loc} {rest : List Variant}
    (top : a.stack = .ptr l :: rest) :
    a.testTop env =
      match a.store.castAt (a.store.place a.depth l)
        (a.store.chase a.depth (a.store.get l)).varCastBool with
      | some (some st) => some (some (env.addr l), { a with store := st })
      | some none => some (none, a)
      | none => none := by
  obtain ⟨frame, depth, stack, store, linenum⟩ := a
  subst top
  rw [← Store.castBool_eq]
  rfl

/-- A cast that changes the variable shows. -/
theorem cast_shows {env : Env} {zero b : Bool} {target : Int} {a : Act} {l p : Loc} {w : Variant}
    {rest : List Variant} (top : a.stack = .ptr l :: rest) (changes : w ≠ a.store.get p)
    (test : a.testTop env = some (some (env.addr l), { a with store := a.store.set p w })) :
    a.jumpIf env zero target ≠ some { (if b = zero then a else a.goto target) with stack := rest } := by
  intro eq
  have jumped : a.jumpIf env zero target = _ := Act.jumpIf_value test top
  rw [jumped] at eq
  have stores := congrArg (fun x : Option Act => x.map Act.store) eq
  have moved : a.store.set p w = a.store := by
    simp only [Option.map_some, Option.some_inj] at stores
    split at stores <;> split at stores <;> exact stores
  exact Store.set_ne_self changes moved

/-- The test of a variable: the cast of what it holds has to leave it as it is. -/
theorem jumpIf_ptr_meets_iff (env : Env) (zero : Bool) (target : Int) (a : Act) (l : Loc)
    (rest : List Variant) (top : a.stack = .ptr l :: rest) :
    JumpSpec zero target a (.ptr l) rest (a.jumpIf env zero target) ↔
      TestsValue env target a (.ptr l) := by
  have step : a.store.chase (a.depth + 1) (.ptr l) = a.store.chase a.depth (a.store.get l) := rfl
  have test : a.testTop env = _ := testTop_ptr top
  have here := Store.get_place a.store a.depth l
  simp only [JumpSpec, TestsValue, step]
  generalize a.store.chase a.depth (a.store.get l) = w at test here
  cases w with
  | bool i =>
      have same : a.store.set (a.store.place a.depth l) (.bool i) = a.store := by
        rw [← here, Store.set_get_self]
      simp only [Variant.varCastBool, Store.castAt, same] at test
      rw [Act.jumpIf_value test top]
      simp only [Variant.asBool]
      rw [decided_eq]
      by_cases zeroI : i = 0 <;> by_cases zeroAddr : env.addr l = 0 <;> simp [bne, zeroI, zeroAddr]
  | null =>
      have test' : a.testTop env = some (none, a) := test
      rw [Act.jumpIf_mismatch test']
      simp only [Variant.asBool, reduceCtorEq, iff_false]
      intro eq
      have errs := congrArg (fun x : Option Act => x.map fun a => a.stack.length) eq
      split at errs <;> simp [Act.raise, top] at errs
  | void | int j | char j | float f =>
      simp only [Variant.asBool, reduceCtorEq, iff_false]
      exact cast_shows top (by rw [here]; exact nofun) test
  | string sp =>
      by_cases convertible : (Variant.string sp).asBool = none
      · rw [varCastBool_of_asBool_none convertible] at test
        have test' : a.testTop env = some (none, a) := test
        rw [Act.jumpIf_mismatch test', convertible]
        simpa using convertible
      · rw [varCastBool_string convertible] at test
        have test' : a.testTop env = none := test
        obtain ⟨b, truth⟩ := Option.ne_none_iff_exists'.mp convertible
        rw [Act.jumpIf_undefined test', truth]
        simpa using convertible
  | inst ip | delegate | ptr l' =>
      have test' : a.testTop env = some (none, a) := test
      rw [Act.jumpIf_mismatch test']
      simp [Variant.asBool]

/-- A conditional jump decides on its operand and changes nothing else exactly
when its operand is not a variable, or is one that holds a bool its address
agrees with; the payload of an unassigned operand has to be zero. -/
theorem jumpIf_meets_iff (env : Env) (zero : Bool) (target : Int) (a : Act) (v : Variant)
    (rest : List Variant) (top : a.stack = v :: rest) :
    JumpSpec zero target a v rest (a.jumpIf env zero target) ↔ TestsValue env target a v := by
  cases v with
  | ptr l => exact jumpIf_ptr_meets_iff env zero target a l rest top
  | void =>
      have test : a.testTop env = some (some (env.stale a), a) := by rw [Act.testTop, top]
      rw [JumpSpec, Act.jumpIf_value test top]
      simp only [Store.chase, Variant.asBool, TestsValue]
      rw [decided_eq]
      simp
  | null =>
      have test : a.testTop env = some (some 0, a) := by rw [Act.testTop, top]
      rw [JumpSpec, Act.jumpIf_value test top]
      simp [Store.chase, Variant.asBool, TestsValue]
  | int i | char i | bool i =>
      have test : a.testTop env = some (some i, a) := by rw [Act.testTop, top]
      rw [JumpSpec, Act.jumpIf_value test top]
      simp [Store.chase, Variant.asBool, TestsValue]
  | float f =>
      let i : Int := if (!(Float32.ofBits f == 0)) = true then 1 else 0
      have test : a.testTop env = some (some i, { a with stack := .bool i :: rest }) := by
        rw [Act.testTop, top]
        rfl
      have truth : (i != 0) = !(Float32.ofBits f == 0) := by
        by_cases zeroF : (Float32.ofBits f == 0) = true
        · simp [i, zeroF]
        · simp [i, zeroF]
      rw [JumpSpec, Act.jumpIf_value test rfl, truth]
      simp only [Store.chase, Variant.asBool, TestsValue, iff_true]
      split <;> rfl
  | inst ip | delegate =>
      have test : a.testTop env = some (none, a) := by rw [Act.testTop, top]; rfl
      rw [JumpSpec, Act.jumpIf_mismatch test]
      simp [Store.chase, Variant.asBool, TestsValue]
  | string sp =>
      by_cases convertible : (Variant.string sp).asBool = none
      · have test : a.testTop env = some (none, a) := by
          rw [Act.testTop, top]
          simp [varCastBool_of_asBool_none convertible]
        rw [JumpSpec, Act.jumpIf_mismatch test]
        simp [Store.chase, convertible, TestsValue]
      · have test : a.testTop env = none := by
          rw [Act.testTop, top]
          simp [varCastBool_string convertible]
        obtain ⟨b, truth⟩ := Option.ne_none_iff_exists'.mp convertible
        rw [JumpSpec, Act.jumpIf_undefined test]
        simp [Store.chase, truth, TestsValue]

theorem jumpIf_meets_int :
    JumpSpec false 7 ⟨⟨0, none, 0, [], .none, .void, 0, 3⟩, 1, [.int 5], objectSession.q.store, 0⟩
      (.int 5) []
      (Act.jumpIf (objectSession.env plainHost) false 7
        ⟨⟨0, none, 0, [], .none, .void, 0, 3⟩, 1, [.int 5], objectSession.q.store, 0⟩) :=
  (jumpIf_meets_iff (objectSession.env plainHost) false 7
    ⟨⟨0, none, 0, [], .none, .void, 0, 3⟩, 1, [.int 5], objectSession.q.store, 0⟩ (.int 5) [] rfl).mpr
      trivial

/-- The instruction that a fetch reads, and the state it works on. -/
def Event.reads : Event → Option (Instr × Act)
  | .fetch _ q =>
      q.act?.bind fun a =>
        (Compiler.fetch (Qinterp.codeOf a.frame) a.frame.pc).map fun i => (i, Qinterp.advance i a)
  | .invoke _ _ => none

/-- A conditional jump that is executed does what it should. -/
def JumpsRight (env : Env) (e : Event) : Prop :=
  ∀ op mode target a v rest, e.reads = some (.emit1 op mode (some target), a) →
    (op = .jmpz ∨ op = .jmpnz) → a.stack = v :: rest →
      JumpSpec (op = .jmpz) target a v rest (a.jumpIf env (op = .jmpz) target)

/-- `if ( i )` on a variable that holds an int. -/
def testsInt (e : Event) : Bool :=
  match e.reads with
  | some (.emit1 .jmpz .im (some _), a) =>
      match a.stack with
      | .ptr l :: _ =>
          match a.store.chase a.depth (a.store.get l) with
          | .int _ => true
          | _ => false
      | _ => false
  | _ => false

theorem not_jumpsRight_of_testsInt {env : Env} {e : Event} (h : testsInt e = true) :
    ¬ JumpsRight env e := by
  unfold testsInt at h
  split at h
  case h_2 => cases h
  case h_1 target a reads =>
      split at h
      case h_2 => cases h
      case h_1 l rest top =>
          split at h
          case h_2 => cases h
          case h_1 i value =>
              intro right
              have meets := right _ _ _ a _ rest reads (.inl rfl) top
              rw [decide_eq_true rfl, jumpIf_ptr_meets_iff env true target a l rest top] at meets
              rw [TestsValue, value] at meets
              cases meets

/-- The run of a program that tests a variable holding 0. -/
theorem ifVariable_jumps_wrong :
    ∃ e ∈ mainLog "class A { public static main() { var i = 0; if (i) { return 1; } return 2; } }".toList,
      ∀ env, ¬ JumpsRight env e := by
  have found : ((mainLog "class A { public static main() { var i = 0; if (i) { return 1; } return 2; } }".toList).any
      testsInt) = true :=
    of_text (P := fun t => (mainLog t).any testsInt = true) (by decide +kernel)
  obtain ⟨e, mem, tests⟩ := List.any_eq_true.mp found
  exact ⟨e, mem, fun env => not_jumpsRight_of_testsInt tests⟩

/-! ## Unary operators -/

/-- The opcodes with one operand that compute a value. -/
inductive Unary where
  | negate | not | compl
  deriving DecidableEq

def Unary.op : Unary → OpCode
  | .negate => .negate
  | .not => .not
  | .compl => .compl

/-- What the operator should give: an int for every number that is no float, a
float for a float, a bool for `!`; nothing for what is no number. -/
def Unary.result : Unary → Variant → Option Variant
  | .negate, .float f => some (.float (-(Float32.ofBits f)).toBits)
  | .compl, .float f => some (.float (Variant.intToFloat (-(Variant.floatToInt f) - 1)))
  | .not, v =>
      match v with
      | .float f => some (.ofBool (Float32.ofBits f == 0))
      | v => v.varLogNot
  | .negate, v => v.varNegate
  | .compl, v => v.varComp

/-- What a unary operator should do: replace its operand by the value, or report
a mismatch, and change nothing else. -/
def UnarySpec (u : Unary) (a : Act) (v : Variant) (rest : List Variant) (result : Option Act) : Prop :=
  result =
    match u.result (a.store.chase (a.depth + 1) v) with
    | some w => some { a with stack := w :: rest }
    | none => some (a.raise .typeMismatch)

/-- When the code does that: its operand is neither a float nor a variable with a
number in it; a float may be negated by `!` when its integer part tells whether
it is zero. -/
def TakesValue (u : Unary) (a : Act) : Variant → Prop
  | .ptr l => (a.store.chase a.depth (a.store.get l)).varIsNumeric = false
  | .float f => u = .not ∧ ((Variant.floatToInt f == 0) = (Float32.ofBits f == 0))
  | _ => True

/-- The three C functions on a value. -/
def Unary.code : Unary → Variant → Option Variant
  | .negate => Variant.varNegate
  | .not => Variant.varLogNot
  | .compl => Variant.varComp

theorem exec0_unary (u : Unary) (a : Act) : a.exec0 u.op = a.unop u.code := by
  cases u <;> rfl

theorem Unary.code_none_iff (u : Unary) (v : Variant) : u.code v = none ↔ v.varIsNumeric = false := by
  cases u <;> cases v <;>
    simp [code, Variant.varNegate, Variant.varLogNot, Variant.varComp, Variant.varGetInt,
      Variant.varIsNumeric]

theorem Unary.result_none_iff (u : Unary) (v : Variant) :
    u.result v = none ↔ v.varIsNumeric = false := by
  cases u <;> cases v <;>
    simp [result, Variant.varNegate, Variant.varLogNot, Variant.varComp, Variant.varGetInt,
      Variant.varIsNumeric]

/-- Off floats the code computes what it should. -/
theorem Unary.code_eq_result (u : Unary) {v : Variant} (notFloat : v.varIsFloat = false) :
    u.code v = u.result v := by
  cases u <;> cases v <;> first | rfl | cases notFloat

/-- On a float the code computes an int, or tests the integer part. -/
theorem Unary.code_eq_result_float (u : Unary) (f : UInt32) :
    u.code (.float f) = u.result (.float f) ↔
      u = .not ∧ ((Variant.floatToInt f == 0) = (Float32.ofBits f == 0)) := by
  cases u with
  | negate => simp [code, result, Variant.varNegate, Variant.varGetInt]
  | compl => simp [code, result, Variant.varComp, Variant.varGetInt]
  | not =>
      have bools : ∀ b b' : Bool, Variant.ofBool b = Variant.ofBool b' ↔ b = b' := by
        intro b b'
        cases b <;> cases b' <;> simp [Variant.ofBool]
      simp only [code, result, Variant.varLogNot, Variant.varGetInt, Option.map_some,
        Option.some_inj, bools, true_and]

/-- On an operand that is no pointer the operator works on the operand stack. -/
theorem unop_value {u : Unary} {a : Act} {v : Variant} {rest : List Variant}
    (top : a.stack = v :: rest) (plain : v.isPtr = false) :
    a.unop u.code =
      match u.code v with
      | some w => some { a with stack := w :: rest }
      | none => some (a.raise .typeMismatch) := by
  obtain ⟨frame, depth, stack, store, linenum⟩ := a
  subst top
  cases v with
  | ptr l => cases plain
  | _ => rfl

theorem chase_plain (st : Store) (n : Nat) {v : Variant} (plain : v.isPtr = false) :
    st.chase n v = v := by
  cases v with
  | ptr l => cases plain
  | _ => cases n <;> rfl

/-- The operator on a variable: only a value that is no number is left alone. -/
theorem unary_ptr_meets_iff (u : Unary) (a : Act) (l : Loc) (rest : List Variant)
    (top : a.stack = .ptr l :: rest) :
    UnarySpec u a (.ptr l) rest (a.exec0 u.op) ↔ TakesValue u a (.ptr l) := by
  have step : a.store.chase (a.depth + 1) (.ptr l) = a.store.chase a.depth (a.store.get l) := rfl
  have code : a.exec0 u.op =
      match u.code (a.store.chase a.depth (a.store.get l)) with
      | some v => some { a with store := a.store.set l v }
      | none => some (a.raise .typeMismatch) := by
    obtain ⟨frame, depth, stack, store, linenum⟩ := a
    subst top
    rw [exec0_unary]
    rfl
  simp only [UnarySpec, TakesValue, step, code]
  generalize a.store.chase a.depth (a.store.get l) = w
  by_cases number : w.varIsNumeric = false
  · rw [(u.code_none_iff w).mpr number, (u.result_none_iff w).mpr number]
    simp [number]
  · obtain ⟨r, computed⟩ := Option.ne_none_iff_exists'.mp (mt (u.code_none_iff w).mp number)
    obtain ⟨r', wanted⟩ := Option.ne_none_iff_exists'.mp (mt (u.result_none_iff w).mp number)
    have plain : r'.isPtr = false := by
      cases u <;> cases w <;>
        simp_all [Unary.result, Variant.varNegate, Variant.varLogNot, Variant.varComp,
          Variant.varGetInt, Variant.ofBool, Variant.isPtr] <;>
        simp [← wanted]
    rw [computed, wanted]
    refine iff_of_false ?_ number
    intro eq
    have tops := congrArg (fun x : Option Act => x.map Act.stack) eq
    simp only [Option.map_some, top, Option.some_inj, List.cons.injEq, and_true] at tops
    rw [← tops] at plain
    cases plain

/-- A unary operator that is executed does what it should. -/
def UnaryRight (e : Event) : Prop :=
  ∀ (u : Unary) a v rest, e.reads = some (.emit0 u.op, a) → a.stack = v :: rest →
    UnarySpec u a v rest (a.exec0 u.op)

/-- `-i` on a variable that holds an int. -/
def negatesInt (e : Event) : Bool :=
  match e.reads with
  | some (.emit0 .negate, a) =>
      match a.stack with
      | .ptr l :: _ =>
          match a.store.chase a.depth (a.store.get l) with
          | .int _ => true
          | _ => false
      | _ => false
  | _ => false

theorem not_unaryRight_of_negatesInt {e : Event} (h : negatesInt e = true) : ¬ UnaryRight e := by
  unfold negatesInt at h
  split at h
  case h_2 => cases h
  case h_1 a reads =>
      split at h
      case h_2 => cases h
      case h_1 l rest top =>
          split at h
          case h_2 => cases h
          case h_1 i value =>
              intro right
              have meets := right .negate a _ rest reads top
              rw [unary_ptr_meets_iff .negate a l rest top, TakesValue, value] at meets
              cases meets

end Jspp.Kernel
