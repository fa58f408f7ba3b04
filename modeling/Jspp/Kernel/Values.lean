/-
# Kernel.Values -- the value of an expression over integers

Expressions made of integer literals, local variables, the operators between them
and calls of static methods have a value that does not depend on the machine:
arithmetic in 32 bits, comparisons, the logical operators, which evaluate both of
their operands, and what the methods answer.  `Expr.value?` is that value, where
it is defined; it is not defined for a variable without a value and for a quotient
by zero.

The code of such an expression pushes one operand, and changes nothing else but
variables of calls that are over.  The operand of a lone variable is a reference to
it, which the next operator looks through; a minus in front of a variable would
write to the variable, so it is left out here, and so are `==` and the shifts,
whose code does something else.

* `Value`, `BinOp.value?`, `Expr.value?`: the values.
* `SameElse`, `Operand`: what a call leaves, and what stands on the operand stack.
* `Callees`, `Right`: what the methods answer, and that they do.
* `value_code`: what the code of an expression does.
-/
import Jspp.Kernel.Compound
import Jspp.Kernel.Structure

namespace Jspp.Kernel

open Jspp.Compiler Jspp.Theory Qinterp

set_option autoImplicit false

/-! ## Values -/

/-- What a variable over integers may hold. -/
inductive Value where
  | int (i : Int)
  | truth (b : Bool)
  deriving DecidableEq

namespace Value

/-- The number an operator reads. -/
def num : Value → Int
  | .int i => i
  | .truth b => if b then 1 else 0

def variant : Value → Variant
  | .int i => .int i
  | .truth b => .ofBool b

@[simp] theorem variant_int (i : Int) : (Value.int i).variant = .int i := rfl

@[simp] theorem variant_truth (b : Bool) : (Value.truth b).variant = .ofBool b := rfl

@[simp] theorem isPtr_variant (v : Value) : v.variant.isPtr = false := by
  cases v <;> rfl

@[simp] theorem varGetInt_variant (v : Value) : v.variant.varGetInt = some v.num := by
  cases v <;> rfl

@[simp] theorem varIsNumeric_variant (v : Value) : v.variant.varIsNumeric = true := by
  cases v <;> rfl

@[simp] theorem varIsFloat_variant (v : Value) : v.variant.varIsFloat = false := by
  cases v <;> rfl

@[simp] theorem isString_variant (v : Value) : v.variant.isString = false := by
  cases v <;> rfl

@[simp] theorem truth_variant (v : Value) : v.variant.truth = v.num := by
  simp [Variant.truth]

theorem variant_ne_delegate (v : Value) : v.variant ≠ .delegate := by
  cases v <;> exact Variant.noConfusion

end Value

end Jspp.Kernel

namespace Jspp.Compiler

open Jspp.Kernel

set_option autoImplicit false

/-- The value of an operator. -/
def BinOp.value? (op : BinOp) (x y : Value) : Option Value :=
  match op with
  | .add => some (.int (wrap32 (x.num + y.num)))
  | .sub => some (.int (wrap32 (x.num - y.num)))
  | .mult => some (.int (wrap32 (x.num * y.num)))
  | .div =>
      if y.num = 0 ∨ (x.num = Variant.intMin ∧ y.num = -1) then none
      else some (.int (x.num.tdiv y.num))
  | .mod =>
      if y.num = 0 ∨ (x.num = Variant.intMin ∧ y.num = -1) then none
      else some (.int (x.num.tmod y.num))
  | .lt => some (.truth (x.num < y.num))
  | .gt => some (.truth (x.num > y.num))
  | .lteq => some (.truth (x.num ≤ y.num))
  | .gteq => some (.truth (x.num ≥ y.num))
  | .binor => some (.int (Int.lor x.num y.num))
  | .binand => some (.int (Int.land x.num y.num))
  | .xor => some (.int (Int.xor x.num y.num))
  | .and => some (.truth (x.num != 0 && y.num != 0))
  | .or => some (.truth (x.num != 0 || y.num != 0))
  | .lshift | .rshift | .eq | .neq => none

/-- The operand is a reference. -/
def Expr.isPlace : Expr → Bool
  | .lvalue _ _ => true
  | _ => false

/-- What static methods answer, by the constant that names one. -/
abbrev Callees := Nat → List Value → Option Value

mutual

/-- The value of an expression, with the values of the local variables in the order of their
slots. -/
def Expr.value? (calls : Callees) (vars : List (Option Value)) : Expr → Option Value
  | .push .im n => some (.int n)
  | .lvalue .block k => (vars[k]?).join
  | .unary .negate e =>
      if e.isPlace then none else (e.value? calls vars).map fun v => .int (wrap32 (-v.num))
  | .unary .not e =>
      if e.isPlace then none else (e.value? calls vars).map fun v => .truth (v.num == 0)
  | .binary op l r =>
      (l.value? calls vars).bind fun x => (r.value? calls vars).bind fun y => op.value? x y
  | .scall _ _ args sig => (args.values? calls vars).bind (calls sig)
  | _ => none

def Args.values? (calls : Callees) (vars : List (Option Value)) : Args → Option (List Value)
  | .nil => some []
  | .cons e rest =>
      (e.value? calls vars).bind fun v => (rest.values? calls vars).map fun vs => v :: vs

end

end Jspp.Compiler

namespace Jspp.Kernel

open Jspp.Compiler Jspp.Theory Qinterp

set_option autoImplicit false

/-! ## One instruction behind the other -/

/-- The interpreter at an address of that frame. -/
def site (f : StackFrame) (rest : List StackFrame) (st : Store) (linenum : Int)
    (stack : List Variant) (pc : Int) : Qinterp :=
  ⟨{ f with pc := pc } :: rest, stack, st, linenum⟩

/-- What an instruction works on there. -/
def siteAct (f : StackFrame) (depth : Nat) (st : Store) (linenum : Int) (stack : List Variant)
    (pc : Int) : Act :=
  ⟨{ f with pc := pc }, depth, stack, st, linenum⟩

section

variable {env : Env} {run : Run} {fuel : Nat} {f f' : StackFrame} {rest : List StackFrame}
  {st st' : Store} {linenum linenum' pc : Int} {stack stack' : List Variant}

theorem site_here (clean : f.err = .none) : Here pc (site f rest st linenum stack pc) :=
  ⟨rfl, congrArg some clean⟩

/-- An instruction that goes on behind itself. -/
theorem site_step (clean : f.err = .none) {i : Instr} {is : List Instr}
    (silent : ∀ a q, Qinterp.step env run fuel i a q = .ofOption ((a.exec env i).map q.put))
    (ran : (siteAct f (rest.length + 1) st linenum stack (pc + i.size)).exec env i =
      some (siteAct f' (rest.length + 1) st' linenum' stack' (pc + i.size))) :
    (runCode env run fuel (i :: is) (site f rest st linenum stack pc)).ending =
      (runCode env run fuel is (site f' rest st' linenum' stack' (pc + i.size))).ending := by
  have act : (site f rest st linenum stack pc).act? =
      some (siteAct f (rest.length + 1) st linenum stack pc) := rfl
  rw [runCode_cons act clean, silent]
  have read : (advance i (siteAct f (rest.length + 1) st linenum stack pc)).exec env i =
      some (siteAct f' (rest.length + 1) st' linenum' stack' (pc + i.size)) := ran
  rw [read, Option.map_some, Traced.ofOption, Traced.pure_bind]
  exact congrArg Traced.ending (if_pos rfl)

/-- An operator, wherever it stands. -/
theorem site_op (clean : f.err = .none) {op : OpCode} {js : List Instr}
    (ran : ∀ pc, (siteAct f (rest.length + 1) st linenum stack pc).exec0 op =
      some (siteAct f' (rest.length + 1) st' linenum stack' pc)) :
    (runCode env run fuel (.emit0 op :: js) (site f rest st linenum stack pc)).ending =
      (runCode env run fuel js (site f' rest st' linenum stack' (pc + 1))).ending :=
  site_step clean (fun _ _ => rfl) (ran _)

/-- An instruction at the end of a piece of code, wherever it leads. -/
theorem site_last (clean : f.err = .none) {i : Instr} {a : Act}
    (silent : ∀ a q, Qinterp.step env run fuel i a q = .ofOption ((a.exec env i).map q.put))
    (ran : (siteAct f (rest.length + 1) st linenum stack (pc + i.size)).exec env i = some a) :
    ∃ next, (runCode env run fuel [i] (site f rest st linenum stack pc)).ending =
      .done (⟨a.frame :: rest, a.stack, a.store, a.linenum⟩, next) := by
  have act : (site f rest st linenum stack pc).act? =
      some (siteAct f (rest.length + 1) st linenum stack pc) := rfl
  rw [runCode_cons act clean, silent]
  have read : (advance i (siteAct f (rest.length + 1) st linenum stack pc)).exec env i =
      some a := ran
  rw [read, Option.map_some, Traced.ofOption, Traced.pure_bind]
  split
  · exact ⟨_, rfl⟩
  · exact ⟨_, rfl⟩

/-- An instruction that leads to an address. -/
theorem site_moves (clean : f.err = .none) {i : Instr} {target : Int}
    (silent : ∀ a q, Qinterp.step env run fuel i a q = .ofOption ((a.exec env i).map q.put))
    (ran : (siteAct f (rest.length + 1) st linenum stack (pc + i.size)).exec env i =
      some (siteAct f' (rest.length + 1) st' linenum' stack' target)) :
    ∃ next, (runCode env run fuel [i] (site f rest st linenum stack pc)).ending =
      .done (site f' rest st' linenum' stack' target, next) :=
  site_last clean silent ran

end

/-! ## What a call leaves -/

/-- The stores differ in the variables of that frame and of those above it only. -/
structure SameElse (depth : Nat) (st st' : Store) : Prop where
  get : ∀ l, (∀ d k, depth ≤ d → l ≠ .local d k) → st'.get l = st.get l
  insts : st'.insts = st.insts

namespace SameElse

variable {depth depth' : Nat} {st st' st'' : Store}

theorem refl (depth : Nat) (st : Store) : SameElse depth st st := ⟨fun _ _ => rfl, rfl⟩

theorem trans (first : SameElse depth st st') (second : SameElse depth st' st'') :
    SameElse depth st st'' where
  get l outside := (second.get l outside).trans (first.get l outside)
  insts := second.insts.trans first.insts

theorem above (same : SameElse depth st st') (less : depth' ≤ depth) : SameElse depth' st st' where
  get l outside := same.get l fun d k least => outside d k (Nat.le_trans less least)
  insts := same.insts

theorem get_local (same : SameElse depth st st') {d : Nat} (below : d < depth) (k : Nat) :
    st'.get (.local d k) = st.get (.local d k) := by
  refine same.get _ fun e j least at_l => ?_
  cases at_l
  omega

end SameElse

/-- The interpreter behind a call: only the operand stack is another one. -/
structure Called (q : Qinterp) (stack : List Variant) (q' : Qinterp) : Prop where
  frames : q'.frames = q.frames
  stack : q'.stack = stack
  store : SameElse (q.frames.length + 1) q.store q'.store

/-! ## Operands -/

/-- The local variables of a frame have the values known of them. -/
structure Knows (vars : List (Option Value)) (f : StackFrame) (depth : Nat) (st : Store) :
    Prop where
  count : f.locals = vars.length
  value : ∀ k v, vars[k]? = some (some v) → st.get (.local depth k) = v.variant

theorem Knows.later {vars : List (Option Value)} {f : StackFrame} {depth : Nat} {st st' : Store}
    (known : Knows vars f depth st) (same : SameElse (depth + 1) st st') :
    Knows vars f depth st' where
  count := known.count
  value k v found := (same.get_local (Nat.lt_succ_self _) k).trans (known.value k v found)

/-- The operand on the stack has that value; only a variable of the frame is a reference. -/
inductive Operand (st : Store) (depth : Nat) : Bool → Variant → Value → Prop where
  | direct (v : Value) : Operand st depth false v.variant v
  | place {k : Nat} {v : Value} (found : st.get (.local depth k) = v.variant) :
      Operand st depth true (.ptr (.local depth k)) v

namespace Operand

variable {st st' : Store} {depth : Nat} {place : Bool} {w : Variant} {v : Value}

theorem value (operand : Operand st depth place w v) : st.operand depth w = v.variant := by
  cases operand with
  | direct => exact Store.operand_plain v.isPtr_variant
  | @place k _ found =>
      have plain : (st.get (.local depth k)).isPtr = false := by rw [found, v.isPtr_variant]
      rw [← Store.operand_once plain, found, Store.operand_plain v.isPtr_variant]

theorem deref (operand : Operand st depth place w v) : st.deref w = v.variant := by
  cases operand with
  | direct => cases v <;> rfl
  | place found => exact found

theorem plain (operand : Operand st depth false w v) : w = v.variant := by
  cases operand
  rfl

theorem later (operand : Operand st depth place w v) (same : SameElse (depth + 1) st st') :
    Operand st' depth place w v := by
  cases operand with
  | direct => exact .direct v
  | place found => exact .place ((same.get_local (Nat.lt_succ_self _) _).trans found)

/-- It does not look into the frame of a call. -/
theorem ne_local (operand : Operand st depth place w v) {d : Nat} (above : depth < d) (k : Nat) :
    w ≠ .ptr (.local d k) := by
  intro at_l
  cases operand with
  | direct =>
      have plain := v.isPtr_variant
      rw [at_l] at plain
      cases plain
  | place =>
      cases at_l
      omega

end Operand

/-- The operators compute their values. -/
theorem binop_value {op : BinOp} {x y v : Value} (value : op.value? x y = some v) {a : Act}
    {w w' : Variant} {stack : List Variant} {place place' : Bool}
    (operands : a.stack = w' :: w :: stack) (left : Operand a.store a.depth place w x)
    (right : Operand a.store a.depth place' w' y) :
    a.exec0 op.op = some { a with stack := v.variant :: stack } := by
  cases op with
  | add | sub | mult | lt | gt | lteq | gteq | binor | binand | xor | and | or =>
      cases value
      simp [BinOp.op, Act.exec0, Act.binop, operands, left.value, right.value,
        Variant.varAssignOpSub, Variant.varAssignOpMul, Variant.varAssignOpLT,
        Variant.varAssignOpLE, Variant.varAssignOpGT, Variant.varAssignOpGE, Variant.arith,
        Variant.varAssignOpBinOr, Variant.varAssignOpBinAnd, Variant.varAssignOpBinXOr,
        Variant.integral, Act.plus, Variant.varAssignOpPlus, Bool.and_comm,
        Bool.or_comm]
  | div | mod =>
      simp only [BinOp.value?] at value
      split at value
      · cases value
      · rename_i defined
        cases value
        simp [BinOp.op, Act.exec0, Act.binop, operands, left.value, right.value, defined,
          Variant.varAssignOpDiv, Variant.varAssignOpMod, Variant.arith, Variant.integral]
  | lshift | rshift | eq | neq => cases value

/-- The operators in front of one operand that is no reference. -/
theorem unary_code {env : Env} {run : Run} {fuel : Nat} {f : StackFrame} {rest : List StackFrame}
    {st : Store} {linenum : Int} (clean : f.err = .none) (u : Unary) {x v : Value}
    (value : u.code x.variant = some v.variant) (stack : List Variant) (pc : Int)
    (js : List Instr) :
    (runCode env run fuel (.emit0 u.op :: js)
      (site f rest st linenum (x.variant :: stack) pc)).ending =
        (runCode env run fuel js (site f rest st linenum (v.variant :: stack) (pc + 1))).ending :=
  site_op clean fun pc => by
    rw [exec0_unary, unop_value rfl x.isPtr_variant, value]
    rfl

theorem place_value {vars : List (Option Value)} {k : Nat} {v : Value}
    (value : (vars[k]?).join = some v) : k < vars.length ∧ vars[k]? = some (some v) := by
  cases at_k : vars[k]? with
  | none =>
      rw [at_k] at value
      cases value
  | some found =>
      rw [at_k] at value
      exact ⟨(List.getElem?_eq_some_iff.mp at_k).1, congrArg some value⟩

/-! ## Calls -/

/-- The operands on the stack, the last one on top, have the values of the arguments. -/
structure Handed (q : Qinterp) (os : List (Variant × Value)) (below : List Variant) : Prop where
  stack : q.stack = (os.map Prod.fst).reverse ++ below
  operands : ∀ o ∈ os, ∃ place, Operand q.store q.frames.length place o.1 o.2

/-- The methods named by the constants of a class answer what they are said to answer. -/
def Right (env : Env) (run : Run) (ctx : Nat) (calls : Callees) : Prop :=
  ∀ sig vs v, calls sig vs = some v → ∃ name, env.constText ctx sig = some name ∧
    ∀ q os below, os.map Prod.snd = vs → Handed q os below →
      ∃ q', (callStaticMethod env run name q).ending = .done (q', .none) ∧
        Called q (v.variant :: below) q'

section

variable {env : Env} {run : Run} {fuel : Nat} {f : StackFrame} {rest : List StackFrame}
  {vars : List (Option Value)} {calls : Callees}

/-- `OP_SCALL`. -/
theorem scall_code (clean : f.err = .none) (right : Right env run f.ctx calls) {st : Store}
    {os : List (Variant × Value)} {sig : Nat} {v : Value}
    (answer : calls sig (os.map Prod.snd) = some v)
    (operands : ∀ o ∈ os, ∃ place, Operand st (rest.length + 1) place o.1 o.2)
    (linenum : Int) (stack : List Variant) (pc : Int) :
    ∃ st' linenum', SameElse (rest.length + 2) st st' ∧ ∀ js,
      (runCode env run fuel (.emit1 .scall .const (some sig) :: js)
        (site f rest st linenum ((os.map Prod.fst).reverse ++ stack) pc)).ending =
        (runCode env run fuel js
          (site f rest st' linenum' (v.variant :: stack) (pc + 3))).ending := by
  obtain ⟨name, named, does⟩ := right sig _ v answer
  obtain ⟨q', ended, called⟩ := does
    (site f rest st linenum ((os.map Prod.fst).reverse ++ stack) (pc + 3)) os stack rfl
      ⟨rfl, operands⟩
  obtain ⟨frames', stack', st', linenum'⟩ := q'
  obtain ⟨frames, pushed, same⟩ := called
  cases frames
  cases pushed
  refine ⟨st', linenum', same, fun js => ?_⟩
  have act : (site f rest st linenum ((os.map Prod.fst).reverse ++ stack) pc).act? =
      some (siteAct f (rest.length + 1) st linenum ((os.map Prod.fst).reverse ++ stack) pc) := rfl
  have resumed : resume (site f rest st' linenum' (v.variant :: stack) (pc + 3)) .none =
      .pure (site f rest st' linenum' (v.variant :: stack) (pc + 3)) := by
    have cleared : ({ f with
        pc := pc + 3
        err := .none } : StackFrame) = { f with pc := pc + 3 } := by rw [← clean]
    show Traced.ofOption (some (Qinterp.mk ({ f with
        pc := pc + 3
        err := .none } :: rest) _ _ _)) = _
    rw [cleared]
    rfl
  have stepped : (step env run fuel (.emit1 .scall .const (some sig))
      (siteAct f (rest.length + 1) st linenum ((os.map Prod.fst).reverse ++ stack) (pc + 3))
      (site f rest st linenum ((os.map Prod.fst).reverse ++ stack) (pc + 3))).ending =
        .done (site f rest st' linenum' (v.variant :: stack) (pc + 3)) := by
    have text : env.constText f.ctx ((sig : Nat) : Int) = some name := named
    simp only [step, siteAct, text]
    rw [Traced.bind_done ended]
    show (resume (site f rest st' linenum' (v.variant :: stack) (pc + 3)) .none).ending = _
    rw [resumed]
    rfl
  rw [runCode_cons act clean]
  refine (congrArg Traced.ending (Traced.bind_done stepped _)).trans ?_
  have next : (site f rest st' linenum' (v.variant :: stack) (pc + 3)).pc = some (pc + 3) := rfl
  show Traced.ending (ite _ _ _) = _
  exact congrArg Traced.ending (if_pos next)

mutual

/-- The code of an expression with a value pushes one operand, and changes nothing else. -/
theorem value_code (clean : f.err = .none) (right : Right env run f.ctx calls) {st : Store}
    (known : Knows vars f (rest.length + 1) st) (e : Expr) {v : Value}
    (value : e.value? calls vars = some v) (linenum : Int) (stack : List Variant) (pc : Int) :
    ∃ w st' linenum', Operand st' (rest.length + 1) e.isPlace w v ∧
      SameElse (rest.length + 2) st st' ∧ ∀ js,
        (runCode env run fuel (e.code ++ js) (site f rest st linenum stack pc)).ending =
          (runCode env run fuel js
            (site f rest st' linenum' (w :: stack) (pc + e.size))).ending := by
  cases e with
  | push mode n =>
      cases mode with
      | im =>
          rw [Expr.value?] at value
          cases value
          exact ⟨_, st, linenum, .direct (.int n), .refl _ _, fun js =>
            site_step clean (fun _ _ => rfl) rfl⟩
      | _ => simp [Expr.value?] at value
  | lvalue mode k =>
      cases mode with
      | block =>
          rw [Expr.value?] at value
          obtain ⟨inside, at_k⟩ := place_value value
          refine ⟨_, st, linenum, .place (known.value k v at_k), .refl _ _, fun js =>
            site_step clean (fun _ _ => rfl) ?_⟩
          have bounds : (0 : Int) ≤ k ∧ (k : Int) < f.locals := by
            rw [known.count]
            omega
          show ((siteAct f _ st linenum stack _).resolveLoc env .block k).map _ = _
          rw [Act.resolveLoc, Act.qinterpResolve, siteAct]
          simp only [if_pos bounds]
          rfl
      | _ => simp [Expr.value?] at value
  | unary op e =>
      cases op with
      | negate =>
          rw [Expr.value?] at value
          split at value
          · cases value
          · rename_i plain
            obtain ⟨x, inner, rfl⟩ := Option.map_eq_some_iff.mp value
            have bare : e.isPlace = false := by simpa using plain
            obtain ⟨w, st', linenum', operand, same, ran⟩ :=
              value_code clean right known e inner linenum stack pc
            rw [bare] at operand
            refine ⟨_, st', linenum', .direct _, same, fun js => ?_⟩
            rw [Expr.code, List.append_assoc, ran, operand.plain]
            have negated : Unary.negate.code x.variant =
                some (Value.int (wrap32 (-x.num))).variant := by
              simp [Unary.code, Variant.varNegate]
            refine (unary_code clean .negate negated stack _ js).trans ?_
            simp [Expr.size, Expr.code, add_assoc]
      | not =>
          rw [Expr.value?] at value
          split at value
          · cases value
          · rename_i plain
            obtain ⟨x, inner, rfl⟩ := Option.map_eq_some_iff.mp value
            have bare : e.isPlace = false := by simpa using plain
            obtain ⟨w, st', linenum', operand, same, ran⟩ :=
              value_code clean right known e inner linenum stack pc
            rw [bare] at operand
            refine ⟨_, st', linenum', .direct _, same, fun js => ?_⟩
            rw [Expr.code, List.append_assoc, ran, operand.plain]
            have flipped : Unary.not.code x.variant =
                some (Value.truth (x.num == 0)).variant := by
              simp [Unary.code, Variant.varLogNot]
            refine (unary_code clean .not flipped stack _ js).trans ?_
            simp [Expr.size, Expr.code, add_assoc]
      | _ => simp [Expr.value?] at value
  | binary op l r =>
      rw [Expr.value?] at value
      obtain ⟨x, left, value⟩ := Option.bind_eq_some_iff.mp value
      obtain ⟨y, right', value⟩ := Option.bind_eq_some_iff.mp value
      obtain ⟨w, st', linenum', operand, same, ran⟩ :=
        value_code clean right known l left linenum stack pc
      obtain ⟨w', st'', linenum'', operand', same', ran'⟩ :=
        value_code clean right (known.later same) r right' linenum' (w :: stack) (pc + l.size)
      refine ⟨_, st'', linenum'', .direct _, same.trans same', fun js => ?_⟩
      rw [Expr.code, List.append_assoc, List.append_assoc, ran, ran', List.singleton_append,
        site_op clean fun pc => binop_value value rfl (operand.later same') operand']
      simp [Expr.size, Expr.code, add_assoc]
  | scall cls name args sig =>
      rw [Expr.value?] at value
      obtain ⟨vs, values, answer⟩ := Option.bind_eq_some_iff.mp value
      obtain ⟨os, st', linenum', rfl, operands, same, ran⟩ :=
        values_code clean right known args values linenum stack pc
      obtain ⟨st'', linenum'', same', ran'⟩ :=
        scall_code clean right answer operands linenum' stack (pc + codeSize args.code)
      refine ⟨_, st'', linenum'', .direct v, same.trans same', fun js => ?_⟩
      rw [Expr.code, List.append_assoc, ran, List.singleton_append, ran']
      simp [Expr.size, Expr.code, add_assoc]
  | _ => simp [Expr.value?] at value

/-- The code of arguments pushes one operand for each. -/
theorem values_code (clean : f.err = .none) (right : Right env run f.ctx calls) {st : Store}
    (known : Knows vars f (rest.length + 1) st) (args : Args)
    {vs : List Value} (values : args.values? calls vars = some vs) (linenum : Int)
    (stack : List Variant) (pc : Int) :
    ∃ (os : List (Variant × Value)) (st' : Store) (linenum' : Int), os.map Prod.snd = vs ∧
      (∀ o ∈ os, ∃ place, Operand st' (rest.length + 1) place o.1 o.2) ∧
      SameElse (rest.length + 2) st st' ∧ ∀ js,
        (runCode env run fuel (args.code ++ js) (site f rest st linenum stack pc)).ending =
          (runCode env run fuel js (site f rest st' linenum' ((os.map Prod.fst).reverse ++ stack)
            (pc + codeSize args.code))).ending := by
  cases args with
  | nil =>
      rw [Args.values?] at values
      cases values
      refine ⟨[], st, linenum, rfl, fun _ none => (List.not_mem_nil none).elim, .refl _ _,
        fun js => ?_⟩
      simp [Args.code]
  | cons e rest' =>
      rw [Args.values?] at values
      obtain ⟨v, value, values⟩ := Option.bind_eq_some_iff.mp values
      obtain ⟨vs, others, rfl⟩ := Option.map_eq_some_iff.mp values
      obtain ⟨w, st', linenum', operand, same, ran⟩ :=
        value_code clean right known e value linenum stack pc
      obtain ⟨os, st'', linenum'', rfl, operands, same', ran'⟩ :=
        values_code clean right (known.later same) rest' others linenum' (w :: stack) (pc + e.size)
      refine ⟨(w, v) :: os, st'', linenum'', rfl, ?_, same.trans same', fun js => ?_⟩
      · intro o mem
        rcases List.mem_cons.mp mem with rfl | mem
        · exact ⟨_, operand.later same'⟩
        · exact operands o mem
      · rw [Args.code, List.append_assoc, ran, ran']
        simp [Expr.size, add_assoc]

end

end

end Jspp.Kernel
