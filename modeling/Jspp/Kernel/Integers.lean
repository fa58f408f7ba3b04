/-
# Kernel.Integers -- methods over integers compute what their source says

For the statements of a method that works on integers in its local variables,
`Stmt.com` is a command that knows no addresses, no operand stack and no
interpreter: assignments, branches, loops and `return` on a list of variables,
those of an inner block behind those of the blocks around it.  Calls of static
methods answer what a table says.  A statement of another kind, and a value that is
not defined, is an undefined step.

The compiled code carries out that command: it ends where the command ends, with
the same values in the variables and the same answer, and touches nothing but the
variables of its own frame and of calls that are over.

* `Valuation`, `Stmt.com`: the variables, and what a statement does to them.
* `Setting`, `Stands`, `Answered`: the states of the machine that show a valuation.
* `Stmt.carried`: every statement is carried out by its code.
-/
import Jspp.Kernel.Values
import Jspp.Theory.Carried

namespace Jspp.Kernel

open Jspp.Compiler Jspp.Theory

set_option autoImplicit false

/-! ## Variables -/

/-- The variables of the open blocks, and how many of them each block declares, the innermost
block first. -/
structure Valuation where
  vars : List (Option Value)
  blocks : List Nat

namespace Valuation

def enter (n : Nat) (s : Valuation) : Option Valuation :=
  some ⟨s.vars ++ List.replicate n none, n :: s.blocks⟩

def leave (s : Valuation) : Option Valuation :=
  match s.blocks with
  | [] => none
  | n :: blocks => some ⟨s.vars.take (s.vars.length - n), blocks⟩

/-- A variable that has a value, or is given one. -/
def put (k : Nat) (v : Value) (s : Valuation) : Option Valuation :=
  if k < s.vars.length then some { s with vars := s.vars.set k (some v) } else none

def assign (calls : Callees) (k : Nat) (e : Expr) (s : Valuation) : Option Valuation :=
  (e.value? calls s.vars).bind fun v => s.put k v

/-- `a op= e`. -/
def compound (calls : Callees) (op : BinOp) (k : Nat) (e : Expr) (s : Valuation) :
    Option Valuation :=
  (e.value? calls s.vars).bind fun y => (s.vars[k]?).join.bind fun x =>
    (op.value? x y).bind fun v => s.put k v

/-- `++` and `--`, which count an int only. -/
def count (delta : Int) (k : Nat) (s : Valuation) : Option Valuation :=
  match (s.vars[k]?).join with
  | some (.int i) => s.put k (.int (wrap32 (i + delta)))
  | _ => none

/-- A test leads on where the value is not zero. -/
def test (calls : Callees) (e : Expr) (s : Valuation) : Option Bool :=
  if e.isPlace then none else (e.value? calls s.vars).map fun v => v.num != 0

end Valuation

end Jspp.Kernel

namespace Jspp.Compiler

open Jspp.Kernel Jspp.Theory

set_option autoImplicit false

/-- What an expression statement does to the variables. -/
def Expr.effect (calls : Callees) (e : Expr) (s : Valuation) : Option Valuation :=
  match e with
  | .assign (.lvalue .block k) e => s.assign calls k e
  | .init .block k e => s.assign calls k e
  | .assignOp op (.lvalue .block k) e => s.compound calls op k e
  | .drop (.unary .inc (.lvalue .block k)) | .drop (.unary .pinc (.lvalue .block k)) => s.count 1 k
  | .drop (.unary .dec (.lvalue .block k)) | .drop (.unary .pdec (.lvalue .block k)) =>
      s.count (-1) k
  | _ => none

/-- A statement as a command on the variables, with what a method returns as its answer. -/
def Stmt.com (calls : Callees) : Stmt → Com Valuation (Option Value)
  | .skip | .decl _ | .line _ => .skip
  | .seq s t => .seq (s.com calls) (t.com calls)
  | .expr e => .prim (e.effect calls)
  | .ret e => .ret fun s => (e.value? calls s.vars).map some
  | .vret => .ret fun _ => some none
  | .block n s =>
      .seq (.prim (Valuation.enter n)) (.seq (s.com calls) (.prim Valuation.leave))
  | .ite c s t => .ite (Valuation.test calls c) (s.com calls) (t.com calls)
  | .while c s => .while (Valuation.test calls c) (s.com calls)
  | .for (some c) (some p) s =>
      .while (Valuation.test calls c) (.seq (s.com calls) (.prim (p.effect calls)))
  | _ => .prim fun _ => none

end Jspp.Compiler

namespace Jspp.Kernel

open Jspp.Compiler Jspp.Theory Qinterp

set_option autoImplicit false

/-! ## The states of the machine that show a valuation -/

/-- Where a statement is run: the frame it began in and those below it, the operand stack, the
store it began with, and the blocks that stand around it. -/
structure Setting where
  start : StackFrame
  rest : List StackFrame
  stack : List Variant
  store : Store
  base : List Nat
  based : base ≠ []

/-- The number of its frame. -/
def Setting.depth (c : Setting) : Nat := c.rest.length + 1

/-- It is the same call, and has not returned anything. -/
structure SameFrame (f f' : StackFrame) : Prop where
  ctx : f'.ctx = f.ctx
  curmethod : f'.curmethod = f.curmethod
  stackcount : f'.stackcount = f.stackcount
  retval : f'.retval = f.retval

/-- The frame and the store show the valuation. -/
structure Alike (c : Setting) (s : Valuation) (f : StackFrame) (st : Store) : Prop where
  known : Knows s.vars f c.depth st
  blocks : counts f.blockframes = s.blocks ++ c.base
  room : (counts f.blockframes).sum ≤ f.locals
  same : SameFrame c.start f
  others : SameElse c.depth c.store st

/-- The interpreter shows the valuation. -/
def Stands (c : Setting) (s : Valuation) (q : Qinterp) : Prop :=
  ∃ f, q.frames = f :: c.rest ∧ q.stack = c.stack ∧ Alike c s f q.store

/-- The method has returned, with that value or with none. -/
def Answered (c : Setting) (r : Option Value) (q : Qinterp) : Prop :=
  ∃ f, q.frames = f :: c.rest ∧ q.stack = c.stack ∧ f.err = .ret ∧
    (∃ f', SameFrame c.start f' ∧
      f.ctx = f'.ctx ∧ f.curmethod = f'.curmethod ∧ f.stackcount = f'.stackcount ∧
        f.retval = r.elim f'.retval Value.variant) ∧
    (counts f.blockframes).sum ≤ f.locals ∧ SameElse c.depth c.store q.store

section

variable {c : Setting} {s : Valuation} {q : Qinterp}

theorem answered_apart (r : Option Value) (q : Qinterp) (answered : Answered c r q) (k : Int) :
    ¬ Here k q := by
  obtain ⟨f, frames, _, returned, _⟩ := answered
  rintro ⟨_, clean⟩
  rw [Qinterp.err, frames] at clean
  cases returned.symm.trans (Option.some.inj clean)

theorem here_apart {k l : Int} (ne : k ≠ l) (q : Qinterp) (here : Here k q) : ¬ Here l q :=
  fun there => ne (Option.some.inj (here.1.symm.trans there.1))

/-- A state that shows a valuation, with its parts. -/
theorem Stands.site {k : Int} (stands : Stands c s q) (here : Here k q) :
    ∃ f st linenum, q = Kernel.site f c.rest st linenum c.stack k ∧ f.err = .none ∧
      Alike c s f st := by
  obtain ⟨f, frames, stack, alike⟩ := stands
  obtain ⟨frames', stack', st, linenum⟩ := q
  cases frames
  cases stack
  have pc : f.pc = k := Option.some.inj here.1
  exact ⟨f, st, linenum, by rw [← pc]; rfl, Option.some.inj here.2, alike⟩

/-- A frame shows its valuation at any address. -/
theorem Alike.goto {f : StackFrame} {st : Store} (alike : Alike c s f st) (k : Int) :
    Alike c s { f with pc := k } st where
  known := ⟨alike.known.count, alike.known.value⟩
  blocks := alike.blocks
  room := alike.room
  same := ⟨alike.same.ctx, alike.same.curmethod, alike.same.stackcount, alike.same.retval⟩
  others := alike.others

/-- A call in between is over. -/
theorem Alike.later {f : StackFrame} {st st' : Store} (alike : Alike c s f st)
    (same : SameElse (c.depth + 1) st st') : Alike c s f st' where
  known := alike.known.later same
  blocks := alike.blocks
  room := alike.room
  same := alike.same
  others := alike.others.trans (same.above (Nat.le_succ _))

theorem Alike.right {env : Env} {run : Run} {calls : Callees} {f : StackFrame} {st : Store}
    (alike : Alike c s f st) (right : Right env run c.start.ctx calls) :
    Right env run f.ctx calls := by
  rw [alike.same.ctx]
  exact right

theorem stands_site {f : StackFrame} {st : Store} {linenum k : Int} (alike : Alike c s f st) :
    Stands c s (Kernel.site f c.rest st linenum c.stack k) :=
  ⟨_, rfl, rfl, alike.goto k⟩

end

/-! ## Pieces that carry out a primitive command -/

section

variable {env : Env} {run : Run} {fuel : Nat} {c : Setting} {here there : Int} {is : List Instr}

/-- Code that does to each state what the step does to its valuation. -/
theorem carried_prim {g : Valuation → Option Valuation}
    (does : ∀ s s' f st linenum, g s = some s' → Alike c s f st → f.err = .none →
      ∃ f' st' linenum' next, f'.err = .none ∧ Alike c s' f' st' ∧
        (runCode env run fuel is (site f c.rest st linenum c.stack here)).ending =
          .done (site f' c.rest st' linenum' c.stack there, next)) :
    Carried (Stands c) (Answered c) (Here here) (Here there) (.prim g)
      (straight env run fuel is) where
  forward := by
    intro s q o stands front ran fine
    cases ran with
    | prim eq =>
        subst eq
        cases stepped : g s with
        | none =>
            rw [stepped] at fine
            exact (fine rfl).elim
        | some s' =>
            obtain ⟨f, st, linenum, rfl, clean, alike⟩ := stands.site front
            obtain ⟨f', st', linenum', next, clean', alike', ended⟩ :=
              does s s' f st linenum stepped alike clean
            exact ⟨_, ⟨next, ended⟩, stands_site alike', site_here clean'⟩
  backward := by
    rintro s q q' stands front ⟨next, ended⟩
    refine ⟨_, .prim rfl, ?_⟩
    cases stepped : g s with
    | none => exact .inl rfl
    | some s' =>
        obtain ⟨f, st, linenum, rfl, clean, alike⟩ := stands.site front
        obtain ⟨f', st', linenum', next', clean', alike', ended'⟩ :=
          does s s' f st linenum stepped alike clean
        rw [ended'] at ended
        cases ended
        exact .inr ⟨stands_site alike', site_here clean'⟩

theorem runs_skip_iff {s : Valuation} {o : Com.Result Valuation (Option Value)} :
    Com.Runs (.prim some) s o ↔ Com.Runs .skip s o := by
  constructor
  · intro ran
    cases ran with
    | prim eq =>
        cases eq
        exact .skip
  · intro ran
    cases ran
    exact .prim rfl

/-- Code that leaves every valuation. -/
theorem carried_skip
    (does : ∀ s f st linenum, Alike c s f st → f.err = .none →
      ∃ f' st' linenum' next, f'.err = .none ∧ Alike c s f' st' ∧
        (runCode env run fuel is (site f c.rest st linenum c.stack here)).ending =
          .done (site f' c.rest st' linenum' c.stack there, next)) :
    Carried (Stands c) (Answered c) (Here here) (Here there) .skip
      (straight env run fuel is) := by
  refine (carried_prim ?_).congr fun _ _ => runs_skip_iff
  intro s s' f st linenum eq
  cases eq
  exact does s f st linenum

/-- A step that is never defined. -/
theorem carried_undefined {p : Passage Qinterp} :
    Carried (Stands c) (Answered c) (Here here) (Here there) (.prim fun _ => none) p where
  forward := by
    intro s q o _ _ ran fine
    cases ran with
    | prim eq => exact (fine eq.symm).elim
  backward _ _ _ _ _ _ := ⟨_, .prim rfl, .inl rfl⟩

/-- Nothing at all. -/
theorem carried_nothing {p : Passage Qinterp} (same : ∀ q q', p q q' ↔ q' = q) :
    Carried (Stands c) (Answered c) (Here here) (Here here) .skip p where
  forward := by
    intro s q o stands front ran _
    cases ran
    exact ⟨q, (same q q).mpr rfl, stands, front⟩
  backward := by
    intro s q q' stands front ran
    rw [(same q q').mp ran]
    exact ⟨_, .skip, .inr ⟨stands, front⟩⟩

end

/-! ## Expression statements -/

theorem SameElse.set {depth : Nat} {st st' : Store} (h : SameElse depth st st') (k : Nat)
    (v : Variant) : SameElse depth st (st'.set (.local depth k) v) where
  get l outside := by
    rw [Store.get_set_ne st' v (outside depth k (Nat.le_refl _)), h.get l outside]
  insts := h.insts

section

variable {c : Setting} {s s' : Valuation} {f : StackFrame} {st : Store} {calls : Callees}

/-- A variable is written where the valuation is. -/
theorem Alike.put {k : Nat} {v : Value} (alike : Alike c s f st) (put : s.put k v = some s') :
    Alike c s' f (st.set (.local c.depth k) v.variant) := by
  unfold Valuation.put at put
  split at put
  case isFalse => cases put
  case isTrue inside =>
      cases put
      refine ⟨⟨by rw [alike.known.count, List.length_set], ?_⟩, alike.blocks, alike.room,
        alike.same, alike.others.set k _⟩
      intro j w found
      by_cases at_k : j = k
      · subst at_k
        rw [List.getElem?_set_self inside] at found
        cases found
        exact Store.get_set_self _ _ _
      · have apart : Loc.local c.depth j ≠ .local c.depth k := by
          intro same
          cases same
          exact at_k rfl
        rw [List.getElem?_set_ne (Ne.symm at_k)] at found
        rw [Store.get_set_ne _ _ apart]
        exact alike.known.value j w found

theorem put_inside {k : Nat} {v : Value} (put : s.put k v = some s') : k < s.vars.length := by
  unfold Valuation.put at put
  split at put
  case isFalse => cases put
  case isTrue inside => exact inside

/-- What `OP_ASSIGN` stores is the value of the operand. -/
theorem Operand.assigned {depth : Nat} {place : Bool} {w : Variant} {v : Value}
    (operand : Operand st depth place w v) (l : Loc) : Act.assigned st l w = v.variant := by
  have value := operand.deref
  cases w with
  | ptr l' =>
      have found : st.get l' = v.variant := value
      by_cases same : l' = l
      · rw [Act.assigned, if_pos same, found]
        cases v <;> rfl
      · rw [Act.assigned, if_neg same, found]
  | _ => exact value

section

variable {env : Env} {run : Run} {fuel : Nat} {linenum : Int} {stack : List Variant} {pc : Int}
  {js : List Instr} (clean : f.err = .none)

include clean

/-- The place of a variable. -/
theorem lvalue_code {k : Nat} (inside : k < s.vars.length) (alike : Alike c s f st) :
    (runCode env run fuel (.emit1 .lvalue .block (some k) :: js)
      (site f c.rest st linenum stack pc)).ending =
        (runCode env run fuel js
          (site f c.rest st linenum (.ptr (.local c.depth k) :: stack) (pc + 3))).ending := by
  refine site_step clean (fun _ _ => rfl) ?_
  have bounds : (0 : Int) ≤ k ∧ (k : Int) < f.locals := by
    rw [alike.known.count]
    omega
  show ((siteAct f _ st linenum stack _).resolveLoc env .block k).map _ = _
  rw [Act.resolveLoc, Act.qinterpResolve, siteAct]
  simp only [if_pos bounds]
  rfl

theorem rvalue_code {w v : Variant} (value : st.deref w = v) :
    (runCode env run fuel (.emit0 .rvalue :: js)
      (site f c.rest st linenum (w :: stack) pc)).ending =
        (runCode env run fuel js (site f c.rest st linenum (v :: stack) (pc + 1))).ending :=
  site_op clean fun pc => by
    rw [← value]
    rfl

theorem dup_code {l : Loc} :
    (runCode env run fuel (.emit0 .dup :: js)
      (site f c.rest st linenum (.ptr l :: stack) pc)).ending =
        (runCode env run fuel js
          (site f c.rest st linenum (.ptr l :: .ptr l :: stack) (pc + 1))).ending :=
  site_op clean fun _ => rfl

/-- `OP_ASSIGN` into a variable. -/
theorem assign_code {l : Loc} {w : Variant} {v : Value} (value : Act.assigned st l w = v.variant) :
    (runCode env run fuel (.emit0 .assign :: js)
      (site f c.rest st linenum (w :: .ptr l :: stack) pc)).ending =
        (runCode env run fuel js
          (site f c.rest (st.set l v.variant) linenum stack (pc + 1))).ending :=
  site_op clean fun pc => by
    show (siteAct f _ st linenum (w :: .ptr l :: stack) pc).assign = _
    rw [Act.assign, siteAct]
    simp only [value, if_neg v.variant_ne_delegate]
    rfl

/-- The code of an assignment, with or without the `OP_RVALUE`. -/
theorem assignment_code (right : Right env run f.ctx calls) {k : Nat} {e : Expr}
    (alike : Alike c s f st) (assigned : s.assign calls k e = some s') (pc : Int) :
    (∃ st' linenum', Alike c s' f st' ∧ ∀ js, (runCode env run fuel
      (.emit1 .lvalue .block (some k) :: (e.code ++ .emit0 .rvalue :: .emit0 .assign :: js))
        (site f c.rest st linenum c.stack pc)).ending =
      (runCode env run fuel js
        (site f c.rest st' linenum' c.stack (pc + 3 + e.size + 1 + 1))).ending) ∧
    ∃ st' linenum', Alike c s' f st' ∧ ∀ js, (runCode env run fuel
      (.emit1 .lvalue .block (some k) :: (e.code ++ .emit0 .assign :: js))
        (site f c.rest st linenum c.stack pc)).ending =
      (runCode env run fuel js
        (site f c.rest st' linenum' c.stack (pc + 3 + e.size + 1))).ending := by
  obtain ⟨v, value, put⟩ := Option.bind_eq_some_iff.mp assigned
  obtain ⟨w, st', linenum', operand, same, ran⟩ := value_code clean right alike.known e value
    linenum (.ptr (.local c.depth k) :: c.stack) (pc + 3)
  have written : Alike c s' f (st'.set (.local c.depth k) v.variant) := (alike.later same).put put
  have stored : Operand st' c.depth false v.variant v := .direct v
  refine ⟨⟨_, linenum', written, fun js => ?_⟩, ⟨_, linenum', written, fun js => ?_⟩⟩
  · rw [lvalue_code clean (put_inside put) alike, ran, rvalue_code clean operand.deref,
      assign_code clean (stored.assigned _)]
  · rw [lvalue_code clean (put_inside put) alike, ran, assign_code clean (operand.assigned _)]

/-- `++` and `--` as statements. -/
theorem count_code {delta : Int} {k : Nat} {op : UnOp} (alike : Alike c s f st)
    (counted : s.count delta k = some s')
    (does : (∀ a : Act, a.exec0 op.op = a.preCount delta) ∨
      ∀ a : Act, a.exec0 op.op = a.postCount delta) (pc : Int) :
    ∃ st' linenum', Alike c s' f st' ∧ ∀ js,
      (runCode env run fuel ((Expr.drop (.unary op (.lvalue .block k))).code ++ js)
        (site f c.rest st linenum c.stack pc)).ending =
      (runCode env run fuel js (site f c.rest st' linenum' c.stack
        (pc + (Expr.drop (.unary op (.lvalue .block k))).size))).ending := by
  unfold Valuation.count at counted
  split at counted
  case h_2 => cases counted
  case h_1 i at_k =>
      obtain ⟨inside, found⟩ := place_value at_k
      have held : st.get (.local c.depth k) = .int i := alike.known.value k _ found
      refine ⟨_, linenum, alike.put counted, fun js => ?_⟩
      have shape : (Expr.drop (.unary op (.lvalue .block k))).code ++ js =
          .emit1 .lvalue .block (some k) :: .emit0 op.op :: .emit0 .pop :: js := by
        simp [Expr.code]
      have size : pc + 3 + 1 + 1 = pc + (Expr.drop (.unary op (.lvalue .block k))).size := by
        simp [Expr.size, Expr.code]
        omega
      rw [shape, ← size, lvalue_code clean inside alike]
      have stepped : ∃ v, ∀ pc,
          (siteAct f c.depth st linenum (.ptr (.local c.depth k) :: c.stack) pc).exec0 op.op =
            some (siteAct f c.depth (st.set (.local c.depth k) (.int (wrap32 (i + delta)))) linenum
              (v :: c.stack) pc) := by
        rcases does with pre | post
        · refine ⟨.int (wrap32 (i + delta)), fun pc => ?_⟩
          rw [pre, Act.preCount, siteAct]
          simp only [held, Act.count]
          rfl
        · refine ⟨.int i, fun pc => ?_⟩
          rw [post, Act.postCount, siteAct]
          simp only [held, Act.count]
          rfl
      obtain ⟨v, stepped⟩ := stepped
      rw [site_op clean stepped]
      exact site_op clean fun pc => rfl

/-- `a op= e` as a statement. -/
theorem compound_code (right : Right env run f.ctx calls) {op : BinOp} {k : Nat} {e : Expr}
    (alike : Alike c s f st) (computed : s.compound calls op k e = some s') (pc : Int) :
    ∃ st' linenum', Alike c s' f st' ∧ ∀ js,
      (runCode env run fuel (.emit1 .lvalue .block (some k) :: .emit0 .dup ::
        (e.code ++ .emit0 .rvalue :: .emit0 op.op :: .emit0 .assign :: js))
          (site f c.rest st linenum c.stack pc)).ending =
      (runCode env run fuel js
        (site f c.rest st' linenum' c.stack (pc + 3 + 1 + e.size + 1 + 1 + 1))).ending := by
  obtain ⟨y, added, computed⟩ := Option.bind_eq_some_iff.mp computed
  obtain ⟨x, left, computed⟩ := Option.bind_eq_some_iff.mp computed
  obtain ⟨v, value, put⟩ := Option.bind_eq_some_iff.mp computed
  obtain ⟨inside, found⟩ := place_value left
  obtain ⟨w, st', linenum', operand, same, ran⟩ := value_code clean right alike.known e added
    linenum (.ptr (.local c.depth k) :: .ptr (.local c.depth k) :: c.stack) (pc + 3 + 1)
  have alike' := alike.later same
  have target : Operand st' c.depth true (.ptr (.local c.depth k)) x :=
    .place (alike'.known.value k x found)
  have addend : Operand st' c.depth false y.variant y := .direct y
  have stored : Operand st' c.depth false v.variant v := .direct v
  refine ⟨_, linenum', alike'.put put, fun js => ?_⟩
  rw [lvalue_code clean inside alike, dup_code clean, ran, rvalue_code clean operand.deref,
    site_op clean fun pc => binop_value value rfl target addend,
    assign_code clean (stored.assigned _)]

/-- The code of an expression statement does what the statement does to the valuation. -/
theorem effect_code (right : Right env run f.ctx calls) {e : Expr} (alike : Alike c s f st)
    (effect : e.effect calls s = some s') (pc : Int) :
    ∃ st' linenum', Alike c s' f st' ∧ ∀ js,
      (runCode env run fuel (e.code ++ js) (site f c.rest st linenum c.stack pc)).ending =
        (runCode env run fuel js
          (site f c.rest st' linenum' c.stack (pc + e.size))).ending := by
  unfold Expr.effect at effect
  split at effect
  case h_1 k e =>
      obtain ⟨⟨st', linenum', alike', ran⟩, _⟩ := assignment_code clean right alike effect pc
      refine ⟨st', linenum', alike', fun js => ?_⟩
      have shape : (Expr.assign (.lvalue .block k) e).code ++ js =
          .emit1 .lvalue .block (some k) :: (e.code ++ .emit0 .rvalue :: .emit0 .assign :: js) := by
        simp [Expr.code]
      have size : pc + 3 + e.size + 1 + 1 = pc + (Expr.assign (.lvalue .block k) e).size := by
        simp [Expr.size, Expr.code]
        omega
      rw [shape, ran, size]
  case h_2 k e =>
      obtain ⟨_, st', linenum', alike', ran⟩ := assignment_code clean right alike effect pc
      refine ⟨st', linenum', alike', fun js => ?_⟩
      have shape : (Expr.init .block k e).code ++ js =
          .emit1 .lvalue .block (some k) :: (e.code ++ .emit0 .assign :: js) := by
        simp [Expr.code]
      have size : pc + 3 + e.size + 1 = pc + (Expr.init .block k e).size := by
        simp [Expr.size, Expr.code]
        omega
      rw [shape, ran, size]
  case h_3 op k e =>
      obtain ⟨st', linenum', alike', ran⟩ := compound_code clean right alike effect pc
      refine ⟨st', linenum', alike', fun js => ?_⟩
      have shape : (Expr.assignOp op (.lvalue .block k) e).code ++ js =
          .emit1 .lvalue .block (some k) :: .emit0 .dup ::
            (e.code ++ .emit0 .rvalue :: .emit0 op.op :: .emit0 .assign :: js) := by
        simp [Expr.code]
      have size : pc + 3 + 1 + e.size + 1 + 1 + 1 =
          pc + (Expr.assignOp op (.lvalue .block k) e).size := by
        simp [Expr.size, Expr.code]
        omega
      rw [shape, ran, size]
  case h_4 | h_6 => exact count_code clean alike effect (.inl fun _ => rfl) pc
  case h_5 | h_7 => exact count_code clean alike effect (.inr fun _ => rfl) pc
  case h_8 => cases effect

end

end

/-! ## The pieces of a statement -/

section

variable {env : Env} {run : Run} {fuel : Nat} {c : Setting} {b : Nat} {calls : Callees}

theorem expr_carried (right : Right env run c.start.ctx calls) (e : Expr) :
    Carried (Stands c) (Answered c) (Here b) (Here ↑(b + e.size)) (.prim (e.effect calls))
      (straight env run fuel e.code) :=
  carried_prim fun s s' f st linenum effect alike clean => by
    obtain ⟨st', linenum', alike', ran⟩ := effect_code clean (alike.right right) alike effect b
    have whole := ran []
    rw [List.append_nil] at whole
    exact ⟨f, st', linenum', _, clean, alike', whole⟩

theorem jmp_code {f : StackFrame} {st : Store} {linenum pc : Int} {stack : List Variant}
    (clean : f.err = .none) (target : Int) :
    ∃ next, (runCode env run fuel [.jmp (some target)]
      (site f c.rest st linenum stack pc)).ending =
        .done (site f c.rest st linenum stack target, next) :=
  site_moves clean (fun _ _ => rfl) rfl

/-- An expression statement with the jump behind it. -/
theorem exprJump_carried (right : Right env run c.start.ctx calls) (e : Expr) (target : Int) :
    Carried (Stands c) (Answered c) (Here b) (Here target) (.prim (e.effect calls))
      (straight env run fuel (e.code ++ [.jmp (some target)])) :=
  carried_prim fun s s' f st linenum effect alike clean => by
    obtain ⟨st', linenum', alike', ran⟩ := effect_code clean (alike.right right) alike effect b
    obtain ⟨next, jumped⟩ := jmp_code clean target
    exact ⟨f, st', linenum', next, clean, alike', (ran _).trans jumped⟩

/-- An instruction that leaves every valuation and goes on at an address. -/
theorem silent_carried {i : Instr} {target : Int}
    (silent : ∀ a q, Qinterp.step env run fuel i a q = .ofOption ((a.exec env i).map q.put))
    (does : ∀ s f st linenum, Alike c s f st → ∃ f' linenum', f'.err = f.err ∧ Alike c s f' st ∧
      (siteAct f c.depth st linenum c.stack (b + i.size)).exec env i =
        some (siteAct f' c.depth st linenum' c.stack target)) :
    Carried (Stands c) (Answered c) (Here b) (Here target) .skip (straight env run fuel [i]) :=
  carried_skip fun s f st linenum alike clean => by
    obtain ⟨f', linenum', same, alike', ran⟩ := does s f st linenum alike
    obtain ⟨next, ended⟩ := site_moves clean silent ran
    exact ⟨f', st, linenum', next, same.trans clean, alike', ended⟩

theorem jmp_carried (target : Int) :
    Carried (Stands c) (Answered c) (Here b) (Here target) .skip
      (straight env run fuel [.jmp (some target)]) :=
  silent_carried (fun _ _ => rfl) fun _ f _ linenum alike => ⟨f, linenum, rfl, alike, rfl⟩

theorem line_carried (n : Int) :
    Carried (Stands c) (Answered c) (Here b) (Here ↑(b + 3)) .skip
      (straight env run fuel [.im .line n]) :=
  silent_carried (fun _ _ => rfl) fun _ f _ _ alike => ⟨f, n, rfl, alike, rfl⟩

/-- A break target is no part of the valuation. -/
theorem setbreak_carried (n : Int) :
    Carried (Stands c) (Answered c) (Here b) (Here ↑(b + 3)) .skip
      (straight env run fuel [.im .setbreak n]) := by
  refine silent_carried (fun _ _ => rfl) fun s f st linenum alike => ?_
  have blocks := alike.blocks
  cases open_blocks : f.blockframes with
  | nil =>
      rw [open_blocks] at blocks
      exact absurd (List.append_eq_nil_iff.mp blocks.symm).2 c.based
  | cons bf rest =>
      have same : counts f.blockframes = bf.localcount :: counts rest := by
        rw [open_blocks]
        rfl
      refine ⟨{ f with blockframes := { bf with
        blockcount := f.blockframes.length, breakpc := n, loop := some ↑b } :: rest }, linenum,
        rfl, ⟨⟨alike.known.count, alike.known.value⟩, same.symm.trans blocks, ?_,
          ⟨alike.same.ctx, alike.same.curmethod, alike.same.stackcount, alike.same.retval⟩,
          alike.others⟩, ?_⟩
      · have room := alike.room
        rw [same] at room
        exact room
      · show (siteAct f c.depth st linenum c.stack _).setBreak _ n = _
        rw [Act.setBreak, siteAct]
        simp only [open_blocks]
        rw [siteAct]
        simp

/-! ### Blocks -/

theorem get_mapSlots_outside {st : Store} {depth lo hi k : Nat} {g : Variant → Variant}
    (outside : ¬(lo ≤ k ∧ k < hi)) :
    (st.mapSlots depth lo hi g).get (.local depth k) = st.get (.local depth k) := by
  show (if depth = depth ∧ lo ≤ k ∧ k < hi then _ else _) = _
  rw [if_neg fun inside => outside inside.2]
  rfl

theorem SameElse.mapSlots {depth : Nat} {st st' : Store} (h : SameElse depth st st')
    (lo hi : Nat) (g : Variant → Variant) : SameElse depth st (st'.mapSlots depth lo hi g) where
  get := by
    intro l outside
    rw [← h.get l outside]
    cases l with
    | «local» d k =>
        show (if d = depth ∧ lo ≤ k ∧ k < hi then _ else _) = _
        rw [if_neg fun inside => outside d k (Nat.le_of_eq inside.1.symm) rfl]
        rfl
    | _ => rfl
  insts := h.insts

theorem enter_carried (n : Nat) :
    Carried (Stands c) (Answered c) (Here b) (Here ↑(b + 3)) (.prim (Valuation.enter n))
      (straight env run fuel [.im .enter n]) :=
  carried_prim fun s s' f st linenum entered alike clean => by
    cases entered
    have ran : (siteAct f (c.rest.length + 1) st linenum c.stack (b + 3)).exec env (.im .enter n) =
        some (siteAct { f with
          locals := f.locals + n
          blockframes := Act.newBlock n f :: f.blockframes } (c.rest.length + 1)
            (st.mapSlots c.depth f.locals (f.locals + n) fun _ => .void) linenum c.stack (b + 3)) :=
      rfl
    obtain ⟨next, ended⟩ := site_moves clean (fun _ _ => rfl) ran
    refine ⟨_, _, linenum, next, ?_, ⟨⟨?_, ?_⟩, ?_, ?_, ?_, ?_⟩, ended⟩
    · exact clean
    · show f.locals + n = _
      rw [alike.known.count, List.length_append, List.length_replicate]
    · intro k v found
      have inside : k < s.vars.length := by
        by_contra outside
        rw [List.getElem?_append_right (by omega)] at found
        rw [List.getElem?_replicate] at found
        split at found <;> cases found
      rw [List.getElem?_append_left inside] at found
      rw [get_mapSlots_outside (by rw [alike.known.count]; omega)]
      exact alike.known.value k v found
    · show n :: counts f.blockframes = _
      rw [alike.blocks]
      rfl
    · show n + (counts f.blockframes).sum ≤ f.locals + n
      have room := alike.room
      omega
    · exact ⟨alike.same.ctx, alike.same.curmethod, alike.same.stackcount, alike.same.retval⟩
    · exact alike.others.mapSlots _ _ _

/-- `leaveBlock` in a frame with a block to leave. -/
theorem leaveBlock_counts {f : StackFrame} {n : Nat} {ns : List Nat}
    (blocks : counts f.blockframes = n :: ns) (room : (counts f.blockframes).sum ≤ f.locals) :
    ∃ rest, counts rest = ns ∧ ns.sum ≤ f.locals - n ∧ n ≤ f.locals ∧
      ∀ a : Act, a.frame.blockframes = f.blockframes → a.frame.locals = f.locals →
        a.leaveBlock = some { a with
          frame := { a.frame with locals := f.locals - n, blockframes := rest }
          store := a.store.mapSlots a.depth (f.locals - n) f.locals fun _ => .void } := by
  cases open_blocks : f.blockframes with
  | nil =>
      rw [open_blocks] at blocks
      cases blocks
  | cons bf rest =>
      rw [open_blocks] at blocks
      obtain ⟨rfl, rfl⟩ := List.cons.inj blocks
      rw [open_blocks, counts_cons, List.sum_cons] at room
      have below : (counts rest).sum ≤ f.locals - bf.localcount := by omega
      refine ⟨rest, rfl, below, by omega, fun a here same => ?_⟩
      rw [Act.leaveBlock, here]
      simp only [same]
      rw [if_pos (by omega)]

theorem leave_carried :
    Carried (Stands c) (Answered c) (Here b) (Here ↑(b + 1)) (.prim Valuation.leave)
      (straight env run fuel [.emit0 .leave]) :=
  carried_prim fun s s' f st linenum left alike clean => by
    unfold Valuation.leave at left
    split at left
    case h_1 => cases left
    case h_2 n blocks open_blocks =>
        cases left
        have stand : counts f.blockframes = n :: (blocks ++ c.base) := by
          rw [alike.blocks, open_blocks]
          rfl
        obtain ⟨rest, below, room, least, left⟩ := leaveBlock_counts stand alike.room
        have ran : (siteAct f (c.rest.length + 1) st linenum c.stack (b + 1)).exec env
            (.emit0 .leave) = some (siteAct { f with
              locals := f.locals - n
              blockframes := rest } (c.rest.length + 1)
                (st.mapSlots c.depth (f.locals - n) f.locals fun _ => .void) linenum c.stack
                  (b + 1)) := left _ rfl rfl
        obtain ⟨next, ended⟩ := site_moves clean (fun _ _ => rfl) ran
        have count := alike.known.count
        refine ⟨_, _, linenum, next, ?_, ⟨⟨?_, ?_⟩, ?_, ?_, ?_, ?_⟩, ended⟩
        · exact clean
        · show f.locals - n = _
          rw [List.length_take]
          omega
        · intro k v found
          have inside : k < s.vars.length - n := by
            by_contra outside
            rw [List.getElem?_take, if_neg outside] at found
            cases found
          rw [List.getElem?_take, if_pos inside] at found
          rw [get_mapSlots_outside (by omega)]
          exact alike.known.value k v found
        · exact below
        · show (counts rest).sum ≤ f.locals - n
          rw [below]
          exact room
        · exact ⟨alike.same.ctx, alike.same.curmethod, alike.same.stackcount, alike.same.retval⟩
        · exact alike.others.mapSlots _ _ _

/-! ### Returns -/

/-- Leaving the innermost block with a return value. -/
theorem returned_of_leave {s : Valuation} {f : StackFrame} {st : Store} (alike : Alike c s f st)
    (r : Option Value) (linenum : Int) :
    ∃ f' st', f'.err = f.err ∧
      (∀ pc, (siteAct { f with retval := r.elim f.retval Value.variant } c.depth st linenum c.stack
        pc).leaveBlock = some (siteAct f' c.depth st' linenum c.stack pc)) ∧
      ∀ pc, Answered c r (site { f' with err := .ret } c.rest st' linenum c.stack pc) := by
  obtain ⟨n, ns, blocks⟩ : ∃ n ns, counts f.blockframes = n :: ns := by
    cases open_blocks : counts f.blockframes with
    | nil =>
        have blocks := alike.blocks
        rw [open_blocks] at blocks
        exact absurd (List.append_eq_nil_iff.mp blocks.symm).2 c.based
    | cons n ns => exact ⟨n, ns, rfl⟩
  obtain ⟨rest, below, room, _, left⟩ := leaveBlock_counts blocks alike.room
  have others : SameElse c.depth c.store
      (st.mapSlots c.depth (f.locals - n) f.locals fun _ => .void) := alike.others.mapSlots _ _ _
  have fits : (counts rest).sum ≤ f.locals - n := by
    rw [below]
    exact room
  refine ⟨{ f with
    retval := r.elim f.retval Value.variant
    locals := f.locals - n
    blockframes := rest }, _, rfl, fun pc => left _ rfl rfl, fun pc =>
      ⟨_, rfl, rfl, rfl, ⟨f, alike.same, rfl, rfl, rfl, rfl⟩, fits, others⟩⟩

/-- A piece that answers. -/
theorem carried_ret {there : Int} {is : List Instr} {g : Valuation → Option (Option Value)}
    (does : ∀ s r f st linenum, g s = some r → Alike c s f st → f.err = .none →
      ∃ q next, Answered c r q ∧
        (runCode env run fuel is (site f c.rest st linenum c.stack b)).ending = .done (q, next)) :
    Carried (Stands c) (Answered c) (Here b) (Here there) (.ret g) (straight env run fuel is) where
  forward := by
    intro s q o stands front ran fine
    cases ran with
    | ret eq =>
        subst eq
        cases answer : g s with
        | none =>
            rw [answer] at fine
            exact (fine rfl).elim
        | some r =>
            obtain ⟨f, st, linenum, rfl, clean, alike⟩ := stands.site front
            obtain ⟨q', next, answered, ended⟩ := does s r f st linenum answer alike clean
            exact ⟨q', ⟨next, ended⟩, answered⟩
  backward := by
    rintro s q q' stands front ⟨next, ended⟩
    refine ⟨_, .ret rfl, ?_⟩
    cases answer : g s with
    | none => exact .inl rfl
    | some r =>
        obtain ⟨f, st, linenum, rfl, clean, alike⟩ := stands.site front
        obtain ⟨q'', next', answered, ended'⟩ := does s r f st linenum answer alike clean
        rw [ended'] at ended
        cases ended
        exact .inr answered

theorem ret_carried (right : Right env run c.start.ctx calls) (e : Expr) {there : Int} :
    Carried (Stands c) (Answered c) (Here b) (Here there)
      (.ret fun s => (e.value? calls s.vars).map some)
      (straight env run fuel (e.code ++ [.emit0 .ret])) :=
  carried_ret fun s r f st₀ linenum₀ answer before clean => by
    obtain ⟨v, value, rfl⟩ := Option.map_eq_some_iff.mp answer
    obtain ⟨w, st, linenum, operand, same, ran⟩ :=
      value_code clean (before.right right) before.known e value linenum₀ c.stack b
    have alike := before.later same
    obtain ⟨f', st', _, left, answered⟩ := returned_of_leave alike (some v) linenum
    have taken : ∀ pc, (siteAct f (c.rest.length + 1) st linenum (w :: c.stack) pc).takeRetval.bind
        Act.pop = some (siteAct { f with retval := v.variant } (c.rest.length + 1) st linenum
          c.stack pc) := by
      intro pc
      rw [Act.takeRetval, siteAct]
      simp only [operand.deref]
      rfl
    have returned : ∀ pc, (siteAct f (c.rest.length + 1) st linenum (w :: c.stack) pc).exec env
        (.emit0 .ret) = some (siteAct { f' with err := .ret } (c.rest.length + 1) st' linenum
          c.stack pc) := by
      intro pc
      show (siteAct f _ st linenum (w :: c.stack) pc).ret = _
      rw [Act.ret, taken, Option.bind_some]
      show Option.map _ (siteAct _ _ st linenum c.stack pc).leaveBlock = _
      rw [show (siteAct { f with retval := v.variant } (c.rest.length + 1) st linenum c.stack
        pc).leaveBlock = _ from left pc]
      rfl
    obtain ⟨next, ended⟩ := site_moves clean (fun _ _ => rfl) (returned _)
    exact ⟨_, next, answered _, (ran _).trans ended⟩

theorem vret_carried {there : Int} :
    Carried (Stands c) (Answered c) (Here b) (Here there) (.ret fun _ => some none)
      (straight env run fuel [.emit0 .leave, .emit0 .vret]) :=
  carried_ret fun s r f st linenum answer alike clean => by
    cases answer
    obtain ⟨f', st', same, left, answered⟩ := returned_of_leave alike none linenum
    have ran : (siteAct f' (c.rest.length + 1) st' linenum c.stack (b + 1 + 1)).exec env
        (.emit0 .vret) = some (siteAct { f' with err := .ret } (c.rest.length + 1) st' linenum
          c.stack (b + 1 + 1)) := rfl
    obtain ⟨next, ended⟩ := site_moves (same.trans clean) (fun _ _ => rfl) ran
    have behind : ∀ pc, (siteAct f (c.rest.length + 1) st linenum c.stack pc).exec0 .leave =
        some (siteAct f' (c.rest.length + 1) st' linenum c.stack pc) := fun pc => left pc
    exact ⟨_, next, answered _, (site_op clean behind).trans ended⟩

/-! ### Tests -/

theorem testTop_variant (env : Env) {a : Act} {v : Value} {stack : List Variant}
    (top : a.stack = v.variant :: stack) : a.testTop env = some (some v.num, a) := by
  cases v <;> simp [Act.testTop, top, Value.num, Variant.ofBool]

/-- A test with the jump behind it goes on behind itself, or at the target of the jump. -/
theorem test_carried (right : Right env run c.start.ctx calls) (e : Expr) (exit : Int) :
    Tests (Stands c) (Here b) (Here ↑(b + e.size + 3)) (Here exit) (Valuation.test calls e)
      (straight env run fuel (e.code ++ [.im .jmpz exit])) := by
  have does : ∀ s f st linenum yes, Valuation.test calls e s = some yes → Alike c s f st →
      f.err = .none → ∃ st' linenum' next, Alike c s f st' ∧
        (runCode env run fuel (e.code ++ [.im .jmpz exit])
          (site f c.rest st linenum c.stack b)).ending =
            .done (site f c.rest st' linenum' c.stack
              (if yes then ↑(b + e.size + 3) else exit), next) := by
    intro s f st linenum yes tested alike clean
    unfold Valuation.test at tested
    split at tested
    case isTrue => cases tested
    case isFalse plain =>
        obtain ⟨v, value, rfl⟩ := Option.map_eq_some_iff.mp tested
        have bare : e.isPlace = false := by simpa using plain
        obtain ⟨w, st', linenum', operand, same, ran⟩ :=
          value_code clean (alike.right right) alike.known e value linenum c.stack b
        rw [bare] at operand
        obtain ⟨next, ended⟩ : ∃ next, (runCode env run fuel [.im .jmpz exit]
            (site f c.rest st' linenum' (v.variant :: c.stack) (b + e.size))).ending =
              .done (site f c.rest st' linenum' c.stack
                (if v.num != 0 then ↑(b + e.size + 3) else exit), next) := by
          refine site_moves clean (fun _ _ => rfl) ?_
          show (siteAct f c.depth st' linenum' (v.variant :: c.stack) _).jumpIf env true exit = _
          rw [Act.jumpIf_value (testTop_variant env rfl) rfl]
          cases decided : v.num != 0 <;> rfl
        rw [operand.plain] at ran
        exact ⟨st', linenum', next, alike.later same, (ran _).trans ended⟩
  constructor
  · intro s q yes stands front tested
    obtain ⟨f, st, linenum, rfl, clean, alike⟩ := stands.site front
    obtain ⟨st', linenum', next, alike', ended⟩ := does s f st linenum yes tested alike clean
    refine ⟨_, ⟨next, ended⟩, stands_site alike', ?_⟩
    cases yes <;> exact site_here clean
  · rintro s q q' stands front ⟨next, ended⟩ yes tested
    obtain ⟨f, st, linenum, rfl, clean, alike⟩ := stands.site front
    obtain ⟨st', linenum', next', alike', ended'⟩ := does s f st linenum yes tested alike clean
    rw [ended'] at ended
    cases ended
    refine ⟨stands_site alike', ?_⟩
    cases yes <;> exact site_here clean

/-! ## Statements -/

theorem size_expr_pos (e : Expr) : 0 < e.size := by
  cases e <;> simp [Expr.size, Expr.code]

/-- A statement without code does nothing. -/
theorem meaning_nothing (b : Nat) (s : Stmt) (empty : s.size = 0) (q q' : Qinterp) :
    s.meaning env run fuel b q q' ↔ q' = q := by
  cases s with
  | skip | decl _ =>
      rw [Stmt.meaning]
      exact eq_comm
  | seq s t =>
      rw [Stmt.size] at empty
      have first := meaning_nothing b s (by omega)
      have second := meaning_nothing (b + s.size) t (by omega)
      rw [Stmt.meaning]
      constructor
      · rintro ⟨u, ran, ⟨_, rest⟩ | ⟨_, rfl⟩⟩
        · rw [(second u q').mp rest, (first q u).mp ran]
        · exact (first q _).mp ran
      · rintro rfl
        refine ⟨_, (first _ _).mpr rfl, ?_⟩
        by_cases here : Here ↑(b + s.size) q'
        · exact .inl ⟨here, (second _ _).mpr rfl⟩
        · exact .inr ⟨here, rfl⟩
  | expr e =>
      rw [Stmt.size] at empty
      have some := size_expr_pos e
      omega
  | _ =>
      rw [Stmt.size] at empty
      omega

/-- The code of every statement carries out its command. -/
theorem Stmt.carried (right : Right env run c.start.ctx calls) (b : Nat) (s : Stmt) :
    Carried (Stands c) (Answered c) (Here b) (Here ↑(b + s.size)) (s.com calls)
      (s.meaning env run fuel b) := by
  have away : ∀ (r : Option Value) (q : Qinterp) {k : Nat}, Answered c r q → ¬ Here k q :=
    fun r q k answered => answered_apart r q answered k
  have apart : ∀ {k l : Nat}, k ≠ l → ∀ q, Here k q → ¬ Here l q := fun ne =>
    here_apart fun same => ne (Int.ofNat.inj same)
  cases s with
  | skip | decl _ =>
      rw [Stmt.meaning, Stmt.com]
      exact carried_nothing fun _ _ => eq_comm
  | seq s t =>
      rw [Stmt.meaning, Stmt.com, Stmt.size, ← add_assoc]
      exact (Stmt.carried right b s).seq (fun r q => away r q) (Stmt.carried right (b + s.size) t)
  | line n =>
      rw [Stmt.meaning, Stmt.com]
      exact line_carried n
  | expr e =>
      rw [Stmt.meaning, Stmt.com]
      exact expr_carried right e
  | ret e =>
      rw [Stmt.meaning, Stmt.com]
      exact ret_carried right e
  | vret =>
      rw [Stmt.meaning, Stmt.com]
      exact vret_carried
  | block n s =>
      rw [Stmt.meaning, Stmt.com, Stmt.size,
        show b + (3 + s.size + 1) = b + 3 + s.size + 1 by omega]
      exact (enter_carried n).seq (fun r q => away r q)
        ((Stmt.carried right (b + 3) s).seq (fun r q => away r q) leave_carried)
  | ite e s t =>
      rw [Stmt.meaning, Stmt.com, Stmt.size,
        show b + (e.size + 3 + s.size + 3 + t.size) =
          b + e.size + 3 + s.size + 3 + t.size by omega]
      refine Carried.ite (fun r q => away r q) (apart (by omega)) ?_ (test_carried right e _)
        ((Stmt.carried right _ s).andMove (fun r q => away r q) (jmp_carried _))
        (Stmt.carried right _ t)
      intro q q' there other
      have empty : t.size = 0 := by
        by_contra some
        exact apart (by omega) q there other
      exact meaning_nothing _ t empty q q'
  | «while» e s =>
      rw [Stmt.meaning, Stmt.com, Stmt.size,
        show b + (3 + e.size + 3 + s.size + 3 + 3) =
          b + 3 + e.size + 3 + s.size + 3 + 3 by omega]
      refine (setbreak_carried _).moveAnd (fun r q => away r q) ?_
      exact Carried.while (fun r q answered => ⟨away r q answered, away r q answered⟩)
        (apart (by omega)) (apart (by omega)) (test_carried right e _)
        ((Stmt.carried right _ s).andMove (fun r q => away r q) (jmp_carried _))
        (setbreak_carried _)
  | «for» cond post s =>
      cases cond with
      | none =>
          simp only [Stmt.com]
          exact carried_undefined
      | some e =>
          cases post with
          | none =>
              simp only [Stmt.com]
              exact carried_undefined
          | some p =>
              have test : codeSize e.code = e.size := rfl
              rw [Stmt.meaning, Stmt.com, Stmt.size, optCode, postSize, test,
                show b + (3 + e.size + 3 + (3 + p.size + 3) + s.size + 3 + 3) =
                  b + 3 + e.size + 3 + (3 + p.size + 3) + s.size + 3 + 3 by omega]
              refine (setbreak_carried _).moveAnd (fun r q => away r q) ?_
              refine Carried.while (fun r q answered => ⟨away r q answered, away r q answered⟩)
                (apart (by omega)) (apart (by omega)) (test_carried right e _) ?_
                (setbreak_carried _)
              refine (jmp_carried _).moveAnd (fun r q => away r q) ?_
              refine (Stmt.carried right _ s).seq (fun r q => away r q) ?_
              exact (jmp_carried _).moveAnd (fun r q => away r q) (exprJump_carried right p _)
  | brk | cont | throw _ | switch _ _ _ | «try» _ _ _ _ _ =>
      simp only [Stmt.com]
      exact carried_undefined

end

end Jspp.Kernel
