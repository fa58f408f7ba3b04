/-
# Compiler.Flag -- returns, and the flag along them

`sreturn` sets `hasretval` at a return with a value and refuses a bare return while it is
set.  So what the flag is, and what is refused, is a matter of the returns of a statement in
the order of the text.  Expressions have none, and leave the flag.

* `Stmt.returns`, `retRun`: the returns of a statement, and the flag along them.
* `Keeps`, `parsers_keep`: the parser functions that leave the flag.
-/
import Jspp.Compiler.ParseStmt

namespace Jspp.Compiler

open Jspp.Kernel

set_option autoImplicit false

/-! ## The returns of a statement -/

mutual

/-- The returns in the order of the text; true for one with a value. -/
def Stmt.returns : Stmt → List Bool
  | .skip | .decl _ | .line _ | .expr _ | .brk | .cont | .throw _ => []
  | .ret _ => [true]
  | .vret => [false]
  | .seq s t => s.returns ++ t.returns
  | .block _ s | .while _ s | .for _ _ s => s.returns
  | .ite _ s t => s.returns ++ t.returns
  | .switch _ _ cases => cases.returns
  | .try s _ _ handler fin => s.returns ++ (handler.returns ++ fin.returns)

def Cases.returns : Cases → List Bool
  | .nil => []
  | .case _ s rest => s.returns ++ rest.returns
  | .default s rest => s.returns ++ rest.returns

end

-- Its equations, made once for the proofs behind.
section
attribute [local simp] Stmt.returns Cases.returns
end

/-- `hasretval` along some returns; none when `sreturn` refuses one. -/
def retRun : Bool → List Bool → Option Bool
  | b, [] => some b
  | _, true :: rs => retRun true rs
  | b, false :: rs => if b then none else retRun b rs

theorem retRun_append (b : Bool) (rs more : List Bool) :
    retRun b (rs ++ more) = (retRun b rs).bind fun c => retRun c more := by
  induction rs generalizing b with
  | nil => rfl
  | cons r rs ih =>
      cases r with
      | true => exact ih true
      | false =>
          cases b with
          | true => rfl
          | false => exact ih false

/-- One piece behind another. -/
theorem retRun_trans {a b c : Bool} {rs more : List Bool} (first : retRun a rs = some b)
    (second : retRun b more = some c) : retRun a (rs ++ more) = some c := by
  rw [retRun_append, first]
  exact second

/-! ## The flag -/

namespace Comp

variable {s : Comp}

@[simp] theorem hasretval_next : s.next.hasretval = s.hasretval := rfl

@[simp] theorem hasretval_skip (t : Token) : (s.skip t).hasretval = s.hasretval := by
  unfold skip
  split <;> rfl

@[simp] theorem hasretval_setRhs (b : Bool) : (s.setRhs b).hasretval = s.hasretval := rfl

@[simp] theorem hasretval_setupError (e : Int) : (s.setupError e).hasretval = s.hasretval := rfl

@[simp] theorem hasretval_giveUp : s.giveUp.hasretval = s.hasretval := rfl

@[simp] theorem hasretval_emitArg (arg : Option Int) :
    (s.emitArg arg).hasretval = s.hasretval := rfl

@[simp] theorem hasretval_patch (pc : Nat) : (s.patch pc).hasretval = s.hasretval := rfl

@[simp] theorem hasretval_emitConst (v : Variant) : (s.emitConst v).2.hasretval = s.hasretval := rfl

@[simp] theorem hasretval_emitConstChars (text : List Char) :
    (s.emitConstChars text).2.hasretval = s.hasretval := rfl

@[simp] theorem hasretval_emit0 (op : OpCode) :
    (s.emit0 op).hasretval = (s.hasretval || decide (op = .ret)) := rfl

@[simp] theorem hasretval_emit1 (op : OpCode) (mode : ArgSource) :
    (s.emit1 op mode).hasretval = (s.hasretval || decide (op = .ret)) := rfl

@[simp] theorem hasretval_emit2 (op : OpCode) (mode mode2 : ArgSource) :
    (s.emit2 op mode mode2).hasretval = (s.hasretval || decide (op = .ret)) := rfl

@[simp] theorem hasretval_emitIm (op : OpCode) (arg : Option Int) :
    (s.emitIm op arg).hasretval = (s.hasretval || decide (op = .ret)) := rfl

end Comp

@[simp] theorem hasretval_symtabEnter (pc : Nat) (s : Comp) :
    (symtabEnter pc s).hasretval = s.hasretval := rfl

theorem hasretval_symtabExit {s s' : Comp} {n : Nat} (run : symtabExit s = (n, s')) :
    s'.hasretval = s.hasretval := by
  unfold symtabExit at run
  split at run <;> (cases run; rfl)

theorem hasretval_symtabNote {s s' : Comp} {name : List Char} {isptr : Bool} {v : BlockVar}
    (run : symtabNote name isptr s = (v, s')) : s'.hasretval = s.hasretval := by
  unfold symtabNote at run
  simp only at run
  split at run <;> (cases run; rfl)

@[simp] theorem UnOp.op_ne_ret (op : UnOp) : op.op ≠ .ret := by
  cases op <;> decide

@[simp] theorem BinOp.op_ne_ret (op : BinOp) : op.op ≠ .ret := by
  cases op <;> decide

/-! ## Expressions -/

/-- The function leaves the flag. -/
def Keeps {α : Type} (f : Comp → Comp × α) : Prop :=
  ∀ {s s' : Comp} {a : α}, f s = (s', a) → s'.hasretval = s.hasretval

/-- The recursive entries for expressions leave the flag. -/
structure ParsersKeep (P : Parsers) : Prop where
  expr : ∀ g, Keeps (P.expr g)
  deref : ∀ g e, Keeps (P.deref g e)
  morefactors : ∀ g e, Keeps (P.morefactors g e)
  moreterms : ∀ g e, Keeps (P.moreterms g e)
  morerelops : ∀ g e, Keeps (P.morerelops g e)
  morelogop : ∀ g e, Keeps (P.morelogop g e)

section

variable {P : Parsers} (keep : ParsersKeep P) (g : Scope)
include keep

theorem arglistLoop_keeps (n : Nat) (args : Args) : Keeps (arglistLoop P g n args) := by
  intro s s' a run
  induction n generalizing args s with
  | zero =>
      cases run
      rfl
  | succ n ih =>
      simp -iota only [arglistLoop] at run
      split at run
      · cases run
        rfl
      · split at run
        rename_i s₁ e read
        have first := keep.expr g read
        split at run
        · cases run
          exact first
        · rw [ih _ run, Comp.hasretval_skip, first]

theorem arglist_call_keeps (jsp : Option (List Char)) (name : List Char) (base new' : Bool) :
    Keeps (arglist_call P g jsp name base new') := by
  intro s s' a run
  simp -iota only [arglist_call] at run
  split at run
  rename_i s₁ args good read
  have first := arglistLoop_keeps keep g _ _ read
  split at run
  · cases jsp with
    | none =>
        cases run
        cases base <;> cases new' <;> simp [first]
    | some cls =>
        cases run
        simp [first]
  · cases run
    exact first

theorem assignTail_keeps (l : Expr) : Keeps (assignTail P g l) := by
  intro s s' a run
  simp -iota only [assignTail] at run
  split at run
  rename_i s₁ r read
  have first := keep.expr g read
  cases run
  simp [first]

theorem objderef_keeps (recv : Expr) : Keeps (objderef P g recv) := by
  intro s s' a run
  simp -iota only [objderef] at run
  split at run
  · cases run
    rfl
  split at run
  · split at run
    rename_i s₁ args sig read
    have first := arglist_call_keeps keep g _ _ _ _ read
    split at run
    · cases run
      simpa using first
    · simpa [first] using keep.deref g _ run
  · split at run
    rename_i idx s₁ const
    have first : s₁.hasretval = s.hasretval := by
      cases const
      simp
    split at run
    · simpa [first] using assignTail_keeps keep g _ run
    · simpa [first] using keep.deref g _ run

theorem indexLoop_keeps (n : Nat) (args : Args) : Keeps (indexLoop P g n args) := by
  intro s s' a run
  induction n generalizing args s with
  | zero =>
      cases run
      rfl
  | succ n ih =>
      simp -iota only [indexLoop] at run
      split at run
      · split at run
        rename_i s₁ e read
        have first := keep.expr g read
        rw [ih _ run, Comp.hasretval_skip, first]
      · cases run
        rfl

theorem arrayIndexCall_keeps (recv : Expr) : Keeps (arrayIndexCall P g recv) := by
  intro s s' a run
  simp -iota only [arrayIndexCall] at run
  split at run
  rename_i s₁ args read
  have first := indexLoop_keeps keep g _ _ read
  split at run
  · cases run
    exact first
  · split at run
    rename_i idx s₂ const
    cases const
    cases run
    simpa using first

theorem derefTail_keeps (recv : Expr) : Keeps (derefTail P g recv) := by
  intro s s' a run
  simp -iota only [derefTail] at run
  split at run
  · split at run
    · cases run
      rfl
    · simpa using objderef_keeps keep g _ run
  · split at run
    · exact arrayIndexCall_keeps keep g _ run
    · cases run
      rfl

theorem singletonCall_keeps : Keeps (singletonCall P g) := by
  intro s s' a run
  simp -iota only [singletonCall] at run
  split at run
  · split at run
    · cases run
      rfl
    · split at run
      · cases run
        rfl
      split at run
      · split at run
        rename_i s₁ args sig read
        have first := arglist_call_keeps keep g _ _ _ _ read
        split at run
        · cases run
          simpa using first
        · cases run
          simpa using first
      · split at run
        rename_i idx s₁ const
        cases const
        split at run
        · cases run
          simp
        · cases run
          simp
  · split at run
    · split at run
      rename_i s₁ args sig read
      have first := arglist_call_keeps keep g _ _ _ _ read
      split at run
      · cases run
        simpa using first
      · cases run
        simpa using first
    · cases run
      rfl

theorem singletonCallHandler_keeps : Keeps (singletonCallHandler P g) := by
  intro s s' a run
  simp -iota only [singletonCallHandler] at run
  split at run
  rename_i s₁ e good read
  have first := singletonCall_keeps keep g read
  split at run
  · rw [keep.deref g _ run, first]
  · cases run
    exact first

theorem singletonVarHandler_keeps (vdp : Vardef) : Keeps (singletonVarHandler P g vdp) := by
  intro s s' a run
  simp -iota only [singletonVarHandler] at run
  split at run
  · cases run
    rfl
  split at run
  rename_i s₁ e₁ index
  have indexed : s₁.hasretval = s.hasretval := by
    unfold indexTail at index
    split at index
    · simpa using arrayIndexCall_keeps keep g _ index
    · cases index
      simp
  split at run
  rename_i s₂ e₂ assign
  have assigned : s₂.hasretval = s.hasretval := by
    unfold assignIf at assign
    split at assign
    · rw [assignTail_keeps keep g _ assign, indexed]
    · cases assign
      exact indexed
  rw [keep.deref g _ run, assigned]

omit keep in
theorem literal_keeps {s s' : Comp} {e : Expr} (h : literal s = some (s', e)) :
    s'.hasretval = s.hasretval := by
  unfold literal pushArg pushConst at h
  split at h <;> first | (cases h; simp) | cases h

omit keep in
theorem arrayLoop_keeps (addidx n : Nat) (elems : Args) : Keeps (arrayLoop addidx n elems) := by
  intro s s' a run
  induction n generalizing elems s with
  | zero =>
      cases run
      rfl
  | succ n ih =>
      simp -iota only [arrayLoop] at run
      split at run
      · split at run
        · cases run
          simp
        · rename_i s₁ e lit
          have first := literal_keeps lit
          rw [ih _ run]
          simpa using first
      · cases run
        rfl

omit keep in
theorem arraydef_keeps : Keeps (arraydef P g) := by
  intro s s' a run
  simp -iota only [arraydef] at run
  split at run
  rename_i addidx s₁ first
  cases first
  split at run
  rename_i clsidx s₂ second
  cases second
  split at run
  · cases run
    rfl
  · simp -iota only [arrayTail] at run
    split at run
    rename_i s₃ elems good read
    have first := arrayLoop_keeps _ _ _ read
    have same : s₃.hasretval = s.hasretval := by simpa using first
    split at run
    · cases run
      exact same
    · split at run
      · cases run
        exact same
      · cases run
        exact same

theorem new_expr_keeps : Keeps (new_expr P g) := by
  intro s s' a run
  simp -iota only [new_expr] at run
  split at run
  · cases run
    rfl
  split at run
  rename_i clsidx s₁ const
  cases const
  split at run
  · split at run
    · cases run
      rfl
    · simp -iota only [newTail] at run
      split at run
      rename_i s₂ args sig read
      have first := arglist_call_keeps keep g _ _ _ _ read
      have same : s₂.hasretval = s.hasretval := by simpa using first
      split at run
      · cases run
        exact same
      · split at run
        · cases run
          exact same
        · cases run
          exact same
  · cases run
    rfl

theorem baseCall_keeps : Keeps (baseCall P g) := by
  intro s s' a run
  simp -iota only [baseCall] at run
  split at run
  · cases run
    rfl
  split at run
  · cases run
    rfl
  split at run
  rename_i s₁ args sig read
  have first := arglist_call_keeps keep g _ _ _ _ read
  have same : s₁.hasretval = s.hasretval := by simpa using first
  split at run
  · cases run
    exact same
  · simpa [same] using keep.deref g _ run

theorem singleton_keeps : Keeps (singleton P g) := by
  intro s s' a run
  simp -iota only [singleton] at run
  split at run
  · split at run
    · exact singletonCallHandler_keeps keep g run
    · exact singletonVarHandler_keeps keep g _ run
  · simpa using arraydef_keeps (P := P) g run
  · split at run
    rename_i s₁ e read
    have first := keep.expr g read
    split at run
    · cases run
      exact first
    · cases run
      exact first
  · exact new_expr_keeps keep g run
  · exact baseCall_keeps keep g run
  · split at run
    · rename_i s₁ e lit
      have first := literal_keeps lit
      cases run
      exact first
    · cases run
      rfl

omit keep in
theorem popUnlessRhs_keeps (e : Expr) : Keeps (popUnlessRhs e) := by
  intro s s' a run
  unfold popUnlessRhs at run
  split at run <;> (cases run; simp)

omit keep in
theorem postIncDec_keeps (t : Token) (op : UnOp) (e : Expr) : Keeps (postIncDec t op e) := by
  intro s s' a run
  unfold postIncDec at run
  split at run
  · simpa using popUnlessRhs_keeps _ run
  · cases run
    rfl

theorem prefixed_keeps : Keeps (prefixed P g) := by
  intro s s' a run
  simp -iota only [prefixed] at run
  split at run
  · split at run
    rename_i s₁ e read
    have first := singleton_keeps keep g read
    cases run
    simpa using first
  · simpa using singleton_keeps keep g run
  · split at run
    rename_i s₁ e read
    have first := singleton_keeps keep g read
    simpa [first] using popUnlessRhs_keeps _ run
  · split at run
    rename_i s₁ e read
    have first := singleton_keeps keep g read
    simpa [first] using popUnlessRhs_keeps _ run
  · split at run
    rename_i s₁ e read
    have first := singleton_keeps keep g read
    cases run
    simpa using first
  · exact singleton_keeps keep g run

theorem factor_keeps : Keeps (factor P g) := by
  intro s s' a run
  simp -iota only [factor] at run
  split at run
  rename_i s₁ e₁ read
  split at run
  rename_i s₂ e₂ inc
  rw [postIncDec_keeps _ _ _ run, postIncDec_keeps _ _ _ inc, prefixed_keeps keep g read]

theorem morefactors_keeps (l : Expr) : Keeps (morefactors P g l) := by
  intro s s' a run
  simp -iota only [morefactors] at run
  split at run
  · cases run
    rfl
  · split at run
    rename_i s₁ r read
    have first := factor_keeps keep g read
    split at run
    · simpa [first] using keep.morefactors g _ run
    · cases run
      simpa using first

theorem term_keeps : Keeps (term P g) := by
  intro s s' a run
  simp -iota only [term] at run
  split at run
  rename_i s₁ e read
  have first := factor_keeps keep g read
  split at run
  · rw [keep.morefactors g _ run, first]
  · cases run
    exact first

theorem moreterms_keeps (l : Expr) : Keeps (moreterms P g l) := by
  intro s s' a run
  simp -iota only [moreterms] at run
  split at run
  · split at run
    rename_i s₁ r read
    have first := keep.expr g read
    have same : s₁.hasretval = s.hasretval := by simpa using first
    split at run
    · simpa [same] using keep.moreterms g _ run
    · cases run
      simpa using same
  · split at run
    · cases run
      rfl
    · split at run
      rename_i s₁ r read
      have first := term_keeps keep g read
      split at run
      · simpa [first] using keep.moreterms g _ run
      · cases run
        simpa using first

theorem relop_keeps : Keeps (relop P g) := by
  intro s s' a run
  simp -iota only [relop] at run
  split at run
  rename_i s₁ e read
  have first := term_keeps keep g read
  split at run
  · rw [keep.moreterms g _ run, first]
  · cases run
    exact first

theorem morerelops_keeps (l : Expr) : Keeps (morerelops P g l) := by
  intro s s' a run
  simp -iota only [morerelops] at run
  split at run
  · cases run
    rfl
  · split at run
    rename_i s₁ r read
    have first := relop_keeps keep g read
    split at run
    · simpa [first] using keep.morerelops g _ run
    · cases run
      simpa using first

theorem logop_keeps : Keeps (logop P g) := by
  intro s s' a run
  simp -iota only [logop] at run
  split at run
  rename_i s₁ e read
  have first := relop_keeps keep g read
  split at run
  · rw [keep.morerelops g _ run, first]
  · cases run
    exact first

theorem morelogop_keeps (l : Expr) : Keeps (morelogop P g l) := by
  intro s s' a run
  simp -iota only [morelogop] at run
  split at run
  · split at run
    rename_i s₁ r read
    have first := logop_keeps keep g read
    split at run
    · simpa [first] using keep.morelogop g _ run
    · cases run
      simpa using first
  · split at run
    · split at run
      rename_i s₁ r read
      have first := logop_keeps keep g read
      have same : s₁.hasretval = s.hasretval := by simpa using first
      split at run
      · simpa [same] using keep.morelogop g _ run
      · cases run
        exact same
    · split at run
      · split at run
        rename_i s₁ e read
        have first := assignTail_keeps keep g _ read
        split at run
        · rw [keep.morelogop g _ run, first]
        · cases run
          exact first
      · cases run
        rfl

theorem expr_keeps : Keeps (expr P g) := by
  intro s s' a run
  simp -iota only [expr] at run
  split at run
  rename_i s₁ e read
  have first := logop_keeps keep g read
  split at run
  · rw [keep.morelogop g _ run, first]
  · cases run
    exact first

end

theorem giveUp_keeps {α : Type} (a : α) : Keeps fun s => (s.giveUp, a) := by
  intro s s' b run
  cases run
  rfl

theorem parsers_keep (n : Nat) : ParsersKeep (parsers n) := by
  induction n with
  | zero =>
      exact ⟨fun _ => giveUp_keeps _, fun _ => giveUp_keeps, fun _ => giveUp_keeps,
        fun _ => giveUp_keeps, fun _ => giveUp_keeps, fun _ => giveUp_keeps⟩
  | succ n keep =>
      exact ⟨expr_keeps keep, derefTail_keeps keep, morefactors_keeps keep,
        moreterms_keeps keep, morerelops_keeps keep, morelogop_keeps keep⟩

end Jspp.Compiler
