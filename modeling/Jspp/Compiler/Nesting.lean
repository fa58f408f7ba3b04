/-
# Compiler.Nesting -- brackets, and what stands between them

The expression parser takes brackets in pairs, and takes a comma or a semicolon only between
brackets.  So where an expression ends is told by its brackets alone, and two readings that
both stop in front of a comma or a semicolon stop at the same one.

* `nest`, `Passes`: how deep in brackets the tokens lead.
* `Passes.unique`: the end of an expression.
* `Crosses`, `parsers_cross`: the parser functions that take brackets in pairs.
-/
import Jspp.Compiler.Emits
import Jspp.Compiler.ParseStmt

namespace Jspp.Compiler

open Jspp.Kernel

set_option autoImplicit false

/-! ## Brackets -/

/-- The depth behind a token; none where an expression cannot go on. -/
def nest (d : Nat) (t : Token) : Option Nat :=
  match t, d with
  | .lpar, d | .lbrac, d | .lbrace, d => some (d + 1)
  | .rpar, d + 1 | .rbrac, d + 1 | .rbrace, d + 1 => some d
  | .rpar, 0 | .rbrac, 0 | .rbrace, 0 => none
  | .comma, 0 | .semi, 0 => none
  | _, d => some d

/-- The tokens from the one to the other lead from a depth to a depth. -/
inductive Passes : Nat → Scanned → Nat → Scanned → Prop where
  | refl (d : Nat) (sc : Scanned) : Passes d sc d sc
  | step {d d₁ d' : Nat} {sc sc' : Scanned} (nested : nest d sc.lex.token = some d₁)
      (rest : Passes d₁ sc.next d' sc') : Passes d sc d' sc'

/-- Two stretches of text. -/
theorem Passes.trans {d d₁ d' : Nat} {sc sc₁ sc' : Scanned} (first : Passes d sc d₁ sc₁)
    (second : Passes d₁ sc₁ d' sc') : Passes d sc d' sc' := by
  induction first with
  | refl => exact second
  | step nested _ ih => exact .step nested (ih second)

/-- One bracket deeper the same tokens are passed. -/
theorem nest_succ {d d₁ : Nat} {t : Token} (nested : nest d t = some d₁) :
    nest (d + 1) t = some (d₁ + 1) := by
  cases t <;> cases d <;> first | cases nested; rfl | cases nested

/-- Between brackets everything goes that goes outside of them. -/
theorem Passes.inside {d d' : Nat} {sc sc' : Scanned} (h : Passes d sc d' sc') :
    Passes (d + 1) sc (d' + 1) sc' := by
  induction h with
  | refl => exact .refl _ _
  | step nested _ ih => exact .step (nest_succ nested) ih

/-- Two readings that stop where an expression cannot go on stop at the same token. -/
theorem Passes.unique {d : Nat} {sc sc₁ sc₂ : Scanned} (first : Passes d sc 0 sc₁)
    (second : Passes d sc 0 sc₂) (stop₁ : nest 0 sc₁.lex.token = none)
    (stop₂ : nest 0 sc₂.lex.token = none) : sc₁ = sc₂ := by
  generalize depth : 0 = z at first
  induction first with
  | refl =>
      subst depth
      cases second with
      | refl => rfl
      | step nested _ =>
          rw [stop₁] at nested
          cases nested
  | step nested _ ih =>
      cases second with
      | refl =>
          rw [stop₂] at nested
          cases nested
      | step nested' rest' =>
          rw [nested] at nested'
          cases nested'
          exact ih rest' stop₁ depth

/-! ## Parser functions -/

/-- When nothing is refused, the function takes brackets in pairs. -/
def Crosses {α : Type} (f : Comp → Comp × α) : Prop :=
  ∀ {s s' : Comp} {a : α}, f s = (s', a) → s'.ok → s.ok ∧ Passes 0 s.scan 0 s'.scan

/-- The recursive entries for expressions take brackets in pairs. -/
structure ParsersCross (P : Parsers) : Prop where
  expr : ∀ g, Crosses (P.expr g)
  deref : ∀ g e, Crosses (P.deref g e)
  morefactors : ∀ g e, Crosses (P.morefactors g e)
  moreterms : ∀ g e, Crosses (P.moreterms g e)
  morerelops : ∀ g e, Crosses (P.morerelops g e)
  morelogop : ∀ g e, Crosses (P.morelogop g e)

/-- One token, which may open or close a bracket. -/
theorem Passes.one {s : Comp} {t : Token} (token : s.token = t) {d d' : Nat}
    (nested : nest d t = some d') : Passes d s.scan d' s.next.scan :=
  .step (by rw [← nested, ← token]; rfl) (.refl _ _)

/-- A comma that may be missing. -/
theorem Passes.skip (s : Comp) (t : Token) {d : Nat} (nested : nest (d + 1) t = some (d + 1)) :
    Passes (d + 1) s.scan (d + 1) (s.skip t).scan := by
  unfold Comp.skip
  split
  · rename_i token
    exact .one token nested
  · exact .refl _ _

/-- Nothing is read. -/
theorem crosses_same {α : Type} {f : Comp → Comp × α}
    (same : ∀ s, ((f s).1.ok → s.ok) ∧ (f s).1.scan = s.scan) : Crosses f := by
  intro s s' a run ok
  obtain ⟨before, scan⟩ := same s
  rw [run] at before scan
  exact ⟨before ok, scan ▸ .refl _ _⟩

/-- Reading records no error. -/
theorem ok_of_next {s : Comp} (ok : s.next.ok) : s.ok := ok

theorem ok_of_emit0 {op : OpCode} {s : Comp} (ok : (s.emit0 op).ok) : s.ok := ok

theorem scan_next_emit0 {op : OpCode} {s : Comp} : (s.emit0 op).next.scan = s.next.scan := rfl

section

variable {P : Parsers} (cross : ParsersCross P) (g : Scope)
include cross

/-- The arguments of a call, up to their parenthesis. -/
theorem arglistLoop_crosses (n : Nat) (args : Args) {s s' : Comp} {args' : Args} {good : Bool}
    (run : arglistLoop P g n args s = (s', args', good)) (ok : s'.ok) :
    s.ok ∧ Passes 1 s.scan 1 s'.scan ∧ (good = true → s'.token = .rpar) := by
  induction n generalizing args s with
  | zero =>
      cases run
      exact absurd ok (Comp.not_ok_giveUp s)
  | succ n ih =>
      simp -iota only [arglistLoop] at run
      split at run
      · rename_i closed
        cases run
        exact ⟨ok, .refl _ _, fun _ => closed⟩
      · split at run
        rename_i s₁ e read
        split at run
        · cases run
          exact absurd ok (Comp.not_ok_setupError _ _ (by decide))
        · obtain ⟨okSkip, rest, closed⟩ := ih _ run
          obtain ⟨okStart, first⟩ := cross.expr g read (by simpa using okSkip)
          exact ⟨okStart, first.inside.trans ((Passes.skip s₁ .comma rfl).trans rest), closed⟩

/-- The call is emitted behind them. -/
theorem arglist_call_crosses (jsp : Option (List Char)) (name : List Char) (base new' : Bool)
    {s s' : Comp} {args : Args} {sig : Nat}
    (run : arglist_call P g jsp name base new' s = (s', args, sig)) (ok : s'.ok) :
    s.ok ∧ Passes 1 s.scan 1 s'.scan := by
  simp -iota only [arglist_call] at run
  split at run
  rename_i s₁ args good read
  have same : s'.scan = s₁.scan ∧ (s'.ok → s₁.ok) := by
    split at run
    · cases jsp with
      | none =>
          cases run
          exact ⟨rfl, id⟩
      | some cls =>
          cases run
          exact ⟨rfl, id⟩
    · cases run
      exact ⟨rfl, id⟩
  obtain ⟨okStart, passed, -⟩ := arglistLoop_crosses cross g _ _ read (same.2 ok)
  exact ⟨okStart, same.1 ▸ passed⟩

/-- The arguments between their parentheses. -/
theorem call_crosses (jsp : Option (List Char)) (name : List Char) (base new' : Bool)
    {s s' : Comp} {args : Args} {sig : Nat} (open_ : s.token = .lpar) {s₁ : Comp}
    (run : arglist_call P g jsp name base new' s₁ = (s', args, sig))
    (scan : s₁.scan = s.next.scan) (okSame : s₁.ok → s.ok) (ok : s'.ok)
    (close : s'.token = .rpar) : s.ok ∧ Passes 0 s.scan 0 s'.next.scan := by
  obtain ⟨okStart, passed⟩ := arglist_call_crosses cross g _ _ _ _ run ok
  rw [scan] at passed
  exact ⟨okSame okStart, (Passes.one open_ rfl).trans (passed.trans (.one close rfl))⟩

/-- An assignment to a member. -/
theorem assignTail_crosses (l : Expr) {s s' : Comp} {e : Expr}
    (run : assignTail P g l s = (s', e)) (token : s.token = .assign) (ok : s'.ok) :
    s.ok ∧ Passes 0 s.scan 0 s'.scan := by
  simp -iota only [assignTail] at run
  split at run
  rename_i s₁ r read
  cases run
  obtain ⟨okStart, passed⟩ := cross.expr g read ok
  exact ⟨okStart, (Passes.one token rfl).trans passed⟩

/-- A member or a method behind its dot. -/
theorem objderef_crosses (recv : Expr) : Crosses (objderef P g recv) := by
  intro s s' e run ok
  simp -iota only [objderef] at run
  split at run
  · cases run
    exact absurd ok (Comp.not_ok_setupError _ _ (by decide))
  rename_i name
  have named : Passes 0 s.scan 0 s.next.scan := .one (Decidable.not_not.mp name) rfl
  split at run
  · rename_i open_
    split at run
    rename_i s₁ args sig read
    split at run
    · cases run
      exact absurd ok (Comp.not_ok_setupError _ _ (by decide))
    · rename_i close
      obtain ⟨okCall, rest⟩ := cross.deref g _ run ok
      obtain ⟨okStart, called⟩ := call_crosses cross g _ _ _ _ open_ read rfl id okCall
        (Decidable.not_not.mp close)
      exact ⟨okStart, named.trans (called.trans rest)⟩
  · split at run
    rename_i idx s₁ const
    cases const
    split at run
    · rename_i assign
      obtain ⟨okStart, rest⟩ := assignTail_crosses cross g _ run assign ok
      exact ⟨okStart, named.trans rest⟩
    · obtain ⟨okStart, rest⟩ := cross.deref g _ run ok
      exact ⟨okStart, named.trans rest⟩

/-- The indexes, up to their bracket. -/
theorem indexLoop_crosses (n : Nat) (args : Args) {s s' : Comp} {args' : Args}
    (run : indexLoop P g n args s = (s', args')) (ok : s'.ok) :
    s.ok ∧ Passes 1 s.scan 1 s'.scan := by
  induction n generalizing args s with
  | zero =>
      cases run
      exact absurd ok (Comp.not_ok_giveUp s)
  | succ n ih =>
      simp -iota only [indexLoop] at run
      split at run
      · split at run
        rename_i s₁ e read
        obtain ⟨okSkip, rest⟩ := ih _ run
        obtain ⟨okStart, first⟩ := cross.expr g read (by simpa using okSkip)
        exact ⟨okStart, first.inside.trans ((Passes.skip s₁ .comma rfl).trans rest)⟩
      · cases run
        exact ⟨ok, .refl _ _⟩

/-- The brackets around the indexes. -/
theorem arrayIndexCall_crosses (recv : Expr) {s s' : Comp} {e : Expr}
    (run : arrayIndexCall P g recv s = (s', e)) (open_ : s.token = .lbrac) (ok : s'.ok) :
    s.ok ∧ Passes 0 s.scan 0 s'.scan := by
  simp -iota only [arrayIndexCall] at run
  split at run
  rename_i s₁ args read
  split at run
  · cases run
    exact absurd ok (Comp.not_ok_setupError _ _ (by decide))
  · rename_i close
    split at run
    rename_i idx s₂ const
    cases const
    cases run
    obtain ⟨okStart, passed⟩ := indexLoop_crosses cross g _ _ read ok
    exact ⟨okStart, (Passes.one open_ rfl).trans
      (passed.trans (.one (Decidable.not_not.mp close) rfl))⟩

/-- What may follow an operand. -/
theorem derefTail_crosses (recv : Expr) : Crosses (derefTail P g recv) := by
  intro s s' e run ok
  simp -iota only [derefTail] at run
  split at run
  · rename_i dot
    split at run
    · cases run
      exact absurd ok (Comp.not_ok_setupError _ _ (by decide))
    · obtain ⟨okStart, rest⟩ := objderef_crosses cross g _ run ok
      exact ⟨okStart, (Passes.one dot rfl).trans rest⟩
  · split at run
    · rename_i open_
      exact arrayIndexCall_crosses cross g _ run open_ ok
    · cases run
      exact ⟨ok, .refl _ _⟩

/-- A static member or a call. -/
theorem singletonCall_crosses {s s' : Comp} {e : Expr} {good : Bool}
    (run : singletonCall P g s = (s', e, good)) (name : s.token = .id) (ok : s'.ok) :
    s.ok ∧ Passes 0 s.scan 0 s'.scan := by
  have named : Passes 0 s.scan 0 s.next.scan := .one name rfl
  simp -iota only [singletonCall] at run
  split at run
  · rename_i scope
    have scoped_ : Passes 0 s.next.scan 0 s.next.next.scan := .one scope rfl
    split at run
    · cases run
      exact absurd ok (Comp.not_ok_setupError _ _ (by decide))
    · split at run
      · cases run
        exact absurd ok (Comp.not_ok_setupError _ _ (by decide))
      rename_i member
      have membered : Passes 0 s.next.next.scan 0 s.next.next.next.scan :=
        .one (Decidable.not_not.mp member) rfl
      split at run
      · rename_i open_
        split at run
        rename_i s₁ args sig read
        split at run
        · cases run
          exact absurd ok (Comp.not_ok_setupError _ _ (by decide))
        · rename_i close
          cases run
          obtain ⟨okStart, called⟩ := call_crosses cross g _ _ _ _ open_ read rfl ok_of_next ok
            (Decidable.not_not.mp close)
          exact ⟨okStart, named.trans (scoped_.trans (membered.trans called))⟩
      · split at run
        rename_i idx s₁ const
        cases const
        split at run
        · cases run
          exact absurd ok (Comp.not_ok_setupError _ _ (by decide))
        · cases run
          exact ⟨ok, named.trans (scoped_.trans membered)⟩
  · split at run
    · rename_i open_
      split at run
      rename_i s₁ args sig read
      split at run
      · cases run
        exact absurd ok (Comp.not_ok_setupError _ _ (by decide))
      · rename_i close
        cases run
        have okCall : s₁.ok := ok
        obtain ⟨okStart, called⟩ := call_crosses cross g _ _ _ _ open_ read scan_next_emit0
          (fun okNext => ok_of_emit0 (ok_of_next okNext)) okCall (Decidable.not_not.mp close)
        exact ⟨okStart, named.trans called⟩
    · cases run
      exact absurd ok (Comp.not_ok_setupError _ _ (by decide))

theorem singletonCallHandler_crosses {s s' : Comp} {e : Expr}
    (run : singletonCallHandler P g s = (s', e)) (name : s.token = .id) (ok : s'.ok) :
    s.ok ∧ Passes 0 s.scan 0 s'.scan := by
  simp -iota only [singletonCallHandler] at run
  split at run
  rename_i s₁ e₁ good read
  split at run
  · obtain ⟨okCall, rest⟩ := cross.deref g _ run ok
    obtain ⟨okStart, called⟩ := singletonCall_crosses cross g read name okCall
    exact ⟨okStart, called.trans rest⟩
  · cases run
    exact singletonCall_crosses cross g read name ok

theorem indexTail_crosses (e : Expr) : Crosses (indexTail P g e) := by
  intro s s' e' run ok
  unfold indexTail at run
  split at run
  · rename_i open_
    exact arrayIndexCall_crosses cross g _ run open_ ok
  · cases run
    exact ⟨ok, .refl _ _⟩

theorem assignIf_crosses (e : Expr) : Crosses (assignIf P g e) := by
  intro s s' e' run ok
  unfold assignIf at run
  split at run
  · rename_i assign
    exact assignTail_crosses cross g _ run assign ok
  · cases run
    exact ⟨ok, .refl _ _⟩

/-- A variable, with an assignment or indexes. -/
theorem singletonVarHandler_crosses (vdp : Vardef) {s s' : Comp} {e : Expr}
    (run : singletonVarHandler P g vdp s = (s', e)) (name : s.token = .id) (ok : s'.ok) :
    s.ok ∧ Passes 0 s.scan 0 s'.scan := by
  have named : Passes 0 s.scan 0 s.next.scan := .one name rfl
  simp -iota only [singletonVarHandler] at run
  split at run
  · cases run
    exact absurd ok (Comp.not_ok_setupError _ _ (by decide))
  split at run
  rename_i s₁ e₁ index
  split at run
  rename_i s₂ e₂ assign
  obtain ⟨okAssign, rest⟩ := cross.deref g _ run ok
  obtain ⟨okIndex, assigned⟩ := assignIf_crosses cross g _ assign okAssign
  obtain ⟨okStart, indexed⟩ := indexTail_crosses cross g _ index okIndex
  exact ⟨okStart, named.trans (indexed.trans (assigned.trans rest))⟩

omit cross in
/-- A literal is one token, which is passed by its caller. -/
theorem literal_crosses {s s' : Comp} {e : Expr} (h : literal s = some (s', e)) :
    s'.scan = s.scan ∧ (s'.ok → s.ok) ∧ nest 0 s.token = some 0 := by
  unfold literal pushArg pushConst at h
  split at h
  all_goals rename_i token
  case h_8 => cases h
  all_goals
    cases h
    rw [token]
    exact ⟨rfl, id, rfl⟩

omit cross in
/-- The literals of an array. -/
theorem arrayLoop_crosses (addidx n : Nat) (elems : Args) {s s' : Comp} {elems' : Args}
    {good : Bool} (run : arrayLoop addidx n elems s = (s', elems', good)) (ok : s'.ok) :
    s.ok ∧ Passes 1 s.scan 1 s'.scan := by
  induction n generalizing elems s with
  | zero =>
      cases run
      exact absurd ok (Comp.not_ok_giveUp s)
  | succ n ih =>
      simp -iota only [arrayLoop] at run
      split at run
      · split at run
        · cases run
          exact absurd ok (Comp.not_ok_setupError _ _ (by decide))
        · rename_i s₁ e lit
          obtain ⟨scan, before, plain⟩ := literal_crosses lit
          obtain ⟨okSkip, rest⟩ := ih _ run
          have okLit : s₁.ok := by simpa using okSkip
          have read : Passes 0 s.scan 0 s₁.next.scan := by
            have same : s₁.next.scan = s.next.scan := congrArg Scanned.next scan
            rw [same]
            exact .one rfl plain
          exact ⟨before okLit, read.inside.trans ((Passes.skip s₁.next .comma rfl).trans rest)⟩
      · cases run
        exact ⟨ok, .refl _ _⟩

omit cross in
/-- They end at the brace. -/
theorem arrayLoop_ends {addidx n : Nat} {elems elems' : Args} {s s' : Comp} {good : Bool}
    (run : arrayLoop addidx n elems s = (s', elems', good)) (ok : s'.ok) : good = true := by
  induction n generalizing elems s with
  | zero =>
      cases run
      exact absurd ok (Comp.not_ok_giveUp s)
  | succ n ih =>
      simp -iota only [arrayLoop] at run
      split at run
      · split at run
        · cases run
          exact absurd ok (Comp.not_ok_setupError _ _ (by decide))
        · exact ih run
      · cases run
        rfl

omit cross in
/-- The braces around them. -/
theorem arraydef_crosses {s s' : Comp} {e : Expr} (run : arraydef P g s.next = (s', e))
    (open_ : s.token = .lbrace) (ok : s'.ok) : s.ok ∧ Passes 0 s.scan 0 s'.scan := by
  simp -iota only [arraydef] at run
  split at run
  rename_i addidx s₁ first
  cases first
  split at run
  rename_i clsidx s₂ second
  cases second
  split at run
  · cases run
    exact absurd ok (Comp.not_ok_setupError _ _ (by decide))
  simp -iota only [arrayTail] at run
  split at run
  rename_i s₃ elems good read
  split at run
  · rename_i unclosed
    cases run
    exact absurd (arrayLoop_ends read ok) unclosed
  split at run
  · cases run
    exact absurd ok (Comp.not_ok_setupError _ _ (by decide))
  rename_i close
  cases run
  obtain ⟨okStart, passed⟩ := arrayLoop_crosses _ _ _ read ok
  exact ⟨okStart, (Passes.one open_ rfl).trans
    (passed.trans (.one (Decidable.not_not.mp close) rfl))⟩

/-- A class name and its arguments. -/
theorem new_expr_crosses {s s' : Comp} {e : Expr} (run : new_expr P g s = (s', e))
    (token : s.token = .new) (ok : s'.ok) : s.ok ∧ Passes 0 s.scan 0 s'.scan := by
  have started : Passes 0 s.scan 0 s.next.scan := .one token rfl
  simp -iota only [new_expr] at run
  split at run
  · cases run
    exact absurd ok (Comp.not_ok_setupError _ _ (by decide))
  rename_i name
  have named : Passes 0 s.next.scan 0 s.next.next.scan := .one (Decidable.not_not.mp name) rfl
  split at run
  rename_i clsidx s₁ const
  cases const
  split at run
  · rename_i open_
    split at run
    · cases run
      exact absurd ok (Comp.not_ok_setupError _ _ (by decide))
    · simp -iota only [newTail] at run
      split at run
      rename_i s₂ args sig read
      split at run
      · rename_i err
        cases run
        exact absurd ok.1 err
      · split at run
        · cases run
          exact absurd ok (Comp.not_ok_setupError _ _ (by decide))
        · rename_i close
          cases run
          have okCall : s₂.ok := ok
          have open' : s.next.next.token = .lpar := open_
          obtain ⟨okStart, called⟩ := call_crosses cross g _ _ _ _ open' read rfl id okCall
            (Decidable.not_not.mp close)
          exact ⟨okStart, started.trans (named.trans called)⟩
  · cases run
    exact absurd ok (Comp.not_ok_setupError _ _ (by decide))

/-- A call of the base class. -/
theorem baseCall_crosses {s s' : Comp} {e : Expr} (run : baseCall P g s = (s', e))
    (token : s.token = .scope) (ok : s'.ok) : s.ok ∧ Passes 0 s.scan 0 s'.scan := by
  have started : Passes 0 s.scan 0 s.next.scan := .one token rfl
  simp -iota only [baseCall] at run
  split at run
  · cases run
    exact absurd ok (Comp.not_ok_setupError _ _ (by decide))
  rename_i name
  have named : Passes 0 s.next.scan 0 s.next.next.scan := .one (Decidable.not_not.mp name) rfl
  split at run
  · cases run
    exact absurd ok (Comp.not_ok_setupError _ _ (by decide))
  rename_i open_
  split at run
  rename_i s₁ args sig read
  split at run
  · cases run
    exact absurd ok (Comp.not_ok_setupError _ _ (by decide))
  · rename_i close
    obtain ⟨okCall, rest⟩ := cross.deref g _ run ok
    have okArgs : s₁.ok := okCall
    obtain ⟨okStart, called⟩ := call_crosses cross g _ _ _ _ (Decidable.not_not.mp open_) read rfl
      id okArgs (Decidable.not_not.mp close)
    exact ⟨okStart, started.trans (named.trans (called.trans rest))⟩

/-- An operand. -/
theorem singleton_crosses : Crosses (singleton P g) := by
  intro s s' e run ok
  simp -iota only [singleton] at run
  split at run
  · rename_i name
    split at run
    · exact singletonCallHandler_crosses cross g run name ok
    · exact singletonVarHandler_crosses cross g _ run name ok
  · rename_i open_
    exact arraydef_crosses (P := P) g run open_ ok
  · rename_i open_
    split at run
    rename_i s₁ e₁ read
    split at run
    · cases run
      exact absurd ok (Comp.not_ok_setupError _ _ (by decide))
    · rename_i close
      cases run
      obtain ⟨okStart, passed⟩ := cross.expr g read ok
      exact ⟨okStart, (Passes.one open_ rfl).trans
        (passed.inside.trans (.one (Decidable.not_not.mp close) rfl))⟩
  · rename_i token
    exact new_expr_crosses cross g run token ok
  · rename_i token
    exact baseCall_crosses cross g run token ok
  · split at run
    · rename_i s₁ e₁ lit
      obtain ⟨scan, before, plain⟩ := literal_crosses lit
      cases run
      have same : s₁.next.scan = s.next.scan := congrArg Scanned.next scan
      refine ⟨before ok, ?_⟩
      rw [same]
      exact .one rfl plain
    · cases run
      exact absurd ok (Comp.not_ok_setupError _ _ (by decide))

/-! ## Operators -/

omit cross in
theorem nest_factorOp {t : Token} {op : BinOp} (found : factorOp t = some op) :
    nest 0 t = some 0 := by
  cases t <;> first | rfl | cases found

omit cross in
theorem nest_assignOp {t : Token} {op : BinOp} (found : assignOp t = some op) :
    nest 0 t = some 0 := by
  cases t <;> first | rfl | cases found

omit cross in
theorem nest_termOp {t : Token} {op : BinOp} (found : termOp t = some op) :
    nest 0 t = some 0 := by
  cases t <;> first | rfl | cases found

omit cross in
theorem nest_relationOp {t : Token} {op : BinOp} (found : relationOp t = some op) :
    nest 0 t = some 0 := by
  cases t <;> first | rfl | cases found

omit cross in
theorem nest_logicOp {t : Token} {op : BinOp} (found : logicOp t = some op) :
    nest 0 t = some 0 := by
  cases t <;> first | rfl | cases found

omit cross in
theorem nest_earlyOp {t : Token} {op : BinOp} (found : earlyOp t = some op) :
    nest 0 t = some 0 := by
  cases t <;> first | rfl | cases found

omit cross in
theorem popUnlessRhs_crosses (e : Expr) : Crosses (popUnlessRhs e) := by
  refine crosses_same fun s => ?_
  unfold popUnlessRhs
  split
  · exact ⟨id, rfl⟩
  · exact ⟨id, rfl⟩

omit cross in
/-- An operator behind it. -/
theorem postIncDec_crosses {t : Token} (plain : nest 0 t = some 0) (op : UnOp) (e : Expr) :
    Crosses (postIncDec t op e) := by
  intro s s' e' run ok
  unfold postIncDec at run
  split at run
  · rename_i token
    obtain ⟨okStart, rest⟩ := popUnlessRhs_crosses _ run ok
    exact ⟨okStart, (Passes.one token plain).trans rest⟩
  · cases run
    exact ⟨ok, .refl _ _⟩

/-- The operators in front of it. -/
theorem prefixed_crosses : Crosses (prefixed P g) := by
  intro s s' e run ok
  simp -iota only [prefixed] at run
  split at run
  · rename_i token
    split at run
    rename_i s₁ e₁ read
    cases run
    obtain ⟨okStart, rest⟩ := singleton_crosses cross g read ok
    exact ⟨okStart, (Passes.one token rfl).trans rest⟩
  · rename_i token
    obtain ⟨okStart, rest⟩ := singleton_crosses cross g run ok
    exact ⟨okStart, (Passes.one token rfl).trans rest⟩
  · rename_i token
    split at run
    rename_i s₁ e₁ read
    obtain ⟨okPop, popped⟩ := popUnlessRhs_crosses _ run ok
    obtain ⟨okStart, rest⟩ := singleton_crosses cross g read okPop
    exact ⟨okStart, (Passes.one token rfl).trans (rest.trans popped)⟩
  · rename_i token
    split at run
    rename_i s₁ e₁ read
    obtain ⟨okPop, popped⟩ := popUnlessRhs_crosses _ run ok
    obtain ⟨okStart, rest⟩ := singleton_crosses cross g read okPop
    exact ⟨okStart, (Passes.one token rfl).trans (rest.trans popped)⟩
  · rename_i token
    split at run
    rename_i s₁ e₁ read
    cases run
    obtain ⟨okStart, rest⟩ := singleton_crosses cross g read ok
    exact ⟨okStart, (Passes.one token rfl).trans rest⟩
  · exact singleton_crosses cross g run ok

/-- An operand with its operators. -/
theorem factor_crosses : Crosses (factor P g) := by
  intro s s' e run ok
  simp -iota only [factor] at run
  split at run
  rename_i s₁ e₁ read
  split at run
  rename_i s₂ e₂ inc
  obtain ⟨okInc, dec⟩ := postIncDec_crosses rfl _ _ run ok
  obtain ⟨okRead, incd⟩ := postIncDec_crosses rfl _ _ inc okInc
  obtain ⟨okStart, first⟩ := prefixed_crosses cross g read okRead
  exact ⟨okStart, first.trans (incd.trans dec)⟩

omit cross in
/-- An operand, and more of the level when there was no error. -/
theorem more_crosses {operand : Comp → Comp × Expr} (first : Crosses operand)
    {more : Expr → Comp → Comp × Expr} (next : ∀ e, Crosses (more e)) (wrap : Expr → Expr)
    {s s₁ s₂ s' : Comp} {r e : Expr} (read : operand s = (s₁, r))
    (run : (if s₂.errornum = 0 then more (wrap r) s₂ else (s₂, wrap r)) = (s', e))
    (scan : s₂.scan = s₁.scan) (okSame : s₂.ok → s₁.ok) (ok : s'.ok) :
    s.ok ∧ Passes 0 s.scan 0 s'.scan := by
  split at run
  · obtain ⟨okMore, rest⟩ := next _ run ok
    obtain ⟨okStart, passed⟩ := first read (okSame okMore)
    rw [scan] at rest
    exact ⟨okStart, passed.trans rest⟩
  · rename_i err
    cases run
    exact absurd ok.1 err

theorem morefactors_crosses (l : Expr) : Crosses (morefactors P g l) := by
  intro s s' e run ok
  simp -iota only [morefactors] at run
  split at run
  · cases run
    exact ⟨ok, .refl _ _⟩
  · rename_i op found
    split at run
    rename_i s₁ r read
    obtain ⟨okStart, rest⟩ := more_crosses (factor_crosses cross g) (cross.morefactors g)
      (.binary op l) read run rfl id ok
    exact ⟨okStart, (Passes.one rfl (nest_factorOp found)).trans rest⟩

theorem term_crosses : Crosses (term P g) := by
  intro s s' e run ok
  simp -iota only [term] at run
  split at run
  rename_i s₁ e₁ read
  exact more_crosses (factor_crosses cross g) (cross.morefactors g) id read run rfl id ok

theorem moreterms_crosses (l : Expr) : Crosses (moreterms P g l) := by
  intro s s' e run ok
  simp -iota only [moreterms] at run
  split at run
  · rename_i op found
    split at run
    rename_i s₁ r read
    obtain ⟨okStart, rest⟩ := more_crosses (cross.expr g) (cross.moreterms g) (.assignOp op l)
      read run rfl id ok
    exact ⟨okStart, (Passes.one rfl (nest_assignOp found)).trans rest⟩
  · split at run
    · cases run
      exact ⟨ok, .refl _ _⟩
    · rename_i op found
      split at run
      rename_i s₁ r read
      obtain ⟨okStart, rest⟩ := more_crosses (term_crosses cross g) (cross.moreterms g)
        (.binary op l) read run rfl id ok
      exact ⟨okStart, (Passes.one rfl (nest_termOp found)).trans rest⟩

theorem relop_crosses : Crosses (relop P g) := by
  intro s s' e run ok
  simp -iota only [relop] at run
  split at run
  rename_i s₁ e₁ read
  exact more_crosses (term_crosses cross g) (cross.moreterms g) id read run rfl id ok

theorem morerelops_crosses (l : Expr) : Crosses (morerelops P g l) := by
  intro s s' e run ok
  simp -iota only [morerelops] at run
  split at run
  · cases run
    exact ⟨ok, .refl _ _⟩
  · rename_i op found
    split at run
    rename_i s₁ r read
    obtain ⟨okStart, rest⟩ := more_crosses (relop_crosses cross g) (cross.morerelops g)
      (.binary op l) read run rfl id ok
    exact ⟨okStart, (Passes.one rfl (nest_relationOp found)).trans rest⟩

theorem logop_crosses : Crosses (logop P g) := by
  intro s s' e run ok
  simp -iota only [logop] at run
  split at run
  rename_i s₁ e₁ read
  exact more_crosses (relop_crosses cross g) (cross.morerelops g) id read run rfl id ok

theorem morelogop_crosses (l : Expr) : Crosses (morelogop P g l) := by
  intro s s' e run ok
  simp -iota only [morelogop] at run
  split at run
  · rename_i op found
    split at run
    rename_i s₁ r read
    obtain ⟨okStart, rest⟩ := more_crosses (logop_crosses cross g) (cross.morelogop g)
      (.binary op l) read run rfl id ok
    exact ⟨okStart, (Passes.one rfl (nest_logicOp found)).trans rest⟩
  · split at run
    · rename_i op found
      split at run
      rename_i s₁ r read
      obtain ⟨okStart, rest⟩ := more_crosses (logop_crosses cross g) (cross.morelogop g)
        (.early op l) read run rfl id ok
      exact ⟨okStart, (Passes.one rfl (nest_earlyOp found)).trans rest⟩
    · split at run
      · rename_i assign
        split at run
        rename_i s₁ e₁ read
        split at run
        · obtain ⟨okMore, rest⟩ := cross.morelogop g _ run ok
          obtain ⟨okStart, passed⟩ := assignTail_crosses cross g _ read assign okMore
          exact ⟨okStart, passed.trans rest⟩
        · rename_i err
          cases run
          exact absurd ok.1 err
      · cases run
        exact ⟨ok, .refl _ _⟩

/-- An expression leaves no bracket open. -/
theorem expr_crosses : Crosses (expr P g) := by
  intro s s' e run ok
  simp -iota only [expr] at run
  split at run
  rename_i s₁ e₁ read
  exact more_crosses (logop_crosses cross g) (cross.morelogop g) id read run rfl id ok

end

theorem giveUp_crosses {α : Type} (a : α) : Crosses fun s => (s.giveUp, a) := by
  intro s s' b run ok
  cases run
  exact absurd ok (Comp.not_ok_giveUp s)

/-- Every level of the recursion, by induction on the level. -/
theorem parsers_cross (n : Nat) : ParsersCross (parsers n) := by
  induction n with
  | zero =>
      exact ⟨fun _ => giveUp_crosses _, fun _ => giveUp_crosses, fun _ => giveUp_crosses,
        fun _ => giveUp_crosses, fun _ => giveUp_crosses, fun _ => giveUp_crosses⟩
  | succ n cross =>
      exact ⟨expr_crosses cross, derefTail_crosses cross, morefactors_crosses cross,
        moreterms_crosses cross, morerelops_crosses cross, morelogop_crosses cross⟩

end Jspp.Compiler
