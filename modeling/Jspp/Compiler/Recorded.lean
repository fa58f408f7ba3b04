/-
# Compiler.Recorded -- what a call of `setupError` leaves behind

`setupError` is called again and again while the recursion of the parser unwinds.
Every call records an error, and no function takes one back, so a program that has
a message has an error: whichever function wrote the message, and whatever the
functions around it recorded after it.

* `Records`: what parsing does to the error and the message.
* `Recorded`, `parsers_recording`: the functions of a method body.
* `Program.Recorded`, `parseChar_records`: classes, and a whole text.
-/
import Jspp.Compiler.Returns

namespace Jspp.Compiler

open Jspp.Kernel

set_option autoImplicit false

/-! ## The error and the message -/

/-- The lexer at hand, and what `setupError` has printed and leaves in the program. -/
structure Told where
  lex : Jspplex
  printed : List (Jspplex × Int)
  errornum : Int
  errmsg : Option (List Char)

def Comp.told (s : Comp) : Told := ⟨s.lex, s.printed, s.errornum, s.errmsg⟩

/-- Some calls of `jsppLex` later. -/
def Later (l l' : Jspplex) : Prop := ∃ k, l' = jsppLex^[k] l

theorem Later.refl (l : Jspplex) : Later l l := ⟨0, rfl⟩

theorem Later.next {l l' : Jspplex} (later : Later l l') : Later l (jsppLex l') := by
  obtain ⟨k, rfl⟩ := later
  exact ⟨k + 1, (Function.iterate_succ_apply' jsppLex k l).symm⟩

/-- An error stays an error, and behind a new message there is one; it is printed about the
token at hand or one behind it. -/
structure Records (t t' : Told) : Prop where
  kept : t.errornum ≠ 0 → t'.errornum ≠ 0
  told : t'.errmsg ≠ t.errmsg → t'.errornum ≠ 0
  later : Later t.lex t'.lex
  printed : ∀ call ∈ t'.printed, call ∈ t.printed ∨ Later t.lex call.1

namespace Records

theorem refl (t : Told) : Records t t := ⟨id, absurd rfl, .refl _, fun _ => .inl⟩

variable {t : Told} {s : Comp}

/-- One message more. -/
theorem printed_snoc (r : Records t s.told) (e : Int) :
    ∀ call ∈ s.printed ++ [(s.lex, e)], call ∈ t.printed ∨ Later t.lex call.1 := by
  intro call mem
  rcases List.mem_append.mp mem with old | new
  · exact r.printed call old
  · obtain rfl := List.mem_singleton.mp new
    exact .inr r.later

/-- A call of `setupError`, whatever was recorded before. -/
theorem error (r : Records t s.told) {e : Int} (ne : e ≠ 0) : Records t (s.setupError e).told where
  kept _ := s.setupError_ne ne
  told _ := s.setupError_ne ne
  later := r.later
  printed := r.printed_snoc e

/-- The number of a lexical error does not depend on the caller. -/
theorem lexical (r : Records t s.told) (bad : s.token = .lexerror) {e : Int} :
    Records t (s.setupError e).told := by
  have coded : (s.setupError e).errornum ≠ 0 := by
    show (errorOf s.lex e).1 ≠ 0
    rw [errorOf, if_pos (show s.lex.token = .lexerror from bad)]
    exact s.scan.coded bad
  exact ⟨fun _ => coded, fun _ => coded, r.later, r.printed_snoc e⟩

/-! The other writes leave the error as it is. -/

variable (r : Records t s.told)
include r

theorem next : Records t s.next.told where
  kept := r.kept
  told := r.told
  later := by
    show Later t.lex s.next.scan.lex
    rw [show s.next.scan.lex = jsppLex s.lex from s.scan.lex_next]
    exact r.later.next
  printed := r.printed

/-- A token that is skipped if it is there. -/
theorem skip {token : Token} : Records t (s.skip token).told := by
  unfold Comp.skip
  split
  · exact r.next
  · exact r

theorem setRhs {b : Bool} : Records t (s.setRhs b).told := r

/-- The model's own bound records nothing. -/
theorem giveUp : Records t s.giveUp.told := r

theorem emit0 {op : OpCode} : Records t (s.emit0 op).told := r

theorem emit1 {op : OpCode} {mode : ArgSource} : Records t (s.emit1 op mode).told := r

theorem emit2 {op : OpCode} {mode mode2 : ArgSource} : Records t (s.emit2 op mode mode2).told := r

theorem emitArg {arg : Option Int} : Records t (s.emitArg arg).told := r

theorem emitIm {op : OpCode} {arg : Option Int} : Records t (s.emitIm op arg).told := r

theorem patch {pc : Nat} : Records t (s.patch pc).told := r

theorem emitConst {v : Variant} : Records t (s.emitConst v).2.told := r

theorem emitConstChars {text : List Char} : Records t (s.emitConstChars text).2.told := r

theorem symtabEnter {pc : Nat} : Records t (Compiler.symtabEnter pc s).told := r

/-- A variable is entered into the table on top. -/
theorem symtabNote {name : List Char} {isptr : Bool} :
    Records t (Compiler.symtabNote name isptr s).2.told := by
  unfold Compiler.symtabNote
  simp only
  split <;> exact r

/-- The count of a block is written into its OP_ENTER. -/
theorem symtabExit : Records t (Compiler.symtabExit s).2.told := by
  unfold Compiler.symtabExit
  split <;> exact r

end Records

attribute [local irreducible] Comp.told

/-- The function takes no error back, and records one with every message. -/
def Recorded {α : Type} (f : Comp → Comp × α) : Prop :=
  ∀ {t : Told} {s : Comp}, Records t s.told → Records t (f s).1.told

/-- The recursive entries of the parser. -/
structure Recording (P : Parsers) : Prop where
  expr : ∀ g, Recorded (P.expr g)
  deref : ∀ g e, Recorded (P.deref g e)
  morefactors : ∀ g e, Recorded (P.morefactors g e)
  moreterms : ∀ g e, Recorded (P.moreterms g e)
  morerelops : ∀ g e, Recorded (P.morerelops g e)
  morelogop : ∀ g e, Recorded (P.morelogop g e)
  stmts : ∀ g, Recorded (P.stmts g)
  stmtblock : ∀ g, Recorded (P.stmtblock g)
  sif : ∀ g, Recorded (P.sif g)

section

variable {P : Parsers} (sound : Recording P) (g : Scope)
include sound

/-! ## Expressions -/

/-- An argument that neither a comma nor a parenthesis follows is an error. -/
theorem arglistLoop_records (n : Nat) (args : Args) : Recorded (arglistLoop P g n args) := by
  induction n generalizing args with
  | zero => exact Records.giveUp
  | succ n ih =>
      intro t s r
      simp only [arglistLoop]
      split
      · exact r
      split
      · exact (sound.expr g r).error (by decide)
      · exact ih _ (sound.expr g r).skip

/-- The arguments of a call, and the call. -/
theorem arglist_call_records (jsp : Option (List Char)) (methname : List Char)
    (basecall constructor : Bool) :
    Recorded (arglist_call P g jsp methname basecall constructor) := by
  intro t s r
  have args := arglistLoop_records sound g P.rounds .nil r
  simp only [arglist_call]
  split
  · cases jsp
    · exact args.emit2.emitConstChars.emitArg.emitArg
    · exact args.emit1.emitConstChars.emitArg
  · exact args

/-- The right-hand side of an assignment to a member. -/
theorem assignTail_records (l : Expr) : Recorded (assignTail P g l) := fun r =>
  (sound.expr g r.next.setRhs).emit0.emit0.setRhs

/-- A name must stand behind a dot, and the parenthesis of a call must be closed. -/
theorem objderef_records (recv : Expr) : Recorded (objderef P g recv) := by
  intro t s r
  simp only [objderef]
  split
  · exact r.error (by decide)
  split
  · have args := arglist_call_records sound g none s.lexeme false false r.next.next
    split
    · exact args.error (by decide)
    · exact sound.deref g _ args.next
  split
  · exact assignTail_records sound g _ r.next.emit1.emitConstChars.emitArg
  · exact sound.deref g _ r.next.emit1.emitConstChars.emitArg

/-- The indexes go on until an error is recorded. -/
theorem indexLoop_records (n : Nat) (args : Args) : Recorded (indexLoop P g n args) := by
  induction n generalizing args with
  | zero => exact Records.giveUp
  | succ n ih =>
      intro t s r
      simp only [indexLoop]
      split
      · exact ih _ (sound.expr g r).skip
      · exact r

/-- The bracket behind the indexes must be closed. -/
theorem arrayIndexCall_records (recv : Expr) : Recorded (arrayIndexCall P g recv) := by
  intro t s r
  have args := indexLoop_records sound g P.rounds .nil r.next
  simp only [arrayIndexCall]
  split
  · exact args.error (by decide)
  · exact args.next.emit2.emitConstChars.emitArg.emitArg

/-- Indexes behind a variable. -/
theorem indexTail_records (e : Expr) : Recorded (indexTail P g e) := by
  intro t s r
  simp only [indexTail]
  split
  · exact arrayIndexCall_records sound g e r
  · exact r

/-- An assignment, if one follows. -/
theorem assignIf_records (e : Expr) : Recorded (assignIf P g e) := by
  intro t s r
  simp only [assignIf]
  split
  · exact assignTail_records sound g e r
  · exact r

/-- A dot or a bracket behind an operand. -/
theorem derefTail_records (recv : Expr) : Recorded (derefTail P g recv) := by
  intro t s r
  simp only [derefTail]
  split
  · split
    · exact r.next.error (by decide)
    · exact objderef_records sound g recv r.next
  · exact indexTail_records sound g recv r

/-- A name: an unknown class, a missing name or parenthesis, and a static access are errors. -/
theorem singletonCall_records : Recorded (singletonCall P g) := by
  intro t s r
  simp only [singletonCall]
  split
  · split
    · exact r.next.error (by decide)
    · rename_i jsp _
      split
      · exact r.next.next.error (by decide)
      split
      · have args := arglist_call_records sound g (some jsp.name) s.next.next.lexeme false false
          r.next.next.next.next
        split
        · exact args.error (by decide)
        · exact args.next
      split
      · exact r.next.next.next.emit2.emitConstChars.emitArg.error (by decide)
      · exact r.next.next.next.emit2.emitConstChars.emitArg.emitArg
  split
  · have args := arglist_call_records sound g none s.lexeme false false
      (@Records.emit0 _ _ r.next .this).next
    split
    · exact args.error (by decide)
    · exact args.next
  · exact r.next.error (by decide)

theorem singletonCallHandler_records : Recorded (singletonCallHandler P g) := by
  intro t s r
  have call := singletonCall_records sound g r
  simp only [singletonCallHandler]
  split
  · exact sound.deref g _ call
  · exact call

/-- A name that no table knows, or a field in a static method. -/
theorem singletonVarHandler_records (vdp : Vardef) : Recorded (singletonVarHandler P g vdp) := by
  intro t s r
  simp only [singletonVarHandler]
  split
  · exact r.next.error (by decide)
  · exact sound.deref g _ (assignIf_records sound g _ (indexTail_records sound g _
      r.next.emit1.emitArg))

omit sound in
/-- A literal is a constant. -/
theorem literal_records {t : Told} {s : Comp} {q : Comp × Expr} (r : Records t s.told)
    (read : literal s = some q) : Records t q.1.told := by
  unfold literal at read
  split at read <;> cases read
  · exact r.emit1.emitArg
  · exact r.emit1.emitConst.emitArg
  · exact r.emit1.emitConst.emitArg
  · exact r.emit1.emitConst.emitArg
  · exact r.emit1.emitArg
  · exact r.emit1.emitArg
  · exact r.emit0

omit sound in
/-- What is no literal ends the list with an error. -/
theorem arrayLoop_records (addidx n : Nat) (elems : Args) :
    Recorded (arrayLoop addidx n elems) := by
  induction n generalizing elems with
  | zero => exact Records.giveUp
  | succ n ih =>
      intro t s r
      simp only [arrayLoop]
      split
      · split
        · exact r.emit0.error (by decide)
        · rename_i read
          exact ih _ (literal_records r.emit0 read).next.skip.emit2.emitArg.emitArg
      · exact r

omit sound in
theorem arrayTail_records (clsidx addidx : Nat) : Recorded (arrayTail P clsidx addidx) := by
  intro t s r
  have elements : Records t (arrayLoop addidx P.rounds .nil
      (((((s.emit1 .new .const).emitArg (some clsidx)).emit2 .construct .const .im).emitArg
        (some clsidx)).emitArg (some 0))).1.told :=
    arrayLoop_records _ _ _ r.emit1.emitArg.emit2.emitArg.emitArg
  simp only [arrayTail]
  split
  · exact elements
  split
  · exact elements.error (by decide)
  · exact elements.next

omit sound in
/-- An array of literals, closed by a brace. -/
theorem arraydef_records : Recorded (arraydef P g) := by
  intro t s r
  simp only [arraydef]
  split
  · exact r.emitConstChars.emitConstChars.error (by decide)
  · exact arrayTail_records _ _ r.emitConstChars.emitConstChars

/-- The arguments of a constructor. -/
theorem newTail_records (clsname : List Char) (clsidx : Nat) :
    Recorded (newTail P g clsname clsidx) := by
  intro t s r
  have args : Records t (arglist_call P g none clsname false true
      ((s.next.emit1 .new .const).emitArg (some clsidx))).1.told :=
    arglist_call_records sound g _ _ _ _ r.next.emit1.emitArg
  simp only [newTail]
  split
  · exact args
  split
  · exact args.error (by decide)
  · exact args.next

/-- The name of the class, and the parentheses. -/
theorem new_expr_records : Recorded (new_expr P g) := by
  intro t s r
  have name : Records t (s.next.emitConstChars s.next.lexeme).2.next.told :=
    r.next.emitConstChars.next
  simp only [new_expr]
  split
  · exact r.next.error (by decide)
  split
  · split
    · exact name.error (by decide)
    · exact newTail_records sound g _ _ name
  · exact name.error (by decide)

/-- A call of the base class, not in a static method. -/
theorem baseCall_records : Recorded (baseCall P g) := by
  intro t s r
  simp only [baseCall]
  split
  · exact r.next.error (by decide)
  split
  · exact r.next.next.error (by decide)
  · have args := arglist_call_records sound g none s.next.lexeme true false
      (@Records.emit0 _ _ r.next.next.next .this)
    split
    · exact args.error (by decide)
    · exact sound.deref g _ args.next

/-- An operand begins with one of its tokens, or it is an error. -/
theorem singleton_records : Recorded (singleton P g) := by
  intro t s r
  unfold singleton
  split
  · split
    · exact singletonCallHandler_records sound g r
    · exact singletonVarHandler_records sound g _ r
  · exact arraydef_records g r.next
  · have inner := sound.expr g r.next
    dsimp only
    split
    · exact inner.error (by decide)
    · exact inner.next
  · exact new_expr_records sound g r
  · exact baseCall_records sound g r
  · split
    · rename_i read
      exact (literal_records r read).next
    · exact r.error (by decide)

/-! ## Operators -/

omit sound in
theorem popUnlessRhs_records (e : Expr) : Recorded (popUnlessRhs e) := by
  intro t s r
  simp only [popUnlessRhs]
  split
  · exact r
  · exact r.emit0

omit sound in
/-- An increment or a decrement behind an operand. -/
theorem postIncDec_records (token : Token) (op : UnOp) (e : Expr) :
    Recorded (postIncDec token op e) := by
  intro t s r
  simp only [postIncDec]
  split
  · exact popUnlessRhs_records _ r.next.emit0
  · exact r

/-- The operators in front of an operand. -/
theorem prefixed_records : Recorded (prefixed P g) := by
  intro t s r
  have operand := singleton_records sound g r.next
  unfold prefixed
  split
  · exact operand.emit0
  · exact operand
  · exact popUnlessRhs_records _ operand.emit0
  · exact popUnlessRhs_records _ operand.emit0
  · exact operand.emit0
  · exact singleton_records sound g r

/-- The operand behind its operators, with what follows it. -/
theorem factor_records : Recorded (factor P g) := fun r =>
  postIncDec_records _ _ _ (postIncDec_records _ _ _ (prefixed_records sound g r))

omit sound in
/-- An operand, and the operators behind it when there is no error. -/
theorem tail_records {f : Expr → Comp → Comp × Expr} (keeps : ∀ e, Recorded (f e)) {t : Told}
    {s : Comp} {e : Expr} (r : Records t s.told) :
    Records t (if s.errornum = 0 then f e s else (s, e)).1.told := by
  split
  · exact keeps e r
  · exact r

/-- The products. -/
theorem morefactors_records (l : Expr) : Recorded (morefactors P g l) := by
  intro t s r
  simp only [morefactors]
  split
  · exact r
  · exact tail_records (sound.morefactors g) (factor_records sound g r.next).emit0

theorem term_records : Recorded (term P g) := fun r =>
  tail_records (sound.morefactors g) (factor_records sound g r)

/-- The sums and the assignments. -/
theorem moreterms_records (l : Expr) : Recorded (moreterms P g l) := by
  intro t s r
  simp only [moreterms]
  split
  · exact tail_records (sound.moreterms g)
      (sound.expr g r.next.setRhs.emit0).emit0.emit0.emit0.setRhs
  split
  · exact r
  · exact tail_records (sound.moreterms g) (term_records sound g r.next).emit0

theorem relop_records : Recorded (relop P g) := fun r =>
  tail_records (sound.moreterms g) (term_records sound g r)

/-- The comparisons. -/
theorem morerelops_records (l : Expr) : Recorded (morerelops P g l) := by
  intro t s r
  simp only [morerelops]
  split
  · exact r
  · exact tail_records (sound.morerelops g) (relop_records sound g r.next).emit0

theorem logop_records : Recorded (logop P g) := fun r =>
  tail_records (sound.morerelops g) (relop_records sound g r)

/-- The logical operators. -/
theorem morelogop_records (l : Expr) : Recorded (morelogop P g l) := by
  intro t s r
  simp only [morelogop]
  split
  · exact tail_records (sound.morelogop g) (logop_records sound g r.next).emit0
  split
  · exact tail_records (sound.morelogop g) (logop_records sound g r.next.emit0)
  split
  · exact tail_records (sound.morelogop g) (assignTail_records sound g l r)
  · exact r

/-- An expression, through all its levels. -/
theorem expr_records : Recorded (expr P g) := fun r =>
  tail_records (sound.morelogop g) (logop_records sound g r)

/-! ## Statements -/

/-- The `else` of an `if`. -/
theorem selse_records : Recorded (selse P g) := by
  intro t s r
  simp only [selse]
  split
  · split
    · exact sound.sif g r.next
    · exact sound.stmtblock g r.next
  · exact r

/-- The parentheses around the condition must be there. -/
theorem sif_records : Recorded (sif P g) := by
  intro t s r
  have condition := sound.expr g r.next.next
  simp only [sif]
  split
  · exact r.next.error (by decide)
  split
  · exact condition.error (by decide)
  · exact (selse_records sound g
      (sound.stmtblock g condition.next.emitIm).emitIm.patch).patch

/-- The same of a `while`. -/
theorem swhile_records : Recorded (swhile P g) := by
  intro t s r
  have condition : Records t ((P.expr g ((s.next.next.emitIm .setbreak (some 0)).setRhs
      true)).1.setRhs false).told := (sound.expr g r.next.next.emitIm.setRhs).setRhs
  simp only [swhile]
  split
  · exact r.next.error (by decide)
  split
  · exact condition.error (by decide)
  · exact (sound.stmtblock g condition.next.emitIm).emitIm.patch.patch.emitIm

/-- The third expression of a `for` may be missing. -/
theorem postexpr_records (evalPc : Nat) : Recorded (postexpr P g evalPc) := by
  intro t s r
  simp only [postexpr]
  split
  · exact (sound.expr g r.emitIm).emitIm.patch
  · exact r

/-- It must be closed by a parenthesis. -/
theorem postfor_records (evalPc : Nat) : Recorded (postfor P g evalPc) := by
  intro t s r
  have post := postexpr_records sound g evalPc r
  simp only [postfor]
  split
  · exact post.error (by decide)
  · exact (sound.stmtblock g post.next).emitIm

theorem condition_records : Recorded (condition P g) := by
  intro t s r
  simp only [condition]
  split
  · exact sound.expr g r
  · exact r

/-- The condition must end with a semicolon. -/
theorem evalfor_records (breakPc : Nat) : Recorded (evalfor P g breakPc) := by
  intro t s r
  have cond := condition_records sound g r
  simp only [evalfor]
  split
  · exact cond.error (by decide)
  · exact (postfor_records sound g _ cond.next.emitIm).patch.patch

theorem localinit_records (vdp : Vardef) : Recorded (localinit P g vdp) := by
  intro t s r
  simp only [localinit]
  split
  · exact (sound.expr g r.next.setRhs.emit1.emitArg).emit0.setRhs
  · exact r

/-- A variable must have a name, which may be declared once. -/
theorem declarator_records : Recorded (declarator P g) := by
  intro t s r
  have init := localinit_records sound g (symtabNote s.next.lexeme false s.next).1.1
    (@Records.symtabNote _ _ r.next s.next.lexeme false).next
  simp only [declarator]
  split
  · exact r.next.error (by decide)
  split
  · exact init
  split
  · exact init.next
  split
  · exact init.error (by decide)
  · exact init

theorem localvarLoop_records (n : Nat) (acc : Stmt) : Recorded (localvarLoop P g n acc) := by
  induction n generalizing acc with
  | zero => exact Records.giveUp
  | succ n ih =>
      intro t s r
      have one := declarator_records sound g r
      simp only [localvarLoop]
      split
      · split
        · exact ih _ one
        · exact one
      · exact r

/-- The declarations behind a `var`. -/
theorem localvar_records : Recorded (localvar P g) := localvarLoop_records sound g P.rounds .skip

theorem initfor_records : Recorded (initfor P g) := by
  intro t s r
  simp only [initfor]
  split
  · split
    · exact localvar_records sound g r
    · exact sound.expr g r
  · exact r

/-- The three parts of a `for`, in their parentheses. -/
theorem sfor_records : Recorded (sfor P g) := by
  intro t s r
  have init := initfor_records sound g r.next.next
  simp only [sfor]
  split
  · exact r.next.error (by decide)
  split
  · exact init.error (by decide)
  · exact (evalfor_records sound g _ init.next.emitIm).emitIm

/-- A `case` is a literal of three kinds, or an error. -/
theorem caseValue_records : Recorded (caseValue P g) := by
  intro t s r
  unfold caseValue
  split
  case h_1 => exact singleton_records sound g r
  case h_2 | h_3 | h_4 =>
    split
    · rename_i read
      exact (literal_records r read).next
    · exact r
  case h_5 => exact r.error (by decide)

/-- A clause behind its colon. -/
theorem caseClause_records : Recorded (caseClause P g) := by
  intro t s r
  have value := caseValue_records sound g (@Records.emit0 _ _ r .dup).next
  simp only [caseClause]
  split
  · exact value
  split
  · exact value.error (by decide)
  · exact (sound.stmts g value.next.emit0.emitIm).patch

/-- The default clause. -/
theorem defaultClause_records (defaultPc : Int) : Recorded (defaultClause P g defaultPc) := by
  intro t s r
  simp only [defaultClause]
  split
  · split
    · exact r.next.error (by decide)
    · exact (sound.stmts g r.next.next.emitIm).patch
  · exact r

theorem caseLoop_records (n : Nat) (defaultPc : Int) : Recorded (caseLoop P g n defaultPc) := by
  induction n generalizing defaultPc with
  | zero => exact Records.giveUp
  | succ n ih =>
      intro t s r
      have clause := caseClause_records sound g r
      have other := defaultClause_records sound g defaultPc clause
      simp only [caseLoop]
      split
      · split
        · exact clause
        split
        · exact other
        · exact ih _ other
      · exact r

/-- The clauses between the braces. -/
theorem switchblock_records : Recorded (switchblock P g) := by
  intro t s r
  have cases := caseLoop_records sound g P.rounds (-1)
    (@Records.symtabEnter _ _ (@Records.emitIm _ _ r.next .enter (some 0)) (s.next.pc + 1))
  simp only [switchblock]
  split
  · exact r.error (by decide)
  split
  · exact cases
  split
  · exact cases.emitIm.emit0.symtabExit.error (by decide)
  · exact cases.emitIm.emit0.symtabExit.next

/-- The value in its parentheses, and the clauses. -/
theorem sswitch_records : Recorded (sswitch P g) := by
  intro t s r
  have value := sound.expr g r.next.next
  simp only [sswitch]
  split
  · exact r.next.error (by decide)
  split
  · exact value.error (by decide)
  · exact (switchblock_records sound g value.next.emitIm).patch

omit sound in
theorem hasretval_records {t : Told} {s : Comp} (r : Records t s.told) :
    Records t { s with hasretval := true }.told := by
  unfold Comp.told at r ⊢
  exact r

/-- A value or none, and the semicolon. -/
theorem sreturn_records : Recorded (sreturn P g) := by
  intro t s r
  simp only [sreturn]
  split
  · exact (sound.expr g (hasretval_records r.next.setRhs)).emit0.setRhs
  split
  · exact r.next.error (by decide)
  · exact r.next.emit0.emit0

omit sound in
/-- The variable of a `catch`. -/
theorem catchHead_records : Recorded catchHead := by
  intro t s r
  simp only [catchHead]
  split
  · exact r.error (by decide)
  split
  · exact r.next.error (by decide)
  split
  · exact r.next.next.skip.error (by decide)
  split
  · exact r.next.next.skip.symtabNote.next.error (by decide)
  · exact r.next.next.skip.symtabNote.next.next

theorem finallyblock_records : Recorded (finallyblock P g) := by
  intro t s r
  simp only [finallyblock]
  split
  · exact sound.stmtblock g r.next
  · exact r

/-- The `catch` must be there; `finally` may follow. -/
theorem catchblock_records (endtrypc : Nat) (v : Local) :
    Recorded (catchblock P g endtrypc v) := by
  intro t s r
  simp only [catchblock]
  exact (finallyblock_records sound g
    (sound.stmtblock g r.emit1.emitArg.emit0.emit0.emitIm.emitIm).patch.patch).emitIm

/-- The two blocks. -/
theorem dotry_records : Recorded (dotry P g) := by
  intro t s r
  have head : ∀ {q}, catchHead (((((P.stmtblock g (s.emitIm .try (some (-1)))).1.emitIm .push
      (some 0)).emitIm .jmp (some 0)).patch (s.pc + 1))) = q → Records t q.1.told := fun found =>
    found ▸ catchHead_records (sound.stmtblock g r.emitIm).emitIm.emitIm.patch
  simp only [dotry]
  split
  · rename_i found
    exact head found
  · rename_i found
    exact catchblock_records sound g _ _ (head found)

omit sound in
/-- An expression behind `delete`. -/
theorem delop_records {t : Told} {s : Comp} (r : Records t s.told) : Records t (delop s).told := by
  unfold delop
  split
  · exact r.error (by decide)
  · exact r.next

/-- A statement by its first token. -/
theorem stmt_records : Recorded (stmt P g) := by
  intro t s r
  unfold stmt
  dsimp only
  split
  · exact sif_records sound g r
  · exact swhile_records sound g r
  · exact sfor_records sound g r
  · exact sswitch_records sound g r
  · exact sreturn_records sound g r
  · exact localvar_records sound g r
  · exact r.next
  · exact r.emit0.next
  · exact r.emit0.next
  · exact delop_records r.next
  · exact dotry_records sound g r.next
  · exact (sound.expr g r.next).emit0
  · exact r.error (by decide)
  · exact r
  · exact sound.expr g r

/-- Statements follow until a brace or an error. -/
theorem stmtsLoop_records (n : Nat) (acc : Stmt) : Recorded (stmtsLoop P g n acc) := by
  induction n generalizing acc with
  | zero => exact Records.giveUp
  | succ n ih =>
      have round : ∀ {t : Told} {s : Comp} (acc : Stmt), Records t s.told →
          Records t (if (stmt P g s).2.2 = true then
            stmtsLoop P g n (acc.seq (stmt P g s).2.1) (stmt P g s).1
            else ((stmt P g s).1, acc.seq (stmt P g s).2.1)).1.told := by
        intro t s acc r
        split
        · exact ih _ (stmt_records sound g r)
        · exact stmt_records sound g r
      intro t s r
      simp only [stmtsLoop]
      split
      · split
        · exact round _ r.emitIm
        · exact round _ r
      · exact r

theorem stmts_records : Recorded (stmts P g) := stmtsLoop_records sound g P.rounds .skip

theorem blockRest_records : Recorded (blockRest P g) := by
  intro t s r
  have body := sound.stmts g r
  simp only [blockRest]
  split
  · exact body
  split
  · exact body.emit0.symtabExit.error (by decide)
  · exact body.emit0.symtabExit.next

/-- The braces of a block. -/
theorem stmtblock_records : Recorded (stmtblock P g) := by
  intro t s r
  simp only [stmtblock]
  split
  · exact r.error (by decide)
  · exact blockRest_records sound g r.next.emitIm.symtabEnter

end

/-- Every level of the recursion, by induction on the level. -/
theorem parsers_recording (n : Nat) : Recording (parsers n) := by
  induction n with
  | zero => constructor <;> intros <;> exact Records.giveUp
  | succ n ih =>
      exact {
        expr := expr_records ih
        deref := derefTail_records ih
        morefactors := morefactors_records ih
        moreterms := moreterms_records ih
        morerelops := morerelops_records ih
        morelogop := morelogop_records ih
        stmts := stmts_records ih
        stmtblock := stmtblock_records ih
        sif := sif_records ih }

/-! ## Methods, classes and texts -/

/-- The function of a program takes no error back, and records one with every message. -/
def Program.Recorded (f : Program → Program) : Prop :=
  ∀ {t : Told} {pp : Program}, Records t pp.comp.told → Records t (f pp).comp.told

namespace Records

variable {t : Told} {pp : Program} (r : Records t pp.comp.told)
include r

theorem inMethod {α : Type} {f : Scope → Comp → Comp × α} (keeps : ∀ g, Compiler.Recorded (f g)) :
    Records t (pp.inMethod f).1.comp.told := by
  refine keeps pp.scope ?_
  unfold Comp.told at r ⊢
  exact r

theorem skipToken {token : Token} : Records t (pp.skip token).comp.told := by
  unfold Program.skip
  split
  · exact r.next
  · exact r

theorem findField {name : List Char} {isstatic : Bool} :
    Records t (pp.defineField name isstatic).1.comp.told := by
  unfold Program.defineField
  split <;> exact r

/-- An error that is recorded without a message. -/
theorem silent {e line : Int} (ne : e ≠ 0) :
    Records t { pp.comp with errornum := e, errorline := line }.told := by
  unfold Comp.told at r ⊢
  exact ⟨fun _ => ne, fun _ => ne, r.later, r.printed⟩

end Records

/-- The parameters of a method, each a name. -/
theorem argLoop_records (n : Nat) : Program.Recorded (argLoop n) := by
  induction n with
  | zero => exact fun r => r.giveUp
  | succ n ih =>
      intro t pp r
      simp only [argLoop]
      split
      · split
        · exact ih (Records.symtabNote r.skipToken).next.next
        split
        · exact (Records.symtabNote r.skipToken).next.error (by decide)
        · exact ih (Records.symtabNote r.skipToken).next
      split
      · exact r.error (by decide)
      · exact r.next

theorem enterMethod_records : Program.Recorded enterMethod := fun r =>
  r.inMethod fun _ _ _ r => r.emitIm.symtabEnter

section

variable {P : Parsers} (sound : Recording P)
include sound

omit sound in
/-- Their list, in parentheses. -/
theorem argdec_records : Program.Recorded (argdec P) := by
  intro t pp r
  simp only [argdec]
  split
  · exact r.next.error (by decide)
  · exact argLoop_records _ r.next.next

/-- The braces of a body. -/
theorem methodbody_records (g : Scope) : Recorded (methodbody P g) := by
  intro t s r
  simp only [methodbody]
  split
  · exact r.error (by decide)
  · exact blockRest_records sound g r.next

theorem compileBody_records : Program.Recorded (compileBody P) := fun r =>
  r.inMethod (methodbody_records sound)

omit sound in
theorem thisArg_records (isstatic : Bool) : Program.Recorded (thisArg isstatic) := by
  intro t pp r
  simp only [thisArg]
  split
  · exact r
  · exact Records.symtabNote r

/-- A method of a class. -/
theorem method_records (acc : JsAccess) (isstatic : Bool) :
    Program.Recorded (method P acc isstatic) := by
  intro t pp r
  have args : Records t (argdec P (thisArg isstatic (enterMethod
      (pp.defineMethod pp.comp.lexeme isstatic acc)))).comp.told :=
    argdec_records (thisArg_records _ (enterMethod_records r))
  simp only [method]
  split
  · exact r.error (by decide)
  split
  · exact args
  · exact compileBody_records sound args

/-- The value of a field goes into the constructor at hand. -/
theorem fieldInit_records (vdp : Vardef) (g : Scope) : Recorded (fieldInit P vdp g) := by
  intro t s r
  simp only [fieldInit]
  split
  · exact (sound.expr g r.setRhs.emit1.emitArg.next).emit0.setRhs
  · exact r

theorem initField_records (vdp : Vardef) : Program.Recorded (initField P vdp) := by
  intro t pp r
  have init : ∀ {q}, pp.inMethod (fieldInit P vdp) = q → Records t q.1.comp.told := fun found =>
    found ▸ r.inMethod (fieldInit_records sound vdp)
  simp only [initField]
  split
  · rename_i found
    exact init found
  · rename_i found
    exact init found

/-- A field must have a name and end with a semicolon. -/
theorem cvardef_records (isstatic : Bool) : Program.Recorded (cvardef P isstatic) := by
  intro t pp r
  simp only [cvardef]
  split
  · exact r.next.error (by decide)
  split
  · exact (initField_records sound _ (Records.next (Records.findField r.next))).error (by decide)
  · exact (initField_records sound _ (Records.next (Records.findField r.next))).next

/-- A member begins with its access, and is a field or a method. -/
theorem classLoop_records (n : Nat) : Program.Recorded (classLoop P n) := by
  induction n with
  | zero => exact fun r => r.giveUp
  | succ n ih =>
      intro t pp r
      simp only [classLoop]
      split
      · split
        · exact r.error (by decide)
        split
        · exact ih (cvardef_records sound _ r.next.skipToken.skipToken)
        · exact ih (method_records sound _ _ r.next.skipToken.skipToken)
        · rename_i bad
          exact r.next.skipToken.skipToken.lexical bad
        · exact r.next.skipToken.skipToken.error (by decide)
      · exact r

theorem classbody_records : Program.Recorded (classbody P) := fun r =>
  classLoop_records sound _ r.next

omit sound in
/-- An OP_VRET behind the constructor's code. -/
theorem closeConstructor_records (m : Nat) : Program.Recorded (closeConstructor m) := by
  intro t pp r
  exact @Records.inMethod t { pp with curmethod := m } r Unit (fun _ s => (s.emit0 .vret, ()))
    fun _ _ _ r => r.emit0

omit sound in
/-- The internal constructors of a class are opened. -/
theorem openConstructor_records (isstatic : Bool) :
    Program.Recorded (openConstructor isstatic) := by
  intro t pp r
  simp only [openConstructor]
  split <;> exact r

/-- The braces around the members. -/
theorem classDeclaration_records : Program.Recorded (classDeclaration P) := by
  intro t pp r
  have body := classbody_records sound
    (openConstructor_records true (openConstructor_records false r))
  simp only [classDeclaration]
  split
  · exact r.error (by decide)
  split
  · exact body
  split
  · exact body.error (by decide)
  · exact closeConstructor_records _ (closeConstructor_records _ body.next)

/-- The name of a class, and that of its base class. -/
theorem declareClass_records : Program.Recorded (declareClass P) := by
  intro t pp r
  simp only [declareClass]
  split
  · exact r.next.error (by decide)
  split
  · split
    · exact r.next.next.next.error (by decide)
    · exact classDeclaration_records sound (Records.next r.next.next.next)
  · exact classDeclaration_records sound r.next.next

/-- A method outside of its class, which must be known. -/
theorem declareMethod_records (acc : JsAccess) : Program.Recorded (declareMethod P acc) := by
  intro t pp r
  have head := @Records.skipToken t pp.next r.next .static
  simp only [declareMethod]
  split
  · exact head.error (by decide)
  split
  · exact head.error (by decide)
  split
  · exact head.next.error (by decide)
  split
  · exact head.next.next.error (by decide)
  · exact compileBody_records sound (argdec_records (enterMethod_records head.next.next))

/-- A class or a method, or the one error without a message. -/
theorem declaration_records : Program.Recorded (declaration P) := by
  intro t pp r
  simp only [declaration]
  split
  · exact declareClass_records sound r
  split
  · exact declareMethod_records sound _ r
  · exact r.silent (by decide)

/-- The declarations until the end of the text or an error. -/
theorem fileLoop_records (n : Nat) : Program.Recorded (fileLoop P n) := by
  induction n with
  | zero => exact fun r => r.giveUp
  | succ n ih =>
      intro t pp r
      simp only [fileLoop]
      split
      · split
        · rename_i bad
          exact r.silent (pp.comp.scan.coded bad)
        · exact ih (declaration_records sound r)
      · exact r

end

theorem file_records {P : Parsers} (sound : Recording P) : Program.Recorded (file P) := fun r =>
  fileLoop_records sound _ r.next

/-- Every call is made with a token of the text. -/
theorem parseChar_records (intrinsics : Intrinsics) (text : List Char) :
    Records ⟨jspplexConstructChar text, [], 0, none⟩ (parseChar intrinsics text).comp.told := by
  refine file_records (parsers_recording _) ?_
  unfold Comp.told
  exact Records.refl _

end Jspp.Compiler
