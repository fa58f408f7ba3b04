/-
# Compiler.Counts -- the flag along the statements

When nothing is refused, the flag that a parser function leaves is the one it found, run
along the returns of what it read.  Every function of `Compiler.ParseStmt` has one lemma.

* `Counts`, `parsers_count`.
-/
import Jspp.Compiler.EmitsStmt
import Jspp.Compiler.Flag

namespace Jspp.Compiler

open Jspp.Kernel

set_option autoImplicit false

/-! ## Statements -/

/-- When nothing is refused, the flag has run along the returns of what was read. -/
def Counts (f : Comp → Comp × Stmt) : Prop :=
  ∀ {s s' : Comp} {t : Stmt}, f s = (s', t) → s'.ok →
    retRun s.hasretval t.returns = some s'.hasretval

/-- The recursive entries for statements count. -/
structure ParsersCount (P : Parsers) : Prop where
  good : ParsersGood P
  keep : ParsersKeep P
  stmts : ∀ g, Counts (P.stmts g)
  sif : ∀ g, Counts (P.sif g)
  stmtblock : ∀ g {s s' : Comp} {n : Nat} {t : Stmt}, P.stmtblock g s = (s', n, t) → s'.ok →
    retRun s.hasretval t.returns = some s'.hasretval

section

variable {P : Parsers} (count : ParsersCount P) (g : Scope)
include count

theorem selse_counts : Counts (selse P g) := by
  intro s s' t run ok
  simp -iota only [selse] at run
  split at run
  · split at run
    · simpa using count.sif g run ok
    · split at run
      rename_i s₁ n body read
      cases run
      simpa [Stmt.returns] using count.stmtblock g read ok
  · cases run
    rfl

theorem sif_counts : Counts (sif P g) := by
  intro s s' t run ok
  simp -iota only [sif] at run
  split at run
  · cases run
    exact absurd ok (Comp.not_ok_setupError _ _ (by decide))
  split at run
  rename_i s₁ c readCond
  split at run
  · cases run
    exact absurd ok (Comp.not_ok_setupError _ _ (by decide))
  split at run
  rename_i s₂ n body readBody
  split at run
  rename_i s₃ other readElse
  cases run
  have ok₃ : s₃.ok := by simpa using ok
  have ok₂ : s₂.ok := by simpa using (selse_writes count.good).ok readElse ok₃
  have cond := count.keep.expr g readCond
  have first := count.stmtblock g readBody ok₂
  have second := selse_counts count g readElse ok₃
  simp only [Comp.hasretval_emitIm, Comp.hasretval_next, Comp.hasretval_patch] at cond first second
  rw [cond] at first
  exact retRun_trans (by simpa [Stmt.returns] using first) (by simpa using second)

theorem swhile_counts : Counts (swhile P g) := by
  intro s s' t run ok
  simp -iota only [swhile] at run
  split at run
  · cases run
    exact absurd ok (Comp.not_ok_setupError _ _ (by decide))
  split at run
  rename_i s₁ c readCond
  split at run
  · cases run
    exact absurd ok (Comp.not_ok_setupError _ _ (by decide))
  split at run
  rename_i s₂ n body readBody
  cases run
  have ok₂ : s₂.ok := by simpa using ok
  have cond := count.keep.expr g readCond
  have first := count.stmtblock g readBody ok₂
  simpa [Stmt.returns, cond] using first

theorem postexpr_keeps {evalPc : Nat} {s s' : Comp} {pc : Option Int} {post : Option Expr}
    (run : postexpr P g evalPc s = (s', pc, post)) : s'.hasretval = s.hasretval := by
  simp -iota only [postexpr] at run
  split at run
  · split at run
    rename_i s₁ e read
    have first := count.keep.expr g read
    cases run
    simpa using first
  · cases run
    rfl

theorem postfor_counts {evalPc : Nat} {s s' : Comp} {post : Option Expr} {body : Stmt}
    (run : postfor P g evalPc s = (s', post, body)) (ok : s'.ok) :
    retRun s.hasretval body.returns = some s'.hasretval := by
  simp -iota only [postfor] at run
  split at run
  rename_i s₁ pc post' readPost
  have posted := postexpr_keeps count g readPost
  split at run
  · cases run
    exact absurd ok (Comp.not_ok_setupError _ _ (by decide))
  split at run
  rename_i s₂ n body' readBody
  cases run
  have first := count.stmtblock g readBody (by simpa using ok)
  simpa [Stmt.returns, posted] using first

theorem evalfor_counts {breakPc : Nat} : Counts (evalfor P g breakPc) := by
  intro s s' t run ok
  simp -iota only [evalfor] at run
  split at run
  rename_i s₁ cond readCond
  have conded : s₁.hasretval = s.hasretval := by
    simp -iota only [condition] at readCond
    split at readCond
    · split at readCond
      rename_i s₂ e read
      cases readCond
      exact count.keep.expr g read
    · cases readCond
      rfl
  split at run
  · cases run
    exact absurd ok (Comp.not_ok_setupError _ _ (by decide))
  split at run
  rename_i s₂ post body readPost
  cases run
  have first := postfor_counts count g readPost (by simpa using ok)
  simpa [Stmt.returns, conded] using first

theorem localinit_counts {vdp : Vardef} : Counts (localinit P g vdp) := by
  intro s s' t run _
  simp -iota only [localinit] at run
  split at run
  · split at run
    rename_i s₁ e read
    have first := count.keep.expr g read
    cases run
    simpa [Stmt.returns, retRun] using first.symm
  · cases run
    rfl

theorem declarator_counts {s s' : Comp} {t : Stmt} {more : Bool}
    (run : declarator P g s = (s', t, more)) (ok : s'.ok) :
    retRun s.hasretval t.returns = some s'.hasretval := by
  simp -iota only [declarator] at run
  split at run
  · cases run
    exact absurd ok (Comp.not_ok_setupError _ _ (by decide))
  split at run
  rename_i vdp s₁ note
  have noted := hasretval_symtabNote note
  split at run
  rename_i s₂ init' read
  have declared : s₂.ok → retRun s.hasretval (Stmt.seq (.decl ⟨s.next.lexeme, vdp.1.offset⟩)
      init').returns = some s₂.hasretval := by
    intro ok₂
    have first := localinit_counts count g read ok₂
    simpa [Stmt.returns, noted] using first
  split at run
  · rename_i err
    cases run
    exact absurd ok.1 err
  split at run
  · cases run
    exact declared (by simpa using ok)
  split at run
  · cases run
    exact absurd ok (Comp.not_ok_setupError _ _ (by decide))
  · cases run
    exact declared ok

theorem localvarLoop_counts (n : Nat) {b : Bool} (acc : Stmt) {s s' : Comp} {t : Stmt}
    (before : retRun b acc.returns = some s.hasretval)
    (run : localvarLoop P g n acc s = (s', t)) (ok : s'.ok) :
    retRun b t.returns = some s'.hasretval := by
  induction n generalizing acc s with
  | zero =>
      cases run
      exact absurd ok (Comp.not_ok_giveUp s)
  | succ n ih =>
      simp -iota only [localvarLoop] at run
      split at run
      · split at run
        rename_i s₁ init more read
        split at run
        · have ok₁ := (localvarLoop_writes count.good n _ s₁ run ok).1
          have both : retRun b (acc.seq init).returns = some s₁.hasretval :=
            retRun_trans before (declarator_counts count g read ok₁)
          exact ih _ both run
        · cases run
          exact retRun_trans before (declarator_counts count g read ok)
      · cases run
        exact before

theorem localvar_counts : Counts (localvar P g) :=
  fun run ok => localvarLoop_counts count g _ .skip rfl run ok

theorem initfor_counts : Counts (initfor P g) := by
  intro s s' t run ok
  simp -iota only [initfor] at run
  split at run
  · split at run
    · exact localvar_counts count g run ok
    · split at run
      rename_i s₁ e read
      have first := count.keep.expr g read
      cases run
      exact congrArg some first.symm
  · cases run
    rfl

theorem sfor_counts : Counts (sfor P g) := by
  intro s s' t run ok
  simp -iota only [sfor] at run
  split at run
  · cases run
    exact absurd ok (Comp.not_ok_setupError _ _ (by decide))
  split at run
  rename_i s₁ init readInit
  split at run
  · cases run
    exact absurd ok (Comp.not_ok_setupError _ _ (by decide))
  split at run
  rename_i s₂ loop readLoop
  cases run
  have ok₂ : s₂.ok := by simpa using ok
  have ok₁ : s₁.ok := by simpa using (evalfor_writes count.good readLoop ok₂).1
  have first := initfor_counts count g readInit ok₁
  have second := evalfor_counts count g readLoop ok₂
  exact retRun_trans (by simpa using first) (by simpa using second)

theorem caseClause_counts {s s' : Comp} {v : Expr} {body : Stmt} {legal : Bool}
    (run : caseClause P g s = (s', v, body, legal)) (ok : s'.ok) :
    retRun s.hasretval body.returns = some s'.hasretval := by
  simp -iota only [caseClause] at run
  split at run
  rename_i s₁ v' legal' readValue
  have valued : s₁.hasretval = s.hasretval := by
    simp -iota only [caseValue] at readValue
    split at readValue
    · split at readValue
      rename_i s₂ e read
      have first := singleton_keeps count.keep g read
      cases readValue
      simpa using first
    all_goals try
      split at readValue
      · rename_i found
        have first := literal_keeps found
        cases readValue
        simpa using first
      · cases readValue
        simp
    cases readValue
    simp
  split at run
  · rename_i illegal
    cases run
    exact absurd (caseValue_writes count.good readValue ok).2.1 illegal
  split at run
  · cases run
    exact absurd ok (Comp.not_ok_setupError _ _ (by decide))
  split at run
  rename_i s₂ body' readBody
  cases run
  have first := count.stmts g readBody (by simpa using ok)
  simpa [valued] using first

theorem defaultClause_counts {s s' : Comp} {pc pc' : Int} {other : Option Stmt} {legal : Bool}
    (run : defaultClause P g pc s = (s', other, pc', legal)) (ok : s'.ok) :
    retRun s.hasretval (Cases.withDefault other .nil).returns = some s'.hasretval := by
  simp -iota only [defaultClause] at run
  split at run
  · split at run
    · cases run
      exact absurd ok (Comp.not_ok_setupError _ _ (by decide))
    split at run
    rename_i s₁ body read
    cases run
    have first := count.stmts g read (by simpa using ok)
    simpa [Cases.withDefault, Cases.returns] using first
  · cases run
    rfl

omit count in
theorem Cases.returns_withDefault (other : Option Stmt) (rest : Cases) :
    (Cases.withDefault other rest).returns =
      (Cases.withDefault other .nil).returns ++ rest.returns := by
  cases other <;> simp [Cases.withDefault, Cases.returns]

theorem caseLoop_counts (n : Nat) {pc pc' : Int} {s s' : Comp} {cs : Cases} {legal : Bool}
    (run : caseLoop P g n pc s = (s', cs, pc', legal)) (ok : s'.ok) :
    retRun s.hasretval cs.returns = some s'.hasretval := by
  induction n generalizing pc s s' cs pc' legal with
  | zero =>
      cases run
      exact absurd ok (Comp.not_ok_giveUp s)
  | succ n ih =>
      simp -iota only [caseLoop] at run
      split at run
      · split at run
        rename_i s₁ v body legal₁ readCase
        split at run
        · rename_i illegal
          cases run
          exact absurd (caseClause_writes count.good readCase ok).2.1 illegal
        split at run
        rename_i s₂ other pc₂ legal₂ readDefault
        split at run
        · rename_i illegal
          cases run
          exact absurd (defaultClause_writes count.good readDefault ok).2.1 illegal
        split at run
        rename_i s₃ rest pc₃ legal₃ readRest
        cases run
        have ok₂ := (caseLoop_writes count.good n readRest ok).1
        have ok₁ := (defaultClause_writes count.good readDefault ok₂).1
        have first := caseClause_counts count g readCase ok₁
        have second := defaultClause_counts count g readDefault ok₂
        rw [Cases.returns, Cases.returns_withDefault]
        exact retRun_trans first (retRun_trans second (ih readRest ok))
      · cases run
        rfl

theorem sswitch_counts : Counts (sswitch P g) := by
  intro s s' t run ok
  simp -iota only [sswitch] at run
  split at run
  · cases run
    exact absurd ok (Comp.not_ok_setupError _ _ (by decide))
  split at run
  rename_i s₁ e readValue
  have valued := count.keep.expr g readValue
  split at run
  · cases run
    exact absurd ok (Comp.not_ok_setupError _ _ (by decide))
  split at run
  rename_i s₂ n cs readBlock
  cases run
  have ok₂ : s₂.ok := by simpa using ok
  simp -iota only [switchblock] at readBlock
  split at readBlock
  · cases readBlock
    exact absurd ok₂ (Comp.not_ok_setupError _ _ (by decide))
  split at readBlock
  rename_i s₃ cs' pc legal readCases
  split at readBlock
  · rename_i illegal
    cases readBlock
    exact absurd (caseLoop_writes count.good _ readCases ok₂).2.1 illegal
  split at readBlock
  rename_i n' s₄ exit
  have left := hasretval_symtabExit exit
  have ok₃ : s₄.ok → s₃.ok := by
    intro ok₄
    unfold symtabExit at exit
    split at exit <;> (cases exit; exact ok₄)
  split at readBlock
  · cases readBlock
    exact absurd ok₂ (Comp.not_ok_setupError _ _ (by decide))
  · cases readBlock
    have first := caseLoop_counts count g _ readCases (ok₃ (by simpa using ok₂))
    simpa [Stmt.returns, valued, left] using first

omit count in
/-- The flag is set by a value, and a bare return is refused behind one. -/
theorem sreturn_counts : Counts (sreturn P g) := by
  intro s s' t run ok
  simp -iota only [sreturn] at run
  split at run
  · split at run
    rename_i s₁ e read
    cases run
    simp [Stmt.returns, retRun]
  · split at run
    · cases run
      exact absurd ok (Comp.not_ok_setupError _ _ (by decide))
    · rename_i unset
      cases run
      have none : s.hasretval = false := by simpa using unset
      simp [Stmt.returns, retRun, none]

theorem finallyblock_counts : Counts (finallyblock P g) := by
  intro s s' t run ok
  simp -iota only [finallyblock] at run
  split at run
  · split at run
    rename_i s₁ n body read
    cases run
    simpa [Stmt.returns] using count.stmtblock g read ok
  · cases run
    rfl

omit count in
theorem catchHead_keeps : Keeps catchHead := by
  intro s s' v run
  simp -iota only [catchHead] at run
  split at run
  · cases run
    rfl
  split at run
  · cases run
    rfl
  split at run
  · cases run
    simp
  split at run
  rename_i vdp s₁ note
  have noted := hasretval_symtabNote note
  split at run
  · cases run
    simpa using noted
  · cases run
    simpa using noted

theorem catchblock_counts {endtrypc n : Nat} {v : Local} {s s' : Comp} {handler fin : Stmt}
    (run : catchblock P g endtrypc v s = (s', n, handler, fin)) (ok : s'.ok) :
    retRun s.hasretval (handler.returns ++ fin.returns) = some s'.hasretval := by
  simp -iota only [catchblock] at run
  split at run
  rename_i s₁ n' handler' readHandler
  split at run
  rename_i s₂ fin' readFin
  cases run
  have ok₂ : s₂.ok := ok
  have patched := (finallyblock_writes count.good).ok readFin ok₂
  have ok₁ : s₁.ok := patched
  have first := count.stmtblock g readHandler ok₁
  have second := finallyblock_counts count g readFin ok₂
  simp only [Comp.hasretval_emitIm, Comp.hasretval_emit0, Comp.hasretval_emitArg,
    Comp.hasretval_emit1, Comp.hasretval_patch, reduceCtorEq, decide_false,
    Bool.or_false] at first second ⊢
  exact retRun_trans first second

theorem dotry_counts : Counts (dotry P g) := by
  intro s s' t run ok
  simp -iota only [dotry] at run
  split at run
  rename_i s₁ n body readBody
  split at run
  · rename_i s₂ head
    cases run
    obtain ⟨-, w, named, -⟩ := catchHead_writes (g := g) head ok
    cases named
  rename_i s₂ v head
  have headed := catchHead_keeps head
  split at run
  rename_i s₃ m handler fin readCatch
  cases run
  have okCatch := (catchblock_writes count.good readCatch ok).1
  have ok₁ : s₁.ok := by simpa using (catchHead_writes (g := g) head okCatch).1
  have first := count.stmtblock g readBody ok₁
  have second := catchblock_counts count g readCatch ok
  rw [headed] at second
  exact retRun_trans (by simpa [Stmt.returns] using first) (by simpa using second)

theorem stmt_counts {s s' : Comp} {t : Stmt} {more : Bool} (run : stmt P g s = (s', t, more))
    (ok : s'.ok) : retRun s.hasretval t.returns = some s'.hasretval := by
  have pass : ∀ {f : Comp → Comp × Stmt}, Counts f → ((f s).1, (f s).2, true) = (s', t, more) →
      retRun s.hasretval t.returns = some s'.hasretval := by
    intro f counts same
    cases same
    exact counts rfl ok
  simp -iota only [stmt] at run
  split at run
  · exact pass (sif_counts count g) run
  · exact pass (swhile_counts count g) run
  · exact pass (sfor_counts count g) run
  · exact pass (sswitch_counts count g) run
  · exact pass (sreturn_counts g) run
  · exact pass (localvar_counts count g) run
  · cases run
    rfl
  · cases run
    simp [Stmt.returns, retRun]
  · cases run
    simp [Stmt.returns, retRun]
  · cases run
    unfold delop
    split <;> rfl
  · cases run
    exact dotry_counts count g (s := s.next) rfl ok
  · split at run
    rename_i s₁ e read
    have first := count.keep.expr g read
    cases run
    simp [Stmt.returns, retRun, first]
  · cases run
    rfl
  · cases run
    rfl
  · split at run
    rename_i s₁ e read
    have first := count.keep.expr g read
    cases run
    exact congrArg some first.symm

theorem stmtsLoop_counts (n : Nat) {b : Bool} (acc : Stmt) {s s' : Comp} {t : Stmt}
    (before : retRun b acc.returns = some s.hasretval)
    (run : stmtsLoop P g n acc s = (s', t)) (ok : s'.ok) :
    retRun b t.returns = some s'.hasretval := by
  induction n generalizing acc s with
  | zero =>
      cases run
      exact absurd ok (Comp.not_ok_giveUp s)
  | succ n ih =>
      simp -iota only [stmtsLoop] at run
      split at run
      · split at run
        rename_i s₁ acc₁ line
        have lined : retRun b acc₁.returns = some s₁.hasretval := by
          split at line
          · cases line
            simpa [Stmt.returns] using before
          · cases line
            exact before
        split at run
        rename_i s₂ t₂ more read
        split at run
        · have ok₂ := (stmtsLoop_writes count.good n _ s₂ run ok).1
          have both : retRun b (acc₁.seq t₂).returns = some s₂.hasretval :=
            retRun_trans lined (stmt_counts count g read ok₂)
          exact ih _ both run
        · cases run
          exact retRun_trans lined (stmt_counts count g read ok)
      · cases run
        exact before

theorem stmts_counts : Counts (stmts P g) :=
  fun run ok => stmtsLoop_counts count g _ .skip rfl run ok

theorem blockRest_counts {s s' : Comp} {n : Nat} {body : Stmt}
    (run : blockRest P g s = (s', n, body)) (ok : s'.ok) :
    retRun s.hasretval body.returns = some s'.hasretval := by
  simp -iota only [blockRest] at run
  split at run
  rename_i s₁ body' read
  split at run
  · rename_i err
    cases run
    exact absurd ok.1 err
  split at run
  rename_i n' s₂ exit
  have left := hasretval_symtabExit exit
  have ok₁ : s₂.ok → s₁.ok := by
    intro ok₂
    unfold symtabExit at exit
    split at exit <;> (cases exit; exact ok₂)
  split at run
  · cases run
    exact absurd ok (Comp.not_ok_setupError _ _ (by decide))
  · cases run
    have first := count.stmts g read (ok₁ (by simpa using ok))
    simpa [left] using first

theorem stmtblock_counts {s s' : Comp} {n : Nat} {t : Stmt} (run : stmtblock P g s = (s', n, t))
    (ok : s'.ok) : retRun s.hasretval t.returns = some s'.hasretval := by
  simp -iota only [stmtblock] at run
  split at run
  · cases run
    exact absurd ok (Comp.not_ok_setupError _ _ (by decide))
  · simpa using blockRest_counts count g run ok

end

/-- The recursive entries count, by induction on the depth. -/
theorem parsers_count (n : Nat) : ParsersCount (parsers n) := by
  induction n with
  | zero =>
      refine ⟨parsers_good 0, parsers_keep 0, fun _ => ?_, fun _ => ?_, fun _ => ?_⟩
      · intro s s' t run ok
        cases run
        exact absurd ok s.not_ok_giveUp
      · intro s s' t run ok
        cases run
        exact absurd ok s.not_ok_giveUp
      · intro s s' m t run ok
        cases run
        exact absurd ok s.not_ok_giveUp
  | succ n count =>
      exact ⟨parsers_good (n + 1), parsers_keep (n + 1), stmts_counts count, sif_counts count,
        stmtblock_counts count⟩

end Jspp.Compiler
