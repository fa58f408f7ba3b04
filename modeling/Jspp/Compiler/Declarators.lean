/-
# Compiler.Declarators -- lists of declarators

`localvar` moves behind the comma of a list, and its loop then moves once more before it asks
for a name.  So it asks for one behind the name of the second declarator, and no list of two
declarators or more is accepted.

* `Listed`: a list of declarators, beside the text with one statement for each of them.
* `list_refused`: a list of two declarators or more is not accepted.
* `declarators_iff`: the lists that are treated as their single statements are.
-/
import Jspp.Compiler.Declare
import Jspp.Compiler.EmitsStmt
import Jspp.Compiler.Nesting

namespace Jspp.Compiler

open Jspp.Kernel

set_option autoImplicit false

/-! ## Lists -/

/-- From the one place to the other stands a name, alone or with `=` and an expression: its
brackets come in pairs, and a comma or a semicolon stands only between brackets. -/
def Declarator (sc sc' : Scanned) : Prop :=
  sc.lex.token = .id ∧
    (sc' = sc.next ∨ sc.next.lex.token = .assign ∧ Passes 0 sc.next.next 0 sc')

/-- The two texts have the same tokens from the one place to the other. -/
inductive Alike : Scanned → Scanned → Scanned → Scanned → Prop where
  | refl (sc one : Scanned) : Alike sc sc one one
  | step {sc sc' one one' : Scanned} (token : sc.lex.token = one.lex.token)
      (lexeme : sc.lex.lex = one.lex.lex)
      (rest : Alike sc.next sc' one.next one') : Alike sc sc' one one'

/-- The first text goes on with a list of declarators and a semicolon, the second with the same
declarators, each in a statement of its own. -/
inductive Listed : Nat → Scanned → Scanned → Prop where
  | last {sc sc' one one' : Scanned} (declarator : Declarator sc sc')
      (alike : Alike sc sc' one one') (end₁ : sc'.lex.token = .semi)
      (end₂ : one'.lex.token = .semi) : Listed 1 sc one
  | more {n : Nat} {sc sc' one one' : Scanned} (declarator : Declarator sc sc')
      (alike : Alike sc sc' one one') (comma : sc'.lex.token = .comma)
      (semi : one'.lex.token = .semi) (var : one'.next.lex.token = .var)
      (rest : Listed n sc'.next one'.next.next) : Listed (n + 1) sc one

theorem Listed.declarator {n : Nat} {sc one : Scanned} (list : Listed n sc one) :
    ∃ sc', Declarator sc sc' ∧ (sc'.lex.token = .comma ∨ sc'.lex.token = .semi) := by
  cases list with
  | last declarator _ semi _ => exact ⟨_, declarator, .inr semi⟩
  | more declarator _ comma _ _ _ => exact ⟨_, declarator, .inl comma⟩

/-- What follows a `var`, beside what follows it with a statement for each declarator; one
declarator is its own statement. -/
inductive Declared : Nat → Scanned → Scanned → Prop where
  | one {sc one : Scanned} (list : Listed 1 sc one) (same : one = sc) : Declared 1 sc one
  | list {n : Nat} {sc one : Scanned} (list : Listed (n + 2) sc one) : Declared (n + 2) sc one

theorem Declared.listed {n : Nat} {sc one : Scanned} (list : Declared n sc one) :
    Listed n sc one := by
  cases list with
  | one list _ => exact list
  | list list => exact list

/-- Behind the name of a declarator stands no other name. -/
theorem Declarator.behind {sc sc' : Scanned} (declarator : Declarator sc sc')
    (ends : sc'.lex.token = .comma ∨ sc'.lex.token = .semi) : sc.next.lex.token ≠ .id := by
  rcases declarator.2 with rfl | ⟨assign, -⟩
  · rcases ends with token | token <;> (rw [token]; nofun)
  · rw [assign]
    nofun

/-- The single statements, one after another. -/
def singles (P : Parsers) (g : Scope) : Nat → Comp → Comp × Stmt
  | 0, s => (s, .skip)
  | n + 1, s =>
      let (s, t) := localvar P g s
      let (s, rest) := singles P g n s.next
      (s, t.seq rest)

/-! ## A list is refused -/

section

variable {P : Parsers} (g : Scope)

theorem scan_symtabNote {s s' : Comp} {name : List Char} {isptr : Bool} {v : BlockVar}
    (run : symtabNote name isptr s = (v, s')) : s'.scan = s.scan := by
  unfold symtabNote at run
  simp only at run
  split at run <;> (cases run; rfl)

/-- A declarator that is read leaves the parser at what stands behind it, or behind the comma. -/
theorem declarator_ends (cross : ParsersCross P) {s s' : Comp} {sc : Scanned} {t : Stmt}
    {more : Bool} (declarator : Declarator s.scan.next sc)
    (ends : sc.lex.token = .comma ∨ sc.lex.token = .semi)
    (run : Compiler.declarator P g s = (s', t, more)) (ok : s'.ok) :
    s'.scan = if sc.lex.token = .comma then sc.next else sc := by
  have stops : nest 0 sc.lex.token = none := by
    rcases ends with token | token <;> (rw [token]; rfl)
  simp -iota only [Compiler.declarator] at run
  split at run
  · cases run
    exact absurd ok (Comp.not_ok_setupError _ _ (by decide))
  split at run
  rename_i vdp s₁ note
  have noted : s₁.next.scan = s.scan.next.next := congrArg Scanned.next (scan_symtabNote note)
  split at run
  rename_i s₂ init read
  have arrived : s₂.ok → (s₂.token = .comma ∨ s₂.token = .semi) → s₂.scan = sc := by
    intro okRead stop
    simp -iota only [localinit] at read
    split at read
    · rename_i assign
      split at read
      rename_i s₃ e readExpr
      cases read
      obtain ⟨-, passed⟩ := cross.expr g readExpr okRead
      have started : Passes 0 s.scan.next.next.next 0 s₃.scan := by
        have same : s₁.next.next.scan = s.scan.next.next.next := congrArg Scanned.next noted
        rw [← same]
        exact passed
      have token : s.scan.next.next.lex.token = .assign := by
        rw [← noted]
        exact assign
      rcases declarator.2 with rfl | ⟨-, expected⟩
      · rcases ends with other | other <;> (rw [token] at other; cases other)
      · refine started.unique expected ?_ stops
        have stop : s₃.token = .comma ∨ s₃.token = .semi := stop
        rcases stop with other | other <;> (rw [show s₃.scan.lex.token = _ from other]; rfl)
    · rename_i plain
      cases read
      rcases declarator.2 with rfl | ⟨assign, -⟩
      · exact noted
      · exact absurd (by rw [Comp.token, Comp.lex, noted]; exact assign) plain
  split at run
  · rename_i err
    cases run
    exact absurd ok.1 err
  split at run
  · rename_i comma
    cases run
    have there := arrived ok (.inl comma)
    have token : sc.lex.token = .comma := by
      rw [← there]
      exact comma
    rw [if_pos token, ← there]
    rfl
  split at run
  · cases run
    exact absurd ok (Comp.not_ok_setupError _ _ (by decide))
  · rename_i semi
    cases run
    have there := arrived ok (.inr (Decidable.not_not.mp semi))
    have token : sc.lex.token = .semi := by
      rw [← there]
      exact Decidable.not_not.mp semi
    rw [if_neg (by rw [token]; decide), there]

theorem declarator_named {s s' : Comp} {t : Stmt} {more : Bool}
    (run : Compiler.declarator P g s = (s', t, more)) (ok : s'.ok) : s.next.token = .id := by
  simp -iota only [Compiler.declarator] at run
  split at run
  · cases run
    exact absurd ok (Comp.not_ok_setupError _ _ (by decide))
  · rename_i name
    exact Decidable.not_not.mp name

/-- When nothing is refused, the loop reads a declarator in each round. -/
theorem localvarLoop_round (good : ParsersGood P) {n : Nat} {acc : Stmt} {s s' : Comp} {t : Stmt}
    (run : localvarLoop P g n acc s = (s', t)) (ok : s'.ok) (inside : s.token ≠ .semi) :
    ∃ m s₁ init, Compiler.declarator P g s = (s₁, init, true) ∧ s₁.ok ∧
      localvarLoop P g m (acc.seq init) s₁ = (s', t) := by
  cases n with
  | zero =>
      cases run
      exact absurd ok (Comp.not_ok_giveUp s)
  | succ n =>
      simp -iota only [localvarLoop] at run
      split at run
      · split at run
        rename_i s₁ init more read
        split at run
        · rename_i goes
          have ok₁ := (localvarLoop_writes good n _ s₁ run ok).1
          subst goes
          exact ⟨n, s₁, init, read, ok₁, run⟩
        · rename_i stops
          cases run
          exact absurd (declarator_writes good read ok).2.1 stops
      · rename_i outside
        cases run
        exact absurd ⟨inside, ok.1⟩ outside

/-- A list of two declarators or more is not accepted. -/
theorem list_refused (good : ParsersGood P) (cross : ParsersCross P) {s : Comp}
    (var : s.token = .var) {n : Nat} {one : Scanned} (list : Listed (n + 2) s.scan.next one) :
    ¬ (localvar P g s).1.ok := by
  intro ok
  cases list with
  | more first _ comma _ _ rest =>
      have run : localvarLoop P g P.rounds .skip s = localvar P g s := rfl
      obtain ⟨_, r, _, read, ok₁, more⟩ := localvarLoop_round g good run ok
        (by rw [var]; nofun)
      have arrived := declarator_ends g cross first (.inl comma) read ok₁
      rw [if_pos comma] at arrived
      obtain ⟨sc', second, ends⟩ := rest.declarator
      have name : r.token = .id := by
        rw [Comp.token, Comp.lex, arrived]
        exact second.1
      obtain ⟨_, _, _, read', ok', -⟩ := localvarLoop_round g good more ok
        (by rw [name]; nofun)
      refine second.behind ends ?_
      rw [← arrived]
      exact declarator_named g read' ok'

/-! ## Lists and single statements -/

/-- Only what comes behind the `var` matters. -/
theorem localvar_same {s t : Comp} (var : s.token = .var) (var' : t.token = .var)
    (err : s.errornum = t.errornum) (next : s.next = t.next) (ok : (localvar P g t).1.ok) :
    localvar P g s = localvar P g t := by
  unfold localvar at ok ⊢
  cases rounds : P.rounds with
  | zero =>
      rw [rounds] at ok
      exact absurd ok (Comp.not_ok_giveUp t)
  | succ n =>
      have first : Compiler.declarator P g s = Compiler.declarator P g t := by
        simp only [Compiler.declarator, next]
      by_cases clean : t.errornum = 0
      · simp only [localvarLoop, var, var', err, first, clean]
        rfl
      · rw [rounds, localvarLoop, if_neg (fun inside => clean inside.2)] at ok
        exact absurd ok.1 clean

/-- One declarator is compiled as its statement. -/
theorem single_same {s t : Comp} (var : s.token = .var) (var' : t.token = .var)
    (same : t = { s with scan := t.scan }) (list : Declared 1 s.scan.next t.scan.next) :
    ((localvar P g s).1.ok ↔ (singles P g 1 t).1.ok) ∧
      ((localvar P g s).1.ok →
        (localvar P g s).1.code = (singles P g 1 t).1.code ∧
        (localvar P g s).1.symstack = (singles P g 1 t).1.symstack) := by
  have behind : s.scan.next = t.scan.next := by
    cases list with
    | one _ same => exact same.symm
  have next : s.next = t.next := by
    rw [same]
    simp only [Comp.next, behind]
  have err : s.errornum = t.errornum := by
    rw [same]
  have one : (singles P g 1 t).1 = (localvar P g t).1.next := rfl
  rw [one]
  by_cases ok : (localvar P g t).1.ok
  · have eq := localvar_same g var var' err next ok
    rw [eq]
    exact ⟨⟨fun _ => ok, fun _ => ok⟩, fun _ => ⟨rfl, rfl⟩⟩
  · have not_ok : ¬ (localvar P g s).1.ok := by
      intro ok'
      rw [localvar_same g var' var err.symm next.symm ok'] at ok
      exact ok ok'
    exact ⟨⟨fun ok' => absurd ok' not_ok, fun ok' => absurd ok' ok⟩, fun ok' => absurd ok' not_ok⟩

/-- A list of declarators is accepted when its single statements are, and compiled as they are,
exactly when it has one declarator, or not all the single statements are accepted. -/
theorem declarators_iff (m : Nat) {s t : Comp} (var : s.token = .var) (var' : t.token = .var)
    (same : t = { s with scan := t.scan }) {n : Nat}
    (list : Declared n s.scan.next t.scan.next) :
    (((localvar (parsers m) g s).1.ok ↔ (singles (parsers m) g n t).1.ok) ∧
      ((localvar (parsers m) g s).1.ok →
        (localvar (parsers m) g s).1.code = (singles (parsers m) g n t).1.code ∧
        (localvar (parsers m) g s).1.symstack = (singles (parsers m) g n t).1.symstack)) ↔
      (n = 1 ∨ ¬ (singles (parsers m) g n t).1.ok) := by
  match n, list with
  | 1, list => exact iff_of_true (single_same g var var' same list) (.inl rfl)
  | n + 2, list =>
      have refused := list_refused g (parsers_good m) (parsers_cross m) var list.listed
      constructor
      · intro agree
        exact .inr fun ok => refused (agree.1.mpr ok)
      · intro condition
        have not_ok := condition.resolve_left (by omega)
        exact ⟨iff_of_false refused not_ok, fun ok => absurd ok refused⟩

end

/-! ## One declarator and two -/

/-- A block whose text comes next. -/
def blockStart (text : List Char) : Comp :=
  symtabEnter 1 ((programConstruct (.start text) ⟨[], []⟩).comp.next.emitIm .enter (some 0))

/-- A method without surroundings. -/
def bareScope : Scope where
  fields := []
  isstatic := true
  isdebuging := false
  findClass _ := none

def oneDeclarator : List Char := "var a = 1;".toList

def twoDeclarators : List Char := "var a, b;".toList

def twoSingles : List Char := "var a; var b;".toList

theorem one_declared :
    Declared 1 (blockStart oneDeclarator).scan.next (blockStart oneDeclarator).scan.next :=
  .one (.last ⟨by decide +kernel, .inr ⟨by decide +kernel,
      .step (show nest 0 _ = some 0 by decide +kernel) (.refl 0 _)⟩⟩
    (.step rfl rfl (.step rfl rfl (.step rfl rfl (.refl _ _))))
    (by decide +kernel) (by decide +kernel)) rfl

theorem two_declared :
    Declared 2 (blockStart twoDeclarators).scan.next (blockStart twoSingles).scan.next :=
  .list (.more ⟨by decide +kernel, .inl rfl⟩
    (.step (by decide +kernel) (by decide +kernel) (.refl _ _))
    (by decide +kernel) (by decide +kernel) (by decide +kernel)
    (.last ⟨by decide +kernel, .inl rfl⟩
      (.step (by decide +kernel) (by decide +kernel) (.refl _ _))
      (by decide +kernel) (by decide +kernel)))

/-- One declarator is compiled as its statement; two are not, their statements being accepted. -/
theorem declarators_iff_both :
    ((localvar (parsers 4) bareScope (blockStart oneDeclarator)).1.ok ∧
      (localvar (parsers 4) bareScope (blockStart oneDeclarator)).1.code =
        (singles (parsers 4) bareScope 1 (blockStart oneDeclarator)).1.code ∧
      (localvar (parsers 4) bareScope (blockStart oneDeclarator)).1.symstack =
        (singles (parsers 4) bareScope 1 (blockStart oneDeclarator)).1.symstack) ∧
    ¬ (((localvar (parsers 4) bareScope (blockStart twoDeclarators)).1.ok ↔
        (singles (parsers 4) bareScope 2 (blockStart twoSingles)).1.ok) ∧
      ((localvar (parsers 4) bareScope (blockStart twoDeclarators)).1.ok →
        (localvar (parsers 4) bareScope (blockStart twoDeclarators)).1.code =
          (singles (parsers 4) bareScope 2 (blockStart twoSingles)).1.code ∧
        (localvar (parsers 4) bareScope (blockStart twoDeclarators)).1.symstack =
          (singles (parsers 4) bareScope 2 (blockStart twoSingles)).1.symstack)) := by
  have agree := (declarators_iff bareScope 4 (s := blockStart oneDeclarator)
    (t := blockStart oneDeclarator) (by decide +kernel) (by decide +kernel) rfl
    one_declared).mpr (.inl rfl)
  have ok : (localvar (parsers 4) bareScope (blockStart oneDeclarator)).1.ok := by
    decide +kernel
  have accepted : (singles (parsers 4) bareScope 2 (blockStart twoSingles)).1.ok := by
    decide +kernel
  have differ := (declarators_iff bareScope 4 (s := blockStart twoDeclarators)
    (t := blockStart twoSingles) (by decide +kernel) (by decide +kernel) rfl two_declared).not.mpr
    fun one => one.elim (by decide) fun refused => refused accepted
  exact ⟨⟨ok, agree.2 ok⟩, differ⟩

/-- Two declarators are refused in a list and accepted in two statements. -/
theorem declarators_broken :
    Declared 2 (blockStart twoDeclarators).scan.next (blockStart twoSingles).scan.next ∧
      blockStart twoSingles =
        { blockStart twoDeclarators with scan := (blockStart twoSingles).scan } ∧
      (singles (parsers 4) bareScope 2 (blockStart twoSingles)).1.ok ∧
      ¬ (localvar (parsers 4) bareScope (blockStart twoDeclarators)).1.ok :=
  ⟨two_declared, rfl, by decide +kernel, by decide +kernel⟩

end Jspp.Compiler
