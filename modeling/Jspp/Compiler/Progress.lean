/-
# Compiler.Progress -- every round of the parser takes a token or records an error

The C parser has no bound on its loops and its recursion.  What ends them is that
every round and every nested call takes a token or records an error, and no
function takes an error back.  The model's bounds (`Parsers.rounds`, the number
of levels of `parsers`) are measured here by the characters that are left
(`Reading.ahead`): with that much room no function of a method body reaches one.

* `Runs`, `Moves`, `Takes`: what a stretch of parsing does to the text ahead.
* `Roomy`: the contracts of the recursive entries, on short enough texts.
* `parsers_roomy`: the levels a text needs.
-/
import Jspp.Compiler.ParseStmt
import Jspp.Compiler.Scan

namespace Jspp.Compiler

open Jspp.Kernel

set_option autoImplicit false

/-! ## The text ahead -/

/-- What the loops of the parser go by. -/
structure Reading where
  scan : Scanned
  errornum : Int
  fuelOut : Bool

/-- The characters not read yet, and the token at hand. -/
def Scanned.ahead (s : Scanned) : Nat :=
  s.lex.rest.length + if s.lex.token = .jeof then 0 else 1

/-- What a call has before it. -/
def Reading.ahead (r : Reading) : Nat := r.scan.ahead

/-- The part of the compile state that the loops go by. -/
def Comp.reading (s : Comp) : Reading where
  scan := s.scan
  errornum := s.errornum
  fuelOut := s.fuelOut

/-- A stretch of parsing: no bound was reached, and no error was taken back. -/
structure Runs (r r' : Reading) : Prop where
  fuel : r.fuelOut = false → r'.fuelOut = false
  ahead : r'.ahead ≤ r.ahead
  error : r.errornum ≠ 0 → r'.errornum ≠ 0

/-- It took a token, or recorded an error. -/
structure Moves (r r' : Reading) : Prop extends Runs r r' where
  moved : r'.errornum ≠ 0 ∨ r'.ahead < r.ahead

structure Takes (r r' : Reading) : Prop extends Runs r r' where
  less : r'.ahead < r.ahead

section

variable {r r' r'' : Reading}

theorem Runs.refl (r : Reading) : Runs r r := ⟨id, Nat.le_refl _, id⟩

/-- Nothing was read. -/
theorem Runs.same (eq : r' = r) : Runs r r' := eq ▸ Runs.refl r

/-- Two stretches, one behind the other. -/
theorem Runs.trans (one : Runs r r') (two : Runs r' r'') : Runs r r'' where
  fuel := two.fuel ∘ one.fuel
  ahead := Nat.le_trans two.ahead one.ahead
  error := two.error ∘ one.error

theorem Moves.trans (one : Moves r r') (two : Runs r' r'') : Moves r r'' where
  toRuns := one.toRuns.trans two
  moved := by
    rcases one.moved with error | less
    · exact .inl (two.error error)
    · exact .inr (Nat.lt_of_le_of_lt two.ahead less)

theorem Runs.moves (one : Runs r r') (two : Moves r' r'') : Moves r r'' where
  toRuns := one.trans two.toRuns
  moved := two.moved.imp_right fun less => Nat.lt_of_lt_of_le less one.ahead

theorem Takes.trans (one : Takes r r') (two : Runs r' r'') : Takes r r'' where
  toRuns := one.toRuns.trans two
  less := Nat.lt_of_le_of_lt two.ahead one.less

theorem Runs.takes (one : Runs r r') (two : Takes r' r'') : Takes r r'' where
  toRuns := one.trans two.toRuns
  less := Nat.lt_of_lt_of_le two.less one.ahead

/-- A token is progress. -/
theorem Takes.moves (takes : Takes r r') : Moves r r' := ⟨takes.toRuns, .inr takes.less⟩

/-- Without an error it was a token. -/
theorem Moves.takes (moves : Moves r r') (clear : r'.errornum = 0) : Takes r r' :=
  ⟨moves.toRuns, moves.moved.resolve_left (absurd clear)⟩

theorem Takes.room {k : Nat} (takes : Takes r r') (room : r.ahead ≤ k) : r'.ahead < k :=
  Nat.lt_of_lt_of_le takes.less room

/-- A block stands behind a token, which makes room for one call more. -/
theorem Takes.block {k : Nat} (takes : Takes r r') (room : r.ahead < k) : r'.ahead + 1 < k :=
  Nat.lt_of_le_of_lt takes.less room

/-- Less before the parser, and as much room. -/
theorem Runs.room {k : Nat} (runs : Runs r r') (room : r.ahead < k) : r'.ahead < k :=
  Nat.lt_of_le_of_lt runs.ahead room

theorem Runs.room_le {k : Nat} (runs : Runs r r') (room : r.ahead ≤ k) : r'.ahead ≤ k :=
  Nat.le_trans runs.ahead room

end

theorem Scanned.lex_next (s : Scanned) : s.next.lex = jsppLex s.lex := by
  unfold Scanned.next
  rfl

/-- The next token and what is behind it come off the text. -/
theorem Scanned.ahead_next (s : Scanned) : s.next.ahead ≤ s.lex.rest.length := by
  have reads := jsppLex_scan s.lex
  rw [Scanned.ahead, s.lex_next, reads.token, reads.rest]
  split
  · exact length_scan _ _
  · rename_i more
    exact scan_shorter more

namespace Comp

variable {s : Comp}

/-- A call of the lexer, at the end of the text too. -/
theorem runs_next (s : Comp) : Runs s.reading s.next.reading :=
  ⟨id, Nat.le_trans s.scan.ahead_next (Nat.le_add_right _ _), id⟩

/-- Before the end it takes a token. -/
theorem takes_next (more : s.token ≠ .jeof) : Takes s.reading s.next.reading := by
  refine ⟨runs_next s, Nat.lt_of_le_of_lt s.scan.ahead_next ?_⟩
  show s.scan.lex.rest.length < s.scan.lex.rest.length + if s.token = .jeof then 0 else 1
  rw [if_neg more]
  exact Nat.lt_succ_self _

theorem takes_of {t : Token} (token : s.token = t) (ne : t ≠ .jeof) :
    Takes s.reading s.next.reading :=
  takes_next (token ▸ ne)

theorem runs_skip (t : Token) (s : Comp) : Runs s.reading (s.skip t).reading := by
  unfold skip
  split
  · exact runs_next s
  · exact Runs.refl _

/-- A recorded error is one: those of the lexer have numbers too. -/
theorem setupError_ne (s : Comp) {e : Int} (ne : e ≠ 0) : (s.setupError e).errornum ≠ 0 := by
  show (errorOf s.lex e).1 ≠ 0
  unfold errorOf
  split
  · rename_i bad
    exact s.scan.coded bad
  · exact ne

/-- An error is progress. -/
theorem moves_setupError (s : Comp) {e : Int} (ne : e ≠ 0) :
    Moves s.reading (s.setupError e).reading :=
  ⟨⟨id, Nat.le_refl _, fun _ => setupError_ne s ne⟩, .inl (setupError_ne s ne)⟩

theorem runs_setupError (s : Comp) {e : Int} (ne : e ≠ 0) :
    Runs s.reading (s.setupError e).reading :=
  (moves_setupError s ne).toRuns

@[simp] theorem reading_emit0 (op : OpCode) (s : Comp) : (s.emit0 op).reading = s.reading := rfl

@[simp] theorem reading_emit1 (op : OpCode) (mode : ArgSource) (s : Comp) :
    (s.emit1 op mode).reading = s.reading := rfl

@[simp] theorem reading_emitArg (arg : Option Int) (s : Comp) :
    (s.emitArg arg).reading = s.reading := rfl

@[simp] theorem reading_emitIm (op : OpCode) (arg : Option Int) (s : Comp) :
    (s.emitIm op arg).reading = s.reading := rfl

@[simp] theorem reading_patch (pc : Nat) (s : Comp) : (s.patch pc).reading = s.reading := rfl

theorem reading_symtabNote (name : List Char) (isptr : Bool) (s : Comp) :
    (symtabNote name isptr s).2.reading = s.reading := by
  unfold symtabNote
  simp only
  split <;> rfl

theorem reading_symtabExit (s : Comp) : (symtabExit s).2.reading = s.reading := by
  unfold symtabExit
  split <;> rfl

end Comp

/-! ## Room for the recursion -/

/-- The entries keep their contracts on texts shorter than `k`. -/
structure Roomy (P : Parsers) (k : Nat) : Prop where
  rounds : k < P.rounds
  expr : ∀ {g : Scope} {s : Comp} {r : Reading}, s.reading = r → r.ahead < k →
    Moves r (P.expr g s).1.reading
  deref : ∀ {g : Scope} {e : Expr} {s : Comp} {r : Reading}, s.reading = r → r.ahead < k →
    Runs r (P.deref g e s).1.reading
  morefactors : ∀ {g : Scope} {e : Expr} {s : Comp} {r : Reading}, s.reading = r → r.ahead < k →
    Runs r (P.morefactors g e s).1.reading
  moreterms : ∀ {g : Scope} {e : Expr} {s : Comp} {r : Reading}, s.reading = r → r.ahead < k →
    Runs r (P.moreterms g e s).1.reading
  morerelops : ∀ {g : Scope} {e : Expr} {s : Comp} {r : Reading}, s.reading = r → r.ahead < k →
    Runs r (P.morerelops g e s).1.reading
  morelogop : ∀ {g : Scope} {e : Expr} {s : Comp} {r : Reading}, s.reading = r → r.ahead < k →
    Runs r (P.morelogop g e s).1.reading
  stmts : ∀ {g : Scope} {s : Comp} {r : Reading}, s.reading = r → r.ahead + 1 < k →
    Runs r (P.stmts g s).1.reading
  stmtblock : ∀ {g : Scope} {s : Comp} {r : Reading}, s.reading = r → r.ahead + 1 < k →
    Runs r (P.stmtblock g s).1.reading
  sif : ∀ {g : Scope} {s : Comp} {r : Reading}, s.reading = r → r.ahead + 1 < k →
    Runs r (P.sif g s).1.reading

section

variable {P : Parsers} {k : Nat} (good : Roomy P k) {g : Scope} {s : Comp} {r : Reading}
include good

/-! ## Expressions -/

/-- Each argument takes a token or ends the loop. -/
theorem arglistLoop_runs {n : Nat} (args : Args) (room : s.reading.ahead < k) (enough : s.reading.ahead + 1 < n) :
    Runs s.reading (arglistLoop P g n args s).1.reading := by
  induction n generalizing args s with
  | zero => omega
  | succ n ih =>
      simp only [arglistLoop]
      split
      · exact Runs.refl _
      · have read := good.expr (g := g) (s := s) rfl room
        split
        · exact read.toRuns.trans (Comp.runs_setupError _ (by decide))
        · rename_i goes
          have shorter := read.ahead
          by_cases comma : (P.expr g s).1.token = .comma
          · have takes := Comp.takes_of comma (by decide)
            rw [Comp.skip, if_pos comma]
            have less := takes.less
            refine read.toRuns.trans (takes.toRuns.trans (ih _ ?_ ?_))
            · omega
            · omega
          · have closed : (P.expr g s).1.token = .rpar := by
              by_contra other
              exact goes ⟨comma, other⟩
            rw [Comp.skip, if_neg comma]
            obtain ⟨m, rfl⟩ : ∃ m, n = m + 1 := ⟨n - 1, by omega⟩
            rw [arglistLoop, if_pos closed]
            exact read.toRuns

/-- The call behind its arguments reads nothing more. -/
theorem arglist_call_runs (jsp : Option (List Char)) (methname : List Char)
    (basecall constructor : Bool) (here : s.reading = r) (room : r.ahead < k) :
    Runs r (arglist_call P g jsp methname basecall constructor s).1.reading := by
  subst here
  have rounds := good.rounds
  have args := arglistLoop_runs good (g := g) (s := s) (n := P.rounds) .nil room (by omega)
  simp only [arglist_call]
  split
  · cases jsp <;> exact args
  · exact args

/-- The assignment is a token. -/
theorem assignTail_takes {l : Expr} (here : s.reading = r) (more : s.token ≠ .jeof)
    (room : r.ahead ≤ k) : Takes r (assignTail P g l s).1.reading := by
  subst here
  have next := Comp.takes_next more
  have read := good.expr (g := g) (s := s.next.setRhs true) rfl (next.room room)
  exact next.trans read.toRuns

theorem assignIf_runs {e : Expr} (room : s.reading.ahead ≤ k) :
    Runs s.reading (assignIf P g e s).1.reading := by
  unfold assignIf
  split
  · rename_i assign
    exact (assignTail_takes good rfl (by rw [assign]; decide) room).toRuns
  · exact Runs.refl _

/-- The name behind the dot is a token. -/
theorem objderef_runs (recv : Expr) (room : s.reading.ahead < k) :
    Runs s.reading (objderef P g recv s).1.reading := by
  have next := Comp.runs_next s
  have next' := next.trans (Comp.runs_next s.next)
  simp only [objderef]
  split
  · exact Comp.runs_setupError s (by decide)
  split
  · have args := next'.trans
      (arglist_call_runs good none s.lexeme false false (g := g) rfl (next'.room room))
    split
    · exact args.trans (Comp.runs_setupError _ (by decide))
    · have behind := args.trans (Comp.runs_next _)
      exact behind.trans (good.deref rfl (behind.room room))
  · split
    · rename_i assign
      refine next.trans (Takes.toRuns ?_)
      exact assignTail_takes good rfl (by rw [assign]; decide) (Nat.le_of_lt (next.room room))
    · exact next.trans (good.deref rfl (next.room room))

/-- Each index takes a token, unless an error ends the loop. -/
theorem indexLoop_runs {n : Nat} (args : Args) (room : s.reading.ahead < k)
    (enough : s.errornum = 0 → s.reading.ahead + 1 < n) (more : 0 < n) :
    Runs s.reading (indexLoop P g n args s).1.reading := by
  induction n generalizing args s with
  | zero => omega
  | succ n ih =>
      simp only [indexLoop]
      split
      · rename_i goes
        have read := good.expr (g := g) (s := s) rfl room
        have skipped := read.trans (Comp.runs_skip .comma _)
        have start := enough goes.2
        refine skipped.toRuns.trans (ih _ (skipped.toRuns.room room) (fun clear => ?_) (by omega))
        have less := (skipped.takes clear).less
        omega
      · exact Runs.refl _

/-- The bracket is a token. -/
theorem arrayIndexCall_takes {recv : Expr} (more : s.token ≠ .jeof) (room : s.reading.ahead ≤ k) :
    Takes s.reading (arrayIndexCall P g recv s).1.reading := by
  have next := Comp.takes_next more
  have rounds := good.rounds
  have less := next.room room
  have args := next.trans (indexLoop_runs good (g := g) (n := P.rounds) .nil less
    (fun _ => by omega) (by omega))
  simp only [arrayIndexCall]
  split
  · exact args.trans (Comp.runs_setupError _ (by decide))
  · exact args.trans (Comp.runs_next _)

theorem indexTail_runs {e : Expr} (here : s.reading = r) (room : r.ahead ≤ k) :
    Runs r (indexTail P g e s).1.reading := by
  subst here
  unfold indexTail
  split
  · rename_i bracket
    exact (arrayIndexCall_takes good (by rw [bracket]; decide) room).toRuns
  · exact Runs.refl _

/-- The dot or the bracket is a token. -/
theorem derefTail_runs (recv : Expr) (room : s.reading.ahead ≤ k) :
    Runs s.reading (derefTail P g recv s).1.reading := by
  simp only [derefTail]
  split
  · rename_i dot
    have next := Comp.takes_of dot (by decide)
    split
    · exact next.toRuns.trans (Comp.runs_setupError _ (by decide))
    · exact next.toRuns.trans (objderef_runs good recv (next.room room))
  · exact indexTail_runs good rfl room

/-- The name is a token. -/
theorem singletonCall_takes (more : s.token ≠ .jeof) (room : s.reading.ahead ≤ k) :
    Takes s.reading (singletonCall P g s).1.reading := by
  have one := Comp.takes_next more
  have two := one.trans (Comp.runs_next s.next)
  simp only [singletonCall]
  split
  · split
    · exact one.trans (Comp.runs_setupError _ (by decide))
    · rename_i jsp found
      split
      · exact two.trans (Comp.runs_setupError _ (by decide))
      · have three := two.trans (Comp.runs_next _)
        have four := three.trans (Comp.runs_next _)
        split
        · have args := four.trans (arglist_call_runs good (g := g) (some jsp.name)
            s.next.next.lexeme false false rfl (four.room room))
          split
          · exact args.trans (Comp.runs_setupError _ (by decide))
          · exact args.trans (Comp.runs_next _)
        · split
          · exact three.trans (Comp.runs_setupError _ (by decide))
          · exact three
  · split
    · have args := two.trans (arglist_call_runs good (g := g) (s := (s.next.emit0 .this).next) none
        s.lexeme false false rfl (two.room room))
      split
      · exact args.trans (Comp.runs_setupError _ (by decide))
      · exact args.trans (Comp.runs_next _)
    · exact one.trans (Comp.runs_setupError _ (by decide))

theorem singletonCallHandler_takes (more : s.token ≠ .jeof) (room : s.reading.ahead ≤ k) :
    Takes s.reading (singletonCallHandler P g s).1.reading := by
  have takes := singletonCall_takes good (g := g) more room
  simp only [singletonCallHandler]
  split
  · exact takes.trans (good.deref rfl (takes.room room))
  · exact takes

/-- So it is where a variable is meant. -/
theorem singletonVarHandler_takes (vdp : Vardef) (more : s.token ≠ .jeof)
    (room : s.reading.ahead ≤ k) :
    Takes s.reading (singletonVarHandler P g vdp s).1.reading := by
  have next := Comp.takes_next more
  simp only [singletonVarHandler]
  split
  · exact next.trans (Comp.runs_setupError _ (by decide))
  · have index := next.trans (indexTail_runs good (g := g) (e := .lvalue vdp.srcmode vdp.offset)
      (s := (s.next.emit1 .lvalue vdp.srcmode).emitArg (some vdp.offset)) rfl
      (Nat.le_of_lt (next.room room)))
    have assign := fun e => index.trans
      (assignIf_runs good (g := g) (e := e) (Nat.le_of_lt (index.room room)))
    refine (assign _).trans (good.deref rfl ?_)
    exact (assign _).room room

omit good in
theorem same_token {a : Comp} (same : a.reading = s.reading) : s.token = a.token :=
  congrArg (fun q => q.scan.lex.token) same.symm

omit good in
/-- A literal is told by its token, and not passed yet. -/
theorem literal_reading {r : Comp × Expr} (read : literal s = some r) :
    r.1.reading = s.reading ∧ s.token ≠ .jeof := by
  unfold literal at read
  split at read <;> cases read <;> exact ⟨rfl, by rename_i token; rw [token]; decide⟩

omit good in
/-- Each element is passed, with a comma behind it or without. -/
theorem arrayLoop_runs {addidx n : Nat} {elems : Args} (here : s.reading = r)
    (enough : r.ahead < n) : Runs r (arrayLoop addidx n elems s).1.reading := by
  subst here
  induction n generalizing elems s with
  | zero => omega
  | succ n ih =>
      simp only [arrayLoop]
      split
      · split
        · exact Comp.runs_setupError _ (by decide)
        · rename_i q e read
          obtain ⟨same, more⟩ := literal_reading read
          have next : Takes s.reading q.next.reading :=
            same ▸ Comp.takes_next (same_token same ▸ more)
          have skipped := next.trans (Comp.runs_skip .comma _)
          refine skipped.toRuns.trans ?_
          refine ih (s := (((q.next.skip .comma).emit2 .call .const .im).emitArg
            (some addidx)).emitArg (some 1)) ?_
          exact Nat.lt_of_lt_of_le skipped.less (Nat.le_of_lt_succ enough)
      · exact Runs.refl _

theorem arrayTail_runs {clsidx addidx : Nat} (room : s.reading.ahead < k) :
    Runs s.reading (arrayTail P clsidx addidx s).1.reading := by
  have rounds := good.rounds
  have enough : s.reading.ahead < P.rounds := Nat.lt_trans room rounds
  have loop : Runs s.reading (arrayLoop addidx P.rounds .nil
      (((((s.emit1 .new .const).emitArg (some clsidx)).emit2 .construct .const .im).emitArg
        (some clsidx)).emitArg (some 0))).1.reading := arrayLoop_runs rfl enough
  simp only [arrayTail]
  split
  · exact loop
  split
  · exact loop.trans (Comp.runs_setupError _ (by decide))
  · exact loop.trans (Comp.runs_next _)

/-- The braces of an array. -/
theorem arraydef_runs (room : s.reading.ahead < k) :
    Runs s.reading (arraydef P g s).1.reading := by
  simp only [arraydef]
  split
  · exact Comp.runs_setupError s (by decide)
  · exact arrayTail_runs good (s := ((s.emitConstChars "add:Ivvv".toList).2.emitConstChars
      "Vector".toList).2) room

/-- The parentheses behind the name of a class. -/
theorem newTail_runs {clsname : List Char} {clsidx : Nat} (room : s.reading.ahead < k) :
    Runs s.reading (newTail P g clsname clsidx s).1.reading := by
  have next := Comp.runs_next s
  have args := next.trans (arglist_call_runs good none clsname false true (g := g)
    (s := (s.next.emit1 .new .const).emitArg (some clsidx)) rfl (next.room room))
  simp only [newTail]
  split
  · exact args
  split
  · exact args.trans (Comp.runs_setupError _ (by decide))
  · exact args.trans (Comp.runs_next _)

/-- The word `new` is a token. -/
theorem new_expr_takes (more : s.token ≠ .jeof) (room : s.reading.ahead ≤ k) :
    Takes s.reading (new_expr P g s).1.reading := by
  have next := Comp.takes_next more
  have name := next.trans (Comp.runs_next (s.next.emitConstChars s.next.lexeme).2)
  simp only [new_expr]
  split
  · exact next.trans (Comp.runs_setupError _ (by decide))
  split
  · split
    · exact name.trans (Comp.runs_setupError _ (by decide))
    · exact name.trans (newTail_runs good (name.room room))
  · exact name.trans (Comp.runs_setupError _ (by decide))

/-- So is the mark of a base call. -/
theorem baseCall_takes (more : s.token ≠ .jeof) (room : s.reading.ahead ≤ k) :
    Takes s.reading (baseCall P g s).1.reading := by
  have one := Comp.takes_next more
  have two := one.trans (Comp.runs_next s.next)
  have three := two.trans (Comp.runs_next s.next.next)
  simp only [baseCall]
  split
  · exact one.trans (Comp.runs_setupError _ (by decide))
  split
  · exact two.trans (Comp.runs_setupError _ (by decide))
  · have args := three.trans (arglist_call_runs good none s.next.lexeme true false (g := g)
      (s := s.next.next.next.emit0 .this) rfl (three.room room))
    split
    · exact args.trans (Comp.runs_setupError _ (by decide))
    · have behind := args.trans (Comp.runs_next _)
      exact behind.trans (good.deref rfl (behind.room room))

/-- An operand takes its first token, or it is an error. -/
theorem singleton_moves (room : s.reading.ahead ≤ k) :
    Moves s.reading (singleton P g s).1.reading := by
  simp only [singleton]
  split
  case h_1 token =>
      split
      · exact (singletonCallHandler_takes good (by rw [token]; decide) room).moves
      · exact (singletonVarHandler_takes good _ (by rw [token]; decide) room).moves
  case h_2 token =>
      have next := Comp.takes_of token (by decide)
      exact (next.trans (arraydef_runs good (next.room room))).moves
  case h_3 token =>
      have next := Comp.takes_of token (by decide)
      have read := next.trans (good.expr (g := g) rfl (next.room room)).toRuns
      split
      · exact (read.trans (Comp.runs_setupError _ (by decide))).moves
      · exact (read.trans (Comp.runs_next _)).moves
  case h_4 token => exact (new_expr_takes good (by rw [token]; decide) room).moves
  case h_5 token => exact (baseCall_takes good (by rw [token]; decide) room).moves
  case h_6 =>
      split
      · rename_i q e read
        obtain ⟨same, more⟩ := literal_reading read
        exact (same ▸ Comp.takes_next (same_token same ▸ more) :
          Takes s.reading q.next.reading).moves
      · exact Comp.moves_setupError s (by decide)

/-! ## Operators -/

omit good in
theorem reading_popUnlessRhs (e : Expr) (s : Comp) :
    (popUnlessRhs e s).1.reading = s.reading := by
  unfold popUnlessRhs
  split <;> rfl

omit good in
/-- An operator behind the operand may be missing. -/
theorem postIncDec_runs (t : Token) (op : UnOp) (e : Expr) (s : Comp) :
    Runs s.reading (postIncDec t op e s).1.reading := by
  unfold postIncDec
  split
  · rw [reading_popUnlessRhs]
    exact Comp.runs_next s
  · exact Runs.refl _

/-- The operators in front are tokens; without one the operand makes the progress. -/
theorem prefixed_moves (room : s.reading.ahead ≤ k) :
    Moves s.reading (prefixed P g s).1.reading := by
  have next := Comp.runs_next s
  have operand := next.moves (singleton_moves good (g := g) (next.room_le room))
  simp only [prefixed]
  split
  · exact operand
  · exact operand
  · rw [reading_popUnlessRhs]
    exact operand
  · rw [reading_popUnlessRhs]
    exact operand
  · exact operand
  · exact singleton_moves good room

/-- An operand takes a token or records an error. -/
theorem factor_moves (room : s.reading.ahead ≤ k) :
    Moves s.reading (factor P g s).1.reading := by
  have read := prefixed_moves good (g := g) room
  exact (read.trans (postIncDec_runs _ _ _ _)).trans (postIncDec_runs _ _ _ _)

omit good in
/-- `if ( 0 == pp->errornum )` the rest of an expression, behind an operand. -/
theorem tail_moves {f : Scope → Expr → Comp → Comp × Expr} {a : Comp} {l : Expr}
    (cont : ∀ {g : Scope} {e : Expr} {s : Comp} {r : Reading}, s.reading = r → r.ahead < k →
      Runs r (f g e s).1.reading)
    (moves : Moves r a.reading) (room : r.ahead ≤ k) :
    Moves r (if a.errornum = 0 then f g l a else (a, l)).1.reading := by
  split
  · rename_i clear
    exact moves.trans (cont rfl ((moves.takes clear).room room))
  · exact moves

omit good in
/-- The operators of one level go on behind each other. -/
theorem tail_runs {f : Scope → Expr → Comp → Comp × Expr} {a : Comp} {l : Expr}
    (cont : ∀ {g : Scope} {e : Expr} {s : Comp} {r : Reading}, s.reading = r → r.ahead < k →
      Runs r (f g e s).1.reading)
    (moves : Moves r a.reading) (room : r.ahead ≤ k) :
    Runs r (if a.errornum = 0 then f g l a else (a, l)).1.reading := by
  have tail := tail_moves (g := g) (l := l) (f := f) cont moves room
  exact tail.toRuns

theorem morefactors_runs {l : Expr} (room : s.reading.ahead ≤ k) :
    Runs s.reading (morefactors P g l s).1.reading := by
  have next := Comp.runs_next s
  simp only [morefactors]
  split
  · exact Runs.refl _
  · have read := next.moves (factor_moves good (g := g) (next.room_le room))
    exact tail_runs good.morefactors read room

/-- A product begins with an operand. -/
theorem term_moves (room : s.reading.ahead ≤ k) : Moves s.reading (term P g s).1.reading :=
  tail_moves good.morefactors (factor_moves good room) room

theorem moreterms_runs {l : Expr} (room : s.reading.ahead ≤ k) :
    Runs s.reading (moreterms P g l s).1.reading := by
  have next := Comp.runs_next s
  simp only [moreterms]
  split
  · rename_i op assign
    have more : s.token ≠ .jeof := by
      intro ended
      rw [ended] at assign
      cases assign
    have next := Comp.takes_next more
    have read := next.toRuns.moves (good.expr (g := g) (s := (s.next.setRhs true).emit0 .dup) rfl
      (next.room room))
    exact tail_runs good.moreterms read room
  · split
    · exact Runs.refl _
    · have read := next.moves (term_moves good (g := g) (next.room_le room))
      exact tail_runs good.moreterms read room

/-- A comparison begins with a sum. -/
theorem relop_moves (room : s.reading.ahead ≤ k) : Moves s.reading (relop P g s).1.reading :=
  tail_moves good.moreterms (term_moves good room) room

theorem morerelops_runs {l : Expr} (room : s.reading.ahead ≤ k) :
    Runs s.reading (morerelops P g l s).1.reading := by
  have next := Comp.runs_next s
  simp only [morerelops]
  split
  · exact Runs.refl _
  · have read := next.moves (relop_moves good (g := g) (next.room_le room))
    exact tail_runs good.morerelops read room

/-- A logical operation begins with a comparison. -/
theorem logop_moves (room : s.reading.ahead ≤ k) : Moves s.reading (logop P g s).1.reading :=
  tail_moves good.morerelops (relop_moves good room) room

theorem morelogop_runs {l : Expr} (room : s.reading.ahead ≤ k) :
    Runs s.reading (morelogop P g l s).1.reading := by
  have next := Comp.runs_next s
  simp only [morelogop]
  split
  · have read := next.moves (logop_moves good (g := g) (next.room_le room))
    exact tail_runs good.morelogop read room
  split
  · rename_i op early
    have read := next.moves (logop_moves good (g := g) (s := s.next.emit0 op.op)
      (next.room_le room))
    exact tail_runs good.morelogop read room
  split
  · rename_i assign
    have read := assignTail_takes good (g := g) (l := l) rfl (by rw [assign]; decide) room
    exact tail_runs good.morelogop read.moves room
  · exact Runs.refl _

/-- An expression takes a token, or it is an error. -/
theorem expr_moves (room : s.reading.ahead ≤ k) : Moves s.reading (expr P g s).1.reading :=
  tail_moves good.morelogop (logop_moves good room) room

/-! ## Statements -/

theorem selse_runs (here : s.reading = r) (room : r.ahead < k) :
    Runs r (selse P g s).1.reading := by
  subst here
  simp only [selse]
  split
  · rename_i token
    have next := Comp.takes_of token (by decide)
    split
    · exact next.toRuns.trans (good.sif rfl (next.block room))
    · exact next.toRuns.trans (good.stmtblock rfl (next.block room))
  · exact Runs.refl _

/-- The condition or its parenthesis makes the progress. -/
theorem sif_moves (room : s.reading.ahead < k) : Moves s.reading (sif P g s).1.reading := by
  have one := Comp.runs_next s
  simp only [sif]
  split
  · exact one.moves (Comp.moves_setupError _ (by decide))
  · rename_i token
    have two := one.takes (Comp.takes_of (not_not.mp token) (by decide))
    have cond := two.trans (good.expr (g := g) rfl (two.toRuns.room room)).toRuns
    split
    · exact (cond.trans (Comp.runs_setupError _ (by decide))).moves
    · have three := cond.trans (Comp.runs_next _)
      have body := three.trans
        (good.stmtblock (g := g) (s := (P.expr g s.next.next).1.next.emitIm .jmpz (some 0)) rfl
          (three.block room))
      refine (body.trans ?_).moves
      exact selse_runs good rfl (body.toRuns.room room)

/-- The same of a `while`. -/
theorem swhile_moves (room : s.reading.ahead < k) :
    Moves s.reading (swhile P g s).1.reading := by
  have one := Comp.runs_next s
  simp only [swhile]
  split
  · exact one.moves (Comp.moves_setupError _ (by decide))
  · rename_i token
    have two := one.takes (Comp.takes_of (not_not.mp token) (by decide))
    have cond := two.trans (good.expr (g := g)
      (s := (s.next.next.emitIm .setbreak (some 0)).setRhs true) rfl (two.toRuns.room room)).toRuns
    split
    · exact (cond.trans (Comp.runs_setupError _ (by decide))).moves
    · have three := cond.trans (Comp.runs_next _)
      simp only [Comp.reading_emitIm, Comp.reading_patch]
      refine (three.trans ?_).moves
      exact good.stmtblock rfl (three.block room)

theorem postexpr_runs {e : Nat} (room : s.reading.ahead < k) :
    Runs s.reading (postexpr P g e s).1.reading := by
  simp only [postexpr]
  split
  · have read := good.expr (g := g) (s := s.emitIm .jmp (some 0)) rfl room
    exact read.toRuns
  · exact Runs.refl _

/-- The third expression and the block. -/
theorem postfor_runs {e : Nat} (here : s.reading = r) (room : r.ahead < k) :
    Runs r (postfor P g e s).1.reading := by
  subst here
  have post := postexpr_runs good (g := g) (e := e) room
  simp only [postfor]
  split
  · exact post.trans (Comp.runs_setupError _ (by decide))
  · rename_i token
    have next := post.takes (Comp.takes_of (not_not.mp token) (by decide))
    have body := next.trans (good.stmtblock (g := g) rfl (next.block room))
    exact body.toRuns

theorem condition_runs (room : s.reading.ahead < k) :
    Runs s.reading (condition P g s).1.reading := by
  simp only [condition]
  split
  · exact (good.expr rfl room).toRuns
  · exact Runs.refl _

/-- The condition of a `for` may be missing. -/
theorem evalfor_runs {breakPc : Nat} (here : s.reading = r) (room : r.ahead < k) :
    Runs r (evalfor P g breakPc s).1.reading := by
  subst here
  have cond := condition_runs good (g := g) room
  simp only [evalfor]
  split
  · exact cond.trans (Comp.runs_setupError _ (by decide))
  · have next := cond.trans (Comp.runs_next _)
    have rest := next.trans (postfor_runs good (g := g) (e := s.pc)
      (s := (condition P g s).1.next.emitIm .jmpz (some 0)) rfl (next.room room))
    simp only [Comp.reading_patch]
    exact rest

/-- The value of a variable may be missing. -/
theorem localinit_runs {v : Vardef} (room : s.reading.ahead < k) :
    Runs s.reading (localinit P g v s).1.reading := by
  have next := Comp.runs_next s
  simp only [localinit]
  split
  · have read := next.trans (good.expr (g := g)
      (s := ((s.next.setRhs true).emit1 .lvalue v.srcmode).emitArg (some v.offset)) rfl
      (next.room room)).toRuns
    exact read
  · exact Runs.refl _

/-- A name is taken, or it is an error. -/
theorem declarator_moves (room : s.reading.ahead < k) :
    Moves s.reading (declarator P g s).1.reading := by
  have one := Comp.runs_next s
  simp only [declarator]
  split
  · exact one.moves (Comp.moves_setupError _ (by decide))
  · rename_i token
    have noted := Comp.reading_symtabNote s.next.lexeme false s.next
    have two := one.takes (noted ▸ Comp.takes_of
      ((same_token noted.symm).trans (not_not.mp token)) (by decide))
    have read := two.trans (localinit_runs good (g := g)
      (v := (symtabNote s.next.lexeme false s.next).1.1) (two.toRuns.room room))
    split
    · exact read.moves
    split
    · exact (read.trans (Comp.runs_next _)).moves
    split
    · exact (read.trans (Comp.runs_setupError _ (by decide))).moves
    · exact read.moves

/-- The declarators; the second one is an error. -/
theorem localvarLoop_runs {n : Nat} {a : Stmt} (room : s.reading.ahead < k)
    (enough : s.errornum = 0 → s.reading.ahead + 1 < n) (more : 0 < n) :
    Runs s.reading (localvarLoop P g n a s).1.reading := by
  induction n generalizing a s with
  | zero => omega
  | succ n ih =>
      simp only [localvarLoop]
      split
      · rename_i goes
        have read := declarator_moves good (g := g) room
        have start := enough goes.2
        split
        · refine read.toRuns.trans (ih (read.toRuns.room room) (fun clear => ?_) (by omega))
          have less := (read.takes clear).less
          omega
        · exact read.toRuns
      · exact Runs.refl _

/-- The declarations behind a `var`. -/
theorem localvar_moves (token : s.token = .var) (room : s.reading.ahead < k) :
    Moves s.reading (localvar P g s).1.reading := by
  have rounds := good.rounds
  obtain ⟨n, eq⟩ : ∃ n, P.rounds = n + 1 := ⟨P.rounds - 1, by omega⟩
  by_cases clear : s.errornum = 0
  · have read := declarator_moves good (g := g) room
    simp only [localvar, eq, localvarLoop]
    rw [if_pos ⟨by rw [token]; decide, clear⟩]
    split
    · refine read.trans (localvarLoop_runs good (read.toRuns.room room) (fun clear => ?_) ?_)
      · have less := (read.takes clear).less
        omega
      · omega
    · exact read
  · have runs := localvarLoop_runs good (g := g) (n := P.rounds) (a := .skip) room
      (fun zero => absurd zero clear) (by omega)
    exact ⟨runs, .inl (runs.error clear)⟩

theorem initfor_runs (room : s.reading.ahead < k) :
    Runs s.reading (initfor P g s).1.reading := by
  simp only [initfor]
  split
  · split
    · rename_i token
      exact (localvar_moves good token room).toRuns
    · exact (good.expr rfl room).toRuns
  · exact Runs.refl _

/-- The three parts of a `for`. -/
theorem sfor_moves (room : s.reading.ahead < k) : Moves s.reading (sfor P g s).1.reading := by
  have one := Comp.runs_next s
  simp only [sfor]
  split
  · exact one.moves (Comp.moves_setupError _ (by decide))
  · rename_i token
    have two := one.takes (Comp.takes_of (not_not.mp token) (by decide))
    have init := two.trans (initfor_runs good (g := g) (two.toRuns.room room))
    split
    · exact (init.trans (Comp.runs_setupError _ (by decide))).moves
    · have three := init.trans (Comp.runs_next _)
      simp only [Comp.reading_emitIm]
      refine (three.trans ?_).moves
      exact evalfor_runs good rfl (three.toRuns.room room)

/-! ## `switch` -/

theorem caseValue_runs (room : s.reading.ahead ≤ k) :
    Runs s.reading (caseValue P g s).1.reading := by
  simp only [caseValue]
  split
  · exact (singleton_moves good room).toRuns
  all_goals first
    | exact Comp.runs_setupError s (by decide)
    | split
      · rename_i q e read
        exact (literal_reading read).1 ▸ Comp.runs_next q
      · exact Runs.refl _

/-- The word `case` is a token. -/
theorem caseClause_takes (token : s.token = .case) (room : s.reading.ahead < k) :
    Takes s.reading (caseClause P g s).1.reading := by
  have one : Takes s.reading (s.emit0 .dup).next.reading :=
    Comp.takes_of (s := s.emit0 .dup) token (by decide)
  have value := one.trans (caseValue_runs good (g := g) (Nat.le_of_lt (one.toRuns.room room)))
  simp only [caseClause]
  split
  · exact value
  split
  · exact value.trans (Comp.runs_setupError _ (by decide))
  · have next := value.trans (Comp.runs_next _)
    simp only [Comp.reading_patch]
    refine next.trans ?_
    exact good.stmts rfl (next.block room)

theorem defaultClause_runs {d : Int} (room : s.reading.ahead < k) :
    Runs s.reading (defaultClause P g d s).1.reading := by
  simp only [defaultClause]
  split
  · rename_i token
    have one := Comp.takes_of token (by decide)
    split
    · exact one.toRuns.trans (Comp.runs_setupError _ (by decide))
    · have next := one.trans (Comp.runs_next _)
      simp only [Comp.reading_patch]
      refine next.toRuns.trans ?_
      exact good.stmts rfl (next.block room)
  · exact Runs.refl _

/-- Each clause takes a token, `case` or `default`. -/
theorem caseLoop_runs {n : Nat} {d : Int} (room : s.reading.ahead < k)
    (enough : s.reading.ahead < n) :
    Runs s.reading (caseLoop P g n d s).1.reading := by
  induction n generalizing d s with
  | zero => omega
  | succ n ih =>
      simp only [caseLoop]
      split
      · rename_i token
        have clause := caseClause_takes good (g := g) token room
        split
        · exact clause.toRuns
        · have read := clause.trans (defaultClause_runs good (g := g) (d := d)
            (clause.toRuns.room room))
          split
          · exact read.toRuns
          · refine read.toRuns.trans (ih (read.toRuns.room room) ?_)
            exact Nat.lt_of_lt_of_le read.less (Nat.le_of_lt_succ enough)
      · exact Runs.refl _

/-- The clauses between their braces. -/
theorem switchblock_runs (here : s.reading = r) (room : r.ahead < k) :
    Runs r (switchblock P g s).1.reading := by
  subst here
  have rounds := good.rounds
  simp only [switchblock]
  split
  · exact Comp.runs_setupError s (by decide)
  · have next := Comp.runs_next s
    have enough : s.next.reading.ahead < P.rounds := Nat.lt_trans (next.room room) rounds
    have cases := next.trans (caseLoop_runs good (g := g) (n := P.rounds) (d := -1)
      (s := symtabEnter (s.next.pc + 1) (s.next.emitIm .enter (some 0))) (next.room room) enough)
    split
    · exact cases
    split
    · refine cases.trans (Runs.trans ?_ (Comp.runs_setupError _ (by decide)))
      exact Runs.same (Comp.reading_symtabExit _)
    · refine cases.trans (Runs.trans ?_ (Comp.runs_next _))
      exact Runs.same (Comp.reading_symtabExit _)

/-- The value, or an error in front of it. -/
theorem sswitch_moves (room : s.reading.ahead < k) :
    Moves s.reading (sswitch P g s).1.reading := by
  have one := Comp.runs_next s
  simp only [sswitch]
  split
  · exact one.moves (Comp.moves_setupError _ (by decide))
  · rename_i token
    have two := one.takes (Comp.takes_of (not_not.mp token) (by decide))
    have value := two.trans (good.expr (g := g) rfl (two.toRuns.room room)).toRuns
    split
    · exact (value.trans (Comp.runs_setupError _ (by decide))).moves
    · have three := value.trans (Comp.runs_next _)
      simp only [Comp.reading_patch]
      refine (three.trans ?_).moves
      exact switchblock_runs good rfl (three.toRuns.room room)

/-! ## `return` and `try` -/

/-- The word `return` is a token. -/
theorem sreturn_takes (token : s.token = .return) (room : s.reading.ahead < k) :
    Takes s.reading (sreturn P g s).1.reading := by
  have next := Comp.takes_of token (by decide)
  simp only [sreturn]
  split
  · have read := next.trans (good.expr (g := g)
      (s := { s.next.setRhs true with hasretval := true }) rfl (next.toRuns.room room)).toRuns
    exact read
  split
  · exact next.trans (Comp.runs_setupError _ (by decide))
  · exact next

omit good in
theorem catchHead_runs (here : s.reading = r) : Runs r (catchHead s).1.reading := by
  subst here
  have one := Comp.runs_next s
  have two := (one.trans (Comp.runs_next s.next)).trans (Comp.runs_skip .var _)
  simp only [catchHead]
  split
  · exact Comp.runs_setupError s (by decide)
  split
  · exact one.trans (Comp.runs_setupError _ (by decide))
  split
  · exact two.trans (Comp.runs_setupError _ (by decide))
  · have noted := two.trans (Runs.same (Comp.reading_symtabNote
      (s.next.next.skip .var).lexeme false (s.next.next.skip .var)))
    have three := noted.trans (Comp.runs_next _)
    split
    · exact three.trans (Comp.runs_setupError _ (by decide))
    · exact three.trans (Comp.runs_next _)

theorem finallyblock_runs (here : s.reading = r) (room : r.ahead + 1 < k) :
    Runs r (finallyblock P g s).1.reading := by
  subst here
  have next := Comp.runs_next s
  have ahead := next.ahead
  simp only [finallyblock]
  split
  · exact next.trans (good.stmtblock rfl (by omega))
  · exact Runs.refl _

/-- A block, and the `finally` behind the patches that follow it. -/
theorem guarded_runs {a : Comp} (here : a.reading = r) (room : r.ahead + 1 < k)
    (f : Comp → Comp) (same : ∀ c, (f c).reading = c.reading) :
    Runs r (finallyblock P g (f (P.stmtblock g a).1)).1.reading := by
  have block := good.stmtblock (g := g) here room
  refine block.trans (finallyblock_runs good (same _) ?_)
  exact Nat.lt_of_le_of_lt (Nat.succ_le_succ block.ahead) room

/-- The block behind `catch`. -/
theorem catchblock_runs {endtrypc : Nat} {v : Local} (room : s.reading.ahead + 1 < k) :
    Runs s.reading (catchblock P g endtrypc v s).1.reading := by
  simp only [catchblock, Comp.reading_emitIm]
  apply guarded_runs good (f := fun c => (c.patch _).patch _)
  · exact fun _ => rfl
  · simp only [Comp.reading_emitIm, Comp.reading_emit0, Comp.reading_emit1, Comp.reading_emitArg]
  · exact room

/-- The blocks of a `try`, each behind a token. -/
theorem dotry_runs (room : s.reading.ahead + 1 < k) :
    Runs s.reading (dotry P g s).1.reading := by
  have body := good.stmtblock (g := g) (s := s.emitIm .try (some (-1))) rfl room
  have same : ((((P.stmtblock g (s.emitIm .try (some (-1)))).1.emitIm .push (some 0)).emitIm .jmp
      (some 0)).patch (s.pc + 1)).reading = (P.stmtblock g (s.emitIm .try (some (-1)))).1.reading := by
    simp only [Comp.reading_patch, Comp.reading_emitIm]
  have head := body.trans (catchHead_runs same)
  have ahead := head.ahead
  simp only [dotry]
  split
  · rename_i a eq
    rw [eq] at head
    exact head
  · rename_i a v eq
    rw [eq] at head ahead
    exact head.trans (catchblock_runs good (Nat.lt_of_le_of_lt (Nat.succ_le_succ ahead) room))

/-! ## Statement lists and blocks -/

omit good in
theorem delop_runs (s : Comp) : Runs s.reading (delop s).reading := by
  unfold delop
  split
  · exact Comp.runs_setupError s (by decide)
  · exact Comp.runs_next s

/-- A statement behind which the loop goes on took a token, or was an error. -/
theorem stmt_runs (here : s.reading = r) (room : r.ahead < k) :
    Runs r (stmt P g s).1.reading ∧
      ((stmt P g s).2.2 = true → Moves r (stmt P g s).1.reading) := by
  subst here
  have both {f : Reading} (moves : Moves s.reading f) :
      Runs s.reading f ∧ (true = true → Moves s.reading f) := ⟨moves.toRuns, fun _ => moves⟩
  simp only [stmt]
  split
  case h_1 => exact both (sif_moves good room)
  case h_2 => exact both (swhile_moves good room)
  case h_3 => exact both (sfor_moves good room)
  case h_4 => exact both (sswitch_moves good room)
  case h_5 token => exact both (sreturn_takes good token room).moves
  case h_6 token => exact both (localvar_moves good token room)
  case h_7 token => exact both (Comp.takes_of token (by decide)).moves
  case h_8 token =>
      have next : Takes s.reading (s.emit0 .break).next.reading :=
        Comp.takes_of (s := s.emit0 .break) token (by decide)
      exact both next.moves
  case h_9 token =>
      have next : Takes s.reading (s.emit0 .continue).next.reading :=
        Comp.takes_of (s := s.emit0 .continue) token (by decide)
      exact both next.moves
  case h_10 token => exact both ((Comp.takes_of token (by decide)).trans (delop_runs _)).moves
  case h_11 token =>
      have next := Comp.takes_of token (by decide)
      exact both (next.trans (dotry_runs good (next.block room))).moves
  case h_12 token =>
      have next := Comp.takes_of token (by decide)
      have read := next.trans (good.expr (g := g) rfl (next.toRuns.room room)).toRuns
      exact both read.moves
  case h_13 => exact ⟨Comp.runs_setupError s (by decide), nofun⟩
  case h_14 => exact ⟨Runs.refl _, nofun⟩
  case h_15 => exact both (good.expr rfl room)

/-- Each statement takes a token, or an error ends the loop. -/
theorem stmtsLoop_runs {n : Nat} {acc : Stmt} (room : s.reading.ahead < k)
    (enough : s.errornum = 0 → s.reading.ahead + 1 < n) (more : 0 < n) :
    Runs s.reading (stmtsLoop P g n acc s).1.reading := by
  induction n generalizing acc s with
  | zero => omega
  | succ n ih =>
      simp only [stmtsLoop]
      split
      · rename_i goes
        have start := enough goes.2.2
        generalize lined : (if s.token ≠ .semi ∧ g.isdebuging then
          (s.emitIm .line (some s.lex.lineno), acc.seq (.line s.lex.lineno)) else (s, acc)) = q
        have same : q.1.reading = s.reading := by
          rw [← lined]
          split <;> rfl
        obtain ⟨runs, moves⟩ := stmt_runs good (g := g) same room
        split
        · rename_i more
          have moves := moves more
          refine runs.trans (ih (runs.room room) (fun clear => ?_) (by omega))
          have less := (moves.takes clear).less
          omega
        · exact runs
      · exact Runs.refl _

theorem stmts_runs (here : s.reading = r) (room : r.ahead < k) :
    Runs r (stmts P g s).1.reading := by
  subst here
  have rounds := good.rounds
  exact stmtsLoop_runs good room (fun _ => by omega) (by omega)

/-- The statements up to the brace. -/
theorem blockRest_runs (here : s.reading = r) (room : r.ahead + 1 < k) :
    Runs r (blockRest P g s).1.reading := by
  subst here
  have read := good.stmts (g := g) (s := s) rfl room
  simp only [blockRest]
  split
  · exact read
  split
  · refine read.trans (Runs.trans ?_ (Comp.runs_setupError _ (by decide)))
    exact Runs.same (Comp.reading_symtabExit _)
  · refine read.trans (Runs.trans ?_ (Comp.runs_next _))
    exact Runs.same (Comp.reading_symtabExit _)

/-- A block behind its brace. -/
theorem stmtblock_runs (here : s.reading = r) (room : r.ahead < k) :
    Runs r (stmtblock P g s).1.reading := by
  subst here
  simp only [stmtblock]
  split
  · exact Comp.runs_setupError s (by decide)
  · rename_i token
    have next := Comp.takes_of (not_not.mp token) (by decide)
    exact next.toRuns.trans (blockRest_runs good
      (s := symtabEnter (s.next.pc + 1) (s.next.emitIm .enter (some 0))) rfl (next.block room))

end

/-- So many levels of recursion are room enough for a text two characters shorter. -/
theorem parsers_roomy (k n : Nat) (levels : k + 2 ≤ n) : Roomy (parsers n) k := by
  induction k generalizing n with
  | zero =>
      obtain ⟨n, rfl⟩ : ∃ m, n = m + 1 := ⟨n - 1, by omega⟩
      refine ⟨by show 0 < n; omega, ?_, ?_, ?_, ?_, ?_, ?_, ?_, ?_, ?_⟩ <;>
        exact fun _ room => absurd room (Nat.not_lt_zero _)
  | succ k ih =>
      obtain ⟨n, rfl⟩ : ∃ m, n = m + 1 := ⟨n - 1, by omega⟩
      have good := ih n (by omega)
      constructor
      case rounds => exact (by omega : k + 1 < n)
      case expr =>
          rintro g s r rfl room
          exact expr_moves good (Nat.le_of_lt_succ room)
      case deref =>
          rintro g e s r rfl room
          exact derefTail_runs good e (Nat.le_of_lt_succ room)
      case morefactors =>
          rintro g e s r rfl room
          exact morefactors_runs good (Nat.le_of_lt_succ room)
      case moreterms =>
          rintro g e s r rfl room
          exact moreterms_runs good (Nat.le_of_lt_succ room)
      case morerelops =>
          rintro g e s r rfl room
          exact morerelops_runs good (Nat.le_of_lt_succ room)
      case morelogop =>
          rintro g e s r rfl room
          exact morelogop_runs good (Nat.le_of_lt_succ room)
      case stmts =>
          rintro g s r here room
          exact stmts_runs good here (Nat.lt_of_succ_lt_succ room)
      case stmtblock =>
          rintro g s r here room
          exact stmtblock_runs good here (Nat.lt_of_succ_lt_succ room)
      case sif =>
          rintro g s r rfl room
          exact (sif_moves good (Nat.lt_of_succ_lt_succ room)).toRuns

end Jspp.Compiler
