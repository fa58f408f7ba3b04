/-
# Compiler.Emits -- what a parser function may do to the compile state

`Reads s s' pre new`: a function left the code `pre` followed by the code of the
tree it read, kept the symbol tables, and only added constants.  `Resolved`
is what a tree's numbers mean: the constants of its calls are the signatures it
was written with, its field operands are offsets of fields of the class, and its
local operands those of variables in scope.

* `ExprSpec`, `ContSpec`, `StmtSpec`: the contracts of the three kinds of functions.
* `ParsersGood`: every recursive entry keeps its contract.
-/
import Jspp.Compiler.ParseStmt

namespace Jspp.Compiler

open Jspp.Kernel

set_option autoImplicit false

/-! ## What the numbers in a tree stand for -/

/-- The offset is that of a variable in scope, or of a field. -/
def FieldOf (fields : List Vardef) (scope : List Local) (mode : ArgSource) (offset : Nat) :
    Prop :=
  (mode = .block ∧ ∃ v ∈ scope, v.offset = offset) ∨
    ∃ vdp ∈ fields, vdp.srcmode = mode ∧ vdp.offset = offset

/-- The constant of that index is the text. -/
def TextAt (cdata : List Variant) (idx : Nat) (text : List Char) : Prop :=
  cdata[idx]? = some (.string text)

/-- The signature of a call with that many arguments. -/
def sigOf (cls : Option (List Char)) (name : List Char) (argc : Nat) : List Char :=
  callSig cls name ++ List.replicate argc 'v'

mutual

def Expr.Resolved (fields : List Vardef) (scope : List Local) (cdata : List Variant) :
    Expr → Prop
  | .push mode arg => mode = .const → arg.toNat < cdata.length ∧ 0 ≤ arg
  | .null | .this => True
  | .lvalue mode offset => FieldOf fields scope mode offset
  | .sderef clsidx _ => ∃ cls, TextAt cdata clsidx cls
  | .deref recv name => recv.Resolved fields scope cdata ∧ ∃ text, TextAt cdata name text
  | .call _ recv name args sig =>
      recv.Resolved fields scope cdata ∧ args.Resolved fields scope cdata ∧
        TextAt cdata sig (sigOf none name args.length)
  | .scall cls name args sig =>
      args.Resolved fields scope cdata ∧ TextAt cdata sig (sigOf (some cls) name args.length)
  | .new cls clsidx args sig =>
      args.Resolved fields scope cdata ∧ TextAt cdata clsidx cls ∧
        TextAt cdata sig (callSig none cls)
  | .array clsidx addidx elems =>
      elems.Resolved fields scope cdata ∧ TextAt cdata clsidx "Vector".toList ∧
        TextAt cdata addidx "add:Ivvv".toList
  | .unary _ e | .drop e => e.Resolved fields scope cdata
  | .binary _ l r | .early _ l r | .assign l r | .assignOp _ l r =>
      l.Resolved fields scope cdata ∧ r.Resolved fields scope cdata
  | .init mode offset r => FieldOf fields scope mode offset ∧ r.Resolved fields scope cdata

def Args.Resolved (fields : List Vardef) (scope : List Local) (cdata : List Variant) :
    Args → Prop
  | .nil => True
  | .cons e rest => e.Resolved fields scope cdata ∧ rest.Resolved fields scope cdata

end

mutual

def Stmt.Resolved (fields : List Vardef) (scope : List Local) (cdata : List Variant) :
    Stmt → Prop
  | .skip | .line _ | .vret | .brk | .cont => True
  | .decl v => v.offset = scope.length
  | .seq s t => s.Resolved fields scope cdata ∧ t.Resolved fields (scope ++ s.decls) cdata
  | .expr e | .ret e | .throw e => e.Resolved fields scope cdata
  | .block locals s => locals = s.decls.length ∧ s.Resolved fields scope cdata
  | .ite c s t =>
      c.Resolved fields scope cdata ∧ s.Resolved fields scope cdata ∧
        t.Resolved fields (scope ++ s.decls) cdata
  | .while c s => c.Resolved fields scope cdata ∧ s.Resolved fields scope cdata
  | .for cond post s =>
      (∀ e ∈ cond, e.Resolved fields scope cdata) ∧
        (∀ e ∈ post, e.Resolved fields scope cdata) ∧ s.Resolved fields scope cdata
  | .switch e locals cases =>
      e.Resolved fields scope cdata ∧ locals = cases.decls.length ∧
        cases.Resolved fields scope cdata
  | .try s v locals handler fin =>
      s.Resolved fields scope cdata ∧ v.offset = (scope ++ s.decls).length ∧
        locals = handler.decls.length ∧
        handler.Resolved fields (scope ++ s.decls ++ [v]) cdata ∧
        fin.Resolved fields (scope ++ s.decls ++ [v]) cdata

def Cases.Resolved (fields : List Vardef) (scope : List Local) (cdata : List Variant) :
    Cases → Prop
  | .nil => True
  | .case v s rest =>
      v.Resolved fields scope cdata ∧ s.Resolved fields scope cdata ∧
        rest.Resolved fields (scope ++ s.decls) cdata
  | .default s rest =>
      s.Resolved fields scope cdata ∧ rest.Resolved fields (scope ++ s.decls) cdata

end

section Mono

variable {fields more : List Vardef} {scope : List Local} {cdata longer : List Variant}

theorem TextAt.mono (ext : cdata <+: longer) {idx : Nat} {text : List Char}
    (h : TextAt cdata idx text) : TextAt longer idx text := by
  obtain ⟨rest, rfl⟩ := ext
  have lt : idx < cdata.length := by
    by_contra ge
    simp [TextAt, List.getElem?_eq_none (Nat.le_of_not_lt ge)] at h
  simpa [TextAt, List.getElem?_append_left lt] using h

theorem FieldOf.mono (sub : fields ⊆ more) {mode : ArgSource} {offset : Nat}
    (h : FieldOf fields scope mode offset) : FieldOf more scope mode offset := by
  rcases h with block | ⟨vdp, mem, eq⟩
  · exact .inl block
  · exact .inr ⟨vdp, sub mem, eq⟩

mutual

theorem Expr.Resolved.mono (sub : fields ⊆ more) (ext : cdata <+: longer) {e : Expr}
    (h : e.Resolved fields scope cdata) : e.Resolved more scope longer := by
  cases e with
  | push mode arg =>
      intro const
      exact ⟨Nat.lt_of_lt_of_le (h const).1 ext.length_le, (h const).2⟩
  | null | this => trivial
  | lvalue mode offset => exact FieldOf.mono sub h
  | sderef clsidx offset => exact h.imp fun _ text => text.mono ext
  | deref recv name => exact ⟨Expr.Resolved.mono sub ext h.1, h.2.imp fun _ text => text.mono ext⟩
  | call base recv name args sig =>
      exact ⟨Expr.Resolved.mono sub ext h.1, Args.Resolved.mono sub ext h.2.1, h.2.2.mono ext⟩
  | scall cls name args sig => exact ⟨Args.Resolved.mono sub ext h.1, h.2.mono ext⟩
  | new cls clsidx args sig =>
      exact ⟨Args.Resolved.mono sub ext h.1, h.2.1.mono ext, h.2.2.mono ext⟩
  | array clsidx addidx elems =>
      exact ⟨Args.Resolved.mono sub ext h.1, h.2.1.mono ext, h.2.2.mono ext⟩
  | unary op e | drop e => exact Expr.Resolved.mono (e := e) sub ext h
  | binary op l r | early op l r | assign l r | assignOp op l r =>
      exact ⟨Expr.Resolved.mono sub ext h.1, Expr.Resolved.mono sub ext h.2⟩
  | init mode offset r => exact ⟨FieldOf.mono sub h.1, Expr.Resolved.mono sub ext h.2⟩

theorem Args.Resolved.mono (sub : fields ⊆ more) (ext : cdata <+: longer) {args : Args}
    (h : args.Resolved fields scope cdata) : args.Resolved more scope longer := by
  cases args with
  | nil => trivial
  | cons e rest => exact ⟨Expr.Resolved.mono sub ext h.1, Args.Resolved.mono sub ext h.2⟩

end

/-- More constants do not change what the numbers mean. -/
theorem Expr.Resolved.ext {e : Expr} (h : e.Resolved fields scope cdata) (ext : cdata <+: longer) :
    e.Resolved fields scope longer :=
  h.mono (fun _ mem => mem) ext

theorem Args.Resolved.ext {args : Args} (h : args.Resolved fields scope cdata)
    (ext : cdata <+: longer) : args.Resolved fields scope longer :=
  h.mono (fun _ mem => mem) ext

mutual

theorem Stmt.Resolved.mono {scope : List Local} (sub : fields ⊆ more) (ext : cdata <+: longer)
    {s : Stmt} (h : s.Resolved fields scope cdata) : s.Resolved more scope longer := by
  cases s with
  | skip | line | vret | brk | cont => trivial
  | decl v => exact h
  | seq s t => exact ⟨Stmt.Resolved.mono sub ext h.1, Stmt.Resolved.mono sub ext h.2⟩
  | expr e | ret e | throw e => exact Expr.Resolved.mono (e := e) sub ext h
  | block n s => exact ⟨h.1, Stmt.Resolved.mono sub ext h.2⟩
  | ite c s t =>
      exact ⟨h.1.mono sub ext, Stmt.Resolved.mono sub ext h.2.1, Stmt.Resolved.mono sub ext h.2.2⟩
  | «while» c s => exact ⟨h.1.mono sub ext, Stmt.Resolved.mono sub ext h.2⟩
  | «for» cond post s =>
      exact ⟨fun e mem => (h.1 e mem).mono sub ext, fun e mem => (h.2.1 e mem).mono sub ext,
        Stmt.Resolved.mono sub ext h.2.2⟩
  | switch e n cases => exact ⟨h.1.mono sub ext, h.2.1, Cases.Resolved.mono sub ext h.2.2⟩
  | «try» s v n handler fin =>
      obtain ⟨body, slot, count, handled, final⟩ := h
      exact ⟨Stmt.Resolved.mono sub ext body, slot, count, Stmt.Resolved.mono sub ext handled,
        Stmt.Resolved.mono sub ext final⟩

theorem Cases.Resolved.mono {scope : List Local} (sub : fields ⊆ more) (ext : cdata <+: longer)
    {cs : Cases} (h : cs.Resolved fields scope cdata) : cs.Resolved more scope longer := by
  cases cs with
  | nil => trivial
  | case v s rest =>
      exact ⟨h.1.mono sub ext, Stmt.Resolved.mono sub ext h.2.1,
        Cases.Resolved.mono sub ext h.2.2⟩
  | default s rest => exact ⟨Stmt.Resolved.mono sub ext h.1, Cases.Resolved.mono sub ext h.2⟩

end

end Mono

/-! ## The emitters, field by field -/

namespace Comp

variable (s : Comp)

@[simp] theorem ok_next : s.next.ok ↔ s.ok := Iff.rfl
@[simp] theorem code_next : s.next.code = s.code := rfl
@[simp] theorem cdata_next : s.next.cdata = s.cdata := rfl
@[simp] theorem symstack_next : s.next.symstack = s.symstack := rfl

@[simp] theorem ok_skip (t : Token) : (s.skip t).ok ↔ s.ok := by
  unfold skip; split <;> rfl
@[simp] theorem code_skip (t : Token) : (s.skip t).code = s.code := by
  unfold skip; split <;> rfl
@[simp] theorem cdata_skip (t : Token) : (s.skip t).cdata = s.cdata := by
  unfold skip; split <;> rfl
@[simp] theorem symstack_skip (t : Token) : (s.skip t).symstack = s.symstack := by
  unfold skip; split <;> rfl

@[simp] theorem ok_setRhs (b : Bool) : (s.setRhs b).ok ↔ s.ok := Iff.rfl
@[simp] theorem code_setRhs (b : Bool) : (s.setRhs b).code = s.code := rfl
@[simp] theorem cdata_setRhs (b : Bool) : (s.setRhs b).cdata = s.cdata := rfl
@[simp] theorem symstack_setRhs (b : Bool) : (s.setRhs b).symstack = s.symstack := rfl

variable (op : OpCode) (mode mode2 : ArgSource) (arg : Option Int)

@[simp] theorem ok_emit0 : (s.emit0 op).ok ↔ s.ok := Iff.rfl
@[simp] theorem code_emit0 : (s.emit0 op).code = s.code ++ cells [.emit0 op] := rfl
@[simp] theorem cdata_emit0 : (s.emit0 op).cdata = s.cdata := rfl
@[simp] theorem symstack_emit0 : (s.emit0 op).symstack = s.symstack := rfl

@[simp] theorem ok_emit1 : (s.emit1 op mode).ok ↔ s.ok := Iff.rfl
@[simp] theorem code_emit1 :
    (s.emit1 op mode).code = s.code ++ [.word (encodeOp op 1 mode .class)] := rfl
@[simp] theorem cdata_emit1 : (s.emit1 op mode).cdata = s.cdata := rfl
@[simp] theorem symstack_emit1 : (s.emit1 op mode).symstack = s.symstack := rfl

@[simp] theorem ok_emit2 : (s.emit2 op mode mode2).ok ↔ s.ok := Iff.rfl
@[simp] theorem code_emit2 :
    (s.emit2 op mode mode2).code = s.code ++ [.word (encodeOp op 2 mode mode2)] := rfl
@[simp] theorem cdata_emit2 : (s.emit2 op mode mode2).cdata = s.cdata := rfl
@[simp] theorem symstack_emit2 : (s.emit2 op mode mode2).symstack = s.symstack := rfl

@[simp] theorem ok_emitArg : (s.emitArg arg).ok ↔ s.ok := Iff.rfl
@[simp] theorem code_emitArg : (s.emitArg arg).code = s.code ++ [.lo arg, .hi arg] := by
  simp [emitArg, emitArgAt, set2Element, pc]
@[simp] theorem cdata_emitArg : (s.emitArg arg).cdata = s.cdata := rfl
@[simp] theorem symstack_emitArg : (s.emitArg arg).symstack = s.symstack := rfl

@[simp] theorem ok_emitIm : (s.emitIm op arg).ok ↔ s.ok := Iff.rfl
@[simp] theorem code_emitIm :
    (s.emitIm op arg).code = s.code ++ cells [.emit1 op .im arg] := by
  simp [emitIm, cells, Instr.cells]
@[simp] theorem cdata_emitIm : (s.emitIm op arg).cdata = s.cdata := rfl
@[simp] theorem symstack_emitIm : (s.emitIm op arg).symstack = s.symstack := rfl

@[simp] theorem ok_patch (pc : Nat) : (s.patch pc).ok ↔ s.ok := Iff.rfl
@[simp] theorem cdata_patch (pc : Nat) : (s.patch pc).cdata = s.cdata := rfl
@[simp] theorem symstack_patch (pc : Nat) : (s.patch pc).symstack = s.symstack := rfl

variable (v : Variant) (text : List Char)

@[simp] theorem idx_emitConst : (s.emitConst v).1 = s.cdata.length := rfl
@[simp] theorem ok_emitConst : (s.emitConst v).2.ok ↔ s.ok := Iff.rfl
@[simp] theorem code_emitConst : (s.emitConst v).2.code = s.code := rfl
@[simp] theorem cdata_emitConst : (s.emitConst v).2.cdata = s.cdata ++ [v] := rfl
@[simp] theorem symstack_emitConst : (s.emitConst v).2.symstack = s.symstack := rfl

@[simp] theorem emitConstChars_eq : s.emitConstChars text = s.emitConst (.string text) := rfl

/-- An error that is recorded stays: an error token names a lexical error, and
every other error has a number of its own. -/
theorem not_ok_setupError (e : Int) (ne : e ≠ 0) : ¬ (s.setupError e).ok := by
  intro h
  have zero : (errorOf s.lex e).1 = 0 := h.1
  unfold errorOf at zero
  split at zero
  case isTrue lexical => exact s.scan.coded lexical zero
  case isFalse => exact ne zero

theorem not_ok_giveUp : ¬ s.giveUp.ok := by
  simp [giveUp, ok]

end Comp

theorem textAt_length (cdata : List Variant) (text : List Char) :
    TextAt (cdata ++ [.string text]) cdata.length text := by
  simp [TextAt]

/-- Writing an operand over the placeholder behind an opcode word. -/
theorem set2Element_patch (pre post : List Cell) (w a b : Cell) (arg : Option Int) :
    set2Element (pre ++ w :: a :: b :: post) arg (pre.length + 1) =
      pre ++ w :: .lo arg :: .hi arg :: post := by
  have split : pre ++ w :: a :: b :: post = (pre ++ [w]) ++ ([a, b] ++ post) := by simp
  rw [split, show pre.length + 1 = (pre ++ [w]).length by simp, set2Element, List.take_left,
    List.drop_append, List.drop_eq_nil_of_le (by simp)]
  simp

/-! ## The contracts -/

/-- From `s` to `s'` the code became `pre` and `new`; the rest is only extended. -/
structure Reads (s s' : Comp) (pre : List Cell) (new : List Instr) (resolved : Prop) : Prop where
  code : s'.code = pre ++ cells new
  frames : s'.symstack = s.symstack
  consts : s.cdata <+: s'.cdata
  resolved : resolved

/-- `Reads` for a function that returns the expression it read. -/
abbrev ReadsExpr (g : Scope) (s : Comp) (pre : List Cell) (r : Comp × Expr) : Prop :=
  Reads s r.1 pre r.2.code (r.2.Resolved g.fields (scopeOf s.symstack) r.1.cdata)

/-- A function that reads an expression from its first token on. -/
def ExprSpec (f : Scope → Comp → Comp × Expr) : Prop :=
  ∀ g s, (f g s).1.ok → s.ok ∧ ReadsExpr g s s.code (f g s)

/-- A function that goes on with the expression `e` it is given. -/
def ContSpec (f : Scope → Expr → Comp → Comp × Expr) : Prop :=
  ∀ g e s, (f g e s).1.ok → s.ok ∧
    ∀ pre, s.code = pre ++ cells e.code → e.Resolved g.fields (scopeOf s.symstack) s.cdata →
      ReadsExpr g s pre (f g e s)

theorem ReadsExpr.andThen {f : Scope → Expr → Comp → Comp × Expr} (spec : ContSpec f)
    {g : Scope} {s s' : Comp} {pre : List Cell} {e : Expr} (first : ReadsExpr g s pre (s', e))
    (ok : (f g e s').1.ok) : ReadsExpr g s pre (f g e s') := by
  have tail := (spec g e s' ok).2 pre first.code (first.frames ▸ first.resolved)
  exact ⟨tail.code, tail.frames.trans first.frames, first.consts.trans tail.consts,
    first.frames ▸ tail.resolved⟩

/-- The same, for a result that is not written as a pair. -/
theorem ReadsExpr.andThenOf {f : Scope → Expr → Comp → Comp × Expr} (spec : ContSpec f)
    {g : Scope} {s : Comp} {pre : List Cell} {r : Comp × Expr} (first : ReadsExpr g s pre r)
    (ok : (f g r.2 r.1).1.ok) : ReadsExpr g s pre (f g r.2 r.1) :=
  ReadsExpr.andThen spec first ok

/-- The variables `vars` were noted in the innermost block, and the blocks around
it are as they were; outside of every block nothing is noted. -/
inductive Noted (vars : List Local) : List Symtab → List Symtab → Prop where
  | none : Noted vars [] []
  | top {stp stp' : Symtab} (rest : List Symtab) (patchupPc : stp'.patchupPc = stp.patchupPc)
      (noted : stp'.vars = stp.vars ++ vars) : Noted vars (stp :: rest) (stp' :: rest)

/-- From `s` to `s'` the code became `pre` and `new`, and the variables `vars`
were noted.  Inside a block, what was read since then is `resolved` now and
stays so when constants are added. -/
structure Writes (s s' : Comp) (pre : List Cell) (new : List Instr) (vars : List Local)
    (resolved : List Variant → Prop) : Prop where
  code : s'.code = pre ++ cells new
  frames : Noted vars s.symstack s'.symstack
  consts : s.cdata <+: s'.cdata
  resolved : s.symstack ≠ [] → ∀ cdata, s'.cdata <+: cdata → resolved cdata

/-- `Writes` for a statement that was read: it was placed where the code ended. -/
abbrev WritesStmt (g : Scope) (s s' : Comp) (t : Stmt) : Prop :=
  Writes s s' s.code (t.code s.pc) t.decls (t.Resolved g.fields (scopeOf s.symstack))

/-- A function that reads statements: it appends the code they have at this address. -/
def StmtSpec (f : Scope → Comp → Comp × Stmt) : Prop :=
  ∀ g s, (f g s).1.ok → s.ok ∧ WritesStmt g s (f g s).1 (f g s).2

/-- `stmtblock`: a block with the count of its locals. -/
def BlockSpec (f : Scope → Comp → Comp × Nat × Stmt) : Prop :=
  ∀ g s, (f g s).1.ok → s.ok ∧
    WritesStmt g s (f g s).1 (.block (f g s).2.1 (f g s).2.2)

structure ParsersGood (P : Parsers) : Prop where
  expr : ExprSpec P.expr
  deref : ContSpec P.deref
  morefactors : ContSpec P.morefactors
  moreterms : ContSpec P.moreterms
  morerelops : ContSpec P.morerelops
  morelogop : ContSpec P.morelogop
  stmts : StmtSpec P.stmts
  stmtblock : BlockSpec P.stmtblock
  sif : StmtSpec P.sif

end Jspp.Compiler
