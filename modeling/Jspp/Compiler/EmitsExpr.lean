/-
# Compiler.EmitsExpr -- expressions: the parser emits the code of what it read

One lemma for each function of `Compiler.Parse`, in its order; each is about the
function called with recursive entries that keep their contracts.  What a function
returns is the tree of what it read, and what it appended is the code of that tree,
with the constants and the variables resolved; where an error was recorded nothing
is said.

* arguments and calls, the operands, and the operators by their priority.
* `Args.code_snoc`: the code of a list grows at its end, as the loops append to it.
-/
import Jspp.Compiler.Emits

namespace Jspp.Compiler

open Jspp.Kernel

set_option autoImplicit false

/-! ## Arguments -/

@[simp] theorem Args.code_snoc (e : Expr) : ∀ args : Args, (args.snoc e).code = args.code ++ e.code
  | .nil => by simp [Args.snoc, Args.code]
  | .cons a rest => by simp [Args.snoc, Args.code, Args.code_snoc e rest]

@[simp] theorem Args.addCode_snoc (idx : Nat) (e : Expr) : ∀ args : Args,
    (args.snoc e).addCode idx =
      args.addCode idx ++ .emit0 .dup :: (e.code ++ [.emit2 .call .const .im idx 1])
  | .nil => by simp [Args.snoc, Args.addCode]
  | .cons a rest => by simp [Args.snoc, Args.addCode, Args.addCode_snoc idx e rest]

theorem Args.resolved_snoc {fields : List Vardef} {scope : List Local} {cdata : List Variant}
    {e : Expr}
    (last : e.Resolved fields scope cdata) : ∀ {args : Args}, args.Resolved fields scope cdata →
      (args.snoc e).Resolved fields scope cdata
  | .nil, _ => ⟨last, trivial⟩
  | .cons _ _, h => ⟨h.1, Args.resolved_snoc last h.2⟩

section

variable {P : Parsers} (good : ParsersGood P) {g : Scope}
include good

/-- The argument loop, from the arguments read so far. -/
theorem arglistLoop_reads (n : Nat) (args : Args) (s : Comp) {r : Comp × Args × Bool}
    (run : arglistLoop P g n args s = r) (ok : r.1.ok) :
    s.ok ∧ r.2.2 = true ∧ ∀ pre, s.code = pre ++ cells args.code →
      args.Resolved g.fields (scopeOf s.symstack) s.cdata →
      Reads s r.1 pre r.2.1.code (r.2.1.Resolved g.fields (scopeOf s.symstack) r.1.cdata) := by
  induction n generalizing args s with
  | zero =>
      subst run
      exact absurd ok (Comp.not_ok_giveUp s)
  | succ n ih =>
      simp only [arglistLoop] at run
      split at run
      · subst run
        exact ⟨ok, rfl, fun pre code resolved => ⟨code, rfl, List.prefix_rfl, resolved⟩⟩
      · split at run
        · subst run
          exact absurd ok (Comp.not_ok_setupError _ _ (by decide))
        · obtain ⟨okNext, closed, rest⟩ := ih _ _ run
          obtain ⟨okStart, reads⟩ := good.expr g s (by simpa using okNext)
          have frames : ((P.expr g s).1.skip .comma).symstack = s.symstack := by
            simp [reads.frames]
          rw [frames] at rest
          refine ⟨okStart, closed, fun pre code resolved => ?_⟩
          have tail := rest pre (by simp [reads.code, code])
            (Args.resolved_snoc (by simpa using reads.resolved)
              (by simpa using resolved.ext reads.consts))
          exact ⟨tail.code, tail.frames.trans frames,
            reads.consts.trans (by simpa using tail.consts), tail.resolved⟩

/-- A call on an object: its arguments, the instruction, and the signature constant. -/
theorem arglist_call_inst {name : List Char} {basecall constructor : Bool} {s : Comp}
    {r : Comp × Args × Nat}
    (run : arglist_call P g none name basecall constructor s = r) (ok : r.1.ok) :
    s.ok ∧ Reads s r.1 s.code
      (r.2.1.code ++ [.emit2
        (if basecall then .basecall else if constructor then .construct else .call)
        .const .im r.2.2 r.2.1.length])
      (r.2.1.Resolved g.fields (scopeOf s.symstack) r.1.cdata ∧ TextAt r.1.cdata r.2.2
        (callSig none name ++ if constructor then [] else List.replicate r.2.1.length 'v')) := by
  simp only [arglist_call] at run
  split at run
  · subst run
    obtain ⟨okStart, -, reads⟩ := arglistLoop_reads good _ _ s rfl (by simpa using ok)
    have reads := reads s.code (by simp [Args.code]) trivial
    refine ⟨okStart, ?_, by simp [reads.frames], by simp [reads.consts.trans], ?_, ?_⟩
    · simp [reads.code, cells, Instr.cells]
    · exact reads.resolved.ext (by simp)
    · exact textAt_length _ _
  · rename_i unclosed
    subst run
    obtain ⟨-, closed, -⟩ := arglistLoop_reads good _ _ s rfl ok
    exact absurd closed unclosed

/-- A static call: the same, without a receiver. -/
theorem arglist_call_static {cls name : List Char} {s : Comp} {r : Comp × Args × Nat}
    (run : arglist_call P g (some cls) name false false s = r) (ok : r.1.ok) :
    s.ok ∧ Reads s r.1 s.code (r.2.1.code ++ [.emit1 .scall .const (some r.2.2)])
      (r.2.1.Resolved g.fields (scopeOf s.symstack) r.1.cdata ∧
        TextAt r.1.cdata r.2.2 (sigOf (some cls) name r.2.1.length)) := by
  simp only [arglist_call] at run
  split at run
  · subst run
    obtain ⟨okStart, -, reads⟩ := arglistLoop_reads good _ _ s rfl (by simpa using ok)
    have reads := reads s.code (by simp [Args.code]) trivial
    refine ⟨okStart, ?_, by simp [reads.frames], by simp [reads.consts.trans], ?_, ?_⟩
    · simp [reads.code, cells, Instr.cells]
    · exact reads.resolved.ext (by simp)
    · exact textAt_length _ _
  · rename_i unclosed
    subst run
    obtain ⟨-, closed, -⟩ := arglistLoop_reads good _ _ s rfl ok
    exact absurd closed unclosed

/-! ## Behind a receiver -/

/-- The tail of an assignment to the expression read so far. -/
theorem assignTail_cont : ContSpec (assignTail P) := by
  intro g l s h
  simp only [assignTail] at h ⊢
  obtain ⟨ok, reads⟩ := good.expr g (s.next.setRhs true) (by simpa using h)
  refine ⟨by simpa using ok, fun pre code resolved => ⟨?_, ?_, ?_, ?_⟩⟩
  · simp [reads.code, code, Expr.code]
  · simpa using reads.frames
  · simpa using reads.consts
  · exact ⟨resolved.ext (by simpa using reads.consts), by simpa using reads.resolved⟩

theorem objderef_cont : ContSpec (objderef P) := by
  intro g recv s
  simp only [objderef]
  split
  · exact fun h => absurd h (Comp.not_ok_setupError _ _ (by decide))
  split
  · generalize run : arglist_call P g none _ false false _ = r
    split
    · exact fun h => absurd h (Comp.not_ok_setupError _ _ (by decide))
    intro h
    obtain ⟨ok, -⟩ := good.deref g _ _ h
    obtain ⟨okStart, reads⟩ := arglist_call_inst good run (by simpa using ok)
    refine ⟨by simpa using okStart, fun pre code resolved => ReadsExpr.andThen good.deref ?_ h⟩
    exact ⟨by simp [reads.code, code, Expr.code], by simpa using reads.frames,
      by simpa using reads.consts, resolved.ext (by simpa using reads.consts), by
        simpa [sigOf] using reads.resolved⟩
  · have field : ∀ pre, s.code = pre ++ cells recv.code → recv.Resolved g.fields (scopeOf s.symstack) s.cdata →
        ReadsExpr g s pre
          ((((s.next.emit1 .deref .const).emitConst (.string s.lexeme)).2.emitArg
            (some s.cdata.length)), .deref recv s.cdata.length) := fun pre code resolved =>
      ⟨by simp [code, cells, Instr.cells, Expr.code], rfl, by simp,
        resolved.ext (by simp), _, textAt_length _ _⟩
    split
    · intro h
      obtain ⟨ok, -⟩ := assignTail_cont good g _ _ h
      exact ⟨by simpa using ok, fun pre code resolved =>
        (field pre code resolved).andThen (assignTail_cont good) h⟩
    · intro h
      obtain ⟨ok, -⟩ := good.deref g _ _ h
      exact ⟨by simpa using ok, fun pre code resolved =>
        (field pre code resolved).andThen good.deref h⟩

/-- The loop over the indexes between brackets. -/
theorem indexLoop_reads (n : Nat) (args : Args) (s : Comp) {r : Comp × Args}
    (run : indexLoop P g n args s = r) (ok : r.1.ok) :
    s.ok ∧ ∀ pre, s.code = pre ++ cells args.code → args.Resolved g.fields (scopeOf s.symstack) s.cdata →
      Reads s r.1 pre r.2.code (r.2.Resolved g.fields (scopeOf s.symstack) r.1.cdata) := by
  induction n generalizing args s with
  | zero =>
      subst run
      exact absurd ok (Comp.not_ok_giveUp s)
  | succ n ih =>
      simp only [indexLoop] at run
      split at run
      · obtain ⟨okNext, rest⟩ := ih _ _ run
        obtain ⟨okStart, reads⟩ := good.expr g s (by simpa using okNext)
        have frames : ((P.expr g s).1.skip .comma).symstack = s.symstack := by
          simp [reads.frames]
        rw [frames] at rest
        refine ⟨okStart, fun pre code resolved => ?_⟩
        have tail := rest pre (by simp [reads.code, code])
          (Args.resolved_snoc (by simpa using reads.resolved)
            (by simpa using resolved.ext reads.consts))
        exact ⟨tail.code, tail.frames.trans frames,
          reads.consts.trans (by simpa using tail.consts), tail.resolved⟩
      · subst run
        exact ⟨ok, fun pre code resolved => ⟨code, rfl, List.prefix_rfl, resolved⟩⟩

theorem arrayIndexCall_cont : ContSpec (arrayIndexCall P) := by
  intro g recv s
  simp only [arrayIndexCall]
  split
  · exact fun h => absurd h (Comp.not_ok_setupError _ _ (by decide))
  intro h
  obtain ⟨ok, reads⟩ := indexLoop_reads good _ _ s.next rfl (by simpa using h)
  refine ⟨by simpa using ok, fun pre code resolved => ?_⟩
  have reads := reads s.code (by simp [Args.code]) trivial
  refine ⟨by simp [reads.code, code, Expr.code, cells, Instr.cells], by simpa using reads.frames,
    by simpa using reads.consts.trans (by simp), resolved.ext ?_, reads.resolved.ext (by simp), ?_⟩
  · simpa using reads.consts.trans (by simp)
  · exact textAt_length _ _

theorem derefTail_cont : ContSpec (derefTail P) := by
  intro g recv s
  simp only [derefTail]
  split
  · split
    · exact fun h => absurd h (Comp.not_ok_setupError _ _ (by decide))
    · intro h
      obtain ⟨ok, rest⟩ := objderef_cont good g recv s.next h
      refine ⟨by simpa using ok, fun pre code resolved => ?_⟩
      have reads := rest pre code resolved
      exact ⟨reads.code, by simpa using reads.frames, by simpa using reads.consts, reads.resolved⟩
  · split
    · exact arrayIndexCall_cont good g recv s
    · exact fun h => ⟨h, fun pre code resolved => ⟨code, rfl, List.prefix_rfl, resolved⟩⟩

/-! ## Single operands -/

omit good in
theorem pushArg_im (arg : Int) (s : Comp) :
    ReadsExpr g s s.code (pushArg .im arg s) :=
  ⟨by simp [pushArg, Expr.code, cells, Instr.cells], rfl, List.prefix_rfl, nofun⟩

omit good in
theorem pushConst_reads (v : Variant) (s : Comp) : ReadsExpr g s s.code (pushConst v s) :=
  ⟨by simp [pushConst, Expr.code, cells, Instr.cells], rfl, by simp [pushConst],
    by simp [Expr.Resolved, pushConst]⟩

omit good in
theorem literal_reads {s : Comp} {r : Comp × Expr} (some : literal s = some r) :
    (r.1.ok ↔ s.ok) ∧ ReadsExpr g s s.code r := by
  unfold literal at some
  split at some <;> cases some
  · exact ⟨by simp [pushArg], pushArg_im _ s⟩
  · exact ⟨by simp [pushConst], pushConst_reads _ s⟩
  · exact ⟨by simp [pushConst], pushConst_reads _ s⟩
  · exact ⟨by simp [pushConst], pushConst_reads _ s⟩
  · exact ⟨by simp [pushArg], pushArg_im _ s⟩
  · exact ⟨by simp [pushArg], pushArg_im _ s⟩
  · exact ⟨by simp, by simp [Expr.code], rfl, List.prefix_rfl, trivial⟩

/-- The branches of `singletonCallHandler` up to its `deref`. -/
theorem singletonCall_reads {s : Comp} {r : Comp × Expr × Bool} (run : singletonCall P g s = r)
    (ok : r.1.ok) : s.ok ∧ r.2.2 = true ∧ ReadsExpr g s s.code (r.1, r.2.1) := by
  simp only [singletonCall] at run
  split at run
  · split at run
    · subst run
      exact absurd ok (Comp.not_ok_setupError _ _ (by decide))
    split at run
    · subst run
      exact absurd ok (Comp.not_ok_setupError _ _ (by decide))
    split at run
    · generalize call : arglist_call P g _ _ false false _ = c at run
      split at run
      · subst run
        exact absurd ok (Comp.not_ok_setupError _ _ (by decide))
      subst run
      obtain ⟨okStart, reads⟩ := arglist_call_static good call (by simpa using ok)
      exact ⟨by simpa using okStart, rfl, by simp [reads.code, Expr.code],
        by simpa using reads.frames, by simpa using reads.consts, reads.resolved⟩
    · split at run
      · subst run
        exact absurd ok (Comp.not_ok_setupError _ _ (by decide))
      subst run
      exact ⟨by simpa using ok, rfl, by simp [Expr.code, cells, Instr.cells], by simp, by simp,
        _, textAt_length _ _⟩
  · split at run
    · generalize call : arglist_call P g none _ false false _ = c at run
      split at run
      · subst run
        exact absurd ok (Comp.not_ok_setupError _ _ (by decide))
      subst run
      obtain ⟨okStart, reads⟩ := arglist_call_inst good call (by simpa using ok)
      exact ⟨by simpa using okStart, rfl, by simp [reads.code, Expr.code],
        by simpa using reads.frames, by simpa using reads.consts, trivial,
        by simpa [sigOf] using reads.resolved⟩
    · subst run
      exact absurd ok (Comp.not_ok_setupError _ _ (by decide))

theorem singletonCallHandler_reads : ExprSpec (singletonCallHandler P) := by
  intro g s
  simp only [singletonCallHandler]
  generalize run : singletonCall P g s = r
  split
  · intro h
    obtain ⟨ok, -⟩ := good.deref g _ _ h
    obtain ⟨okStart, -, reads⟩ := singletonCall_reads good run ok
    exact ⟨okStart, ReadsExpr.andThen good.deref reads h⟩
  · rename_i unreached
    intro h
    obtain ⟨-, reached, -⟩ := singletonCall_reads good run h
    exact absurd reached unreached

omit good in
/-- A variable that is looked up is a local of a block, or a field of the class. -/
theorem symtabLookup_fieldOf {s : Comp} {id : List Char} {vdp : Vardef}
    (found : symtabLookup g s id = some vdp) :
    FieldOf g.fields (scopeOf s.symstack) vdp.srcmode vdp.offset := by
  unfold symtabLookup at found
  split at found
  case h_1 var inTable =>
      cases found
      obtain ⟨stp, mem, entry⟩ := List.exists_of_findSome?_eq_some inTable
      exact .inl ⟨var.2, _, mem_scopeOf mem (Symtab.mem_vars entry), rfl⟩
  case h_2 => exact .inr ⟨vdp, List.mem_of_find?_eq_some found, rfl, rfl⟩

theorem indexTail_cont : ContSpec (indexTail P) := by
  intro g e s
  simp only [indexTail]
  split
  · exact arrayIndexCall_cont good g e s
  · exact fun h => ⟨h, fun pre code resolved => ⟨code, rfl, List.prefix_rfl, resolved⟩⟩

theorem assignIf_cont : ContSpec (assignIf P) := by
  intro g e s
  simp only [assignIf]
  split
  · exact assignTail_cont good g e s
  · exact fun h => ⟨h, fun pre code resolved => ⟨code, rfl, List.prefix_rfl, resolved⟩⟩

theorem singletonVarHandler_reads {vdp : Vardef} (s : Comp)
    (var : FieldOf g.fields (scopeOf s.symstack) vdp.srcmode vdp.offset)
    (h : (singletonVarHandler P g vdp s).1.ok) :
    s.ok ∧ ReadsExpr g s s.code (singletonVarHandler P g vdp s) := by
  revert h
  simp only [singletonVarHandler]
  split
  · exact fun h => absurd h (Comp.not_ok_setupError _ _ (by decide))
  intro h
  have leaf : ReadsExpr g s s.code
      ((s.next.emit1 .lvalue vdp.srcmode).emitArg (some vdp.offset),
        .lvalue vdp.srcmode vdp.offset) :=
    ⟨by simp [Expr.code, cells, Instr.cells], by simp, by simp, var⟩
  obtain ⟨okAssign, -⟩ := good.deref g _ _ h
  obtain ⟨okIndex, -⟩ := assignIf_cont good g _ _ okAssign
  obtain ⟨ok, -⟩ := indexTail_cont good g _ _ okIndex
  have indexed := leaf.andThen (indexTail_cont good) okIndex
  have assigned := indexed.andThenOf (assignIf_cont good) okAssign
  exact ⟨by simpa using ok, assigned.andThenOf good.deref h⟩

omit good in
/-- The elements of an array literal, with the call that adds each. -/
theorem arrayLoop_reads (addidx : Nat) (n : Nat) (elems : Args) (s : Comp)
    {r : Comp × Args × Bool} (run : arrayLoop addidx n elems s = r) (ok : r.1.ok) :
    s.ok ∧ r.2.2 = true ∧ ∀ pre, s.code = pre ++ cells (elems.addCode addidx) →
      elems.Resolved g.fields (scopeOf s.symstack) s.cdata →
      Reads s r.1 pre (r.2.1.addCode addidx) (r.2.1.Resolved g.fields (scopeOf s.symstack) r.1.cdata) := by
  induction n generalizing elems s with
  | zero =>
      subst run
      exact absurd ok (Comp.not_ok_giveUp s)
  | succ n ih =>
      simp only [arrayLoop] at run
      split at run
      · split at run
        · subst run
          exact absurd ok (Comp.not_ok_setupError _ _ (by decide))
        rename_i s₁ e found
        obtain ⟨okLit, lit⟩ := literal_reads (g := g) found
        obtain ⟨okNext, closed, rest⟩ := ih _ _ run
        refine ⟨by simpa using okLit.mp (by simpa using okNext), closed,
          fun pre code resolved => ?_⟩
        have ext : s.cdata <+: s₁.cdata := by simpa using lit.consts
        have frames : s₁.symstack = s.symstack := by simpa using lit.frames
        have litCode : s₁.code = s.code ++ cells (.emit0 .dup :: e.code) := by simpa using lit.code
        have tail := rest pre (by simp [litCode, code, Instr.cells])
          (Args.resolved_snoc (by simpa [frames] using lit.resolved)
            (by simpa [frames] using resolved.ext ext))
        exact ⟨tail.code, tail.frames.trans (by simpa using frames),
          ext.trans (by simpa using tail.consts), by simpa [frames] using tail.resolved⟩
      · subst run
        exact ⟨ok, rfl, fun pre code resolved => ⟨code, rfl, List.prefix_rfl, resolved⟩⟩

omit good in
theorem arrayTail_reads {clsidx addidx : Nat} {s : Comp} {r : Comp × Expr}
    (run : arrayTail P clsidx addidx s = r) (ok : r.1.ok) :
    s.ok ∧ ∃ elems, r.2 = .array clsidx addidx elems ∧
      Reads s r.1 s.code r.2.code (elems.Resolved g.fields (scopeOf s.symstack) r.1.cdata) := by
  simp only [arrayTail] at run
  generalize loop : arrayLoop addidx P.rounds .nil _ = l at run
  split at run
  · rename_i unclosed
    subst run
    exact absurd (arrayLoop_reads (g := g) _ _ _ _ loop ok).2.1 unclosed
  split at run
  · subst run
    exact absurd ok (Comp.not_ok_setupError _ _ (by decide))
  subst run
  obtain ⟨okStart, -, reads⟩ := arrayLoop_reads (g := g) _ _ _ _ loop (by simpa using ok)
  have reads := reads _ (by simp [Args.addCode]; rfl) trivial
  exact ⟨by simpa using okStart, _, rfl, by simp [reads.code, Expr.code, cells, Instr.cells],
    by simpa using reads.frames, by simpa using reads.consts, reads.resolved⟩

omit good in
theorem arraydef_reads : ExprSpec (arraydef P) := by
  intro g s
  simp only [arraydef]
  split
  · exact fun h => absurd h (Comp.not_ok_setupError _ _ (by decide))
  generalize run : arrayTail P _ _ _ = r
  intro h
  obtain ⟨ok, elems, eq, reads⟩ := arrayTail_reads (g := g) run h
  have ext : s.cdata ++ [Variant.string "add:Ivvv".toList] ++ [Variant.string "Vector".toList] <+: r.1.cdata :=
    reads.consts
  refine ⟨by simpa using ok, reads.code, by simpa using reads.frames, ?_, ?_⟩
  · rw [List.append_assoc] at ext
    exact (List.prefix_append _ _).trans ext
  · rw [eq]
    exact ⟨reads.resolved, TextAt.mono ext (by simp [TextAt]), TextAt.mono ext (by simp [TextAt])⟩

theorem newTail_reads {clsname : List Char} {clsidx : Nat} {s : Comp} {r : Comp × Expr}
    (run : newTail P g clsname clsidx s = r) (ok : r.1.ok) :
    s.ok ∧ ∃ args sig, r.2 = .new clsname clsidx args sig ∧
      Reads s r.1 s.code r.2.code
        (args.Resolved g.fields (scopeOf s.symstack) r.1.cdata ∧ TextAt r.1.cdata sig (callSig none clsname)) := by
  simp only [newTail] at run
  generalize call : arglist_call P g none clsname false true _ = c at run
  split at run
  · rename_i err
    subst run
    exact absurd ok.1 err
  split at run
  · subst run
    exact absurd ok (Comp.not_ok_setupError _ _ (by decide))
  subst run
  obtain ⟨okStart, reads⟩ := arglist_call_inst good call (by simpa using ok)
  exact ⟨by simpa using okStart, _, _, rfl,
    by simp [reads.code, Expr.code, cells, Instr.cells], by simpa using reads.frames,
    by simpa using reads.consts, by simpa using reads.resolved⟩

theorem new_expr_reads : ExprSpec (new_expr P) := by
  intro g s
  simp only [new_expr]
  split
  · exact fun h => absurd h (Comp.not_ok_setupError _ _ (by decide))
  split
  · split
    · exact fun h => absurd h (Comp.not_ok_setupError _ _ (by decide))
    generalize run : newTail P g _ _ _ = r
    intro h
    obtain ⟨ok, args, sig, eq, reads⟩ := newTail_reads good run h
    have ext : s.cdata ++ [Variant.string s.next.lexeme] <+: r.1.cdata := reads.consts
    refine ⟨by simpa using ok, reads.code, by simpa using reads.frames, ?_, ?_⟩
    · exact (List.prefix_append _ _).trans ext
    · rw [eq]
      exact ⟨reads.resolved.1, TextAt.mono ext (by simp [TextAt]), reads.resolved.2⟩
  · exact fun h => absurd h (Comp.not_ok_setupError _ _ (by decide))

theorem baseCall_reads : ExprSpec (baseCall P) := by
  intro g s
  simp only [baseCall]
  split
  · exact fun h => absurd h (Comp.not_ok_setupError _ _ (by decide))
  split
  · exact fun h => absurd h (Comp.not_ok_setupError _ _ (by decide))
  generalize run : arglist_call P g none _ true false _ = r
  split
  · exact fun h => absurd h (Comp.not_ok_setupError _ _ (by decide))
  intro h
  obtain ⟨ok, -⟩ := good.deref g _ _ h
  obtain ⟨okStart, reads⟩ := arglist_call_inst good run (by simpa using ok)
  refine ⟨by simpa using okStart, ReadsExpr.andThen good.deref ?_ h⟩
  exact ⟨by simp [reads.code, Expr.code], by simpa using reads.frames, by simpa using reads.consts,
    trivial, by simpa [sigOf] using reads.resolved⟩

theorem singleton_reads : ExprSpec (singleton P) := by
  intro g s
  unfold singleton
  split
  · split
    · exact singletonCallHandler_reads good g s
    · rename_i found
      exact singletonVarHandler_reads good s (symtabLookup_fieldOf found)
  · intro h
    obtain ⟨ok, reads⟩ := arraydef_reads g s.next h
    exact ⟨by simpa using ok, reads.code, by simpa using reads.frames, by simpa using reads.consts,
      reads.resolved⟩
  · simp only
    split
    · exact fun h => absurd h (Comp.not_ok_setupError _ _ (by decide))
    intro h
    obtain ⟨ok, reads⟩ := good.expr g s.next (by simpa using h)
    exact ⟨by simpa using ok, reads.code, by simpa using reads.frames, by simpa using reads.consts,
      reads.resolved⟩
  · exact new_expr_reads good g s
  · exact baseCall_reads good g s
  · split
    · rename_i found
      intro h
      obtain ⟨ok, reads⟩ := literal_reads (g := g) found
      exact ⟨ok.mp (by simpa using h), reads.code, by simpa using reads.frames,
        by simpa using reads.consts, reads.resolved⟩
    · exact fun h => absurd h (Comp.not_ok_setupError _ _ (by decide))

/-! ## Operators -/

omit good in
theorem ReadsExpr.unary {s s' : Comp} {pre : List Cell} {e : Expr} (op : UnOp)
    (reads : ReadsExpr g s pre (s', e)) : ReadsExpr g s pre (s'.emit0 op.op, .unary op e) := by
  have code : s'.code = pre ++ cells e.code := reads.code
  exact ⟨by simp [code, Expr.code], reads.frames, reads.consts, reads.resolved⟩

/-- An operand that starts behind the current token. -/
theorem operand_reads (s : Comp) (ok : (singleton P g s.next).1.ok) :
    s.ok ∧ ReadsExpr g s s.code (singleton P g s.next) := by
  obtain ⟨okStart, reads⟩ := singleton_reads good g s.next ok
  exact ⟨by simpa using okStart, reads.code, by simpa using reads.frames,
    by simpa using reads.consts, reads.resolved⟩

omit good in
theorem popUnlessRhs_cont : ContSpec fun _ => popUnlessRhs := by
  intro g e s
  simp only [popUnlessRhs]
  split
  · exact fun h => ⟨h, fun pre code resolved => ⟨code, rfl, List.prefix_rfl, resolved⟩⟩
  · exact fun h => ⟨by simpa using h, fun pre code resolved =>
      ⟨by simp [code, Expr.code], rfl, List.prefix_rfl, resolved⟩⟩

omit good in
theorem postIncDec_cont (t : Token) (op : UnOp) : ContSpec fun _ => postIncDec t op := by
  intro g e s
  simp only [postIncDec]
  split
  · intro h
    obtain ⟨ok, rest⟩ := popUnlessRhs_cont g _ _ h
    refine ⟨by simpa using ok, fun pre code resolved => ?_⟩
    have reads := rest pre (by simp [code, Expr.code]) resolved
    exact ⟨reads.code, by simpa using reads.frames, by simpa using reads.consts, reads.resolved⟩
  · exact fun h => ⟨h, fun pre code resolved => ⟨code, rfl, List.prefix_rfl, resolved⟩⟩

/-- The part of `factor` before the postfix operators. -/
theorem prefixed_reads : ExprSpec (prefixed P) := by
  intro g s
  unfold prefixed
  split
  · intro h
    obtain ⟨ok, reads⟩ := operand_reads good s (by simpa using h)
    exact ⟨ok, reads.unary .negate⟩
  · exact operand_reads good s
  · intro h
    obtain ⟨okOp, -⟩ := popUnlessRhs_cont g _ _ h
    obtain ⟨ok, reads⟩ := operand_reads good s okOp
    exact ⟨ok, ReadsExpr.andThen popUnlessRhs_cont (reads.unary .inc) h⟩
  · intro h
    obtain ⟨okOp, -⟩ := popUnlessRhs_cont g _ _ h
    obtain ⟨ok, reads⟩ := operand_reads good s okOp
    exact ⟨ok, ReadsExpr.andThen popUnlessRhs_cont (reads.unary .dec) h⟩
  · intro h
    obtain ⟨ok, reads⟩ := operand_reads good s (by simpa using h)
    exact ⟨ok, reads.unary .not⟩
  · exact singleton_reads good g s

theorem factor_reads : ExprSpec (factor P) := by
  intro g s h
  simp only [factor] at h ⊢
  obtain ⟨okInc, -⟩ := postIncDec_cont .dec .pdec g _ _ h
  obtain ⟨okOp, -⟩ := postIncDec_cont .inc .pinc g _ _ okInc
  obtain ⟨ok, reads⟩ := prefixed_reads good g s okOp
  exact ⟨ok, (reads.andThenOf (postIncDec_cont .inc .pinc) okInc).andThenOf
    (postIncDec_cont .dec .pdec) h⟩

omit good in
/-- An operator behind its second operand: `more` goes on unless an error was recorded. -/
theorem binary_cont {operand : Scope → Comp → Comp × Expr} (spec : ExprSpec operand)
    {more : Scope → Expr → Comp → Comp × Expr} (goes : ContSpec more)
    (op : BinOp) (l : Expr) (s : Comp) :
    let r := operand g s.next
    let s' := r.1.emit0 op.op
    let out := if s'.errornum = 0 then more g (.binary op l r.2) s' else (s', .binary op l r.2)
    out.1.ok → s.ok ∧ ∀ pre, s.code = pre ++ cells l.code → l.Resolved g.fields (scopeOf s.symstack) s.cdata →
      ReadsExpr g s pre out := by
  intro r s' out h
  have both : s'.ok → s.ok ∧ ∀ pre, s.code = pre ++ cells l.code →
      l.Resolved g.fields (scopeOf s.symstack) s.cdata → ReadsExpr g s pre (s', .binary op l r.2) := by
    intro okOp
    obtain ⟨ok, reads⟩ := spec g s.next (by simpa [s'] using okOp)
    refine ⟨by simpa using ok, fun pre code resolved => ?_⟩
    have ext : s.cdata <+: r.1.cdata := by simpa using reads.consts
    exact ⟨by simp [s', r, reads.code, code, Expr.code], by simpa [s'] using reads.frames, ext,
      resolved.ext ext, reads.resolved⟩
  unfold out at h ⊢
  split at h
  · rename_i clean
    obtain ⟨okOp, -⟩ := goes g _ _ h
    obtain ⟨ok, rest⟩ := both okOp
    rw [if_pos clean]
    exact ⟨ok, fun pre code resolved => (rest pre code resolved).andThen goes h⟩
  · rename_i err
    exact absurd h.1 err

omit good in
/-- The functions that read a first operand and then go on. -/
theorem first_reads {operand : Scope → Comp → Comp × Expr} (spec : ExprSpec operand)
    {more : Scope → Expr → Comp → Comp × Expr} (goes : ContSpec more) (s : Comp) :
    let r := operand g s
    let out := if r.1.errornum = 0 then more g r.2 r.1 else (r.1, r.2)
    out.1.ok → s.ok ∧ ReadsExpr g s s.code out := by
  intro r out h
  unfold out at h ⊢
  split at h
  · rename_i clean
    obtain ⟨okOp, -⟩ := goes g _ _ h
    obtain ⟨ok, reads⟩ := spec g s okOp
    rw [if_pos clean]
    exact ⟨ok, reads.andThenOf goes h⟩
  · rename_i err
    exact absurd h.1 err

theorem morefactors_cont : ContSpec (morefactors P) := by
  intro g l s
  unfold morefactors
  split
  · exact fun h => ⟨h, fun pre code resolved => ⟨code, rfl, List.prefix_rfl, resolved⟩⟩
  · exact binary_cont (factor_reads good) good.morefactors _ l s

theorem term_reads : ExprSpec (term P) := fun _ s =>
  first_reads (factor_reads good) good.morefactors s

/-- `l += r` and the other assignment operators. -/
theorem assignOp_cont (op : BinOp) (l : Expr) (s : Comp) :
    let r := P.expr g ((s.next.setRhs true).emit0 .dup)
    let s' := (((r.1.emit0 .rvalue).emit0 op.op).emit0 .assign).setRhs false
    s'.ok → s.ok ∧ ∀ pre, s.code = pre ++ cells l.code → l.Resolved g.fields (scopeOf s.symstack) s.cdata →
      ReadsExpr g s pre (s', .assignOp op l r.2) := by
  intro r s' okOp
  obtain ⟨ok, reads⟩ := good.expr g ((s.next.setRhs true).emit0 .dup) (by simpa [s'] using okOp)
  refine ⟨by simpa using ok, fun pre code resolved => ?_⟩
  have ext : s.cdata <+: r.1.cdata := by simpa using reads.consts
  exact ⟨by simp [s', r, reads.code, code, Expr.code], by simpa [s'] using reads.frames, ext,
    resolved.ext ext, reads.resolved⟩

theorem moreterms_cont : ContSpec (moreterms P) := by
  intro g l s
  unfold moreterms
  split
  · intro h
    dsimp only at h ⊢
    split at h
    · rename_i clean
      obtain ⟨okOp, -⟩ := good.moreterms g _ _ h
      obtain ⟨ok, rest⟩ := assignOp_cont good _ l s okOp
      rw [if_pos clean]
      exact ⟨ok, fun pre code resolved => (rest pre code resolved).andThen good.moreterms h⟩
    · rename_i err
      exact absurd h.1 err
  · split
    · exact fun h => ⟨h, fun pre code resolved => ⟨code, rfl, List.prefix_rfl, resolved⟩⟩
    · exact binary_cont (term_reads good) good.moreterms _ l s

theorem relop_reads : ExprSpec (relop P) := fun _ s =>
  first_reads (term_reads good) good.moreterms s

theorem morerelops_cont : ContSpec (morerelops P) := by
  intro g l s
  unfold morerelops
  split
  · exact fun h => ⟨h, fun pre code resolved => ⟨code, rfl, List.prefix_rfl, resolved⟩⟩
  · exact binary_cont (relop_reads good) good.morerelops _ l s

theorem logop_reads : ExprSpec (logop P) := fun _ s =>
  first_reads (relop_reads good) good.morerelops s

/-- `==` and `!=`, whose instruction stands before the second operand. -/
theorem early_cont (op : BinOp) (l : Expr) (s : Comp) :
    let r := logop P g (s.next.emit0 op.op)
    r.1.ok → s.ok ∧ ∀ pre, s.code = pre ++ cells l.code → l.Resolved g.fields (scopeOf s.symstack) s.cdata →
      ReadsExpr g s pre (r.1, .early op l r.2) := by
  intro r okOp
  obtain ⟨ok, reads⟩ := logop_reads good g (s.next.emit0 op.op) okOp
  refine ⟨by simpa using ok, fun pre code resolved => ?_⟩
  have ext : s.cdata <+: r.1.cdata := by simpa using reads.consts
  exact ⟨by simp [r, reads.code, code, Expr.code], by simpa using reads.frames, ext,
    resolved.ext ext, reads.resolved⟩

theorem morelogop_cont : ContSpec (morelogop P) := by
  intro g l s
  unfold morelogop
  split
  · exact binary_cont (logop_reads good) good.morelogop _ l s
  split
  · intro h
    dsimp only at h ⊢
    split at h
    · rename_i clean
      obtain ⟨okOp, -⟩ := good.morelogop g _ _ h
      obtain ⟨ok, rest⟩ := early_cont good _ l s okOp
      rw [if_pos clean]
      exact ⟨ok, fun pre code resolved => (rest pre code resolved).andThen good.morelogop h⟩
    · rename_i err
      exact absurd h.1 err
  split
  · intro h
    dsimp only at h ⊢
    split at h
    · rename_i clean
      obtain ⟨okOp, -⟩ := good.morelogop g _ _ h
      obtain ⟨ok, rest⟩ := assignTail_cont good g l s okOp
      rw [if_pos clean]
      exact ⟨ok, fun pre code resolved =>
        (rest pre code resolved).andThenOf good.morelogop h⟩
    · rename_i err
      exact absurd h.1 err
  · exact fun h => ⟨h, fun pre code resolved => ⟨code, rfl, List.prefix_rfl, resolved⟩⟩

theorem expr_reads : ExprSpec (expr P) := fun _ s =>
  first_reads (logop_reads good) good.morelogop s

end

end Jspp.Compiler
