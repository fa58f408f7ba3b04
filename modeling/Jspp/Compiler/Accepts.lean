/-
# Compiler.Accepts -- what an accepted program's methods consist of

`parseChar_settled`: when `parseChar` accepts a text, every method of every class
it leaves is either one that was there before, or its code is that of the body it
was compiled from, whose numbers mean what the source says (`MethodOk`).

* `Compiling`: a method is being added to the class at hand.
* `Opening`: a constructor that still collects the initialisers of fields.
* `method_settled`, `classDeclaration_settled`, `fileLoop_settled`: one lemma per level.
-/
import Jspp.Compiler.Declare
import Jspp.Compiler.EmitsStmt

namespace Jspp.Compiler

open Jspp.Kernel

set_option autoImplicit false

/-- The parameters of a method, as the first variables of its scope. -/
def JsMethod.params (mp : JsMethod) : List Local := mp.args.map fun vdp => ⟨vdp.name, vdp.offset⟩

theorem JsMethod.params_numbered (mp : JsMethod) : Numbered mp.params := by
  have offsets : mp.params.map Local.offset = mp.args.map Vardef.offset := by
    simp [JsMethod.params]
  rw [Numbered, offsets, mp.numbered]
  simp [JsMethod.params]

theorem params_addArg (mp : JsMethod) (name : List Char) (isptr : Bool) :
    (jsmethodAddArg mp name isptr).params = mp.params ++ [⟨name, mp.params.length⟩] := by
  simp [JsMethod.params, jsmethodAddArg, createVar]

def Body.Resolved (fields : List Vardef) (params : List Local) (cdata : List Variant) :
    Body → Prop
  | .empty => True
  | .method locals s => locals = (params ++ s.decls).length ∧ s.Resolved fields params cdata
  | .inits es => es.Resolved fields [] cdata

/-- The code of a method is that of its body. -/
structure MethodOk (fields : List Vardef) (cdata : List Variant) (mp : JsMethod) : Prop where
  code : mp.code = cells mp.body.code
  resolved : mp.body.Resolved fields mp.params cdata

theorem MethodOk.mono {fields more : List Vardef} {cdata longer : List Variant}
    (sub : fields ⊆ more) (ext : cdata <+: longer) {mp : JsMethod}
    (h : MethodOk fields cdata mp) : MethodOk more longer mp := by
  obtain ⟨code, resolved⟩ := h
  refine ⟨code, ?_⟩
  cases body : mp.body with
  | empty => trivial
  | method n s =>
      rw [body] at resolved
      exact ⟨resolved.1, Stmt.Resolved.mono sub ext resolved.2⟩
  | inits es => exact Args.Resolved.mono sub ext (by simpa [body, Body.Resolved] using resolved)

/-! ## One class, one method of the heap -/

section

variable {α : Type}

theorem modify_eq_set {l : List α} {i : Nat} {a : α} (f : α → α) (found : l[i]? = some a) :
    l.modify i f = l.set i (f a) := by
  induction l generalizing i with
  | nil => simp at found
  | cons x l ih =>
      cases i with
      | zero => simp_all
      | succ i => simpa using ih (by simpa using found)

theorem modify_set (l : List α) (i : Nat) (a : α) (f : α → α) :
    (l.set i a).modify i f = l.set i (f a) := by
  induction l generalizing i with
  | nil => simp
  | cons x l ih => cases i <;> simp [ih]

theorem modify_snoc (l : List α) (a : α) (f : α → α) :
    (l ++ [a]).modify l.length f = l ++ [f a] := by
  induction l with
  | nil => rfl
  | cons x l ih => simpa using ih

end

def Program.ok (pp : Program) : Prop := pp.comp.ok

/-- `pp` is `pp₀` with a method `mp` behind those of its class, which is `cls`. -/
structure Compiling (pp₀ pp : Program) (cls : JsClass) (mp : JsMethod) : Prop where
  found : pp₀.heap[pp₀.curclass]? = some cls
  heap : pp.heap = pp₀.heap.set pp₀.curclass { cls with methods := cls.methods ++ [mp] }
  curclass : pp.curclass = pp₀.curclass
  curmethod : pp.curmethod = cls.methods.length

namespace Compiling

variable {pp₀ pp : Program} {cls : JsClass} {mp : JsMethod}

theorem defineMethod (found : pp₀.heap[pp₀.curclass]? = some cls) (name : List Char)
    (isstatic : Bool) (acc : JsAccess) :
    Compiling pp₀ (pp₀.defineMethod name isstatic acc) cls
      (jsmethodConstruct pp₀.curclass name isstatic acc) where
  found := found
  heap := by simp [Program.defineMethod, Program.updateClass, modify_eq_set _ found]
  curclass := rfl
  curmethod := by simp [Program.defineMethod, found]

theorem lookup (h : Compiling pp₀ pp cls mp) :
    pp.heap[pp.curclass]? = some { cls with methods := cls.methods ++ [mp] } := by
  have lt := (List.getElem?_eq_some_iff.mp h.found).1
  simp [h.heap, h.curclass, lt]

theorem method? (h : Compiling pp₀ pp cls mp) : pp.method? = some mp := by
  simp [Program.method?, h.lookup, h.curmethod]

theorem elsewhere (h : Compiling pp₀ pp cls mp) {d : Nat} (ne : d ≠ pp₀.curclass) :
    pp.heap[d]? = pp₀.heap[d]? := by
  rw [h.heap, List.getElem?_set_ne (Ne.symm ne)]

theorem setComp (h : Compiling pp₀ pp cls mp) (s : Comp) : Compiling pp₀ (pp.setComp s) cls mp :=
  ⟨h.found, h.heap, h.curclass, h.curmethod⟩

theorem updateMethod (h : Compiling pp₀ pp cls mp) (f : JsMethod → JsMethod) :
    Compiling pp₀ (pp.updateMethod f) cls (f mp) where
  found := h.found
  heap := by
    simp [Program.updateMethod, Program.updateClass, h.heap, h.curclass, h.curmethod, modify_set,
      modify_snoc]
  curclass := h.curclass
  curmethod := h.curmethod

theorem fields (h : Compiling pp₀ pp cls mp) : pp.scope.fields = cls.fields := by
  simp [Program.scope, h.lookup]

/-- A function of the method body level changes the method's code and the state. -/
theorem inMethod {α : Type} (h : Compiling pp₀ pp cls mp) (f : Scope → Comp → Comp × α)
    {s : Comp} {a : α}
    (run : f pp.scope { pp.comp with code := mp.code, hasretval := mp.hasretval } = (s, a)) :
    (pp.inMethod f).2 = a ∧ (pp.inMethod f).1.comp = s ∧
      Compiling pp₀ (pp.inMethod f).1 cls
        { mp with code := s.code, hasretval := s.hasretval } := by
  have code : ((pp.method?).map JsMethod.code).getD [] = mp.code := by simp [h.method?]
  have ret : ((pp.method?).map JsMethod.hasretval).getD false = mp.hasretval := by
    simp [h.method?]
  simp only [Program.inMethod, code, ret, run]
  exact ⟨trivial, rfl, (h.setComp s).updateMethod _⟩

end Compiling

/-! ## Methods -/

/-- While a method's parameters are read: its `OP_ENTER` is all its code, and the
variables of its block are the parameters so far. -/
structure Declaring (pp₀ pp : Program) (cls : JsClass) (mp : JsMethod) : Prop where
  compiling : Compiling pp₀ pp cls mp
  code : mp.code = cells [.im .enter 0]
  stack : ∃ top, pp.comp.symstack = [top] ∧ top.patchupPc = 1 ∧ top.vars = mp.params
  consts : pp.comp.cdata = pp₀.comp.cdata

namespace Declaring

variable {pp₀ pp : Program} {cls : JsClass} {mp : JsMethod}

theorem next (d : Declaring pp₀ pp cls mp) : Declaring pp₀ pp.next cls mp :=
  ⟨d.compiling.setComp _, d.code, d.stack, d.consts⟩

theorem skip (d : Declaring pp₀ pp cls mp) (t : Token) : Declaring pp₀ (pp.skip t) cls mp := by
  unfold Program.skip
  split
  · exact d.next
  · exact d

/-- A parameter is a variable of the method's block, with the same offset. -/
theorem param (d : Declaring pp₀ pp cls mp) (name : List Char) (isptr : Bool) :
    Declaring pp₀ ((pp.updateMethod fun mp => jsmethodAddArg mp name isptr).setComp
      (symtabNote name isptr pp.comp).2) cls (jsmethodAddArg mp name isptr) := by
  obtain ⟨top, stack, opened, params⟩ := d.stack
  have compiling := (d.compiling.updateMethod fun mp => jsmethodAddArg mp name isptr).setComp
    (symtabNote name isptr pp.comp).2
  have free : top.cumulative = mp.params.length := by
    have tables := pp.comp.tables
    rw [stack] at tables
    simpa [params] using tables.cumulative
  generalize note : symtabNote name isptr pp.comp = r at compiling ⊢
  unfold symtabNote at note
  split at note
  · rename_i empty
    rw [stack] at empty
    cases empty
  · rename_i stp rest stack'
    rw [stack] at stack'
    cases stack'
    subst note
    refine ⟨compiling, d.code, ⟨_, rfl, opened, ?_⟩, d.consts⟩
    rw [Symtab.vars_put, params, params_addArg, ← free]

end Declaring

theorem ok_symtabNote (name : List Char) (isptr : Bool) (s : Comp) :
    (symtabNote name isptr s).2.ok ↔ s.ok := by
  unfold symtabNote
  split <;> exact Iff.rfl

theorem Program.not_ok_setupError {e : Int} (pp : Program) (ne : e ≠ 0) :
    ¬ (pp.setupError e).ok :=
  pp.comp.not_ok_setupError e ne

/-- A lexical error has a number of its own, so that it is recorded. -/
theorem not_ok_lexical {pp : Program} {e : Int} (lexical : pp.token = .lexerror) :
    ¬ (pp.setupError e).ok := by
  intro h
  have zero : (errorOf pp.comp.lex e).1 = 0 := h.1
  have error : pp.comp.lex.token = .lexerror := lexical
  rw [errorOf, if_pos error] at zero
  exact pp.comp.scan.coded lexical zero

theorem ok_skip (t : Token) (pp : Program) : (pp.skip t).ok ↔ pp.ok := by
  unfold Program.skip
  split <;> exact Iff.rfl

/-- The parameters of a method. -/
theorem argLoop_declares (n : Nat) {pp : Program} (ok : (argLoop n pp).ok) :
    pp.ok ∧ ∀ {pp₀ cls mp}, Declaring pp₀ pp cls mp →
      ∃ mp', Declaring pp₀ (argLoop n pp) cls mp' := by
  induction n generalizing pp with
  | zero => exact absurd ok pp.comp.not_ok_giveUp
  | succ n ih =>
      simp only [argLoop] at ok ⊢
      have noted : ∀ {pp₀ cls mp}, Declaring pp₀ pp cls mp →
          Declaring pp₀ ((((pp.skip .ampr).updateMethod fun mp =>
            jsmethodAddArg mp (pp.skip .ampr).comp.lexeme (decide (pp.token = .ampr))).setComp
              (symtabNote (pp.skip .ampr).comp.lexeme (decide (pp.token = .ampr))
                (pp.skip .ampr).comp).2)).next cls
            (jsmethodAddArg mp (pp.skip .ampr).comp.lexeme (decide (pp.token = .ampr))) :=
        fun d => ((d.skip .ampr).param _ _).next
      split at ok
      · rename_i start
        rw [if_pos start]
        split at ok
        · rename_i comma
          rw [if_pos comma]
          obtain ⟨ok₁, rest⟩ := ih ok
          exact ⟨(ok_skip _ pp).mp ((ok_symtabNote _ _ _).mp ok₁), fun d => rest (noted d).next⟩
        split at ok
        · exact absurd ok (Program.not_ok_setupError _ (by decide))
        · rename_i comma close
          rw [if_neg comma, if_neg close]
          obtain ⟨ok₁, rest⟩ := ih ok
          exact ⟨(ok_skip _ pp).mp ((ok_symtabNote _ _ _).mp ok₁), fun d => rest (noted d)⟩
      split at ok
      · exact absurd ok (Program.not_ok_setupError _ (by decide))
      · rename_i start close
        rw [if_neg start, if_neg close]
        exact ⟨ok, fun d => ⟨_, d.next⟩⟩

theorem thisArg_declares (isstatic : Bool) (pp : Program) :
    ((thisArg isstatic pp).ok ↔ pp.ok) ∧ ∀ {pp₀ cls mp}, Declaring pp₀ pp cls mp →
      ∃ mp', Declaring pp₀ (thisArg isstatic pp) cls mp' := by
  unfold thisArg
  split
  · exact ⟨Iff.rfl, fun d => ⟨_, d⟩⟩
  · exact ⟨ok_symtabNote _ _ _, fun d => ⟨_, d.param _ _⟩⟩

theorem argdec_declares (P : Parsers) {pp : Program} (ok : (argdec P pp).ok) :
    pp.ok ∧ ∀ {pp₀ cls mp}, Declaring pp₀ pp cls mp →
      ∃ mp', Declaring pp₀ (argdec P pp) cls mp' := by
  simp only [argdec] at ok ⊢
  split at ok
  · exact absurd ok (Program.not_ok_setupError _ (by decide))
  · rename_i opened
    rw [if_neg opened]
    obtain ⟨okStart, rest⟩ := argLoop_declares _ ok
    exact ⟨okStart, fun d => rest d.next.next⟩

/-- A new method with its `OP_ENTER`, outside of every block. -/
theorem enterMethod_declares {pp : Program} {cls : JsClass} (closed : pp.comp.symstack = [])
    (found : pp.heap[pp.curclass]? = some cls) (name : List Char) (isstatic : Bool)
    (acc : JsAccess) :
    ∃ mp, Declaring pp (enterMethod (pp.defineMethod name isstatic acc)) cls mp := by
  obtain ⟨-, comp, compiling⟩ := (Compiling.defineMethod found name isstatic acc).inMethod
    (fun _ s => (symtabEnter (s.pc + 1) (s.emitIm .enter (some 0)), ())) rfl
  refine ⟨_, compiling, Comp.code_emitIm _ .enter (some 0), ?_, ?_⟩ <;>
    simp only [enterMethod, comp]
  · refine ⟨⟨cumulativeOf pp.comp.symstack, 0, 1, []⟩, ?_, rfl, rfl⟩
    exact congrArg (List.cons ⟨cumulativeOf pp.comp.symstack, 0, 1, []⟩) closed
  · rfl

/-- The class at hand, `cls`, got one more method, whose code is that of its body. -/
structure AddsMethod (pp pp' : Program) (cls : JsClass) : Prop where
  consts : pp.comp.cdata <+: pp'.comp.cdata
  closed : pp'.comp.symstack = []
  curclass : pp'.curclass = pp.curclass
  method : ∃ mp, MethodOk cls.fields pp'.comp.cdata mp ∧
    pp'.heap = pp.heap.set pp.curclass { cls with methods := cls.methods ++ [mp] }

section

variable {P : Parsers} (good : ParsersGood P)
include good

theorem methodbody_code {g : Scope} {s s' : Comp} {n : Nat} {body : Stmt}
    (run : methodbody P g s = (s', n, body)) (ok : s'.ok) :
    s.ok ∧ ∀ {top}, s.code = cells [.im .enter 0] → s.symstack = [top] → top.patchupPc = 1 →
      s'.code = cells (Body.method n body).code ∧ s.cdata <+: s'.cdata ∧ s'.symstack = [] ∧
        n = (top.vars ++ body.decls).length ∧ body.Resolved g.fields top.vars s'.cdata := by
  simp -iota only [methodbody] at run
  split at run
  · cases run
    exact absurd ok (Comp.not_ok_setupError _ _ (by decide))
  · obtain ⟨okStart, closed⟩ := blockRest_code good run ok
    refine ⟨by simpa using okStart, fun {top} code stack opened => ?_⟩
    obtain ⟨code', outer, consts, count, resolved⟩ :=
      @closed [] top [] (by simpa using code) (by simpa using stack) (by simpa using opened)
    have scope : scopeOf s.next.symstack = top.vars := by simp [stack]
    rw [scope] at resolved
    exact ⟨by simpa [Body.code, Stmt.code] using code', by simpa using consts, outer, count,
      resolved⟩

theorem compileBody_ok {pp : Program} (ok : (compileBody P pp).ok) : pp.ok := by
  simp only [compileBody, Program.inMethod] at ok
  exact (methodbody_code good rfl ok).1

/-- The body of a method whose parameters were read. -/
theorem compileBody_settles {pp₀ pp : Program} {cls : JsClass} {mp : JsMethod}
    (d : Declaring pp₀ pp cls mp) (ok : (compileBody P pp).ok) :
    ∃ mp', Compiling pp₀ (compileBody P pp) cls mp' ∧
      MethodOk cls.fields (compileBody P pp).comp.cdata mp' ∧
      pp.comp.cdata <+: (compileBody P pp).comp.cdata ∧
      (compileBody P pp).comp.symstack = [] := by
  generalize run : methodbody P pp.scope
    { pp.comp with code := mp.code, hasretval := mp.hasretval } = r
  obtain ⟨s, n, body⟩ := r
  obtain ⟨result, comp, compiling⟩ := d.compiling.inMethod (methodbody P) run
  have after : (compileBody P pp).comp = s := by
    simp only [compileBody]
    exact comp
  have ok' : s.ok := by rw [← after]; exact ok
  obtain ⟨top, stack, opened, params⟩ := d.stack
  obtain ⟨-, closed⟩ := methodbody_code good run ok'
  obtain ⟨code', consts, outer, count, resolved⟩ := closed d.code stack opened
  rw [d.compiling.fields] at resolved
  rw [params] at count resolved
  have final := compiling.updateMethod fun mp => { mp with body := .method n body }
  refine ⟨{ mp with code := s.code, hasretval := s.hasretval, body := .method n body }, ?_,
    ⟨code', ?_⟩, ?_, ?_⟩
  · simpa only [compileBody, result] using final
  · rw [after]
    exact ⟨count, resolved⟩
  · rw [after]
    exact consts
  · rw [after]
    exact outer

/-- What `method` and `declareMethod` do behind the method's name: its `OP_ENTER`,
parameters that `declares` reads, and the body. -/
theorem compileMethod_adds {pp pp' : Program} {cls : JsClass} (name : List Char)
    (isstatic : Bool) (acc : JsAccess) (closed : pp.comp.symstack = [])
    (found : pp.heap[pp.curclass]? = some cls)
    (declares : ∀ {mp}, Declaring pp (enterMethod (pp.defineMethod name isstatic acc)) cls mp →
      ∃ mp', Declaring pp pp' cls mp')
    (ok : (compileBody P pp').ok) : AddsMethod pp (compileBody P pp') cls := by
  obtain ⟨mp, entered⟩ := enterMethod_declares closed found name isstatic acc
  obtain ⟨mp', d⟩ := declares entered
  obtain ⟨mp'', compiled, good, ext, outer⟩ := compileBody_settles good d ok
  rw [d.consts] at ext
  exact ⟨ext, outer, compiled.curclass, mp'', good, compiled.heap⟩

theorem method_adds {acc : JsAccess} {isstatic : Bool} {pp : Program}
    (ok : (method P acc isstatic pp).ok) :
    pp.ok ∧ ∀ cls, pp.comp.symstack = [] → pp.heap[pp.curclass]? = some cls →
      AddsMethod pp (method P acc isstatic pp) cls := by
  simp only [method] at ok ⊢
  split at ok
  · exact absurd ok (Program.not_ok_setupError _ (by decide))
  rename_i named
  rw [if_neg named]
  split at ok
  · rename_i err
    exact absurd ok.1 err
  rename_i clean
  rw [if_neg clean]
  obtain ⟨okArgs, args⟩ := argdec_declares P (compileBody_ok good ok)
  obtain ⟨okThis, this⟩ :=
    thisArg_declares isstatic (enterMethod (pp.defineMethod pp.comp.lexeme isstatic acc))
  refine ⟨okThis.mp okArgs, fun cls closed found =>
    compileMethod_adds good pp.comp.lexeme isstatic acc closed found (fun entered => ?_) ok⟩
  obtain ⟨mp', declared⟩ := this entered
  exact args declared

/-- A method outside its class: `declareMethod` behind the name of the class. -/
theorem declareMethod_adds {acc : JsAccess} {isstatic : Bool} {name : List Char} {pp : Program}
    (ok : (compileBody P (argdec P (enterMethod (pp.defineMethod name isstatic acc)))).ok) :
    pp.ok ∧ ∀ cls, pp.comp.symstack = [] → pp.heap[pp.curclass]? = some cls →
      AddsMethod pp (compileBody P (argdec P (enterMethod (pp.defineMethod name isstatic acc))))
        cls := by
  obtain ⟨okArgs, args⟩ := argdec_declares P (compileBody_ok good ok)
  exact ⟨okArgs, fun cls closed found => compileMethod_adds good name isstatic acc closed found
    args ok⟩

theorem fieldInit_code {vdp : Vardef} {g : Scope} {s s' : Comp} {init : Option Expr}
    (run : fieldInit P vdp g s = (s', init)) (ok : s'.ok) :
    s.ok ∧ (vdp ∈ g.fields → s.cdata <+: s'.cdata ∧ s'.symstack = s.symstack ∧
      s'.code = s.code ++ cells (optCode init) ∧
        ∀ e ∈ init, e.Resolved g.fields (scopeOf s.symstack) s'.cdata) := by
  simp -iota only [fieldInit] at run
  split at run
  · split at run
    rename_i s₁ e readInit
    cases run
    have ok₁ : s₁.ok := by simpa using ok
    have okStart : s.ok := by simpa using good.expr.ok readInit ok₁
    obtain ⟨-, value⟩ := good.expr g
      (((s.setRhs true).emit1 .lvalue vdp.srcmode).emitArg (some ↑vdp.offset)).next
      (by rw [readInit]; exact ok₁)
    rw [readInit] at value
    refine ⟨okStart, fun field => ⟨by simpa using value.consts, by simpa using value.frames, ?_, ?_⟩⟩
    · have code : s₁.code = _ := value.code
      simp [code, optCode, Expr.code, Instr.cells]
    · intro e' found
      cases found
      exact ⟨.inr ⟨vdp, field, rfl, rfl⟩, by simpa using value.resolved⟩
  · cases run
    exact ⟨ok, fun _ => ⟨List.prefix_rfl, rfl, by simp [optCode], by simp⟩⟩

end

/-! ## Class bodies -/

/-- A constructor without its `VRET`: its code is that of the initialisers so far. -/
structure Opening (fields : List Vardef) (cdata : List Variant) (sig : String)
    (mp : JsMethod) : Prop where
  sig : mp.sig = sig.toList
  code : ∃ es, mp.body = .inits es ∧ mp.code = cells es.code ∧ es.Resolved fields [] cdata

theorem Opening.mono {fields more : List Vardef} {cdata longer : List Variant} {sig : String}
    {mp : JsMethod} (h : Opening fields cdata sig mp) (sub : fields ⊆ more)
    (ext : cdata <+: longer) : Opening more longer sig mp := by
  obtain ⟨named, es, body, code, resolved⟩ := h
  exact ⟨named, es, body, code, Args.Resolved.mono sub ext resolved⟩

/-- The class at hand while its body is read. -/
structure OpenClass (pp : Program) (cls : JsClass) : Prop where
  closed : pp.comp.symstack = []
  found : pp.heap[pp.curclass]? = some cls
  methods : ∃ mi ms rest, cls.methods = mi :: ms :: rest ∧
    Opening cls.fields pp.comp.cdata "@@constructor:Ivv" mi ∧
    Opening cls.fields pp.comp.cdata "@@constructor:Sv" ms ∧
    ∀ mp ∈ rest, MethodOk cls.fields pp.comp.cdata mp

/-- Only the class at hand is changed, and constants are added. -/
structure Extends (pp pp' : Program) : Prop where
  consts : pp.comp.cdata <+: pp'.comp.cdata
  closed : pp.comp.symstack = [] → pp'.comp.symstack = []
  curclass : pp'.curclass = pp.curclass
  elsewhere : ∀ d, d ≠ pp.curclass → pp'.heap[d]? = pp.heap[d]?

theorem Extends.refl (pp : Program) : Extends pp pp :=
  ⟨List.prefix_rfl, id, rfl, fun _ _ => rfl⟩

theorem Extends.trans {pp pp' pp'' : Program} (h : Extends pp pp') (h' : Extends pp' pp'') :
    Extends pp pp'' where
  consts := h.consts.trans h'.consts
  closed := fun closed => h'.closed (h.closed closed)
  curclass := h'.curclass.trans h.curclass
  elsewhere := fun d ne => (h'.elsewhere d (by rwa [h.curclass])).trans (h.elsewhere d ne)

theorem AddsMethod.extends {pp pp' : Program} {cls : JsClass} (h : AddsMethod pp pp' cls) :
    Extends pp pp' := by
  obtain ⟨mp, -, heap⟩ := h.method
  exact ⟨h.consts, fun _ => h.closed, h.curclass, fun d ne => by
    simp [heap, List.getElem?_set_ne (Ne.symm ne)]⟩

theorem OpenClass.lt {pp : Program} {cls : JsClass} (h : OpenClass pp cls) :
    pp.curclass < pp.heap.length :=
  (List.getElem?_eq_some_iff.mp h.found).1

theorem OpenClass.add {pp pp' : Program} {cls : JsClass} (h : OpenClass pp cls)
    (adds : AddsMethod pp pp' cls) : ∃ cls', OpenClass pp' cls' := by
  obtain ⟨mp, ok, heap⟩ := adds.method
  obtain ⟨mi, ms, rest, methods, inst, static, others⟩ := h.methods
  have same : cls.fields ⊆ cls.fields := fun _ mem => mem
  refine ⟨{ cls with methods := cls.methods ++ [mp] }, adds.closed, ?_, mi, ms, rest ++ [mp], ?_, ?_,
    ?_, ?_⟩
  · simp [heap, adds.curclass, h.lt]
  · simp [methods]
  · exact inst.mono same adds.consts
  · exact static.mono same adds.consts
  · intro mp' mem
    rcases List.mem_append.mp mem with old | new
    · exact (others mp' old).mono same adds.consts
    · rw [List.mem_singleton.mp new]
      exact ok

theorem skips_keep (pp : Program) {cls : JsClass} (h : OpenClass pp cls) :
    Extends pp ((pp.next.skip .static).skip .const) ∧
      OpenClass ((pp.next.skip .static).skip .const) cls := by
  have skip : ∀ (pp : Program) t, ∃ s : Comp, pp.skip t = pp.setComp s ∧
      s.cdata = pp.comp.cdata ∧ s.symstack = pp.comp.symstack := by
    intro pp t
    unfold Program.skip
    split
    · exact ⟨_, rfl, rfl, rfl⟩
    · exact ⟨pp.comp, rfl, rfl, rfl⟩
  obtain ⟨s, eq, same, stack⟩ := skip pp.next .static
  obtain ⟨s', eq', same', stack'⟩ := skip (pp.next.skip .static) .const
  rw [eq', eq]
  rw [eq] at same' stack'
  have consts : s'.cdata = pp.comp.cdata := same'.trans same
  have closed : s'.symstack = [] := (stack'.trans stack).trans h.closed
  refine ⟨⟨by simp [Program.setComp, consts], fun _ => closed, rfl, fun _ _ => rfl⟩, closed,
    h.found, ?_⟩
  simpa [Program.setComp, consts] using h.methods

/-- The class and the method at hand. -/
structure AtMethod (pp : Program) (cls : JsClass) (mp : JsMethod) : Prop where
  found : pp.heap[pp.curclass]? = some cls
  method : cls.methods[pp.curmethod]? = some mp

namespace AtMethod

variable {pp : Program} {cls : JsClass} {mp : JsMethod}

theorem lt (h : AtMethod pp cls mp) : pp.curclass < pp.heap.length :=
  (List.getElem?_eq_some_iff.mp h.found).1

theorem heap_updateMethod (h : AtMethod pp cls mp) (f : JsMethod → JsMethod) :
    (pp.updateMethod f).heap =
      pp.heap.set pp.curclass { cls with methods := cls.methods.set pp.curmethod (f mp) } := by
  simp [Program.updateMethod, Program.updateClass, modify_eq_set _ h.found,
    modify_eq_set _ h.method]

theorem updateMethod (h : AtMethod pp cls mp) (f : JsMethod → JsMethod) :
    AtMethod (pp.updateMethod f) { cls with methods := cls.methods.set pp.curmethod (f mp) }
      (f mp) where
  found := by
    rw [h.heap_updateMethod]
    exact List.getElem?_set_self h.lt
  method := List.getElem?_set_self (List.getElem?_eq_some_iff.mp h.method).1

theorem fields (h : AtMethod pp cls mp) : pp.scope.fields = cls.fields := by
  simp [Program.scope, h.found]

theorem inMethod {α : Type} (h : AtMethod pp cls mp) (f : Scope → Comp → Comp × α)
    {s : Comp} {a : α}
    (run : f pp.scope { pp.comp with code := mp.code, hasretval := mp.hasretval } = (s, a)) :
    pp.inMethod f = ((pp.setComp s).updateMethod fun mp =>
      { mp with code := s.code, hasretval := s.hasretval }, a) := by
  have method : pp.method? = some mp := by simp [Program.method?, h.found, h.method]
  have code : ((pp.method?).map JsMethod.code).getD [] = mp.code := by simp [method]
  have ret : ((pp.method?).map JsMethod.hasretval).getD false = mp.hasretval := by simp [method]
  simp only [Program.inMethod, code, ret, run]

end AtMethod

/-- The constructor that collects the initialisers of static or of instance
fields, and what is left of the class when it is replaced. -/
theorem OpenClass.constructor {pp : Program} {cls : JsClass} (h : OpenClass pp cls)
    (isstatic : Bool) :
    let sig := constructorSig isstatic
    let k := pp.findMethodNum sig.toList
    ∃ mp, cls.methods[k]? = some mp ∧ Opening cls.fields pp.comp.cdata sig mp ∧
      ∀ {pp' mp'}, pp'.comp.symstack = [] → pp'.curclass = pp.curclass →
        pp.comp.cdata <+: pp'.comp.cdata →
        pp'.heap = pp.heap.set pp.curclass { cls with methods := cls.methods.set k mp' } →
        Opening cls.fields pp'.comp.cdata sig mp' →
        OpenClass pp' { cls with methods := cls.methods.set k mp' } := by
  obtain ⟨mi, ms, rest, methods, inst, static, others⟩ := h.methods
  have same : cls.fields ⊆ cls.fields := fun _ mem => mem
  have found : ∀ {pp' : Program} {cls' : JsClass}, pp'.curclass = pp.curclass →
      pp'.heap = pp.heap.set pp.curclass cls' → pp'.heap[pp'.curclass]? = some cls' := by
    intro pp' cls' cur heap
    rw [cur, heap]
    exact List.getElem?_set_self h.lt
  intro sig k
  cases isstatic with
  | false =>
      have at_zero : k = 0 := by
        simp [k, sig, constructorSig, Program.findMethodNum, h.found, methods, List.findIdx_cons,
          inst.sig]
      rw [at_zero, methods]
      exact ⟨mi, rfl, inst, fun {pp' mp'} closed cur ext heap opening =>
        ⟨closed, found cur heap, mp', ms, rest, rfl, opening, static.mono same ext,
          fun mp mem => (others mp mem).mono same ext⟩⟩
  | true =>
      have at_one : k = 1 := by
        simp [k, sig, constructorSig, Program.findMethodNum, h.found, methods, List.findIdx_cons,
          inst.sig, static.sig]
      rw [at_one, methods]
      exact ⟨ms, rfl, static, fun {pp' mp'} closed cur ext heap opening =>
        ⟨closed, found cur heap, mi, mp', rest, rfl, inst.mono same ext, opening,
          fun mp mem => (others mp mem).mono same ext⟩⟩

theorem defineField_opens {pp : Program} {cls : JsClass} (h : OpenClass pp cls)
    (name : List Char) (isstatic : Bool) :
    ∃ cls', OpenClass (pp.defineField name isstatic).1 cls' ∧
      Extends pp (pp.defineField name isstatic).1 ∧
      (pp.defineField name isstatic).2 ∈ cls'.fields ∧
      (pp.defineField name isstatic).2.isstatic = isstatic := by
  obtain ⟨mi, ms, rest, methods, inst, static, others⟩ := h.methods
  have heap : ∀ cls', (pp.updateClass fun _ => cls').heap = pp.heap.set pp.curclass cls' :=
    fun cls' => modify_eq_set _ h.found
  have opens : ∀ cls', cls'.methods = cls.methods → cls.fields ⊆ cls'.fields →
      OpenClass (pp.updateClass fun _ => cls') cls' := by
    intro cls' same sub
    refine ⟨h.closed, ?_, mi, ms, rest, same.trans methods, inst.mono sub List.prefix_rfl,
      static.mono sub List.prefix_rfl, fun mp mem => (others mp mem).mono sub List.prefix_rfl⟩
    rw [heap]
    exact List.getElem?_set_self h.lt
  have extends_ : ∀ cls', Extends pp (pp.updateClass fun _ => cls') := fun cls' =>
    ⟨List.prefix_rfl, id, rfl, fun d ne => by rw [heap, List.getElem?_set_ne (Ne.symm ne)]⟩
  simp only [Program.defineField, h.found]
  cases isstatic with
  | false => exact ⟨_, opens _ rfl (List.subset_append_left _ _), extends_ _, by
      simp [jsclassAddField], rfl⟩
  | true => exact ⟨_, opens _ rfl (List.subset_append_left _ _), extends_ _, by
      simp [jsclassAddField], rfl⟩

section

variable {P : Parsers} (good : ParsersGood P)
include good

theorem initField_ok {vdp : Vardef} {pp : Program} (ok : (initField P vdp pp).ok) : pp.ok := by
  have first : (pp.inMethod (fieldInit P vdp)).1.ok := by
    unfold initField at ok
    split at ok <;> (rename_i run; rw [run]; exact ok)
  exact (fieldInit_code good rfl first).1

/-- The initialiser of a field goes into the constructor at hand. -/
theorem initField_opening {vdp : Vardef} {pp : Program} {cls : JsClass} {mp : JsMethod}
    {sig : String} (h : AtMethod pp cls mp) (closed : pp.comp.symstack = []) (opening : Opening cls.fields pp.comp.cdata sig mp)
    (field : vdp ∈ cls.fields) (ok : (initField P vdp pp).ok) :
    pp.comp.cdata <+: (initField P vdp pp).comp.cdata ∧
      (initField P vdp pp).comp.symstack = [] ∧
      (initField P vdp pp).curclass = pp.curclass ∧
      ∃ mp', Opening cls.fields (initField P vdp pp).comp.cdata sig mp' ∧
        (initField P vdp pp).heap =
          pp.heap.set pp.curclass { cls with methods := cls.methods.set pp.curmethod mp' } := by
  generalize run : fieldInit P vdp pp.scope
    { pp.comp with code := mp.code, hasretval := mp.hasretval } = r
  obtain ⟨s, init⟩ := r
  have result := h.inMethod (fieldInit P vdp) run
  have ok' : s.ok := by
    unfold initField at ok
    rw [result] at ok
    cases init <;> exact ok
  obtain ⟨ext, stack, code, resolved⟩ :=
    (fieldInit_code good run ok').2 (by rw [h.fields]; exact field)
  have scope : scopeOf pp.comp.symstack = [] := by simp [closed]
  have closed' : s.symstack = [] := stack.trans closed
  rw [h.fields, scope] at resolved
  obtain ⟨named, es, body, esCode, esResolved⟩ := opening
  have first : AtMethod (pp.setComp s) cls mp := ⟨h.found, h.method⟩
  unfold initField
  rw [result]
  cases init with
  | none =>
      refine ⟨ext, closed', rfl, _, ⟨?_, es, ?_, ?_, ?_⟩, first.heap_updateMethod _⟩
      · exact named
      · exact body
      · simpa [optCode, esCode] using code
      · exact esResolved.ext ext
  | some e =>
      refine ⟨ext, closed', rfl, { mp with
        code := s.code
        hasretval := s.hasretval
        body := mp.body.addInit e }, ⟨named, es.snoc e, ?_, ?_, ?_⟩, ?_⟩
      · simp [body, Body.addInit]
      · simpa [optCode, esCode] using code
      · exact Args.resolved_snoc (resolved e rfl) (esResolved.ext ext)
      · have both := (first.updateMethod fun mp =>
          { mp with code := s.code, hasretval := s.hasretval }).heap_updateMethod
            fun mp => { mp with body := mp.body.addInit e }
        rw [first.heap_updateMethod] at both
        simpa [Program.setComp, Program.updateMethod, Program.updateClass] using both

theorem cvardef_opens {isstatic : Bool} {pp : Program} (ok : (cvardef P isstatic pp).ok) :
    pp.ok ∧ ∀ cls, OpenClass pp cls → Extends pp (cvardef P isstatic pp) ∧
      ∃ cls', OpenClass (cvardef P isstatic pp) cls' := by
  simp -iota only [cvardef] at ok ⊢
  split at ok
  · exact absurd ok (Program.not_ok_setupError _ (by decide))
  rename_i named
  rw [if_neg named]
  generalize define : pp.next.defineField pp.next.comp.lexeme isstatic = r at ok ⊢
  obtain ⟨pp₁, vdp⟩ := r
  dsimp only at ok ⊢
  split at ok
  · exact absurd ok (Program.not_ok_setupError _ (by decide))
  rename_i semi
  rw [if_neg semi]
  have okInit := initField_ok good ok
  have same : pp₁.comp = pp.next.comp := by
    have := congrArg (fun r => r.1.comp) define
    unfold Program.defineField at this
    split at this <;> exact this.symm
  refine ⟨?_, fun cls opened => ?_⟩
  · have : pp₁.ok := okInit
    rw [Program.ok, same] at this
    exact this
  have opened' : OpenClass pp.next cls := ⟨opened.closed, opened.found, opened.methods⟩
  obtain ⟨cls₁, opened₁, ext₁, field, kind⟩ :=
    defineField_opens opened' pp.next.comp.lexeme isstatic
  rw [define] at opened₁ ext₁ field kind
  obtain ⟨mp, method, opening, replace⟩ := opened₁.constructor isstatic
  subst kind
  have first : AtMethod (pp₁.next.atConstructor vdp.isstatic) cls₁ mp :=
    ⟨opened₁.found, method⟩
  obtain ⟨ext, closed, cur, mp', opening', heap⟩ :=
    initField_opening good first opened₁.closed opening field ok
  have ext₂ : Extends pp₁ (initField P vdp (pp₁.next.atConstructor vdp.isstatic)) :=
    ⟨ext, fun _ => closed, cur, fun d ne =>
      (congrArg (·[d]?) heap).trans (List.getElem?_set_ne (Ne.symm ne))⟩
  have all := ext₁.trans ext₂
  exact ⟨⟨all.consts, fun _ => closed, all.curclass, all.elsewhere⟩, _,
    replace closed cur ext heap opening'⟩

/-- The members of a class, one after the other. -/
theorem classLoop_opens (n : Nat) {pp : Program} (ok : (classLoop P n pp).ok) :
    pp.ok ∧ ∀ cls, OpenClass pp cls → Extends pp (classLoop P n pp) ∧
      ∃ cls', OpenClass (classLoop P n pp) cls' := by
  induction n generalizing pp with
  | zero => exact absurd ok pp.comp.not_ok_giveUp
  | succ n ih =>
      -- a member that is read from behind its modifiers, then the rest
      have member : ∀ {pp'}, ((pp'.ok) → ((pp.next.skip .static).skip .const).ok ∧
          ∀ cls, OpenClass ((pp.next.skip .static).skip .const) cls →
            Extends ((pp.next.skip .static).skip .const) pp' ∧ ∃ cls', OpenClass pp' cls') →
          (classLoop P n pp').ok → pp.ok ∧ ∀ cls, OpenClass pp cls →
            Extends pp (classLoop P n pp') ∧ ∃ cls', OpenClass (classLoop P n pp') cls' := by
        intro pp' first ok
        obtain ⟨ok', rest⟩ := ih ok
        obtain ⟨okFirst, opens⟩ := first ok'
        refine ⟨(ok_skip _ pp.next).mp ((ok_skip _ _).mp okFirst), fun cls opened => ?_⟩
        obtain ⟨kept, stays⟩ := skips_keep pp opened
        obtain ⟨ext, cls', opened'⟩ := opens cls stays
        obtain ⟨ext', out⟩ := rest cls' opened'
        exact ⟨(kept.trans ext).trans ext', out⟩
      simp only [classLoop] at ok ⊢
      split at ok
      · rename_i inside
        rw [if_pos inside]
        split at ok
        · exact absurd ok (Program.not_ok_setupError _ (by decide))
        split at ok
        · exact member (fun ok' => cvardef_opens good ok') ok
        · exact member (fun ok' => ⟨(method_adds good ok').1, fun cls opened =>
            have adds := (method_adds good ok').2 cls opened.closed opened.found
            ⟨adds.extends, opened.add adds⟩⟩) ok
        · rename_i lexical
          exact absurd ok (not_ok_lexical lexical)
        · exact absurd ok (Program.not_ok_setupError _ (by decide))
      · rename_i outside
        rw [if_neg outside]
        exact ⟨ok, fun cls opened => ⟨.refl pp, cls, opened⟩⟩

theorem classbody_opens {pp : Program} (ok : (classbody P pp).ok) :
    pp.ok ∧ ∀ cls, OpenClass pp cls → Extends pp (classbody P pp) ∧
      ∃ cls', OpenClass (classbody P pp) cls' := by
  obtain ⟨okStart, opens⟩ := classLoop_opens good P.rounds ok
  refine ⟨okStart, fun cls opened => ?_⟩
  obtain ⟨ext, rest⟩ := opens cls ⟨opened.closed, opened.found, opened.methods⟩
  exact ⟨⟨ext.consts, ext.closed, ext.curclass, ext.elsewhere⟩, rest⟩

end

theorem openConstructor_opens {pp : Program} {cls : JsClass}
    (found : pp.heap[pp.curclass]? = some cls) (isstatic : Bool) :
    ∃ mp, Compiling pp (openConstructor isstatic pp) cls mp ∧
      Opening cls.fields pp.comp.cdata (constructorSig isstatic) mp := by
  have defined := (Compiling.defineMethod found "@@constructor".toList isstatic
    .accPrivate).updateMethod fun mp => { mp with body := .inits .nil }
  cases isstatic with
  | false => exact ⟨_, defined.updateMethod _, rfl, .nil, rfl, rfl, trivial⟩
  | true => exact ⟨_, defined, rfl, .nil, rfl, rfl, trivial⟩

/-- The constructors of a class whose methods are still to come. -/
theorem openConstructors_opens {pp : Program} {cls : JsClass} (closed : pp.comp.symstack = [])
    (found : pp.heap[pp.curclass]? = some cls) (fresh : cls.methods = []) :
    let pp₁ := openConstructor false pp
    let pp₂ := openConstructor true pp₁
    Extends pp pp₂ ∧ pp₁.curmethod = 0 ∧ pp₂.curmethod = 1 ∧ ∃ cls', OpenClass pp₂ cls' := by
  intro pp₁ pp₂
  obtain ⟨mi, inst, openI⟩ := openConstructor_opens found false
  obtain ⟨ms, static, openS⟩ := openConstructor_opens inst.lookup true
  have away : ∀ {d}, d ≠ pp.curclass → d ≠ pp₁.curclass := fun ne => by rwa [inst.curclass]
  refine ⟨⟨List.prefix_rfl, id, static.curclass.trans inst.curclass, fun d ne => ?_⟩, ?_, ?_, ?_⟩
  · exact (static.elsewhere (away ne)).trans (inst.elsewhere ne)
  · simpa [fresh] using inst.curmethod
  · simpa [fresh] using static.curmethod
  · exact ⟨_, closed, static.lookup, mi, ms, [], by simp [fresh], openI, openS, by simp⟩

/-- `VRET` behind the initialisers. -/
theorem closeConstructor_settles {pp : Program} {cls : JsClass} {mp : JsMethod} {sig : String}
    {k : Nat} (found : pp.heap[pp.curclass]? = some cls) (method : cls.methods[k]? = some mp)
    (opening : Opening cls.fields pp.comp.cdata sig mp) :
    ∃ mp', MethodOk cls.fields pp.comp.cdata mp' ∧ (closeConstructor k pp).heap =
        pp.heap.set pp.curclass { cls with methods := cls.methods.set k mp' } ∧
      (closeConstructor k pp).heap[pp.curclass]? =
        some { cls with methods := cls.methods.set k mp' } := by
  have h : AtMethod { pp with curmethod := k } cls mp := ⟨found, method⟩
  obtain ⟨-, es, body, code, resolved⟩ := opening
  have result := h.inMethod (fun _ s => (s.emit0 .vret, ())) rfl
  simp only [closeConstructor]
  rw [result]
  have heap := ({ h with } : AtMethod _ cls mp).heap_updateMethod fun mp' => { mp' with
    code := mp.code ++ cells [.emit0 .vret]
    hasretval := mp.hasretval || decide (OpCode.vret = .ret) }
  refine ⟨{ mp with
    code := mp.code ++ cells [.emit0 .vret]
    hasretval := mp.hasretval || decide (OpCode.vret = .ret) }, ⟨?_, ?_⟩, heap, ?_⟩
  · simp [body, code, Body.code]
  · simpa [body, Body.Resolved] using resolved
  · exact (congrArg (·[pp.curclass]?) heap).trans (List.getElem?_set_self h.lt)

section

variable {P : Parsers} (good : ParsersGood P)
include good

/-- A class definition behind its name: all methods of the class are settled. -/
theorem classDeclaration_settles {pp : Program} (ok : (classDeclaration P pp).ok) :
    pp.ok ∧ ∀ cls, pp.comp.symstack = [] → pp.heap[pp.curclass]? = some cls → cls.methods = [] →
      Extends pp (classDeclaration P pp) ∧
      ∃ cls', (classDeclaration P pp).heap[pp.curclass]? = some cls' ∧
        ∀ mp ∈ cls'.methods, MethodOk cls'.fields (classDeclaration P pp).comp.cdata mp := by
  simp only [classDeclaration] at ok ⊢
  split at ok
  · exact absurd ok (Program.not_ok_setupError _ (by decide))
  rename_i lbrace
  rw [if_neg lbrace]
  split at ok
  · rename_i err
    exact absurd ok.1 err
  rename_i clean
  rw [if_neg clean]
  split at ok
  · exact absurd ok (Program.not_ok_setupError _ (by decide))
  rename_i rbrace
  rw [if_neg rbrace]
  have okBody : (classbody P (openConstructor true (openConstructor false pp))).ok := ok
  obtain ⟨okStart, opens⟩ := classbody_opens good okBody
  refine ⟨okStart, fun cls closed found fresh => ?_⟩
  obtain ⟨ext, numI, numS, cls₁, opened⟩ := openConstructors_opens closed found fresh
  rw [numI, numS]
  obtain ⟨ext₁, cls₂, closed₂, found₂, mi, ms, rest, methods, inst, static, others⟩ :=
    opens cls₁ opened
  generalize classbody P (openConstructor true (openConstructor false pp)) = pp₂ at *
  have all := ext.trans ext₁
  have found₃ : pp₂.next.heap[pp₂.next.curclass]? = some cls₂ := found₂
  obtain ⟨mi', okI, heapI, foundI⟩ := closeConstructor_settles found₃
    (show cls₂.methods[0]? = some mi by simp [methods]) inst
  obtain ⟨ms', okS, heapS, foundS⟩ := closeConstructor_settles foundI
    (show (cls₂.methods.set 0 mi')[1]? = some ms by simp [methods]) static
  have last : (closeConstructor 1 (closeConstructor 0 pp₂.next)).heap[pp.curclass]? =
      some { cls₂ with methods := mi' :: ms' :: rest } := by
    rw [← all.curclass]
    refine foundS.trans ?_
    simp [methods]
  refine ⟨⟨all.consts, all.closed, all.curclass, fun d ne => ?_⟩, _, last, fun mp mem => ?_⟩
  · have away : pp₂.curclass ≠ d := by rw [all.curclass]; exact Ne.symm ne
    exact (congrArg (·[d]?) heapS).trans ((List.getElem?_set_ne away).trans
      ((congrArg (·[d]?) heapI).trans ((List.getElem?_set_ne away).trans (all.elsewhere d ne))))
  · rcases List.mem_cons.mp mem with rfl | mem
    · exact okI
    rcases List.mem_cons.mp mem with rfl | mem
    · exact okS
    · exact others mp mem

end

/-! ## Programs -/

/-- Every method was there before, or its code is that of its body. -/
def Settled (intrinsics heap : List JsClass) (cdata : List Variant) : Prop :=
  ∀ (c : Nat) (cls : JsClass) (i : Nat) (mp : JsMethod), heap[c]? = some cls →
    cls.methods[i]? = some mp →
    (∃ old : JsClass, intrinsics[c]? = some old ∧ old.methods[i]? = some mp) ∨
      MethodOk cls.fields cdata mp

/-- Outside of every block, a step of the parser leaves the methods settled. -/
def Settles (intrinsics : List JsClass) (pp pp' : Program) : Prop :=
  pp.comp.symstack = [] → Settled intrinsics pp.heap pp.comp.cdata →
    pp'.comp.symstack = [] ∧ Settled intrinsics pp'.heap pp'.comp.cdata

section

variable {intrinsics : List JsClass}

theorem Settled.extend {pp pp' : Program} (h : Settled intrinsics pp.heap pp.comp.cdata)
    (ext : Extends pp pp')
    (here : ∀ (cls : JsClass) (i : Nat) (mp : JsMethod), pp'.heap[pp.curclass]? = some cls →
      cls.methods[i]? = some mp →
        (∃ old : JsClass, intrinsics[pp.curclass]? = some old ∧ old.methods[i]? = some mp) ∨
          MethodOk cls.fields pp'.comp.cdata mp) :
    Settled intrinsics pp'.heap pp'.comp.cdata := by
  intro c cls i mp found method
  by_cases cur : c = pp.curclass
  · subst cur
    exact here cls i mp found method
  · rcases h c cls i mp (by rwa [← ext.elsewhere c cur]) method with old | ok
    · exact .inl old
    · exact .inr (ok.mono (fun _ mem => mem) ext.consts)

/-- A class that is declared is new, and has no methods yet. -/
theorem Settled.append {heap : List JsClass} {cdata : List Variant}
    (h : Settled intrinsics heap cdata) {cls : JsClass} (fresh : cls.methods = []) :
    Settled intrinsics (heap ++ [cls]) cdata := by
  intro c cls' i mp found method
  by_cases old : c < heap.length
  · rw [List.getElem?_append_left old] at found
    exact h c cls' i mp found method
  · rw [List.getElem?_append_right (Nat.le_of_not_lt old)] at found
    have same : cls' = cls := by simpa using List.mem_of_getElem? found
    simp [same, fresh] at method

theorem Settled.add {pp pp' : Program} {cls : JsClass}
    (h : Settled intrinsics pp.heap pp.comp.cdata) (found : pp.heap[pp.curclass]? = some cls)
    (adds : AddsMethod pp pp' cls) : Settled intrinsics pp'.heap pp'.comp.cdata := by
  obtain ⟨new, ok, heap⟩ := adds.method
  have lt := (List.getElem?_eq_some_iff.mp found).1
  refine h.extend adds.extends fun cls' i mp here method => ?_
  rw [heap, List.getElem?_set_self lt] at here
  cases here
  by_cases old : i < cls.methods.length
  · rw [List.getElem?_append_left old] at method
    rcases h _ cls i mp found method with before | settled
    · exact .inl before
    · exact .inr (settled.mono (fun _ mem => mem) adds.consts)
  · rw [List.getElem?_append_right (Nat.le_of_not_lt old)] at method
    have same : mp = new := by simpa using List.mem_of_getElem? method
    rw [same]
    exact .inr ok

end

section

variable {P : Parsers} (good : ParsersGood P) {intrinsics : List JsClass}
include good

/-- A class definition, when its class is the last of the heap. -/
theorem newClass_settles {pp : Program} {name basename : List Char}
    (ok : (classDeclaration P (pp.defineClass name basename)).ok) :
    pp.ok ∧ Settles intrinsics pp (classDeclaration P (pp.defineClass name basename)) := by
  obtain ⟨okStart, settles⟩ := classDeclaration_settles good ok
  refine ⟨okStart, fun closed settled => ?_⟩
  have found : (pp.defineClass name basename).heap[(pp.defineClass name basename).curclass]? =
      some (jsclassConstruct name basename) := by
    simp [Program.defineClass]
  obtain ⟨ext, cls', found', all⟩ := settles _ closed found rfl
  have before : Settled intrinsics (pp.defineClass name basename).heap
      (pp.defineClass name basename).comp.cdata := settled.append rfl
  refine ⟨ext.closed closed, before.extend ext fun cls i mp here method => .inr ?_⟩
  rw [found'] at here
  cases here
  exact all mp (List.mem_of_getElem? method)

theorem declareClass_settles {pp : Program} (ok : (declareClass P pp).ok) :
    pp.ok ∧ Settles intrinsics pp (declareClass P pp) := by
  simp only [declareClass] at ok ⊢
  split at ok
  · exact absurd ok (Program.not_ok_setupError _ (by decide))
  rename_i named
  rw [if_neg named]
  split at ok
  · rename_i colon
    rw [if_pos colon]
    split at ok
    · exact absurd ok (Program.not_ok_setupError _ (by decide))
    · rename_i based
      rw [if_neg based]
      obtain ⟨okStart, settles⟩ := newClass_settles good ok
      exact ⟨okStart, settles⟩
  · rename_i colon
    rw [if_neg colon]
    obtain ⟨okStart, settles⟩ := newClass_settles good ok
    exact ⟨okStart, settles⟩

/-- A method outside its class. -/
theorem declareMethod_settles {acc : JsAccess} {pp : Program} (ok : (declareMethod P acc pp).ok) :
    pp.ok ∧ Settles intrinsics pp (declareMethod P acc pp) := by
  simp only [declareMethod] at ok ⊢
  split at ok
  · exact absurd ok (Program.not_ok_setupError _ (by decide))
  rename_i named
  rw [if_neg named]
  split at ok
  · exact absurd ok (Program.not_ok_setupError _ (by decide))
  rename_i c found
  split at ok
  · exact absurd ok (Program.not_ok_setupError _ (by decide))
  rename_i scope
  rw [if_neg scope]
  split at ok
  · exact absurd ok (Program.not_ok_setupError _ (by decide))
  rename_i method
  rw [if_neg method]
  obtain ⟨okStart, adds⟩ := declareMethod_adds good ok
  refine ⟨(ok_skip .static pp.next).mp okStart, fun closed settled => ?_⟩
  obtain ⟨heap, consts, stack⟩ : (pp.next.skip .static).heap = pp.heap ∧
      (pp.next.skip .static).comp.cdata = pp.comp.cdata ∧
      (pp.next.skip .static).comp.symstack = pp.comp.symstack := by
    unfold Program.skip
    split <;> exact ⟨rfl, rfl, rfl⟩
  have lt : c < (pp.next.skip .static).heap.length := by
    simpa using (Option.filter_eq_some_iff.mp found).2
  have before : Settled intrinsics (pp.next.skip .static).heap (pp.next.skip .static).comp.cdata := by
    rw [heap, consts]
    exact settled
  have named : (pp.next.skip .static).heap[c]? = some (pp.next.skip .static).heap[c] :=
    List.getElem?_eq_getElem lt
  have added := adds _ (stack.trans closed) named
  refine ⟨added.closed, Settled.add ?_ ?_ added⟩
  · exact before
  · exact named

theorem declaration_settles {pp : Program} (ok : (declaration P pp).ok) :
    pp.ok ∧ Settles intrinsics pp (declaration P pp) := by
  unfold declaration at ok ⊢
  split at ok
  · rename_i cls
    rw [if_pos cls]
    exact declareClass_settles good ok
  rename_i cls
  rw [if_neg cls]
  split at ok
  · exact declareMethod_settles good ok
  · have ne : YYER_EXPECTED_CLASS_DEF ≠ 0 := by decide
    exact absurd ok.1 ne

theorem fileLoop_settles (n : Nat) {pp : Program} (ok : (fileLoop P n pp).ok) :
    pp.ok ∧ Settles intrinsics pp (fileLoop P n pp) := by
  induction n generalizing pp with
  | zero => exact absurd ok pp.comp.not_ok_giveUp
  | succ n ih =>
      simp only [fileLoop] at ok ⊢
      split at ok
      · rename_i inside
        rw [if_pos inside]
        split at ok
        · rename_i lexical
          exact absurd ok.1 (pp.comp.scan.coded lexical)
        · rename_i lexical
          rw [if_neg lexical]
          obtain ⟨ok₁, rest⟩ := ih ok
          obtain ⟨okStart, first⟩ := declaration_settles good ok₁
          refine ⟨okStart, fun closed settled => ?_⟩
          obtain ⟨closed₁, settled₁⟩ := first closed settled
          exact rest closed₁ settled₁
      · rename_i outside
        rw [if_neg outside]
        exact ⟨ok, .intro⟩

end

/-- The methods of an accepted program: those that were there before, and those
whose code is that of the body they were compiled from. -/
theorem parseChar_settled {intrinsics : Intrinsics} {text : List Char}
    (ok : (parseChar intrinsics text).accepted) :
    Settled intrinsics.heap (parseChar intrinsics text).heap
      (parseChar intrinsics text).comp.cdata := by
  refine ((fileLoop_settles (parsers_good _) _ ok).2 rfl ?_).2
  intro c cls i mp found method
  exact .inl ⟨cls, found, method⟩

end Jspp.Compiler
