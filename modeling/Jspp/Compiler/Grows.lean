/-
# Compiler.Grows -- what parsing does to the classes

Whatever the text, and whether it is accepted or not, parsing keeps what a class
was prepared with: its name, its base, its virtual table and its constants.  A
class gets more fields and methods, and the methods belong to it.

* `Evolves`, `Grown`: one class, and a heap of classes.
* `ProgramInvariant`: what every write of the parser to the classes keeps.
* `parseChar_grows`; `parseChar_newClasses`: the numbers of the program's own classes.
-/
import Jspp.Compiler.Declare

namespace Jspp.Compiler

open Jspp.Kernel

set_option autoImplicit false

/-! ## Classes and heaps -/

/-- A class number `c` before and after. -/
structure Evolves (c : Nat) (old new : JsClass) : Prop where
  name : new.name = old.name
  basename : new.basename = old.basename
  baseclass : new.baseclass = old.baseclass
  vtable : new.vtable = old.vtable
  constdata : new.constdata = old.constdata
  spare : new.spare = old.spare
  fields : old.fields <+: new.fields
  methods : ∀ mp ∈ new.methods, mp.myclass = c ∨ ∃ m ∈ old.methods, m.myclass = mp.myclass

namespace Evolves

variable {c : Nat} {a b d : JsClass}

theorem refl (c : Nat) (a : JsClass) : Evolves c a a :=
  ⟨rfl, rfl, rfl, rfl, rfl, rfl, List.prefix_rfl, fun mp mem => .inr ⟨mp, mem, rfl⟩⟩

theorem trans (h : Evolves c a b) (h' : Evolves c b d) : Evolves c a d where
  name := h'.name.trans h.name
  basename := h'.basename.trans h.basename
  baseclass := h'.baseclass.trans h.baseclass
  vtable := h'.vtable.trans h.vtable
  constdata := h'.constdata.trans h.constdata
  spare := h'.spare.trans h.spare
  fields := h.fields.trans h'.fields
  methods := by
    intro mp mem
    rcases h'.methods mp mem with own | ⟨m, mem', same⟩
    · exact .inl own
    · rw [← same]
      exact h.methods m mem'

/-- A method that is worked on stays in its class. -/
theorem modify (c : Nat) (a : JsClass) (i : Nat) {f : JsMethod → JsMethod}
    (keeps : ∀ mp, (f mp).myclass = mp.myclass) :
    Evolves c a { a with methods := a.methods.modify i f } := by
  refine ⟨rfl, rfl, rfl, rfl, rfl, rfl, List.prefix_rfl, fun mp mem => .inr ?_⟩
  obtain ⟨j, at_j⟩ := List.mem_iff_getElem?.mp mem
  rw [List.getElem?_modify] at at_j
  obtain ⟨m, at_m, rfl⟩ := Option.map_eq_some_iff.mp at_j
  refine ⟨m, List.mem_of_getElem? at_m, ?_⟩
  split
  · exact (keeps m).symm
  · rfl

theorem addMethod (c : Nat) (a : JsClass) {mp : JsMethod} (own : mp.myclass = c) :
    Evolves c a { a with methods := a.methods ++ [mp] } := by
  refine ⟨rfl, rfl, rfl, rfl, rfl, rfl, List.prefix_rfl, fun m mem => ?_⟩
  rcases List.mem_append.mp mem with old | new
  · exact .inr ⟨m, old, rfl⟩
  · rw [List.mem_singleton.mp new]
    exact .inl own

theorem addField (c : Nat) (a : JsClass) (name : List Char) (isstatic : Bool) :
    Evolves c a (jsclassAddField a name isstatic).1 := by
  unfold jsclassAddField
  split <;>
    exact ⟨rfl, rfl, rfl, rfl, rfl, rfl, List.prefix_append _ _, fun mp mem => .inr ⟨mp, mem, rfl⟩⟩

end Evolves

/-- The classes of a heap after some parsing; a new one starts as `jsclassConstruct` made it. -/
structure Grown (heap heap' : List JsClass) : Prop where
  old : ∀ (c : Nat) (a : JsClass), heap[c]? = some a →
    ∃ b : JsClass, heap'[c]? = some b ∧ Evolves c a b
  new : ∀ (c : Nat) (b : JsClass), heap[c]? = none → heap'[c]? = some b →
    ∃ name basename, Evolves c (jsclassConstruct name basename) b

namespace Grown

variable {h h' h'' : List JsClass}

theorem refl (h : List JsClass) : Grown h h where
  old := fun c a found => ⟨a, found, .refl c a⟩
  new := fun c b missing found => by
    rw [missing] at found
    cases found

theorem trans (g : Grown h h') (g' : Grown h' h'') : Grown h h'' where
  old := by
    intro c a found
    obtain ⟨b, found', first⟩ := g.old c a found
    obtain ⟨d, found'', second⟩ := g'.old c b found'
    exact ⟨d, found'', first.trans second⟩
  new := by
    intro c d missing found
    cases mid : h'[c]? with
    | none => exact g'.new c d mid found
    | some b =>
        obtain ⟨name, basename, first⟩ := g.new c b missing mid
        obtain ⟨d', found', second⟩ := g'.old c b mid
        rw [found] at found'
        cases found'
        exact ⟨name, basename, first.trans second⟩

theorem modify (h : List JsClass) (c : Nat) {f : JsClass → JsClass}
    (evolves : ∀ a, h[c]? = some a → Evolves c a (f a)) : Grown h (h.modify c f) where
  old := by
    intro d a found
    rw [List.getElem?_modify, found]
    by_cases same : c = d
    · subst same
      exact ⟨f a, by simp, evolves a found⟩
    · exact ⟨a, by simp [same], .refl d a⟩
  new := by
    intro d b missing found
    rw [List.getElem?_modify, missing] at found
    cases found

theorem append (h : List JsClass) (name basename : List Char) :
    Grown h (h ++ [jsclassConstruct name basename]) where
  old := by
    intro c a found
    have lt := (List.getElem?_eq_some_iff.mp found).1
    exact ⟨a, by rw [List.getElem?_append_left lt, found], .refl c a⟩
  new := by
    intro c b missing found
    have ge : h.length ≤ c := List.getElem?_eq_none_iff.mp missing
    rw [List.getElem?_append_right ge] at found
    have eq : b = jsclassConstruct name basename := by
      simpa using List.mem_of_getElem? found
    exact ⟨name, basename, eq ▸ .refl c _⟩

end Grown

/-! ## The parser -/

/-- A property of programs that every write of the parser to the classes keeps. -/
structure ProgramInvariant (Q : Program → Prop) : Prop where
  comp : ∀ pp s, Q pp → Q (pp.setComp s)
  seek : ∀ pp c m, Q pp → Q { pp with curclass := c, curmethod := m }
  method : ∀ pp f, (∀ mp, (f mp).myclass = mp.myclass) → Q pp → Q (pp.updateMethod f)
  addMethod : ∀ pp name isstatic acc, Q pp → Q (pp.defineMethod name isstatic acc)
  addField : ∀ pp name isstatic, Q pp → Q (pp.defineField name isstatic).1
  addClass : ∀ pp name basename, Q pp → Q (pp.defineClass name basename)

namespace ProgramInvariant

variable {Q : Program → Prop} (inv : ProgramInvariant Q) {pp : Program}

include inv

theorem next (g : Q pp) : Q pp.next := inv.comp _ _ g

theorem skip (g : Q pp) (t : Token) : Q (pp.skip t) := by
  unfold Program.skip
  split
  · exact inv.next g
  · exact g

theorem setupError (g : Q pp) (e : Int) : Q (pp.setupError e) := inv.comp _ _ g

theorem inMethod (g : Q pp) {α : Type} (f : Scope → Comp → Comp × α) : Q (pp.inMethod f).1 :=
  inv.method _ _ (fun _ => rfl) (inv.comp _ _ g)

theorem argLoop (n : Nat) (g : Q pp) : Q (argLoop n pp) := by
  induction n generalizing pp with
  | zero => exact inv.comp _ _ g
  | succ n ih =>
      have declared : ∀ name isptr s, Q (Program.next (Program.setComp ((pp.skip .ampr).updateMethod
          fun mp => jsmethodAddArg mp name isptr) s)) :=
        fun _ _ _ => inv.next (inv.comp _ _ (inv.method _ _ (fun _ => rfl) (inv.skip g .ampr)))
      unfold Compiler.argLoop
      split
      · simp only
        split
        · exact ih (inv.next (declared _ _ _))
        · split
          · exact inv.setupError (declared _ _ _) _
          · exact ih (declared _ _ _)
      · split
        · exact inv.setupError g _
        · exact inv.next g

theorem thisArg (g : Q pp) (isstatic : Bool) : Q (thisArg isstatic pp) := by
  unfold Compiler.thisArg
  split
  · exact g
  · exact inv.comp _ _ (inv.method _ _ (fun _ => rfl) g)

theorem enterMethod (g : Q pp) : Q (enterMethod pp) := inv.inMethod g _

theorem openConstructor (g : Q pp) (isstatic : Bool) : Q (openConstructor isstatic pp) := by
  have opened := inv.method _ (fun mp => { mp with body := .inits .nil }) (fun _ => rfl)
    (inv.addMethod _ "@@constructor".toList isstatic .accPrivate g)
  unfold Compiler.openConstructor
  simp only
  split
  · exact opened
  · exact inv.method _ _ (fun _ => rfl) opened

theorem closeConstructor (g : Q pp) (m : Nat) : Q (closeConstructor m pp) :=
  inv.inMethod (inv.seek _ pp.curclass m g) _

variable (P : Parsers)

theorem argdec (g : Q pp) : Q (argdec P pp) := by
  unfold Compiler.argdec
  simp only
  split
  · exact inv.setupError (inv.next g) _
  · exact inv.argLoop _ (inv.next (inv.next g))

theorem compileBody (g : Q pp) : Q (compileBody P pp) := by
  unfold Compiler.compileBody
  exact inv.method _ _ (fun _ => rfl) (inv.inMethod g (methodbody P))

theorem parseMethod (g : Q pp) (acc : JsAccess) (isstatic : Bool) :
    Q (Compiler.method P acc isstatic pp) := by
  unfold Compiler.method
  split
  · exact inv.setupError g _
  · have entered := inv.enterMethod (inv.addMethod _ pp.comp.lexeme isstatic acc g)
    have declared := inv.argdec P (inv.thisArg entered isstatic)
    simp only
    split
    · exact declared
    · exact inv.compileBody P declared

theorem initField (g : Q pp) (vdp : Vardef) : Q (initField P vdp pp) := by
  have ran := inv.inMethod g (fieldInit P vdp)
  unfold Compiler.initField
  split
  case h_1 eq =>
      rw [eq] at ran
      exact ran
  case h_2 eq =>
      rw [eq] at ran
      exact inv.method _ _ (fun _ => rfl) ran

theorem cvardef (g : Q pp) (isstatic : Bool) : Q (cvardef P isstatic pp) := by
  unfold Compiler.cvardef
  simp only
  split
  · exact inv.setupError (inv.next g) _
  · have defined := inv.addField _ pp.next.comp.lexeme isstatic (inv.next g)
    have found : ∀ b, Q (Program.atConstructor b
        (Program.next (pp.next.defineField pp.next.comp.lexeme isstatic).1)) :=
      fun _ => inv.seek _ _ _ (inv.next defined)
    split
    · exact inv.setupError (inv.initField P (found _) _) _
    · exact inv.seek _ _ pp.curmethod (inv.next (inv.initField P (found _) _))

theorem classLoop (n : Nat) (g : Q pp) : Q (classLoop P n pp) := by
  induction n generalizing pp with
  | zero => exact inv.comp _ _ g
  | succ n ih =>
      have skipped := inv.skip (inv.skip (inv.next g) .static) .const
      unfold Compiler.classLoop
      split
      · split
        · exact inv.setupError g _
        · simp only
          split
          · exact ih (inv.cvardef P skipped _)
          · exact ih (inv.parseMethod P skipped _ _)
          · exact inv.setupError skipped _
          · exact inv.setupError skipped _
      · exact g

theorem classDeclaration (g : Q pp) : Q (classDeclaration P pp) := by
  unfold Compiler.classDeclaration
  split
  · exact inv.setupError g _
  · have opened := inv.openConstructor (inv.openConstructor g false) true
    have read := inv.classLoop P P.rounds (inv.next opened)
    simp only
    split
    · exact read
    · split
      · exact inv.setupError read _
      · exact inv.closeConstructor (inv.closeConstructor (inv.next read) _) _

theorem declareClass (g : Q pp) : Q (declareClass P pp) := by
  unfold Compiler.declareClass
  simp only
  split
  · exact inv.setupError (inv.next g) _
  · split
    · split
      · exact inv.setupError (inv.next (inv.next (inv.next g))) _
      · exact inv.classDeclaration P (inv.addClass _ _ _ (inv.next (inv.next (inv.next (inv.next g)))))
    · exact inv.classDeclaration P (inv.addClass _ _ _ (inv.next (inv.next g)))

theorem declareMethod (g : Q pp) (acc : JsAccess) : Q (declareMethod P acc pp) := by
  have skipped := inv.skip (inv.next g) .static
  unfold Compiler.declareMethod
  simp only
  split
  · exact inv.setupError skipped _
  · split
    · exact inv.setupError skipped _
    · rename_i c found
      have there := inv.next (inv.seek _ c (pp.next.skip .static).curmethod skipped)
      split
      · exact inv.setupError there _
      · split
        · exact inv.setupError (inv.next there) _
        · refine inv.compileBody P (inv.argdec P (inv.enterMethod ?_))
          exact inv.addMethod _ _ _ _ (inv.next there)

theorem declaration (g : Q pp) : Q (declaration P pp) := by
  unfold Compiler.declaration
  split
  · exact inv.declareClass P g
  · split
    · exact inv.declareMethod P g _
    · exact inv.comp _ _ g

theorem fileLoop (n : Nat) (g : Q pp) : Q (fileLoop P n pp) := by
  induction n generalizing pp with
  | zero => exact inv.comp _ _ g
  | succ n ih =>
      unfold Compiler.fileLoop
      split
      · split
        · exact inv.comp _ _ g
        · exact ih (inv.declaration P g)
      · exact g

/-- What holds of the program at the start holds of it when a text has been parsed. -/
theorem parseChar {intrinsics : Intrinsics} {text : List Char}
    (start : Q (programConstruct (.start text) intrinsics)) : Q (parseChar intrinsics text) :=
  inv.fileLoop _ _ (inv.next start)

end ProgramInvariant

/-- What was in the heap is there, and has evolved. -/
theorem grown_invariant (h : List JsClass) : ProgramInvariant fun pp => Grown h pp.heap where
  comp _ _ g := g
  seek _ _ _ g := g
  method _ _ keeps g := g.trans (.modify _ _ fun a _ => .modify _ a _ keeps)
  addMethod _ _ _ _ g := g.trans (.modify _ _ fun a _ => .addMethod _ a rfl)
  addField pp name isstatic g := by
    unfold Program.defineField
    split
    case h_1 => exact g
    case h_2 jsp found =>
        refine g.trans (.modify _ _ fun a here => ?_)
        rw [found] at here
        cases here
        exact .addField _ jsp name isstatic
  addClass _ _ _ g := g.trans (.append _ _ _)

/-- Parsing a text against the classes of earlier programs. -/
theorem parseChar_grows (intrinsics : Intrinsics) (text : List Char) :
    Grown intrinsics.heap (parseChar intrinsics text).heap :=
  (grown_invariant intrinsics.heap).parseChar (.refl _)

/-- The classes of a program are the ones that come behind those it is parsed against. -/
def NewClasses (start : Nat) (pp : Program) : Prop :=
  pp.lclasses = List.range' start pp.lclasses.length ∧
    pp.heap.length = start + pp.lclasses.length

theorem newClasses_invariant (start : Nat) : ProgramInvariant (NewClasses start) where
  comp _ _ new := new
  seek _ _ _ new := new
  method _ _ _ new := ⟨new.1, (List.length_modify ..).trans new.2⟩
  addMethod _ _ _ _ new := ⟨new.1, (List.length_modify ..).trans new.2⟩
  addField pp name isstatic new := by
    unfold Program.defineField
    split
    case h_1 => exact new
    case h_2 => exact ⟨new.1, (List.length_modify ..).trans new.2⟩
  addClass pp name basename new := by
    obtain ⟨classes, length⟩ := new
    constructor
    · show pp.lclasses ++ [pp.heap.length] = List.range' start (pp.lclasses ++ [_]).length
      rw [List.length_append, List.length_singleton, List.range'_concat, ← classes, length,
        Nat.one_mul]
    · show (pp.heap ++ [_]).length = start + (pp.lclasses ++ [_]).length
      simp only [List.length_append, List.length_singleton, length]
      omega

theorem parseChar_newClasses (intrinsics : Intrinsics) (text : List Char) :
    NewClasses intrinsics.heap.length (parseChar intrinsics text) :=
  (newClasses_invariant intrinsics.heap.length).parseChar ⟨rfl, rfl⟩

end Jspp.Compiler
