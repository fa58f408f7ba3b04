/-
# Compiler.Returned -- the flags of the methods of a program

A method is defined without the flag, its body is the only thing that sets it, and no other
method is compiled again.  So in an accepted program the flag of a method is what its own
returns made of it.

* `JsMethod.Returned`, `AllReturned`.
* `parseChar_returned`.
-/
import Jspp.Compiler.Accepts
import Jspp.Compiler.Counts

namespace Jspp.Compiler

open Jspp.Kernel

set_option autoImplicit false

/-! ## The methods of a program -/

theorem methodbody_counts {P : Parsers} (count : ParsersCount P) (g : Scope) {s s' : Comp}
    {n : Nat} {body : Stmt} (run : methodbody P g s = (s', n, body)) (ok : s'.ok) :
    retRun s.hasretval body.returns = some s'.hasretval := by
  simp -iota only [methodbody] at run
  split at run
  · cases run
    exact absurd ok (Comp.not_ok_setupError _ _ (by decide))
  · simpa using blockRest_counts count g run ok

/-- The flag of a compiled method is what its returns made of it. -/
def JsMethod.Returned (mp : JsMethod) : Prop :=
  ∀ n s, mp.body = .method n s → retRun false s.returns = some mp.hasretval

/-- The method has the body and the flag of one of these. -/
def JsMethod.LikeOneOf (heap : List JsClass) (mp : JsMethod) : Prop :=
  ∃ cls ∈ heap, ∃ m ∈ cls.methods, mp.body = m.body ∧ mp.hasretval = m.hasretval

/-- Every method is returned, or it was there before. -/
def AllReturned (old heap : List JsClass) : Prop :=
  ∀ cls ∈ heap, ∀ mp ∈ cls.methods, mp.Returned ∨ mp.LikeOneOf old

theorem returned_of_body {old : List JsClass} {mp mp' : JsMethod} (body : mp'.body = mp.body)
    (flag : mp'.hasretval = mp.hasretval) (h : mp.Returned ∨ mp.LikeOneOf old) :
    mp'.Returned ∨ mp'.LikeOneOf old := by
  rcases h with returned | ⟨cls, mem, m, mem', same, same'⟩
  · refine .inl fun n s compiled => ?_
    rw [flag]
    exact returned n s (body ▸ compiled)
  · exact .inr ⟨cls, mem, m, mem', body.trans same, flag.trans same'⟩

theorem returned_of_empty {old : List JsClass} {mp : JsMethod}
    (empty : ∀ n s, mp.body ≠ .method n s) : mp.Returned ∨ mp.LikeOneOf old :=
  .inl fun n s compiled => absurd compiled (empty n s)

section

variable {old : List JsClass} {pp : Program}

theorem AllReturned.modify {heap : List JsClass} (h : AllReturned old heap) (c : Nat)
    {f : JsClass → JsClass}
    (keeps : ∀ cls, heap[c]? = some cls → (∀ mp ∈ cls.methods, mp.Returned ∨ mp.LikeOneOf old) →
      ∀ mp ∈ (f cls).methods, mp.Returned ∨ mp.LikeOneOf old) :
    AllReturned old (heap.modify c f) := by
  intro cls mem
  obtain ⟨d, found⟩ := List.mem_iff_getElem?.mp mem
  rw [List.getElem?_modify] at found
  obtain ⟨a, there, rfl⟩ := Option.map_eq_some_iff.mp found
  have before := h a (List.mem_of_getElem? there)
  split
  · rename_i same
    subst same
    exact keeps a there before
  · exact before

namespace Program

theorem method?_updateMethod (f : JsMethod → JsMethod) :
    (pp.updateMethod f).method? = pp.method?.map f := by
  unfold method? updateMethod updateClass
  rw [List.getElem?_modify_eq]
  cases pp.heap[pp.curclass]? with
  | none => rfl
  | some cls =>
      show (cls.methods.modify pp.curmethod f)[pp.curmethod]? = _
      rw [List.getElem?_modify_eq]
      rfl

theorem updateMethod_returned (h : AllReturned old pp.heap) {f : JsMethod → JsMethod}
    (keeps : ∀ mp, pp.method? = some mp → mp.Returned ∨ mp.LikeOneOf old →
      (f mp).Returned ∨ (f mp).LikeOneOf old) : AllReturned old (pp.updateMethod f).heap := by
  refine h.modify _ fun cls found before mp mem => ?_
  obtain ⟨i, at_i⟩ := List.mem_iff_getElem?.mp mem
  rw [List.getElem?_modify] at at_i
  obtain ⟨m, at_m, rfl⟩ := Option.map_eq_some_iff.mp at_i
  have known := before m (List.mem_of_getElem? at_m)
  split
  · rename_i same
    subst same
    refine keeps m ?_ known
    rw [method?, found]
    exact at_m
  · exact known

/-- A function that leaves the flag alone. -/
theorem inMethod_returned {α : Type} (h : AllReturned old pp.heap) {f : Scope → Comp → Comp × α}
    (keeps : ∀ g s, (f g s).1.hasretval = s.hasretval) :
    AllReturned old (pp.inMethod f).1.heap := by
  have same : AllReturned old (pp.setComp (f pp.scope { pp.comp with
    code := ((pp.method?).map JsMethod.code).getD []
    hasretval := ((pp.method?).map JsMethod.hasretval).getD false }).1).heap := h
  refine updateMethod_returned same fun mp found known => ?_
  have current : pp.method? = some mp := found
  refine @returned_of_body old mp _ rfl ((keeps _ _).trans ?_) known
  rw [current]
  rfl

theorem defineMethod_returned (h : AllReturned old pp.heap) (name : List Char) (isstatic : Bool)
    (acc : JsAccess) : AllReturned old (pp.defineMethod name isstatic acc).heap := by
  refine h.modify _ fun cls _ before mp mem => ?_
  rcases List.mem_append.mp mem with there | new
  · exact before mp there
  · rw [List.mem_singleton.mp new]
    exact returned_of_empty nofun

theorem defineField_returned (h : AllReturned old pp.heap) (name : List Char) (isstatic : Bool) :
    AllReturned old (pp.defineField name isstatic).1.heap := by
  unfold defineField
  split
  case h_1 => exact h
  case h_2 jsp found =>
      refine h.modify _ fun cls here before => ?_
      rw [found] at here
      cases here
      unfold jsclassAddField
      split <;> exact before

theorem skip_returned (h : AllReturned old pp.heap) (t : Token) :
    AllReturned old (pp.skip t).heap := by
  unfold skip
  split <;> exact h

/-- The method at hand was just defined. -/
def Fresh (pp : Program) : Prop :=
  ∀ mp, pp.method? = some mp → mp.hasretval = false ∧ mp.body = .empty

theorem Fresh.updateMethod (h : pp.Fresh) {f : JsMethod → JsMethod}
    (flag : ∀ mp, (f mp).hasretval = mp.hasretval) (body : ∀ mp, (f mp).body = mp.body) :
    (pp.updateMethod f).Fresh := by
  intro mp found
  rw [method?_updateMethod] at found
  obtain ⟨m, before, rfl⟩ := Option.map_eq_some_iff.mp found
  rw [flag, body]
  exact h m before

theorem defineMethod_fresh (name : List Char) (isstatic : Bool) (acc : JsAccess) :
    (pp.defineMethod name isstatic acc).Fresh := by
  intro mp found
  unfold method? defineMethod updateClass at found
  simp only [List.getElem?_modify_eq] at found
  cases there : pp.heap[pp.curclass]? with
  | none =>
      rw [there] at found
      cases found
  | some cls =>
      rw [there] at found
      have last : (cls.methods ++ [jsmethodConstruct pp.curclass name isstatic acc])[
          cls.methods.length]? = some mp := found
      rw [List.getElem?_concat_length] at last
      cases last
      exact ⟨rfl, rfl⟩

end Program

theorem enterMethod_returned (h : AllReturned old pp.heap) :
    AllReturned old (enterMethod pp).heap :=
  Program.inMethod_returned h fun _ s => by simp

theorem enterMethod_fresh (h : pp.Fresh) : (enterMethod pp).Fresh := by
  intro mp found
  have same : (enterMethod pp).method? = pp.method?.map _ := Program.method?_updateMethod _
  rw [same] at found
  obtain ⟨m, before, rfl⟩ := Option.map_eq_some_iff.mp found
  obtain ⟨flag, body⟩ := h m before
  refine ⟨?_, body⟩
  simp [before, flag]

theorem argLoop_returned (n : Nat) (h : AllReturned old pp.heap) (fresh : pp.Fresh) :
    AllReturned old (argLoop n pp).heap ∧ (argLoop n pp).Fresh := by
  induction n generalizing pp with
  | zero => exact ⟨h, fresh⟩
  | succ n ih =>
      have skipped : (pp.skip .ampr).Fresh := by
        unfold Program.skip
        split <;> exact fresh
      have declared : ∀ name isptr, AllReturned old ((pp.skip .ampr).updateMethod fun mp =>
          jsmethodAddArg mp name isptr).heap :=
        fun _ _ => Program.updateMethod_returned (Program.skip_returned h .ampr)
          fun _ _ known => returned_of_body rfl rfl known
      have still : ∀ name isptr, ((pp.skip .ampr).updateMethod fun mp =>
          jsmethodAddArg mp name isptr).Fresh :=
        fun _ _ => skipped.updateMethod (fun _ => rfl) fun _ => rfl
      unfold argLoop
      split
      · simp only
        split
        · exact ih (declared _ _) (still _ _)
        · split
          · exact ⟨declared _ _, still _ _⟩
          · exact ih (declared _ _) (still _ _)
      · split
        · exact ⟨h, fresh⟩
        · exact ⟨h, fresh⟩

theorem thisArg_returned (h : AllReturned old pp.heap) (fresh : pp.Fresh) (isstatic : Bool) :
    AllReturned old (thisArg isstatic pp).heap ∧ (thisArg isstatic pp).Fresh := by
  unfold thisArg
  split
  · exact ⟨h, fresh⟩
  · exact ⟨Program.updateMethod_returned h fun _ _ known => returned_of_body rfl rfl known,
      fresh.updateMethod (fun _ => rfl) fun _ => rfl⟩

variable {P : Parsers} (count : ParsersCount P)

theorem argdec_returned (h : AllReturned old pp.heap) (fresh : pp.Fresh) :
    AllReturned old (argdec P pp).heap ∧ (argdec P pp).Fresh := by
  unfold argdec
  simp only
  split
  · exact ⟨h, fresh⟩
  · exact argLoop_returned _ h fresh

include count

/-- The body of a method that was just defined, when it is accepted. -/
theorem compileBody_returned (h : AllReturned old pp.heap) (fresh : pp.Fresh)
    (ok : (compileBody P pp).ok) : AllReturned old (compileBody P pp).heap := by
  generalize run : methodbody P pp.scope { pp.comp with
    code := ((pp.method?).map JsMethod.code).getD []
    hasretval := ((pp.method?).map JsMethod.hasretval).getD false } = r
  obtain ⟨s, n, body⟩ := r
  have compiled : compileBody P pp = ((pp.setComp s).updateMethod fun mp =>
      { mp with code := s.code, hasretval := s.hasretval }).updateMethod fun mp =>
        { mp with body := .method n body } := by
    unfold compileBody Program.inMethod
    simp only [run]
  rw [compiled] at ok ⊢
  have counted := methodbody_counts count _ run ok
  have written : AllReturned old ((pp.setComp s).updateMethod fun mp =>
      { mp with code := s.code, hasretval := s.hasretval }).heap := by
    have same : AllReturned old (pp.setComp s).heap := h
    refine Program.updateMethod_returned same fun mp found _ => ?_
    refine returned_of_empty fun n s => ?_
    rw [(fresh mp found).2]
    exact Body.noConfusion
  refine Program.updateMethod_returned written fun mp found _ => .inl fun n' body' same => ?_
  rw [Program.method?_updateMethod] at found
  obtain ⟨m, before, rfl⟩ := Option.map_eq_some_iff.mp found
  cases same
  have current : pp.method? = some m := before
  have start : (((pp.method?).map JsMethod.hasretval).getD false) = false := by
    rw [current]
    exact (fresh m before).1
  rw [← counted]
  exact congrArg (retRun · body.returns) start.symm

theorem method_returned (h : AllReturned old pp.heap) (acc : JsAccess) (isstatic : Bool)
    (ok : (method P acc isstatic pp).ok) : AllReturned old (method P acc isstatic pp).heap := by
  unfold method at ok ⊢
  split
  · exact h
  · rename_i named
    rw [if_neg named] at ok
    have entered := enterMethod_returned
      (Program.defineMethod_returned h pp.comp.lexeme isstatic acc)
    have fresh := enterMethod_fresh
      (pp.defineMethod_fresh pp.comp.lexeme isstatic acc)
    obtain ⟨this, fresh⟩ := thisArg_returned entered fresh isstatic
    obtain ⟨declared, fresh⟩ := argdec_returned (P := P) this fresh
    simp only at ok ⊢
    split
    · exact declared
    · rename_i clean
      rw [if_neg clean] at ok
      exact compileBody_returned count declared fresh ok

theorem initField_returned (h : AllReturned old pp.heap) (vdp : Vardef) :
    AllReturned old (initField P vdp pp).heap := by
  have ran : AllReturned old (pp.inMethod (fieldInit P vdp)).1.heap := by
    refine Program.inMethod_returned h fun g s => ?_
    generalize run : fieldInit P vdp g s = r
    obtain ⟨s', init⟩ := r
    simp -iota only [fieldInit] at run
    split at run
    · split at run
      rename_i s₁ e read
      have first := count.keep.expr g read
      cases run
      simpa using first
    · cases run
      rfl
  unfold initField
  split
  case h_1 eq =>
      rw [eq] at ran
      exact ran
  case h_2 eq =>
      rw [eq] at ran
      refine Program.updateMethod_returned ran fun mp _ _ => returned_of_empty fun n s => ?_
      unfold Body.addInit
      split <;> exact Body.noConfusion

theorem cvardef_returned (h : AllReturned old pp.heap) (isstatic : Bool) :
    AllReturned old (cvardef P isstatic pp).heap := by
  unfold cvardef
  simp only
  split
  · exact h
  · have here : AllReturned old pp.next.heap := h
    have defined := Program.defineField_returned here pp.next.comp.lexeme isstatic
    have found : ∀ b, AllReturned old (Program.atConstructor b
        (Program.next (pp.next.defineField pp.next.comp.lexeme isstatic).1)).heap :=
      fun _ => defined
    split
    · exact initField_returned count (found _) _
    · exact initField_returned count (found _) _

theorem classLoop_returned (n : Nat) (h : AllReturned old pp.heap) {pp' : Program}
    (run : classLoop P n pp = pp') (ok : pp'.ok) : AllReturned old pp'.heap := by
  induction n generalizing pp with
  | zero =>
      cases run
      exact h
  | succ n ih =>
      have here : AllReturned old pp.next.heap := h
      have skipped := Program.skip_returned (Program.skip_returned here .static) .const
      unfold classLoop at run
      split at run
      · split at run
        · cases run
          exact h
        · simp only at run
          split at run
          · exact ih (cvardef_returned count skipped _) run
          · refine ih (method_returned count skipped _ _ ?_) run
            exact (classLoop_opens count.good n (by rwa [run])).1
          · cases run
            exact skipped
          · cases run
            exact skipped
      · cases run
        exact h

omit count in
theorem openConstructor_returned (h : AllReturned old pp.heap) (isstatic : Bool) :
    AllReturned old (openConstructor isstatic pp).heap := by
  have opened := Program.updateMethod_returned
    (Program.defineMethod_returned h "@@constructor".toList isstatic .accPrivate)
    (f := fun mp => { mp with body := .inits .nil }) fun _ _ _ => returned_of_empty nofun
  unfold openConstructor
  simp only
  split
  · exact opened
  · exact Program.updateMethod_returned opened fun _ _ known => returned_of_body rfl rfl known

omit count in
theorem closeConstructor_returned (h : AllReturned old pp.heap) (m : Nat) :
    AllReturned old (closeConstructor m pp).heap := by
  have here : AllReturned old { pp with curmethod := m }.heap := h
  exact Program.inMethod_returned here fun _ s => by simp

theorem classDeclaration_returned (h : AllReturned old pp.heap) {pp' : Program}
    (run : classDeclaration P pp = pp') (ok : pp'.ok) : AllReturned old pp'.heap := by
  unfold classDeclaration at run
  split at run
  · cases run
    exact h
  · have opened := openConstructor_returned (openConstructor_returned h false) true
    simp only at run
    split at run
    · rename_i err
      cases run
      exact absurd ok.1 err
    · split at run
      · cases run
        exact absurd ok (Program.not_ok_setupError _ (by decide))
      · cases run
        have inside : AllReturned old
            (openConstructor true (openConstructor false pp)).next.heap := opened
        have read : AllReturned old
            (classbody P (openConstructor true (openConstructor false pp))).heap :=
          classLoop_returned count P.rounds inside rfl ok
        have closed : AllReturned old
            (classbody P (openConstructor true (openConstructor false pp))).next.heap := read
        exact closeConstructor_returned (closeConstructor_returned closed _) _

theorem declareClass_returned (h : AllReturned old pp.heap) {pp' : Program}
    (run : declareClass P pp = pp') (ok : pp'.ok) : AllReturned old pp'.heap := by
  have defined : ∀ (q : Program) name basename, AllReturned old q.heap →
      AllReturned old (q.defineClass name basename).heap := by
    intro q name basename h cls mem
    rcases List.mem_append.mp mem with there | new
    · exact h cls there
    · rw [List.mem_singleton.mp new]
      exact fun mp mem => absurd mem List.not_mem_nil
  unfold declareClass at run
  simp only at run
  split at run
  · cases run
    exact h
  · split at run
    · split at run
      · cases run
        exact h
      · exact classDeclaration_returned count (defined _ _ _ (by exact h)) run ok
    · exact classDeclaration_returned count (defined _ _ _ (by exact h)) run ok

theorem declareMethod_returned (h : AllReturned old pp.heap) {acc : JsAccess} {pp' : Program}
    (run : declareMethod P acc pp = pp') (ok : pp'.ok) : AllReturned old pp'.heap := by
  have here : AllReturned old pp.next.heap := h
  have skipped := Program.skip_returned here .static
  unfold declareMethod at run
  simp only at run
  split at run
  · cases run
    exact skipped
  · split at run
    · cases run
      exact skipped
    · split at run
      · cases run
        exact skipped
      · split at run
        · cases run
          exact skipped
        · rename_i c found scope method
          have there : AllReturned old (Program.next (Program.next
              { pp.next.skip .static with curclass := c })).heap := skipped
          obtain ⟨declared, fresh⟩ := argdec_returned (P := P)
            (enterMethod_returned (Program.defineMethod_returned there _ _ _))
            (enterMethod_fresh (Program.defineMethod_fresh _ _ _))
          cases run
          exact compileBody_returned count declared fresh ok

theorem declaration_returned (h : AllReturned old pp.heap) {pp' : Program}
    (run : declaration P pp = pp') (ok : pp'.ok) : AllReturned old pp'.heap := by
  unfold declaration at run
  split at run
  · exact declareClass_returned count h run ok
  · split at run
    · exact declareMethod_returned count h run ok
    · cases run
      exact h

theorem fileLoop_returned (n : Nat) (h : AllReturned old pp.heap) {pp' : Program}
    (run : fileLoop P n pp = pp') (ok : pp'.ok) : AllReturned old pp'.heap := by
  induction n generalizing pp with
  | zero =>
      cases run
      exact h
  | succ n ih =>
      unfold fileLoop at run
      split at run
      · split at run
        · cases run
          exact h
        · refine ih (declaration_returned count h rfl ?_) run
          have settled : _ ∧ Settles [] (declaration P pp) (fileLoop P n (declaration P pp)) :=
            fileLoop_settles count.good n (by rwa [run])
          exact settled.1
      · cases run
        exact h

end

/-- In an accepted program the flag of every compiled method is what its returns made of it. -/
theorem parseChar_returned {intrinsics : Intrinsics} {text : List Char}
    (ok : (parseChar intrinsics text).accepted) :
    AllReturned intrinsics.heap (parseChar intrinsics text).heap := by
  refine fileLoop_returned (parsers_count _) _ ?_ rfl ok
  exact fun cls mem mp mem' => .inr ⟨cls, mem, mp, mem', rfl, rfl⟩

end Jspp.Compiler
