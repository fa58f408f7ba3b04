/-
# Kernel.Retvals -- return statements and return values

A method that returns a value somewhere is called for its value, and a bare return leaves
none.  The parser refuses a bare return behind a return with a value, wherever the two
stand, but keeps one in front of it.

* `Stmt.code_returns`: the return instructions of a statement are its returns.
* `Prepared.returned`: the flags of the methods of a session.
* `Stmt.BareFirst`, `returns_iff`: the methods whose returns agree.
-/
import Jspp.Compiler.Returned
import Jspp.Compiler.Wired
import Jspp.Kernel.Prepare
import Jspp.Kernel.Methods

namespace Jspp.Compiler

set_option autoImplicit false

/-! ## Return instructions -/

/-- The instruction ends the method: with a value, or without. -/
def Instr.returns : Instr → Option Bool
  | .emit0 .ret => some true
  | .emit0 .vret => some false
  | _ => none

theorem returns_of_straight {is : List Instr} (straight : StraightAll is) :
    is.filterMap Instr.returns = [] := by
  refine List.filterMap_eq_nil_iff.mpr fun i mem => ?_
  have falls := straight i mem
  unfold Instr.returns
  split
  · cases falls
  · cases falls
  · rfl

@[simp] theorem Expr.code_returns (e : Expr) : e.code.filterMap Instr.returns = [] :=
  returns_of_straight (Expr.straight e)

@[simp] theorem optCode_returns (o : Option Expr) : (optCode o).filterMap Instr.returns = [] := by
  cases o with
  | none => rfl
  | some e => exact e.code_returns

@[simp] theorem Instr.returns_im (op : OpCode) (arg : Int) : (Instr.im op arg).returns = none := rfl

@[simp] theorem Instr.returns_jmp (target : Option Int) : (Instr.jmp target).returns = none := rfl

@[simp] theorem Instr.returns_emit1 (op : OpCode) (mode : ArgSource) (arg : Option Int) :
    (Instr.emit1 op mode arg).returns = none := rfl

@[simp] theorem Instr.returns_emit0 (op : OpCode) :
    (Instr.emit0 op).returns =
      if op = .ret then some true else if op = .vret then some false else none := by
  cases op <;> rfl

@[simp] theorem postCode_returns (eval b : Nat) (post : Option Expr) :
    (postCode eval b post).filterMap Instr.returns = [] := by
  cases post with
  | none => rfl
  | some e =>
      simp only [postCode, List.filterMap_cons, List.filterMap_append, Instr.returns_jmp,
        Expr.code_returns, List.filterMap_nil, List.append_nil]

mutual

/-- The return instructions of a statement are its returns, in the same order. -/
theorem Stmt.code_returns (b : Nat) (s : Stmt) :
    (s.code b).filterMap Instr.returns = s.returns := by
  cases s with
  | skip | decl | line => rfl
  | expr e => exact e.code_returns
  | ret e => simp [Stmt.code, Stmt.returns]
  | vret | brk | cont => rfl
  | throw e => simp [Stmt.code, Stmt.returns]
  | seq s t => simp [Stmt.code, Stmt.returns, Stmt.code_returns _ s, Stmt.code_returns _ t]
  | block n s => simp [Stmt.code, List.filterMap_cons, Stmt.returns, Stmt.code_returns _ s]
  | ite c s t =>
      simp [Stmt.code, List.filterMap_cons, Stmt.returns, Stmt.code_returns _ s,
        Stmt.code_returns _ t]
  | «while» c s => simp [Stmt.code, List.filterMap_cons, Stmt.returns, Stmt.code_returns _ s]
  | «for» cond post s =>
      simp [Stmt.code, List.filterMap_cons, Stmt.returns, Stmt.code_returns _ s]
  | switch e n cases =>
      simp [Stmt.code, List.filterMap_cons, Stmt.returns, Cases.code_returns _ cases]
  | «try» s v n handler fin =>
      simp [Stmt.code, List.filterMap_cons, Stmt.returns, Stmt.code_returns _ s,
        Stmt.code_returns _ handler, Stmt.code_returns _ fin]

theorem Cases.code_returns (b : Nat) (cs : Cases) :
    (cs.code b).filterMap Instr.returns = cs.returns := by
  cases cs with
  | nil => rfl
  | case v s rest =>
      simp [Cases.code, List.filterMap_cons, Cases.returns, Stmt.code_returns _ s,
        Cases.code_returns _ rest]
  | default s rest =>
      simp [Cases.code, List.filterMap_cons, Cases.returns, Stmt.code_returns _ s,
        Cases.code_returns _ rest]

end

/-! ## Bare returns in front -/

/-- A bare return stands before one with a value. -/
def Stmt.BareFirst (s : Stmt) : Prop :=
  ∃ rs more, s.returns = rs ++ more ∧ false ∈ rs ∧ true ∈ more

theorem retRun_true {rs : List Bool} {b : Bool} (run : retRun true rs = some b) :
    false ∉ rs := by
  induction rs with
  | nil => exact List.not_mem_nil
  | cons r rs ih =>
      cases r with
      | true =>
          intro mem
          rcases List.mem_cons.mp mem with no | mem
          · cases no
          · exact ih run mem
      | false => cases run

/-- What is not refused has its bare returns in front. -/
theorem bare_first {rs : List Bool} {b : Bool} (run : retRun false rs = some b)
    (value : true ∈ rs) (bare : false ∈ rs) :
    ∃ front more, rs = front ++ more ∧ false ∈ front ∧ true ∈ more := by
  cases rs with
  | nil => cases value
  | cons r rs =>
      cases r with
      | true =>
          rcases List.mem_cons.mp bare with no | mem
          · cases no
          · exact absurd mem (retRun_true run)
      | false =>
          rcases List.mem_cons.mp value with no | mem
          · cases no
          · exact ⟨[false], rs, rfl, List.mem_singleton.mpr rfl, mem⟩

theorem retRun_flag {rs : List Bool} {a : Bool} (run : retRun a rs = some true) :
    a = true ∨ true ∈ rs := by
  induction rs generalizing a with
  | nil =>
      cases run
      exact .inl rfl
  | cons r rs ih =>
      cases r with
      | true => exact .inr List.mem_cons_self
      | false =>
          cases a with
          | true => exact .inl rfl
          | false =>
              rcases ih run with no | mem
              · cases no
              · exact .inr (List.mem_cons_of_mem _ mem)

end Jspp.Compiler

namespace Jspp.Kernel

open Jspp.Compiler

set_option autoImplicit false

/-! ## The methods of a session -/

theorem methods_modify (classes : List JsClass) (c : Nat) {f : JsClass → JsClass}
    (keeps : ∀ jsp, (f jsp).methods = jsp.methods) :
    (classes.modify c f).map JsClass.methods = classes.map JsClass.methods := by
  refine List.ext_getElem? fun i => ?_
  rw [List.getElem?_map, List.getElem?_map, List.getElem?_modify]
  cases classes[i]? with
  | none => rfl
  | some jsp =>
      show some (if c = i then f jsp else jsp).methods = some jsp.methods
      split
      · rw [keeps jsp]
      · rfl

theorem methods_addVtab (c : Nat) (base : Option (Table JsMethod)) (classes : List JsClass) :
    (addVtab c base classes).map JsClass.methods = classes.map JsClass.methods :=
  methods_modify _ _ fun _ => rfl

theorem methods_initVtab {n c : Nat} {classes classes' : List JsClass}
    (init : jsclassInitVtab n c classes = some classes') :
    classes'.map JsClass.methods = classes.map JsClass.methods := by
  induction n generalizing c classes classes' with
  | zero => cases init
  | succ n ih =>
      obtain ⟨jsp, found, init⟩ := Option.bind_eq_some_iff.mp init
      split at init
      case h_1 =>
          cases init
          exact methods_addVtab _ _ _
      case h_2 b _ =>
          obtain ⟨base, foundBase, init⟩ := Option.bind_eq_some_iff.mp init
          split at init
          case h_1 vtable ready =>
              cases init
              exact methods_addVtab _ _ _
          case h_2 =>
              obtain ⟨mid, initBase, init⟩ := Option.bind_eq_some_iff.mp init
              obtain ⟨base', foundBase', rfl⟩ := Option.map_eq_some_iff.mp init
              rw [methods_addVtab, ih initBase]

theorem methods_linkBase {pp : Program} {table : Table Nat} {c : Nat}
    {classes classes' : List JsClass}
    (linked : linkBase pp table c classes = some (some classes')) :
    classes'.map JsClass.methods = classes.map JsClass.methods := by
  obtain ⟨jsp, found, linked⟩ := Option.bind_eq_some_iff.mp linked
  split at linked
  · cases linked
    rfl
  · split at linked
    case h_1 => cases linked
    case h_2 b _ =>
        obtain ⟨mid, init, eq⟩ := Option.map_eq_some_iff.mp linked
        cases eq
        rw [methods_initVtab init]
        exact methods_modify _ _ fun _ => rfl

/-- Every method of these lists is returned. -/
def ReturnedIn (classes : List JsClass) : Prop :=
  ∀ mps ∈ classes.map JsClass.methods, ∀ mp ∈ mps, mp.Returned

theorem returnedIn_iff {classes : List JsClass} :
    ReturnedIn classes ↔ ∀ jsp ∈ classes, ∀ mp ∈ jsp.methods, mp.Returned :=
  List.forall_mem_map

theorem returned_invariant : ClassInvariant ReturnedIn where
  natives := by
    intro classes natives
    refine returnedIn_iff.mpr fun jsp mem mp method n s compiled => ?_
    rw [((natives jsp mem).codes mp method).2] at compiled
    cases compiled
  parse := by
    intro intrinsics text accepted before
    refine returnedIn_iff.mpr fun jsp mem mp method => ?_
    rcases parseChar_returned accepted jsp mem mp method with
      returned | ⟨cls, there, m, old, body, flag⟩
    · exact returned
    · intro n s compiled
      rw [flag]
      exact returnedIn_iff.mp before cls there m old n s (body ▸ compiled)
  link := by
    intro pp table c classes classes' linked before
    unfold ReturnedIn
    rw [methods_linkBase linked]
    exact before
  consts := by
    intro cdata c classes before
    have same : (setConstdata cdata c classes).map JsClass.methods =
        classes.map JsClass.methods := methods_modify _ _ fun _ => rfl
    unfold ReturnedIn
    rw [same]
    exact before

theorem Prepared.returned {host : Host} {s : Session} (prepared : Prepared host s) {jsp : JsClass}
    (mem : jsp ∈ s.classes) {mp : JsMethod} (method : mp ∈ jsp.methods) : mp.Returned :=
  returnedIn_iff.mp (prepared.classes returned_invariant) jsp mem mp method

/-! ## Return values -/

/-- Executed on a stack with a value, the instruction makes that the return value. -/
def SetsRetval (i : Instr) : Prop :=
  ∀ (env : Env) (a a' : Act) (v : Variant) (rest : List Variant), a.stack = v :: rest →
    a.exec env i = some a' → a'.frame.retval = a.store.deref v

theorem leaveBlock_retval {a a' : Act} (h : a.leaveBlock = some a') :
    a'.frame.retval = a.frame.retval := by
  unfold Act.leaveBlock at h
  split at h
  · cases h
    rfl
  · split at h
    · cases h
      rfl
    · cases h

theorem ret_setsRetval : SetsRetval (.emit0 .ret) := by
  intro env a a' v rest top executed
  have ran : a.ret = some a' := executed
  rw [Act.ret, Act.takeRetval, top] at ran
  obtain ⟨b, left, rfl⟩ := Option.map_eq_some_iff.mp ran
  exact leaveBlock_retval left

/-- A bare return leaves the return value as it was. -/
theorem vret_not_setsRetval : ¬ SetsRetval (.emit0 .vret) := by
  intro sets
  have same := sets ⟨plainHost, [], []⟩
    ⟨⟨0, none, 0, [], .none, .void, 0, 3⟩, 1, [.int 1], objectSession.q.store, 0⟩ _ (.int 1) []
    rfl rfl
  cases same

/-- Every return statement of the body that is executed sets the return value. -/
def AllSetRetval (body : Stmt) : Prop :=
  ∀ i ∈ body.code 3, i.returns.isSome = true → SetsRetval i

theorem allSetRetval_iff {body : Stmt} : AllSetRetval body ↔ false ∉ body.returns := by
  rw [← body.code_returns 3]
  constructor
  · intro all mem
    obtain ⟨i, there, bare⟩ := List.mem_filterMap.mp mem
    have sets := all i there (by rw [bare]; rfl)
    unfold Instr.returns at bare
    split at bare
    · cases bare
    · exact vret_not_setsRetval sets
    · cases bare
  · intro none i mem returns
    obtain ⟨b, value⟩ := Option.isSome_iff_exists.mp returns
    have there := List.mem_filterMap.mpr ⟨i, mem, value⟩
    cases b with
    | false => exact absurd there none
    | true =>
        unfold Instr.returns at value
        split at value
        · exact ret_setsRetval
        · cases value
        · cases value

theorem both_iff_bareFirst {mp : JsMethod} (returned : mp.Returned) {n : Nat} {body : Stmt}
    (compiled : mp.body = .method n body) :
    (true ∈ body.returns ∧ false ∈ body.returns) ↔ body.BareFirst := by
  constructor
  · rintro ⟨value, bare⟩
    exact bare_first (returned n body compiled) value bare
  · rintro ⟨rs, more, split, bare, value⟩
    rw [split]
    exact ⟨List.mem_append_right _ value, List.mem_append_left _ bare⟩

/-- A bare return behind a return with a value is refused.  A method that is not refused has
returns of one kind, and when it returns a value every return statement sets it, exactly
when no bare return stands before one with a value. -/
theorem returns_iff {host : Host} {s : Session} (prepared : Prepared host s) {jsp : JsClass}
    (mem : jsp ∈ s.classes) {mp : JsMethod} (method : mp ∈ jsp.methods) {n : Nat} {body : Stmt}
    (compiled : mp.body = .method n body) :
    (∀ (P : Parsers) (g : Scope) (c : Comp), c.ok → c.next.token = .semi →
      (sreturn P g c).1.errornum = if c.hasretval then YYER_METH_RETURNS_VAL else 0) ∧
    (¬(true ∈ body.returns ∧ false ∈ body.returns) ↔ ¬ body.BareFirst) ∧
    (mp.hasretval = true → (AllSetRetval body ↔ ¬ body.BareFirst)) := by
  have returned := prepared.returned mem method
  have both := both_iff_bareFirst returned compiled
  refine ⟨?_, not_congr both, ?_⟩
  · intro P g c ok semi
    have clean : c.next.errornum = 0 := ok.1
    have lexed : c.next.lex.token = .semi := semi
    unfold sreturn
    simp only [semi, ne_eq, not_true_eq_false, if_false]
    by_cases set : c.hasretval = true
    · have refused : c.next.hasretval = true := set
      rw [if_pos refused, if_pos set, Comp.setupError, errorOf, lexed]
      rfl
    · have kept : ¬ c.next.hasretval = true := set
      rw [if_neg kept, if_neg set]
      exact clean
  · intro flag
    have run := returned n body compiled
    rw [flag] at run
    have value : true ∈ body.returns := by
      rcases retRun_flag run with no | value
      · cases no
      · exact value
    rw [allSetRetval_iff, ← both]
    exact ⟨fun bare both => bare both.2, fun no bare => no ⟨value, bare⟩⟩

/-- A method with a bare return in front of a return with a value. -/
def bareInFront : List Char :=
  "class A { public static main() { if (0) { return; } return 1; } }".toList

/-- A method of the session keeps both kinds. -/
def keepsBoth (s : Session) : Bool :=
  s.classes.any fun jsp => jsp.methods.any fun mp =>
    match mp.body with
    | .method _ body => body.returns.contains true && body.returns.contains false
    | _ => false

theorem returns_broken :
    ∃ s : Session, Prepared plainHost s ∧ ∃ jsp ∈ s.classes, ∃ mp ∈ jsp.methods,
      ∃ n body, mp.body = .method n body ∧ true ∈ body.returns ∧ false ∈ body.returns := by
  have found : (loaded bareInFront).any keepsBoth = true := by
    rw [show bareInFront = _ from String.toList_ofList]
    decide +kernel
  cases eq : loaded bareInFront with
  | none =>
      rw [eq] at found
      cases found
  | some s =>
      rw [eq] at found
      obtain ⟨jsp, mem, inside⟩ := List.any_eq_true.mp found
      obtain ⟨mp, method, both⟩ := List.any_eq_true.mp inside
      refine ⟨s, loaded_prepared eq, jsp, mem, mp, method, ?_⟩
      split at both
      · rename_i n body compiled
        obtain ⟨value, bare⟩ := Bool.and_eq_true_iff.mp both
        exact ⟨n, body, compiled, List.contains_iff_mem.mp value, List.contains_iff_mem.mp bare⟩
      · cases both

/-- A method of the session returns a value. -/
def returnsOne (s : Session) : Bool :=
  s.classes.any fun jsp => jsp.methods.any fun mp => mp.hasretval && mp.body matches .method _ _

theorem returns_iff_one :
    ∃ s : Session, Prepared plainHost s ∧ ∃ jsp ∈ s.classes, ∃ mp ∈ jsp.methods,
      ∃ n body, mp.body = .method n body ∧ mp.hasretval = true ∧
        (AllSetRetval body ↔ ¬ body.BareFirst) := by
  have found : (loaded "class A { public static main() { return 1; } }".toList).any returnsOne =
      true := of_text (P := fun t => (loaded t).any returnsOne = true) (by decide +kernel)
  cases eq : loaded "class A { public static main() { return 1; } }".toList with
  | none =>
      rw [eq] at found
      cases found
  | some s =>
      rw [eq] at found
      obtain ⟨jsp, mem, inside⟩ := List.any_eq_true.mp found
      obtain ⟨mp, method, both⟩ := List.any_eq_true.mp inside
      obtain ⟨flag, kind⟩ := Bool.and_eq_true_iff.mp both
      refine ⟨s, loaded_prepared eq, jsp, mem, mp, method, ?_⟩
      split at kind
      · rename_i n body compiled
        exact ⟨n, body, compiled, flag,
          (returns_iff (loaded_prepared eq) mem method compiled).2.2 flag⟩
      · cases kind

end Jspp.Kernel
