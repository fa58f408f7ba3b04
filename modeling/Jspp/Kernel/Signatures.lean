/-
# Kernel.Signatures -- the names by which calls find methods

A method is looked up by a text of its name, its kind and a letter for its result
and for each parameter.  Three places of the parser write it: a call, a method in
its class, and a method outside of it; a call on a plain value has the name of an
instance method changed into that of a static method of `Object`.

* `method_declared`, `declareMethod_declared`: the method that a definition adds.
* `signature_iff`: where the name of a call is that of a definition.
* `callOp_plain`, `plainCall_iff`: the method that a call on a plain value is sent to.
-/
import Jspp.Kernel.Protocol

namespace Jspp.Kernel

open Jspp.Compiler Jspp.Theory

set_option autoImplicit false

/-! ## Definitions -/

/-- Where a method is defined: in the body of its class, or behind it with `Class::name`. -/
inductive Place where
  | inside
  | outside
  deriving DecidableEq

/-- The parameters that `argdec` reads, each with its name and whether it is a reference. -/
def withParams (params : List (List Char × Bool)) (mp : JsMethod) : JsMethod :=
  params.foldl (fun mp param => jsmethodAddArg mp param.1 param.2) mp

/-- What is defined before the parameters: only a method in its class gets `this`. -/
def undeclared (place : Place) (c : Nat) (name : List Char) (isstatic : Bool) (acc : JsAccess) :
    JsMethod :=
  if place = .inside ∧ isstatic = false then
    jsmethodAddArg (jsmethodConstruct c name isstatic acc) "this".toList false
  else jsmethodConstruct c name isstatic acc

/-- The method of a definition, before its body is compiled. -/
def declared (place : Place) (c : Nat) (name : List Char) (isstatic : Bool) (acc : JsAccess)
    (params : List (List Char × Bool)) : JsMethod :=
  withParams params (undeclared place c name isstatic acc)

theorem sig_withParams (params : List (List Char × Bool)) (mp : JsMethod) :
    (withParams params mp).sig = mp.sig ++ List.replicate params.length 'v' := by
  induction params generalizing mp with
  | nil => simp [withParams]
  | cons param params ih =>
      have rest := ih (jsmethodAddArg mp param.1 param.2)
      have first : (jsmethodAddArg mp param.1 param.2).sig = mp.sig ++ ['v'] := rfl
      rw [first, List.append_assoc] at rest
      exact rest

theorem sig_static (place : Place) (c : Nat) (name : List Char) (acc : JsAccess)
    (params : List (List Char × Bool)) :
    (declared place c name true acc params).sig =
      name ++ [':', 'S', 'v'] ++ List.replicate params.length 'v' := by
  rw [declared, sig_withParams, undeclared, if_neg (by simp)]
  rfl

theorem sig_inside (c : Nat) (name : List Char) (acc : JsAccess)
    (params : List (List Char × Bool)) :
    (declared .inside c name false acc params).sig =
      name ++ [':', 'I', 'v'] ++ List.replicate (params.length + 1) 'v' := by
  have this : (undeclared .inside c name false acc).sig = name ++ [':', 'I', 'v'] ++ ['v'] := rfl
  rw [declared, sig_withParams, this, List.append_assoc _ ['v']]
  rfl

/-- A method outside its class is not given the parameter `this`. -/
theorem sig_outside (c : Nat) (name : List Char) (acc : JsAccess)
    (params : List (List Char × Bool)) :
    (declared .outside c name false acc params).sig =
      name ++ [':', 'I', 'v'] ++ List.replicate params.length 'v' := by
  rw [declared, sig_withParams, undeclared, if_neg (by simp)]
  rfl

/-! ## What the parser defines -/

section

variable {pp₀ pp : Program} {cls : JsClass} {mp : JsMethod}

theorem compiling_skip (h : Compiling pp₀ pp cls mp) (t : Token) :
    Compiling pp₀ (pp.skip t) cls mp := by
  unfold Program.skip
  split
  · exact h.setComp _
  · exact h

theorem compiling_next (h : Compiling pp₀ pp cls mp) : Compiling pp₀ pp.next cls mp :=
  h.setComp _

theorem compiling_error (h : Compiling pp₀ pp cls mp) (e : Int) :
    Compiling pp₀ (pp.setupError e) cls mp :=
  h.setComp _

/-- `argLoop` adds the parameters it reads, and nothing else. -/
theorem argLoop_params (n : Nat) (h : Compiling pp₀ pp cls mp) :
    ∃ params, Compiling pp₀ (argLoop n pp) cls (withParams params mp) := by
  induction n generalizing pp mp with
  | zero => exact ⟨[], h.setComp _⟩
  | succ n ih =>
      let param := ((pp.skip .ampr).comp.lexeme, decide (pp.token = .ampr))
      have noted := compiling_next
        (((compiling_skip h .ampr).updateMethod fun mp => jsmethodAddArg mp param.1 param.2).setComp
          (symtabNote param.1 param.2 (pp.skip .ampr).comp).2)
      simp only [argLoop]
      split
      · split
        · obtain ⟨params, rest⟩ := ih (compiling_next noted)
          exact ⟨param :: params, rest⟩
        split
        · exact ⟨[param], compiling_error noted _⟩
        · obtain ⟨params, rest⟩ := ih noted
          exact ⟨param :: params, rest⟩
      split
      · exact ⟨[], compiling_error h _⟩
      · exact ⟨[], compiling_next h⟩

theorem argdec_params (P : Parsers) (h : Compiling pp₀ pp cls mp) :
    ∃ params, Compiling pp₀ (argdec P pp) cls (withParams params mp) := by
  simp only [argdec]
  split
  · exact ⟨[], compiling_error (compiling_next h) _⟩
  · exact argLoop_params _ (compiling_next (compiling_next h))

theorem compileBody_sig (P : Parsers) (h : Compiling pp₀ pp cls mp) :
    ∃ mp', Compiling pp₀ (compileBody P pp) cls mp' ∧ mp'.sig = mp.sig := by
  obtain ⟨-, -, body⟩ := h.inMethod (methodbody P) rfl
  exact ⟨_, body.updateMethod _, rfl⟩

theorem enterMethod_sig (h : Compiling pp₀ pp cls mp) :
    ∃ mp', Compiling pp₀ (enterMethod pp) cls mp' ∧ mp'.sig = mp.sig := by
  obtain ⟨-, -, entered⟩ := h.inMethod
    (fun _ s => (symtabEnter (s.pc + 1) (s.emitIm .enter (some 0)), ())) rfl
  exact ⟨_, entered, rfl⟩

/-- Behind the name of a method, its parameters and its body. -/
theorem body_sig (P : Parsers) (h : Compiling pp₀ pp cls mp) :
    ∃ (params : List (List Char × Bool)) (mp' : JsMethod),
      Compiling pp₀ (compileBody P (argdec P pp)) cls mp' ∧
      mp'.sig = mp.sig ++ List.replicate params.length 'v' := by
  obtain ⟨params, read⟩ := argdec_params P h
  obtain ⟨mp', compiled, same⟩ := compileBody_sig P read
  exact ⟨params, mp', compiled, same.trans (sig_withParams params mp)⟩

/-- A method in its class is added with the signature of `declared`. -/
theorem method_declared (P : Parsers) (acc : JsAccess) (isstatic : Bool) (name : pp.token = .id)
    (found : pp.heap[pp.curclass]? = some cls) (ok : (method P acc isstatic pp).errornum = 0) :
    ∃ params mp, Compiling pp (method P acc isstatic pp) cls mp ∧
      mp.sig = (declared .inside pp.curclass pp.comp.lexeme isstatic acc params).sig := by
  obtain ⟨entered, compiling, same⟩ :=
    enterMethod_sig (Compiling.defineMethod found pp.comp.lexeme isstatic acc)
  obtain ⟨mp, this, sig⟩ : ∃ mp, Compiling pp (thisArg isstatic
      (enterMethod (pp.defineMethod pp.comp.lexeme isstatic acc))) cls mp ∧
      mp.sig = (undeclared .inside pp.curclass pp.comp.lexeme isstatic acc).sig := by
    cases isstatic with
    | true => exact ⟨entered, compiling, same⟩
    | false =>
        refine ⟨_, (compiling.updateMethod _).setComp _, ?_⟩
        exact congrArg (· ++ ['v']) same
  have good : (argdec P (thisArg isstatic (enterMethod
      (pp.defineMethod pp.comp.lexeme isstatic acc)))).errornum = 0 := by
    by_contra bad
    simp only [method, if_neg (not_not.mpr name), if_pos bad] at ok
    exact bad ok
  obtain ⟨params, mp', compiled, count⟩ := body_sig P this
  refine ⟨params, mp', ?_, ?_⟩
  · simp only [method, if_neg (not_not.mpr name), if_neg (not_not.mpr good)]
    exact compiled
  · rw [declared, sig_withParams, count, sig]

/-- A method outside its class is added to it with the signature of `declared`. -/
theorem declareMethod_declared (P : Parsers) (acc : JsAccess) (ok : (declareMethod P acc pp).ok) :
    ∃ pp₀ : Program, pp₀.token = .id ∧ ∀ cls, pp₀.heap[pp₀.curclass]? = some cls →
      ∃ params mp, Compiling pp₀ (declareMethod P acc pp) cls mp ∧
        mp.sig = (declared .outside pp₀.curclass pp₀.comp.lexeme
          (decide (pp.next.token = .static)) acc params).sig := by
  have bad (pp : Program) (e : Int) (ne : e ≠ 0) := Program.not_ok_setupError pp ne
  simp only [declareMethod] at ok ⊢
  split at ok
  · exact absurd ok (bad _ _ (by decide))
  rename_i cls
  rw [if_neg cls]
  split at ok
  · exact absurd ok (bad _ _ (by decide))
  rename_i c found
  split at ok
  · exact absurd ok (bad _ _ (by decide))
  rename_i scope
  rw [if_neg scope]
  split at ok
  · exact absurd ok (bad _ _ (by decide))
  rename_i name
  rw [if_neg name]
  refine ⟨_, not_not.mp name, fun cls found => ?_⟩
  obtain ⟨entered, compiling, same⟩ :=
    enterMethod_sig (Compiling.defineMethod found _ (decide (pp.next.token = .static)) acc)
  obtain ⟨params, mp, compiled, count⟩ := body_sig P compiling
  refine ⟨params, mp, compiled, ?_⟩
  rw [declared, sig_withParams, count, same, undeclared, if_neg (by simp)]

end

/-! ## Calls -/

/-- What `callStaticMethod` takes for the signature: the text behind the first dot. -/
def sigPart (fqname : List Char) : List Char :=
  fqname.drop ((fqname.takeWhile (· ≠ '.')).length + 1)

/-- The signature by which a call with `n` arguments looks for its method; the one of a
static call is behind the name of its class `cls`. -/
def calledSig (cls name : List Char) (isstatic : Bool) (n : Nat) : List Char :=
  if isstatic then sigPart (callSig (some cls) name ++ List.replicate n 'v')
  else callSig none name ++ List.replicate n 'v'

theorem takeWhile_class {cls : List Char} (dotless : '.' ∉ cls) (sig : List Char) :
    (cls ++ '.' :: sig).takeWhile (· ≠ '.') = cls := by
  have all : ∀ c ∈ cls, decide (c ≠ '.') = true := by
    intro c mem
    refine decide_eq_true ?_
    rintro rfl
    exact dotless mem
  rw [List.takeWhile_append_of_pos all]
  simp

theorem sigPart_class {cls : List Char} (dotless : '.' ∉ cls) (sig : List Char) :
    sigPart (cls ++ '.' :: sig) = sig := by
  rw [sigPart, takeWhile_class dotless]
  simp

/-- The letters at the end of two signatures are as many, and what is before them is the same. -/
theorem sig_inj {name name' : List Char} {kind kind' : Char} (notV : kind ≠ 'v')
    (notV' : kind' ≠ 'v') {n n' : Nat} :
    name ++ [':', kind, 'v'] ++ List.replicate n 'v' =
        name' ++ [':', kind', 'v'] ++ List.replicate n' 'v' ↔
      name = name' ∧ kind = kind' ∧ n = n' := by
  constructor
  · intro same
    have counted := sigArgs_eq name notV n
    rw [same, sigArgs_eq name' notV'] at counted
    obtain rfl : n' = n := by omega
    have front := List.append_cancel_right same
    obtain ⟨rfl, ends⟩ := List.append_inj' front rfl
    simp only [List.cons.injEq, true_and, and_true] at ends
    exact ⟨rfl, ends, rfl⟩
  · rintro ⟨rfl, rfl, rfl⟩
    rfl

theorem calledSig_static {cls : List Char} (dotless : '.' ∉ cls) (name : List Char) (n : Nat) :
    calledSig cls name true n = name ++ [':', 'S', 'v'] ++ List.replicate n 'v' := by
  have whole : callSig (some cls) name ++ List.replicate n 'v' =
      cls ++ '.' :: (name ++ [':', 'S', 'v'] ++ List.replicate n 'v') := by
    simp [callSig]
  rw [calledSig, if_pos rfl, whole, sigPart_class dotless]

theorem calledSig_inst (cls name : List Char) (n : Nat) :
    calledSig cls name false n = name ++ [':', 'I', 'v'] ++ List.replicate (n + 1) 'v' := by
  rw [calledSig, if_neg Bool.false_ne_true, callSig]
  simp [List.replicate_succ]

/-- A definition is found by exactly the calls that agree with it in name, kind and number of
arguments, if and only if it stands in its class or is static. -/
theorem signature_iff {cls : List Char} (dotless : '.' ∉ cls) (place : Place) (c : Nat)
    (name : List Char) (isstatic : Bool) (acc : JsAccess) (params : List (List Char × Bool)) :
    (∀ name₀ isstatic₀ n, calledSig cls name₀ isstatic₀ n =
        (declared place c name isstatic acc params).sig ↔
      name₀ = name ∧ isstatic₀ = isstatic ∧ n = params.length) ↔
      place = .inside ∨ isstatic = true := by
  have inst : 'I' ≠ 'v' := by decide
  have static : 'S' ≠ 'v' := by decide
  cases isstatic with
  | true =>
      refine iff_of_true (fun name₀ isstatic₀ n => ?_) (.inr rfl)
      rw [sig_static]
      cases isstatic₀ with
      | true =>
          rw [calledSig_static dotless, sig_inj static static]
          simp
      | false =>
          rw [calledSig_inst, sig_inj inst static]
          simp
  | false =>
      cases place with
      | inside =>
          refine iff_of_true (fun name₀ isstatic₀ n => ?_) (.inl rfl)
          rw [sig_inside]
          cases isstatic₀ with
          | true =>
              rw [calledSig_static dotless, sig_inj static inst]
              simp
          | false =>
              rw [calledSig_inst, sig_inj inst inst]
              simp
      | outside =>
          refine iff_of_false (fun agree => ?_) (by simp)
          have same := (agree name false params.length).mpr ⟨rfl, rfl, rfl⟩
          rw [sig_outside, calledSig_inst, sig_inj inst inst] at same
          omega

/-- The method `f(x)` of a class `A`, defined in it. -/
theorem signature_inside :
    (∀ name₀ isstatic₀ n, calledSig "A".toList name₀ isstatic₀ n =
        (declared .inside 1 "f".toList false .accPublic [("x".toList, false)]).sig ↔
      name₀ = "f".toList ∧ isstatic₀ = false ∧ n = 1) ↔
      Place.inside = .inside ∨ false = true :=
  signature_iff (by decide) .inside 1 "f".toList false .accPublic [("x".toList, false)]

/-- The method `f(x)` of a class `A`, defined outside of it and called with one argument. -/
def outsideText : List Char :=
  "class A { public g() { return f(1); } } public A::f(x) { return x; }".toList

/-- The text is accepted, and the signature of the call in it is not that of the method. -/
theorem outside_unfound :
    let pp := parseChar objectSession.intrinsics outsideText
    pp.accepted ∧ Variant.string (calledSig "A".toList "f".toList false 1) ∈ pp.comp.cdata ∧
      (pp.heap.flatMap fun jsp => (jsp.methods.filter fun mp => mp.name = "f".toList).map
        fun mp => (mp.isstatic, mp.sig)) = [(false, "f:Ivv".toList)] ∧
      (declared .outside 1 "f".toList false .accPublic [("x".toList, false)]).sig =
        "f:Ivv".toList ∧
      calledSig "A".toList "f".toList false 1 ≠ "f:Ivv".toList := by
  rw [show outsideText = _ from String.toList_ofList]
  decide +kernel

/-! ## Calls on plain values -/

/-- What `stringReplaceChar( fqname, 'I', 'S' )` makes of a character. -/
def staticChar (c : Char) : Char := if c = 'I' then 'S' else c

theorem map_staticChar_iff (name : List Char) : name.map staticChar = name ↔ 'I' ∉ name := by
  induction name with
  | nil => simp
  | cons c name ih =>
      rw [List.map_cons, List.cons.injEq, ih, List.mem_cons, not_or, staticChar]
      by_cases kind : c = 'I'
      · simp [kind]
      · simp [kind, Ne.symm kind]

/-- The method of `Object` that a call on a plain value looks for. -/
theorem objectSig_called (name : List Char) (n : Nat) :
    Qinterp.objectSig (calledSig [] name false n) = "Object".toList ++ '.' ::
      (name.map staticChar ++ [':', 'S', 'v'] ++ List.replicate (n + 1) 'v') := by
  have letters : (List.replicate (n + 1) 'v').map staticChar = List.replicate (n + 1) 'v' := by
    rw [List.map_replicate]
    rfl
  have mapped : Qinterp.objectSig (calledSig [] name false n) =
      ("Object.".toList ++ calledSig [] name false n).map staticChar := rfl
  rw [mapped, calledSig_inst, List.map_append, List.map_append, List.map_append, letters]
  rfl

namespace Qinterp

/-- The call of a method of the class `obj`, or of none. -/
def callFound (env : Env) (run : Run) (obj : Nat) (target : Option JsMethod) (q : Qinterp) :
    Traced Event (Qinterp × InterpErrors) :=
  match target with
  | none =>
      (Traced.ofOption ((q.enterFrame obj).leaveFrame false)).bind fun q =>
        .pure (q, .unknownMethod)
  | some mp => (q.enterFrame obj).callMethod env run mp false

end Qinterp

section

variable {env : Env} {obj : Nat}

/-- `OP_CALL` of `name` with `n` arguments goes to `target`, a method of `Object` or none,
on every value that is no instance. -/
def Dispatched (env : Env) (obj : Nat) (name : List Char) (n : Nat) (target : Option JsMethod) :
    Prop :=
  ∀ (run : Run) (fuel : Nat) (arg1 arg2 : Int) (a : Act) (q : Qinterp) (v : Variant),
    env.constText a.frame.ctx arg1 = some (calledSig [] name false n) →
    a.stack[arg2.toNat]? = some v → (∀ i, a.store.deref v ≠ .inst i) →
    q.callOp env run fuel .call arg1 arg2 a =
      (q.callFound env run obj target).bind fun r => r.1.resume r.2

/-- The static method of `Object` that is named `name` and has `n` parameters. -/
def Env.objectMethod (env : Env) (obj : Nat) (name : List Char) (n : Nat) : Option JsMethod :=
  env.findMethod obj (calledSig "Object".toList name true n)

/-- The call goes to the method whose name has every `I` replaced by an `S`. -/
theorem callOp_plain (found : env.qinterpFindClass "Object".toList = some obj) (name : List Char)
    (n : Nat) : Dispatched env obj name n (env.objectMethod obj (name.map staticChar) (n + 1)) := by
  intro run fuel arg1 arg2 a q v sig here plain
  have object : '.' ∉ "Object".toList := by decide
  have cls := takeWhile_class object
    (name.map staticChar ++ [':', 'S', 'v'] ++ List.replicate (n + 1) 'v')
  have part := sigPart_class object
    (name.map staticChar ++ [':', 'S', 'v'] ++ List.replicate (n + 1) 'v')
  rw [sigPart, cls] at part
  unfold Qinterp.callOp
  rw [sig, here]
  simp only
  rw [objectSig_called, Qinterp.callStaticMethod, cls, found]
  simp only
  rw [part, Env.objectMethod, calledSig_static object]
  unfold Qinterp.callFound
  cases env.findMethod obj (name.map staticChar ++ [':', 'S', 'v'] ++ List.replicate (n + 1) 'v') <;>
    rfl

/-- Two signatures name the same method only if there is none, or they are the same. -/
theorem findMethod_same_iff (keyed : Keyed env.classes) {c : Nat} {sig sig' : List Char} :
    env.findMethod c sig = env.findMethod c sig' ↔
      sig = sig' ∨ env.findMethod c sig = none ∧ env.findMethod c sig' = none := by
  constructor
  · intro same
    cases found : env.findMethod c sig with
    | none => exact .inr ⟨rfl, same ▸ found⟩
    | some mp =>
        have own := findMethod_sig keyed found
        have other := findMethod_sig keyed (same ▸ found)
        exact .inl (own.symm.trans other)
  · rintro (rfl | ⟨none, none'⟩)
    · rfl
    · rw [none, none']

end

/-- In every session a call of `name` with `n` arguments on a plain value goes to a method of
`Object`, and that is the static one which a declaration of `name` with one more parameter
gives, if and only if `name` has no `I`, or `Object` has no method of that name and none of
the name with an `S` for each `I`. -/
theorem plainCall_iff {host : Host} {s : Session} (prepared : Prepared host s) {obj : Nat}
    (found : (s.env host).qinterpFindClass "Object".toList = some obj) (name : List Char)
    (acc : JsAccess) (params : List (List Char × Bool)) (place : Place) {n : Nat}
    (first : params.length = n + 1) :
    let env := s.env host
    let target := env.objectMethod obj (name.map staticChar) (n + 1)
    Dispatched env obj name n target ∧
      (target = env.findMethod obj (declared place obj name true acc params).sig ↔
        'I' ∉ name ∨ env.objectMethod obj name (n + 1) = none ∧ target = none) := by
  have keyed : Keyed (s.env host).classes := prepared.keyed
  have object : '.' ∉ "Object".toList := by decide
  refine ⟨callOp_plain found name n, ?_⟩
  simp only [sig_static, first, Env.objectMethod, calledSig_static object]
  rw [findMethod_same_iff keyed, sig_inj (by decide) (by decide), map_staticChar_iff]
  simp only [and_true]
  exact or_congr Iff.rfl and_comm

/-- `Object` with a static method of one parameter, as `qinterpLoadIntrinsics` defines it. -/
def nativeSession (name : List Char) : Session :=
  { objectSession with
    classes := [{ objectClass with methods := objectClass.methods ++
      [{ declared .inside 0 name true .accPublic [("val".toList, false)] with isnative := true }] }] }

theorem nativeSession_prepared (name : List Char) : Prepared plainHost (nativeSession name) := by
  refine .start (nativeSession name) fun jsp mem => ?_
  rw [List.mem_singleton.mp mem]
  refine ⟨fun mp method => ?_, rfl, rfl⟩
  rcases List.mem_append.mp method with both | own
  · rcases List.mem_pair.mp both with rfl | rfl <;> exact ⟨rfl, rfl⟩
  · rw [List.mem_singleton.mp own]
    exact ⟨rfl, rfl⟩

/-- The method `typename`, which has no `I`. -/
theorem plainCall_typename :
    let env := (nativeSession "typename".toList).env plainHost
    let target := env.objectMethod 0 ("typename".toList.map staticChar) 1
    Dispatched env 0 "typename".toList 0 target ∧
      (target = env.findMethod 0
          (declared .inside 0 "typename".toList true .accPublic [("val".toList, false)]).sig ↔
        'I' ∉ "typename".toList ∨ env.objectMethod 0 "typename".toList 1 = none ∧ target = none) :=
  plainCall_iff (nativeSession_prepared _) (by decide) "typename".toList .accPublic
    [("val".toList, false)] .inside rfl

/-- The intrinsic `parseInt`: its call goes to no method, and `Object` has it. -/
theorem parseInt_unfound :
    let env := (nativeSession "parseInt".toList).env plainHost
    Prepared plainHost (nativeSession "parseInt".toList) ∧
      Dispatched env 0 "parseInt".toList 0 none ∧
      (env.findMethod 0
        (declared .inside 0 "parseInt".toList true .accPublic [("val".toList, false)]).sig).isSome := by
  have none : ((nativeSession "parseInt".toList).env plainHost).objectMethod 0
      ("parseInt".toList.map staticChar) 1 = none := by decide
  have object : ((nativeSession "parseInt".toList).env plainHost).qinterpFindClass
      "Object".toList = some 0 := by decide
  have plain := callOp_plain object "parseInt".toList 0
  rw [none] at plain
  exact ⟨nativeSession_prepared _, plain, by decide⟩

end Jspp.Kernel
