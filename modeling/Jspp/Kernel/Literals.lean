/-
# Kernel.Literals -- array literals

An array literal is a `Vector` that is constructed and then given its elements one by one,
each by a call of `add` on a copy.  The calls leave the operand stack as it was, and so the
vector is all the literal leaves, however many elements it has.

* `array_builds`: what the code of a literal does.
* `Linked`: the constants of the class the literal is in.
* `literals_iff`: the literals that are parsed as they should be.
-/
import Jspp.Compiler.Elements
import Jspp.Kernel.Natives

namespace Jspp.Kernel

open Jspp.Compiler Jspp.Theory

set_option autoImplicit false

/-! ## The calls of a literal -/

/-- The instance is a `Vector` with these elements. -/
structure VectorOf (cl : Clist) (nd : Nativedata cl.V) (vc : Nat) (st : Store) (ip : Nat)
    (xs : List Variant) : Prop where
  inst : st.insts[ip]? = some ⟨vc, 0⟩
  holds : ∃ vdp, nd.get st ip = some vdp ∧ Holds cl vdp xs

section

open Qinterp

variable (f : StackFrame) (below : List StackFrame) (line : Int)
variable {cl : Clist} {nd : Nativedata cl.V} {env : Env} {vc : Nat}
variable (vector : IsVector cl nd env vc) (lawful : cl.Lawful) (data : nd.Lawful)

include vector in
/-- The internal constructor does nothing. -/
theorem internal_ends (n : Nat) (ip : Nat) (q : Qinterp) :
    ∃ st, (q.callInternalConstructors env (interp env (n + 2)) ip (n + 2) vc).ending =
        .done ({ q with store := st }, true) ∧ st.insts = q.store.insts := by
  obtain ⟨jsp, class_, -, base, -⟩ := vector.plain
  have ended := @callMethod_ends env (interp env (n + 2)) vc (plainConstructor vc) false
    { q with stack := .inst ip :: q.stack } [.inst ip] q.stack _ _ rfl (Nat.add_comm _ 1) rfl
    (runMethod_empty env n rfl rfl rfl _ _ _)
  refine ⟨(q.store.set (.local (q.frames.length + 1) 0) (.inst ip)).mapSlots
    (q.frames.length + 1) 0 1 Variant.varclear, ?_, rfl⟩
  unfold callInternalConstructors
  simp only [class_, base, Traced.pure_bind, Bool.not_true, Bool.false_eq_true, if_false,
    vector.internal]
  rw [Traced.bind_done ended]
  rfl

include vector in
/-- `OP_NEW` leaves a new instance. -/
theorem new_ends (n : Nat) (pc : Int) (stack : List Variant)
    (st : Store) :
    ∃ st', ((standing f below line pc stack st).newOp env (interp env (n + 2)) (n + 2)
        "Vector".toList).ending =
        .done (standing f below line pc (.inst st.insts.length :: stack) st') ∧
      st'.insts = st.insts ++ [⟨vc, 0⟩] := by
  obtain ⟨jsp, class_, -, base, fields⟩ := vector.plain
  have slots : loadBaseFields env (n + 2) vc = some 0 := by
    simp [loadBaseFields, class_, base, fields]
  obtain ⟨st', ended, insts⟩ := internal_ends vector n st.insts.length
    (standing f below line pc stack (addInst vc 0 st))
  refine ⟨st', ?_, insts⟩
  unfold newOp
  simp only [vector.named, slots]
  refine (congrArg Traced.ending (Traced.bind_done ended _)).trans ?_
  rfl

theorem get_mapSlots_elem (st : Store) (depth lo hi : Nat) (g : Variant → Variant) (ip i : Nat) :
    (st.mapSlots depth lo hi g).get (.elem ip i) = st.get (.elem ip i) := rfl

include vector lawful data in
/-- The constructor makes the instance an empty `Vector`. -/
theorem vector_ends (n : Nat) (pc : Int) (stack : List Variant) {st : Store} {ip : Nat}
    (inst : st.insts[ip]? = some ⟨vc, 0⟩) :
    ∃ st', ((standing f below line pc (.inst ip :: stack) st).callConstructors env
        (interp env (n + 2)) ip (n + 2) vc 0).ending =
        .done (standing f below line pc (.inst ip :: stack) st', .none) ∧
      st'.insts = st.insts ∧ VectorOf cl nd vc st' ip [] := by
  obtain ⟨jsp, class_, name, base, -⟩ := vector.plain
  have known : (standing f below line pc (.inst ip :: stack) st).classOf ip = some vc := by
    rw [classOf, standing, inst]
    rfl
  have sig : classConstructorSig jsp 0 = "Vector:Ivv".toList := by
    rw [classConstructorSig, name]
    rfl
  have ran : (runMethod env (interp env (n + 2)) (vectorMethod vc)
      (called vc (vectorMethod vc) (standing f below line pc (.inst ip :: stack) st)
        (.inst ip :: stack) (st.set (.local (below.length + 2) 0) (.inst ip)))).ending =
      .done (called vc (vectorMethod vc) (standing f below line pc (.inst ip :: stack) st)
        (.inst ip :: stack)
        (nd.put (st.set (.local (below.length + 2) 0) (.inst ip)) ip cl.construct), .none) := by
    have receiver : getArgumentN (called vc (vectorMethod vc)
        (standing f below line pc (.inst ip :: stack) st) (.inst ip :: stack)
        (st.set (.local (below.length + 2) 0) (.inst ip))) 0 = .inst ip :=
      Store.get_set_self _ _ _
    rw [runMethod_native rfl, runNative, vector.vector_vector, Kernel.vector_vector, receiver]
    rfl
  obtain ⟨st', made⟩ : ∃ st', (nd.put (st.set (.local (below.length + 2) 0) (.inst ip)) ip
      cl.construct).mapSlots (below.length + 2) 0 1 Variant.varclear = st' := ⟨_, rfl⟩
  have ended : (((standing f below line pc (.inst ip :: stack) st).enterFrame vc).callMethod env
      (interp env (n + 2)) (vectorMethod vc) true).ending =
      .done (standing f below line pc (.inst ip :: stack) st', .none) := by
    rw [← made]
    exact @callMethod_ends env (interp env (n + 2)) vc (vectorMethod vc) true
      (standing f below line pc (.inst ip :: stack) st) [.inst ip] stack _ _ rfl
      (Nat.add_comm _ 1) rfl ran
  have stored : st'.insts = st.insts := by
    rw [← made]
    exact data.insts_put _ _ _
  have got : nd.get st' ip = some cl.construct := by
    rw [← made, ← data.get_put (st.set (.local (below.length + 2) 0) (.inst ip)) ip cl.construct]
    exact data.get_congr _ _ ip fun i => get_mapSlots_elem _ _ _ _ _ ip i
  have still : (standing f below line pc (.inst ip :: stack) st').classOf ip = some vc := by
    rw [classOf, standing, stored, inst]
    rfl
  have empty : Holds cl cl.construct [] :=
    ⟨lawful.count_construct, fun n less => absurd less (Nat.not_lt_zero n), nofun⟩
  refine ⟨st', ?_, stored, by rw [stored, inst], cl.construct, got, empty⟩
  unfold callConstructors
  simp only [class_, base, Traced.pure_bind, ne_eq, not_true_eq_false, if_false, sig,
    callInstMethod_found known vector.constructor]
  refine (congrArg Traced.ending (Traced.bind_done ended _)).trans ?_
  dsimp only
  rw [if_neg (by simp), if_pos still]
  rfl

include vector lawful data in
/-- `OP_CONSTRUCT` on the new instance. -/
theorem construct_ends (clean : f.err = .none) (n : Nat) (pc : Int) (stack : List Variant)
    {st : Store} {ip : Nat} (inst : st.insts[ip]? = some ⟨vc, 0⟩) {clsidx : Int}
    (text : env.constText f.ctx clsidx = some "Vector".toList) (depth : Nat) :
    ∃ st', ((standing f below line pc (.inst ip :: stack) st).callOp env (interp env (n + 2))
        (n + 2) .construct clsidx 0
        ⟨{ f with pc := pc }, depth, .inst ip :: stack, st, line⟩).ending =
        .done (standing f below line pc (.inst ip :: stack) st') ∧
      st'.insts = st.insts ∧ VectorOf cl nd vc st' ip [] := by
  obtain ⟨st', ended, insts, filled⟩ := vector_ends f below line vector lawful data n pc
    stack inst
  have known : (standing f below line pc (.inst ip :: stack) st).classOf ip = some vc := by
    rw [classOf, standing, inst]
    rfl
  refine ⟨st', ?_, insts, filled⟩
  unfold callOp
  simp only [text, Int.toNat_zero, List.getElem?_cons_zero, Store.deref, dispatch, known]
  exact (congrArg Traced.ending (Traced.bind_done ended _)).trans (resume_standing clean _ _ _)

theorem get_set_elem (st : Store) (depth slot : Nat) (v : Variant) (ip i : Nat) :
    (st.set (.local depth slot) v).get (.elem ip i) = st.get (.elem ip i) :=
  Store.get_set_ne _ _ nofun

theorem deref_copies (st : Store) {v : Variant} (copies : v.Copies) : st.deref v = v := by
  cases v with
  | ptr l => cases copies.1
  | _ => rfl

/-- The store when `add` starts. -/
def addStore (depth ip : Nat) (v : Variant) (st : Store) : Store :=
  (st.set (.local depth 1) v).set (.local depth 0) (.inst ip)

include vector lawful data in
/-- `OP_CALL` of `add` with a value adds it, and takes the copy of the vector from the stack. -/
theorem add_ends (clean : f.err = .none) (n : Nat) (pc : Int) (rest : List Variant)
    {st : Store} {ip : Nat} {xs : List Variant} (filled : VectorOf cl nd vc st ip xs)
    {v : Variant} (copies : v.Copies) {addidx : Int}
    (text : env.constText f.ctx addidx = some "add:Ivvv".toList) (depth : Nat) :
    ∃ st', ((standing f below line pc (v :: .inst ip :: rest) st).callOp env
        (interp env (n + 2)) (n + 2) .call addidx 1
        ⟨{ f with pc := pc }, depth, v :: .inst ip :: rest, st, line⟩).ending =
        .done (standing f below line pc rest st') ∧
      st'.insts = st.insts ∧ VectorOf cl nd vc st' ip (xs ++ [v]) := by
  obtain ⟨inst, vdp, data_, holds⟩ := filled
  have known : (standing f below line pc (v :: .inst ip :: rest) st).classOf ip = some vc := by
    rw [classOf, standing, inst]
    rfl
  have passes : passArgs (below.length + 2) (addMethod vc).args.reverse (v :: .inst ip :: rest) st =
      some ([v, .inst ip], rest, addStore (below.length + 2) ip v st) := by
    show some ([st.deref v, .inst ip], rest, (st.set _ (st.deref v)).set _ _) = _
    rw [deref_copies st copies]
    rfl
  have ran : (runMethod env (interp env (n + 2)) (addMethod vc)
      (called vc (addMethod vc) (standing f below line pc (v :: .inst ip :: rest) st) rest
        (addStore (below.length + 2) ip v st))).ending =
      .done (called vc (addMethod vc) (standing f below line pc (v :: .inst ip :: rest) st) rest
        (nd.put (addStore (below.length + 2) ip v st) ip (cl.add vdp v)), .none) := by
    have receiver : getArgumentN (called vc (addMethod vc)
        (standing f below line pc (v :: .inst ip :: rest) st) rest
        (addStore (below.length + 2) ip v st)) 0 = .inst ip :=
      Store.get_set_self _ _ _
    have item : getArgumentN (called vc (addMethod vc)
        (standing f below line pc (v :: .inst ip :: rest) st) rest
        (addStore (below.length + 2) ip v st)) 1 = v :=
      (Store.get_set_ne _ _ (by simp)).trans (Store.get_set_self _ _ _)
    have kept : nd.get (addStore (below.length + 2) ip v st) ip = some vdp := by
      rw [← data_]
      refine data.get_congr _ _ ip fun i => ?_
      rw [addStore, get_set_elem, get_set_elem]
    have native : vector_addNative cl nd (called vc (addMethod vc)
        (standing f below line pc (v :: .inst ip :: rest) st) rest
        (addStore (below.length + 2) ip v st)) =
          ⟨.none, .void, nd.put (addStore (below.length + 2) ip v st) ip (cl.add vdp v)⟩ := by
      simp only [vector_addNative, receiver, item]
      simp only [called, kept, vector_add, copies.dup]
    rw [runMethod_native rfl, runNative, vector.vector_add, native]
    rfl
  obtain ⟨st', made⟩ : ∃ st', (nd.put (addStore (below.length + 2) ip v st) ip
      (cl.add vdp v)).mapSlots (below.length + 2) 0 2 Variant.varclear = st' := ⟨_, rfl⟩
  have ended : (((standing f below line pc (v :: .inst ip :: rest) st).enterFrame vc).callMethod
      env (interp env (n + 2)) (addMethod vc) false).ending =
      .done (standing f below line pc rest st', .none) := by
    rw [← made]
    exact @callMethod_ends env (interp env (n + 2)) vc (addMethod vc) false
      (standing f below line pc (v :: .inst ip :: rest) st) [v, .inst ip] rest _ _ passes
      (Nat.add_comm _ 2) rfl ran
  have stored : st'.insts = st.insts := by
    rw [← made]
    exact data.insts_put _ _ _
  have got : nd.get st' ip = some (cl.add vdp v) := by
    rw [← made, ← data.get_put (addStore (below.length + 2) ip v st) ip (cl.add vdp v)]
    exact data.get_congr _ _ ip fun i => get_mapSlots_elem _ _ _ _ _ ip i
  refine ⟨st', ?_, stored, by rw [stored, inst], cl.add vdp v, got, holds.add lawful copies.1⟩
  unfold callOp
  have receiver : (v :: .inst ip :: rest)[(1 : Int).toNat]? = some (.inst ip) := rfl
  simp only [text, receiver, Store.deref, dispatch, callInstMethod_found known vector.add]
  exact (congrArg Traced.ending (Traced.bind_done ended _)).trans (resume_standing clean _ _ _)

end

/-! ## The code of a literal -/

/-- As an expression of its own, it leaves this value and does nothing else. -/
def Leaves (env : Env) (ctx : Nat) (e : Expr) (v : Variant) : Prop :=
  ∀ (run : Run) (fuel : Nat) (f : StackFrame) (below : List StackFrame) (line pc : Int)
    (stack : List Variant) (st : Store) (more : List Instr), f.ctx = ctx → f.err = .none →
    (Qinterp.runCode env run fuel (e.code ++ more)
      (Qinterp.standing f below line pc stack st)).ending =
    (Qinterp.runCode env run fuel more
      (Qinterp.standing f below line (pc + codeSize e.code) (v :: stack) st)).ending

theorem const_of_text {env : Env} {ctx : Nat} {arg : Int} {text : List Char}
    (known : env.constText ctx arg = some text) : env.const ctx arg = some (.string text) := by
  unfold Env.constText at known
  split at known
  · rename_i found
    cases known
    exact found
  · cases known

/-- The elements leave these values. -/
def LeaveEach (env : Env) (ctx : Nat) : Args → List Variant → Prop
  | .nil, [] => True
  | .cons e elems, v :: values =>
      (v.Copies ∧ Leaves env ctx e v) ∧ LeaveEach env ctx elems values
  | _, _ => False

section

open Qinterp

variable (f : StackFrame) (below : List StackFrame) (line : Int)
variable {cl : Clist} {nd : Nativedata cl.V} {env : Env} {vc : Nat}
variable (vector : IsVector cl nd env vc) (lawful : cl.Lawful) (data : nd.Lawful)

include vector lawful data in
/-- One element after another is added. -/
theorem elements_end (clean : f.err = .none) (n : Nat) {addidx : Nat}
    (text : env.constText f.ctx addidx = some "add:Ivvv".toList) {elems : Args}
    {values : List Variant} (leave : LeaveEach env f.ctx elems values) (pc : Int)
    (stack : List Variant) {st : Store} {ip : Nat} {xs : List Variant}
    (filled : VectorOf cl nd vc st ip xs) :
    ∃ pc' st', (runCode env (interp env (n + 2)) (n + 2) (elems.addCode addidx)
        (standing f below line pc (.inst ip :: stack) st)).ending =
        .done (standing f below line pc' (.inst ip :: stack) st', true) ∧
      st'.insts = st.insts ∧ VectorOf cl nd vc st' ip (xs ++ values) := by
  induction elems, values using LeaveEach.induct generalizing pc st xs with
  | case1 =>
      refine ⟨pc, st, ?_, rfl, by rwa [List.append_nil]⟩
      have good : (standing f below line pc (.inst ip :: stack) st).err = some .none := by
        rw [← clean]
        rfl
      rw [Args.addCode, runCode, decide_eq_true good]
      rfl
  | case2 e elems v values ih =>
      obtain ⟨⟨copies, alone⟩, others⟩ := leave
      rw [Args.addCode, step_dup clean, alone _ _ _ _ _ _ _ _ _ rfl clean]
      obtain ⟨st₁, added, insts₁, filled₁⟩ := add_ends f below line
        vector lawful data clean n (pc + 1 + codeSize e.code + 5) (.inst ip :: stack) filled copies
        text (below.length + 1)
      have called : (step env (interp env (n + 2)) (n + 2) (.emit2 .call .const .im addidx 1)
          ⟨{ f with pc := pc + 1 + codeSize e.code + 5 }, below.length + 1,
            v :: .inst ip :: .inst ip :: stack, st, line⟩
          (standing f below line (pc + 1 + codeSize e.code + 5)
            (v :: .inst ip :: .inst ip :: stack) st)).ending = _ := added
      rw [@runCode_standing env f below line _ _ clean (.emit2 .call .const .im addidx 1) _ _ _ _ _
        _ called]
      obtain ⟨pc', st', ended, insts, all⟩ := ih others (pc + 1 + codeSize e.code + 5) filled₁
      exact ⟨pc', st', ended, insts.trans insts₁, by rwa [List.append_assoc] at all⟩
  | case3 elems values none one =>
      cases elems with
      | nil =>
          cases values with
          | nil => exact (none rfl rfl).elim
          | cons v values => cases leave
      | cons e elems =>
          cases values with
          | nil => cases leave
          | cons v values => exact (one e elems v values rfl rfl).elim

include vector lawful data in
/-- The code of an array literal leaves a new `Vector` of the values of its elements. -/
theorem array_builds (clean : f.err = .none) (n : Nat) {clsidx addidx : Nat}
    (className : env.constText f.ctx clsidx = some "Vector".toList)
    (addName : env.constText f.ctx addidx = some "add:Ivvv".toList) {elems : Args}
    {values : List Variant} (leave : LeaveEach env f.ctx elems values) (pc : Int)
    (stack : List Variant) (st : Store) :
    ∃ pc' st', (runCode env (interp env (n + 2)) (n + 2) (Expr.array clsidx addidx elems).code
        (standing f below line pc stack st)).ending =
        .done (standing f below line pc' (.inst st.insts.length :: stack) st', true) ∧
      VectorOf cl nd vc st' st.insts.length values := by
  obtain ⟨st₁, created, insts₁⟩ := new_ends f below line vector n (pc + 3) stack st
  have isNew : st₁.insts[st.insts.length]? = some ⟨vc, 0⟩ := by
    rw [insts₁, List.getElem?_concat_length]
  obtain ⟨st₂, constructed, insts₂, empty⟩ := construct_ends f below line vector lawful
    data clean n (pc + 3 + 5) stack isNew className (below.length + 1)
  obtain ⟨pc', st', ended, insts, all⟩ := elements_end f below line vector lawful data
    clean n addName leave (pc + 3 + 5) stack empty
  refine ⟨pc', st', ?_, all⟩
  have resolved : (⟨{ f with pc := pc + 3 }, below.length + 1, stack, st, line⟩ : Act).resolveValue
      env .const clsidx = some (.string "Vector".toList) := by
    rw [Act.resolveValue, Act.qinterpResolve, const_of_text className]
    rfl
  have new : (step env (interp env (n + 2)) (n + 2) (.emit1 .new .const (some (clsidx : Int)))
      ⟨{ f with pc := pc + 3 }, below.length + 1, stack, st, line⟩
      (standing f below line (pc + 3) stack st)).ending =
      .done (standing f below line (pc + 3) (.inst st.insts.length :: stack) st₁) := by
    simp only [step, resolved]
    exact created
  have called : (step env (interp env (n + 2)) (n + 2) (.emit2 .construct .const .im clsidx 0)
      ⟨{ f with pc := pc + 3 + 5 }, below.length + 1, .inst st.insts.length :: stack, st₁, line⟩
      (standing f below line (pc + 3 + 5) (.inst st.insts.length :: stack) st₁)).ending = _ :=
    constructed
  have first := @runCode_standing env f below line _ _ clean (.emit1 .new .const (some clsidx))
    (.emit2 .construct .const .im clsidx 0 :: elems.addCode addidx) _ _ _ _ _ new
  have second := @runCode_standing env f below line _ _ clean
    (.emit2 .construct .const .im clsidx 0) (elems.addCode addidx) _ _ _ _ _ called
  rw [Expr.code]
  exact first.trans (second.trans ended)

end

/-! ## Constants -/

theorem stackPush_copies {v : Variant} (copies : v.Copies) (a : Act) :
    a.stackPush v = some (a.push v) := by
  cases v with
  | delegate => exact absurd rfl copies.2
  | _ => rfl

/-- The class has the constants of what was read so far, as `qinterpPrepare` links them. -/
def Linked (env : Env) (ctx : Nat) (cdata : List Variant) : Prop :=
  ∃ all, (env.classes[ctx]?).bind JsClass.constdata = some all ∧ cdata <+: all

section

variable {env : Env} {ctx : Nat} {cdata : List Variant}

theorem Linked.const (linked : Linked env ctx cdata) {i : Nat} {v : Variant}
    (found : cdata[i]? = some v) : env.const ctx i = some v := by
  obtain ⟨all, class_, ext⟩ := linked
  obtain ⟨jsp, there, consts⟩ := Option.bind_eq_some_iff.mp class_
  rw [Env.const, there, Option.bind_some, consts, Option.bind_some, if_neg (by omega),
    Int.toNat_natCast]
  exact getElem?_of_ext ext found

theorem Linked.constText (linked : Linked env ctx cdata) {i : Nat} {text : List Char}
    (found : TextAt cdata i text) : env.constText ctx i = some text := by
  rw [Env.constText, linked.const found]

/-- `qinterpPrepare` gives the class the constants of its program, and those that were there
when a literal of it was read stay in front. -/
theorem linked_setConstdata {all : List Variant} (classes : List JsClass) {jsp : JsClass}
    (there : classes[ctx]? = some jsp) (set : env.classes = setConstdata all ctx classes)
    (ext : cdata <+: all) : Linked env ctx cdata := by
  refine ⟨all, ?_, ext⟩
  rw [set, setConstdata, List.getElem?_modify_eq, there]
  rfl

open Qinterp in
/-- The code of a literal leaves its value. -/
theorem leaves_literal (linked : Linked env ctx cdata) {e : Expr} {v : Variant}
    (lit : e.IsLiteral cdata v) : v.Copies ∧ Leaves env ctx e v := by
  unfold Expr.IsLiteral at lit
  split at lit
  · subst lit
    exact ⟨⟨rfl, by simp⟩, fun run fuel f below line pc stack st more _ clean =>
      runCode_standing clean rfl⟩
  · rename_i idx
    obtain ⟨low, found, value, copied⟩ := lit
    obtain ⟨i, rfl⟩ := Int.eq_ofNat_of_zero_le low
    rw [Int.toNat_natCast] at found
    refine ⟨⟨value, copied⟩, fun run fuel f below line pc stack st more here clean =>
      runCode_standing clean ?_⟩
    subst here
    have resolved : (⟨{ f with pc := pc + 3 }, below.length + 1, stack, st, line⟩ :
        Act).resolveValue env .const i = some v := by
      rw [Act.resolveValue, Act.qinterpResolve, linked.const found]
      rfl
    have pushed : (⟨{ f with pc := pc + 3 }, below.length + 1, stack, st, line⟩ : Act).exec env
        (.emit1 .push .const (some i)) =
          some ⟨{ f with pc := pc + 3 }, below.length + 1, v :: stack, st, line⟩ := by
      rw [Act.exec, Act.exec1, resolved]
      exact stackPush_copies ⟨value, copied⟩ _
    exact congrArg (fun done : Option Act => (Traced.ofOption (done.map
      (standing f below line (pc + 3) stack st).put) : Traced Event Qinterp).ending) pushed
  · subst lit
    exact ⟨⟨rfl, by simp⟩, fun run fuel f below line pc stack st more _ clean =>
      runCode_standing clean rfl⟩
  · exact lit.elim

theorem leaveEach_literals (linked : Linked env ctx cdata) :
    ∀ {elems : Args} {values : List Variant}, elems.AreLiterals cdata values →
      LeaveEach env ctx elems values
  | .nil, [], _ => trivial
  | .nil, _ :: _, lit => lit.elim
  | .cons _ _, [], lit => lit.elim
  | .cons _ _, _ :: _, lit => ⟨leaves_literal linked lit.1, leaveEach_literals linked lit.2⟩

end

/-! ## What a literal does -/

/-- With these constants the expression always leaves a new `Vector` of these values on top of
the operand stack. -/
def BuildsVector (cl : Clist) (nd : Nativedata cl.V) (cdata : List Variant) (e : Expr)
    (values : List Variant) : Prop :=
  ∀ (env : Env) (vc n : Nat) (f : StackFrame) (below : List StackFrame) (line pc : Int)
    (stack : List Variant) (st : Store), IsVector cl nd env vc → f.err = .none →
    Linked env f.ctx cdata → ∃ pc' st',
      (Qinterp.runCode env (interp env (n + 2)) (n + 2) e.code
        (Qinterp.standing f below line pc stack st)).ending =
        .done (Qinterp.standing f below line pc' (.inst st.insts.length :: stack) st', true) ∧
      VectorOf cl nd vc st' st.insts.length values

/-- With these constants the expression leaves the value, and nothing else happens. -/
def LeavesAlone (cdata : List Variant) (e : Expr) (v : Variant) : Prop :=
  ∀ env ctx, Linked env ctx cdata → Leaves env ctx e v

theorem literal_alone (P : Parsers) (g : Scope) {s : Comp} {v : Variant}
    (known : literalValue s.lex = some v) :
    ((singleton P g s).1.ok ↔ s.ok) ∧
      LeavesAlone (singleton P g s).1.cdata (singleton P g s).2 v := by
  obtain ⟨⟨s', e⟩, run, read⟩ := literal_value known
  have same : singleton P g s = (s'.next, e) := by
    unfold Compiler.singleton
    split
    case h_6 => rw [run]
    all_goals
      rename_i token
      rw [literalValue, show s.lex.token = _ from token] at known
      cases known
  rw [same]
  exact ⟨read.ok, fun env ctx linked => (leaves_literal linked read.value).2⟩

/-- An array literal is parsed whatever stands between its elements, and builds what it lists. -/
theorem array_builds_literals {cl : Clist} (lawful : cl.Lawful) {nd : Nativedata cl.V}
    (data : nd.Lawful) {P : Parsers} {g : Scope} {s : Comp} (brace : s.token = .lbrace)
    (known : (g.findClass "Vector".toList).isSome = true) {sc' : Scanned}
    {lits : List (Variant × Bool)} (spells : Spells s.scan.next lits sc')
    (room : lits.length < P.rounds) :
    ((singleton P g s).1.ok ↔ s.ok) ∧
      BuildsVector cl nd (singleton P g s).1.cdata (singleton P g s).2 (lits.map Prod.fst) := by
  obtain ⟨s', clsidx, addidx, elems, run, -, ok, -, className, addName, all⟩ :=
    array_spells brace known spells room
  rw [run]
  refine ⟨ok, fun env vc n f below line pc stack st vector clean linked => ?_⟩
  exact array_builds f below line vector lawful data clean n (linked.constText className)
    (linked.constText addName) (leaveEach_literals linked all) pc stack st

/-- A literal whose elements are separated is accepted and builds what it lists, one that has
two elements without a comma between them is rejected, and every element has the value it has
as an expression of its own: this is so exactly when the elements are separated. -/
theorem literals_iff {cl : Clist} (lawful : cl.Lawful) {nd : Nativedata cl.V} (data : nd.Lawful)
    {P : Parsers} {g : Scope} {s : Comp} (ok : s.ok) (brace : s.token = .lbrace)
    (known : (g.findClass "Vector".toList).isSome = true) {sc' : Scanned}
    {lits : List (Variant × Bool)} (spells : Spells s.scan.next lits sc')
    (room : lits.length < P.rounds) :
    ((Separated lits → (singleton P g s).1.ok ∧
        BuildsVector cl nd (singleton P g s).1.cdata (singleton P g s).2 (lits.map Prod.fst)) ∧
      (¬ Separated lits → ¬ (singleton P g s).1.ok) ∧
      ∀ (s₀ : Comp) (v : Variant), literalValue s₀.lex = some v →
        LeavesAlone (singleton P g s₀).1.cdata (singleton P g s₀).2 v) ↔ Separated lits := by
  obtain ⟨accepted, builds⟩ := array_builds_literals lawful data brace known spells room
  constructor
  · rintro ⟨-, rejects, -⟩
    by_contra joined
    exact rejects joined (accepted.mpr ok)
  · intro separated
    exact ⟨fun _ => ⟨accepted.mpr ok, builds⟩, fun joined => absurd separated joined,
      fun s₀ v known => (literal_alone P g known).2⟩

/-! ## Two literals -/

/-- The parser in front of a text. -/
def literalStart (text : List Char) : Comp := (programConstruct (.start text) ⟨[], []⟩).comp.next

/-- A scope that knows `Vector`. -/
def vectorScope : Scope where
  fields := []
  isstatic := true
  isdebuging := false
  findClass name := if name = "Vector".toList then some (jsclassConstruct name []) else none

def spaced : List Char := "\x7b 1 2 \x7d".toList

def commaed : List Char := "\x7b 1, 2 \x7d".toList

theorem spaced_spells :
    Spells (literalStart spaced).scan.next [(.int 1, false), (.int 2, false)]
      (literalStart spaced).scan.next.next.next :=
  .bare (by decide +kernel) (by decide +kernel)
    (.bare (by decide +kernel) (by decide +kernel) (.done (by decide +kernel)))

theorem commaed_spells :
    Spells (literalStart commaed).scan.next [(.int 1, true), (.int 2, false)]
      (literalStart commaed).scan.next.next.next.next :=
  .comma (by decide +kernel) (by decide +kernel)
    (.bare (by decide +kernel) (by decide +kernel) (.done (by decide +kernel)))

/-- Two elements without a comma between them are accepted. -/
theorem literals_broken :
    (literalStart spaced).ok ∧ (literalStart spaced).token = .lbrace ∧
      Spells (literalStart spaced).scan.next [(.int 1, false), (.int 2, false)]
        (literalStart spaced).scan.next.next.next ∧
      ¬ Separated [(.int 1, false), (.int 2, false)] ∧
      (Compiler.singleton (parsers 4) vectorScope (literalStart spaced)).1.ok := by
  refine ⟨by decide +kernel, by decide +kernel, spaced_spells, fun separated => ?_,
    by decide +kernel⟩
  exact absurd (separated (.int 1, false) List.mem_cons_self) (by decide)

/-- `nativedata` in the slots of the elements: their number, and then the elements. -/
def elemData : Nativedata plainClist.V where
  get st ip :=
    match st.get (.elem ip 0) with
    | .int n => some ((List.range n.toNat).map fun i => st.get (.elem ip (i + 1)))
    | _ => none
  put st ip vdp :=
    { st with
      mem := fun l =>
        match l with
        | .elem ip' 0 => if ip' = ip then .int (List.length vdp) else st.mem l
        | .elem ip' (i + 1) => if ip' = ip then (vdp : List Variant).getD i .void else st.mem l
        | _ => st.mem l }

theorem map_getD_range (xs : List Variant) :
    (List.range xs.length).map (fun i => xs.getD i .void) = xs := by
  refine List.ext_getElem (by simp) fun i _ inside => ?_
  simp [inside]

theorem elemData_lawful : elemData.Lawful where
  get_put st ip vdp := by
    have count : (elemData.put st ip vdp).get (.elem ip 0) = .int (List.length vdp) := if_pos rfl
    have elem : ∀ i, (elemData.put st ip vdp).get (.elem ip (i + 1)) =
        (vdp : List Variant).getD i .void := fun i => if_pos rfl
    show (match (elemData.put st ip vdp).get (.elem ip 0) with
      | .int n => some ((List.range n.toNat).map fun i =>
          (elemData.put st ip vdp).get (.elem ip (i + 1)))
      | _ => none) = some vdp
    simp only [count, elem, Int.toNat_natCast]
    exact congrArg some (map_getD_range vdp)
  insts_put st ip vdp := rfl
  get_congr st st' ip same := by
    show (match st.get (.elem ip 0) with
      | .int n => some ((List.range n.toNat).map fun i => st.get (.elem ip (i + 1)))
      | _ => none) = match st'.get (.elem ip 0) with
      | .int n => some ((List.range n.toNat).map fun i => st'.get (.elem ip (i + 1)))
      | _ => none
    simp only [same]

theorem vector_add_calm {cl : Clist} (vdp : cl.V) (item : Variant) :
    (vector_add vdp item).1.1 ≠ .exception := by
  unfold vector_add
  split
  · nofun
  · nofun

/-- A host with the native methods of `Vector`. -/
def vectorHost : Host where
  native mp q :=
    if mp.name = "Vector".toList then vector_vector plainClist elemData q
    else vector_addNative plainClist elemData q
  addr := fun _ => 1
  stale := fun _ => 0
  calm mp q := by
    split
    · unfold vector_vector
      split <;> nofun
    · unfold vector_addNative
      split
      · split
        · exact vector_add_calm _ _
        · nofun
      · nofun

/-- `Vector` as `qinterpLoadIntrinsics` defines it, with the methods of a literal. -/
def vectorClass : JsClass :=
  { jsclassConstruct "Vector".toList [] with
    methods := [plainConstructor 1, vectorMethod 1, addMethod 1] }

/-- A class whose constants are those of a literal, beside `Vector`. -/
def vectorEnv (cdata : List Variant) : Env where
  toHost := vectorHost
  classes := setConstdata cdata 0 [jsclassConstruct "A".toList [], vectorClass]
  table := [("A".toList, 0), ("Vector".toList, 1)]

theorem vectorEnv_vector (cdata : List Variant) :
    IsVector plainClist elemData (vectorEnv cdata) 1 where
  named := rfl
  plain := ⟨vectorClass, rfl, rfl, rfl, rfl⟩
  internal := rfl
  constructor := rfl
  add := rfl
  vector_vector q := by
    have name : (vectorMethod 1).name = "Vector".toList := rfl
    show (if (vectorMethod 1).name = "Vector".toList then vector_vector plainClist elemData q
      else vector_addNative plainClist elemData q) = _
    rw [if_pos name]
  vector_add q := by
    have name : ¬ (addMethod 1).name = "Vector".toList := by decide
    show (if (addMethod 1).name = "Vector".toList then vector_vector plainClist elemData q
      else vector_addNative plainClist elemData q) = _
    rw [if_neg name]

/-- The literal with its comma, run on an empty operand stack. -/
theorem literals_iff_pair :
    ∃ pc' st',
      (Qinterp.runCode
        (vectorEnv (Compiler.singleton (parsers 4) vectorScope (literalStart commaed)).1.cdata)
        (interp (vectorEnv
          (Compiler.singleton (parsers 4) vectorScope (literalStart commaed)).1.cdata) 2) 2
        (Compiler.singleton (parsers 4) vectorScope (literalStart commaed)).2.code
        (Qinterp.standing ⟨0, none, 0, [], .none, .void, 0, 0⟩ [] 1 0 []
          ⟨fun _ => .void, []⟩)).ending =
        .done (Qinterp.standing ⟨0, none, 0, [], .none, .void, 0, 0⟩ [] 1 pc' [.inst 0] st', true) ∧
      VectorOf plainClist elemData 1 st' 0 [.int 1, .int 2] := by
  have separated : Separated [(.int 1, true), (.int 2, false)] := by
    intro lit mem
    rw [List.mem_singleton.mp mem]
  have holds := (literals_iff plainClist_lawful elemData_lawful (P := parsers 4)
    (g := vectorScope) (s := literalStart commaed) (by decide +kernel) (by decide +kernel)
    (by decide) commaed_spells (by decide)).mpr separated
  have linked : Linked (vectorEnv
      (Compiler.singleton (parsers 4) vectorScope (literalStart commaed)).1.cdata) 0
      (Compiler.singleton (parsers 4) vectorScope (literalStart commaed)).1.cdata :=
    linked_setConstdata [jsclassConstruct "A".toList [], vectorClass] rfl rfl List.prefix_rfl
  exact (holds.1 separated).2 _ 1 0 ⟨0, none, 0, [], .none, .void, 0, 0⟩ [] 1 0 []
    ⟨fun _ => .void, []⟩ (vectorEnv_vector _) rfl linked

end Jspp.Kernel
