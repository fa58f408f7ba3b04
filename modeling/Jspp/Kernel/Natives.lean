/-
# Kernel.Natives -- calls that come back

A method that runs to its end and returns nothing leaves the frames as they were, and takes
its arguments from the operand stack.  So it is with the native methods of `Vector`, and with
the constructor of a native class, which has no code.

* `callMethod_ends`: such a call.
* `Nativedata`, `vector_vector`, `vector_addNative`: the native methods of `Vector`.
* `IsVector`: the class that `qinterpLoadIntrinsics` defines.
* `runCode_standing`: an instruction that leaves the frame at the next one.
-/
import Jspp.Kernel.Contexts
import Jspp.Kernel.Straight
import Jspp.Kernel.Vectors

namespace Jspp.Kernel

open Jspp.Compiler Jspp.Theory

set_option autoImplicit false

/-! ## Calls of plain methods -/

theorem mapSlots_empty (st : Store) (depth lo : Nat) (f : Variant → Variant) :
    st.mapSlots depth lo lo f = st := by
  unfold Store.mapSlots
  congr 1
  funext l
  cases l with
  | «local» d slot => exact if_neg fun inside => by omega
  | static cls offset => rfl
  | field inst offset => rfl
  | elem inst index => rfl

namespace Qinterp

/-- The frame in which a method of the class starts. -/
def calledFrame (c : Nat) (mp : JsMethod) (q : Qinterp) : StackFrame where
  ctx := c
  curmethod := some mp
  locals := mp.args.length
  blockframes := [⟨0, -1, 0, -1, none, none⟩]
  err := .none
  retval := .void
  stackcount := q.stack.length
  pc := 0

/-- The interpreter when the method starts. -/
def called (c : Nat) (mp : JsMethod) (q : Qinterp) (stack : List Variant) (st : Store) :
    Qinterp where
  frames := calledFrame c mp q :: q.frames
  stack := stack
  store := st
  linenum := q.linenum

theorem callMethod_called {c : Nat} {mp : JsMethod} {nopop : Bool} {q : Qinterp}
    {passed rest : List Variant} {st : Store}
    (passes : passArgs (q.frames.length + 1) mp.args.reverse q.stack q.store =
      some (passed, rest, st)) :
    (((q.enterFrame c).setMethod mp).onAct fun a => some (a.enterBlock 0)).bind
      (setLocals mp nopop) =
      some (called c mp q (if nopop then passed ++ rest else rest) st) := by
  have entered : (((q.enterFrame c).setMethod mp).onAct fun a => some (a.enterBlock 0)) =
      some ⟨{ calledFrame c mp q with locals := 0 } :: q.frames, q.stack, q.store, q.linenum⟩ := by
    simp only [onAct, act?, setMethod, enterFrame, Option.bind_some, Option.map_some,
      Act.enterBlock, Nat.add_zero, mapSlots_empty]
    rfl
  rw [entered]
  simp only [Option.bind_some, setLocals, List.length_cons, passes, Option.map_some, Nat.zero_add]
  rfl

/-- A method that leaves its frame as it was, and no value. -/
theorem callMethod_ends {env : Env} {run : Run} {c : Nat} {mp : JsMethod} {nopop : Bool}
    {q : Qinterp} {passed rest : List Variant} {st st' : Store}
    (passes : passArgs (q.frames.length + 1) mp.args.reverse q.stack q.store =
      some (passed, rest, st))
    (taken : q.stack.length = mp.args.length + rest.length) (plain : mp.hasretval = false)
    (ran : (runMethod env run mp (called c mp q (if nopop then passed ++ rest else rest)
        st)).ending = .done (called c mp q (if nopop then passed ++ rest else rest) st', .none)) :
    ((q.enterFrame c).callMethod env run mp nopop).ending =
      .done ({ q with
        stack := if nopop then passed ++ rest else rest
        store := st'.mapSlots (q.frames.length + 1) 0 mp.args.length Variant.varclear },
        .none) := by
  have left : ((called c mp q (if nopop then passed ++ rest else rest) st').onAct
      Act.leaveBlock).bind (leaveFrame nopop) = some { q with
        stack := if nopop then passed ++ rest else rest
        store := st'.mapSlots (q.frames.length + 1) 0 mp.args.length Variant.varclear } := by
    have unblocked : (called c mp q (if nopop then passed ++ rest else rest) st').onAct
        Act.leaveBlock = some { called c mp q (if nopop then passed ++ rest else rest) st' with
          frames := { calledFrame c mp q with blockframes := [] } :: q.frames } := by
      simp only [onAct, act?, called, Option.bind_some, Act.leaveBlock, calledFrame,
        Nat.zero_le, if_true, Nat.sub_zero, mapSlots_empty, Option.map_some]
      rfl
    have kept : leftStack { calledFrame c mp q with blockframes := [] } nopop
        (if nopop then passed ++ rest else rest) =
          some (if nopop then passed ++ rest else rest) := by
      cases nopop with
      | true => rfl
      | false =>
          have enough : mp.args.length ≤ q.stack.length := by omega
          have same : q.stack.length - mp.args.length = rest.length := by omega
          simp [leftStack, calledFrame, enough, same, popTo]
    have quiet : returnsValue { calledFrame c mp q with blockframes := [] } = false := by
      simp [returnsValue, calledFrame, plain]
    rw [unblocked, Option.bind_some, leaveFrame]
    simp only [called, kept, Option.map_some, quiet]
    rfl
  unfold callMethod
  rw [callMethod_called passes]
  simp only [Traced.ofOption, Traced.pure_bind, Traced.ending_note]
  rw [Traced.bind_done ran, left]
  rfl

theorem runMethod_native {env : Env} {run : Run} {mp : JsMethod} (native : mp.isnative = true)
    (q : Qinterp) : runMethod env run mp q = .pure (runNative env mp q) := if_pos native

/-- A method without code returns at once. -/
theorem runMethod_empty (env : Env) (n : Nat) {c : Nat} {mp : JsMethod}
    (compiled : mp.isnative = false) (empty : mp.code = []) (plain : mp.hasretval = false)
    (q : Qinterp) (stack : List Variant) (st : Store) :
    (runMethod env (interp env (n + 2)) mp (called c mp q stack st)).ending =
      .done (called c mp q stack st, .none) := by
  have ended : (loop env (interp env (n + 1)) (n + 1) stack.length (n + 1)
      (called c mp q stack st)).ending = .done (called c mp q stack st) := by
    simp [loop, act?, called, calledFrame, codeOf, empty]
  have done : popTo (stackpos (calledFrame c mp q) stack.length) stack = stack := by
    simp [popTo, stackpos, calledFrame, plain]
  have start : (called c mp q stack st).act? =
      some ⟨calledFrame c mp q, q.frames.length + 1, stack, st, q.linenum⟩ := rfl
  rw [runMethod, if_neg (by rw [compiled]; decide)]
  show (activation env (interp env (n + 1)) (n + 1) (called c mp q stack st)).ending = _
  simp only [activation, start]
  have put : (called c mp q stack st).put (Act.goto 0 ⟨calledFrame c mp q, q.frames.length + 1,
    stack, st, q.linenum⟩) = called c mp q stack st := rfl
  rw [put, Traced.bind_done ended, start]
  simp only [epilogue, calledFrame, reduceCtorEq, if_false]
  rw [← calledFrame, done]
  rfl

end Qinterp

/-! ## The native methods of `Vector` -/

/-- `nativedata` of the instances, which the store has for the native methods. -/
structure Nativedata (V : Type) where
  get : Store → Nat → Option V
  put : Store → Nat → V → Store

/-- Nothing but a native method writes it, and it is apart from the other variants. -/
structure Nativedata.Lawful {V : Type} (nd : Nativedata V) : Prop where
  get_put : ∀ st ip vdp, nd.get (nd.put st ip vdp) ip = some vdp
  insts_put : ∀ st ip vdp, (nd.put st ip vdp).insts = st.insts
  get_congr : ∀ st st' ip, (∀ i, st.get (.elem ip i) = st'.get (.elem ip i)) →
    nd.get st ip = nd.get st' ip

section

variable (cl : Clist) (nd : Nativedata cl.V)

/-- `getArgumentN`. -/
def getArgumentN (q : Qinterp) (n : Nat) : Variant := q.store.get (.local q.frames.length n)

/-- `vector_vector`; its receiver is asserted to be an instance. -/
def vector_vector (q : Qinterp) : NativeResult :=
  match getArgumentN q 0 with
  | .inst ip => ⟨.none, .void, nd.put q.store ip cl.construct⟩
  | _ => ⟨.none, .void, q.store⟩

/-- `vector_add` on the vector in the `nativedata` of its receiver. -/
def vector_addNative (q : Qinterp) : NativeResult :=
  match getArgumentN q 0 with
  | .inst ip =>
      match nd.get q.store ip with
      | some vdp =>
          let (answer, vdp) := vector_add vdp (getArgumentN q 1)
          ⟨answer.1, .void, nd.put q.store ip vdp⟩
      | none => ⟨.none, .void, q.store⟩
  | _ => ⟨.none, .void, q.store⟩

end

/-- A method of a native class, with its parameters. -/
def nativeMethod (vc : Nat) (name : List Char) (params : List (List Char)) : JsMethod :=
  params.foldl (fun mp param => jsmethodAddArg mp param false)
    { jsmethodConstruct vc name false .accPublic with isnative := true }

/-- `@@constructor` as `qinterpLoadIntrinsics` defines it. -/
def plainConstructor (vc : Nat) : JsMethod :=
  jsmethodAddArg (jsmethodConstruct vc "@@constructor".toList false .accPrivate) "this".toList false

def vectorMethod (vc : Nat) : JsMethod := nativeMethod vc "Vector".toList ["this".toList]

def addMethod (vc : Nat) : JsMethod := nativeMethod vc "add".toList ["this".toList, "item".toList]

/-- `Vector` is the class that `qinterpLoadIntrinsics` defines. -/
structure IsVector (cl : Clist) (nd : Nativedata cl.V) (env : Env) (vc : Nat) : Prop where
  named : env.qinterpFindClass "Vector".toList = some vc
  plain : ∃ jsp, env.classes[vc]? = some jsp ∧ jsp.name = "Vector".toList ∧
    jsp.baseclass = none ∧ jsp.fields = []
  internal : env.findMethod vc "@@constructor:Ivv".toList = some (plainConstructor vc)
  constructor : env.findMethod vc "Vector:Ivv".toList = some (vectorMethod vc)
  add : env.findMethod vc "add:Ivvv".toList = some (addMethod vc)
  vector_vector : ∀ q, env.native (vectorMethod vc) q = vector_vector cl nd q
  vector_add : ∀ q, env.native (addMethod vc) q = vector_addNative cl nd q

/-! ## One instruction of a literal -/

/-- The interpreter at an address of the method at hand. -/
def Qinterp.standing (f : StackFrame) (below : List StackFrame) (line : Int) (pc : Int)
    (stack : List Variant) (st : Store) : Qinterp where
  frames := { f with pc := pc } :: below
  stack := stack
  store := st
  linenum := line

section

open Qinterp

variable {env : Env} {f : StackFrame} {below : List StackFrame} {line : Int}

theorem runCode_standing {run : Run} {fuel : Nat} (clean : f.err = .none) {i : Instr}
    {is : List Instr} {pc : Int} {stack stack' : List Variant} {st st' : Store}
    (stepped : (step env run fuel i
        ⟨{ f with pc := pc + i.size }, below.length + 1, stack, st, line⟩
        (standing f below line (pc + i.size) stack st)).ending =
      .done (standing f below line (pc + i.size) stack' st')) :
    (runCode env run fuel (i :: is) (standing f below line pc stack st)).ending =
      (runCode env run fuel is (standing f below line (pc + i.size) stack' st')).ending := by
  have act : (standing f below line pc stack st).act? =
      some ⟨{ f with pc := pc }, below.length + 1, stack, st, line⟩ := rfl
  rw [runCode_cons act clean]
  refine (congrArg Traced.ending (Traced.bind_done stepped _)).trans ?_
  have next : (standing f below line (pc + i.size) stack' st').pc = some (pc + i.size) := rfl
  dsimp only
  rw [if_pos next]

/-- Work that a call leaves without an error is taken up where it stood. -/
theorem resume_standing (clean : f.err = .none) (pc : Int) (stack : List Variant) (st : Store) :
    (resume (standing f below line pc stack st) .none).ending =
      .done (standing f below line pc stack st) := by
  obtain ⟨ctx, curmethod, locals, blockframes, err, retval, stackcount, pc₀⟩ := f
  cases clean
  rfl

theorem step_dup {run : Run} {fuel : Nat} (clean : f.err = .none) {is : List Instr} {pc : Int}
    {ip : Nat} {stack : List Variant} {st : Store} :
    (runCode env run fuel (.emit0 .dup :: is)
      (standing f below line pc (.inst ip :: stack) st)).ending =
      (runCode env run fuel is
        (standing f below line (pc + 1) (.inst ip :: .inst ip :: stack) st)).ending :=
  runCode_standing clean rfl

end

end Jspp.Kernel
