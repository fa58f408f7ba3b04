/-
# Kernel.Instances -- instances stay, and calls happen in frames of their own

The list of instances only grows: no instruction changes the class of one, and a native method is
asked to do the same.  A computation from a frame logs calls in frames above it, and comes back to
as many frames.

* `KeepsInstances`: what is asked of native methods.
* `exec_insts`: an instruction that calls nothing leaves the instances alone.
* `interp_inner`: a method logs calls in frames above its own.
-/
import Jspp.Kernel.Calls

namespace Jspp.Kernel

open Jspp.Compiler Jspp.Theory

set_option autoImplicit false

/-! ## Instructions -/

theorem castAt_insts {st st' : Store} {l : Loc} {v : VarResult}
    (h : st.castAt l v = some (some st')) : st'.insts = st.insts := by
  cases v with
  | value w =>
      cases h
      rfl
  | mismatch => cases h
  | undefined => cases h

theorem castBool_insts {st st' : Store} {n : Nat} {l : Loc}
    (h : st.castBool n l = some (some st')) : st'.insts = st.insts := by
  induction n generalizing l with
  | zero =>
      unfold Store.castBool at h
      split at h
      · rename_i none
        cases none
      · exact castAt_insts h
  | succ n ih =>
      unfold Store.castBool at h
      split at h
      · rename_i m _ more
        cases more
        exact ih h
      · exact castAt_insts h

namespace Act

variable {env : Env} {a a' : Act}

theorem pop_insts (h : a.pop = some a') : a'.store.insts = a.store.insts := by
  unfold pop at h
  split at h
  · cases h
  · cases h
    rfl

theorem stackPush_insts {v : Variant} (h : a.stackPush v = some a') :
    a'.store.insts = a.store.insts := by
  unfold stackPush at h
  split at h <;> (cases h; rfl)

theorem binop_insts {f : Variant → Variant → VarResult} (h : a.binop f = some a') :
    a'.store.insts = a.store.insts := by
  unfold binop at h
  split at h
  · split at h
    · cases h
      rfl
    · cases h
      rfl
    · cases h
  · cases h

theorem unop_insts {f : Variant → Option Variant} (h : a.unop f = some a') :
    a'.store.insts = a.store.insts := by
  unfold unop at h
  split at h
  · cases h
  all_goals split at h <;> (cases h; rfl)

theorem preCount_insts {delta : Int} (h : a.preCount delta = some a') :
    a'.store.insts = a.store.insts := by
  unfold preCount at h
  split at h
  · split at h <;> (cases h; rfl)
  · cases h

theorem postCount_insts {delta : Int} (h : a.postCount delta = some a') :
    a'.store.insts = a.store.insts := by
  unfold postCount at h
  simp only at h
  split at h
  · split at h <;> (cases h; rfl)
  · cases h

theorem assign_insts (h : a.assign = some a') : a'.store.insts = a.store.insts := by
  unfold assign at h
  simp only at h
  split at h
  · split at h <;> (cases h; rfl)
  · cases h

theorem testTop_insts {i : Option Int} (h : a.testTop env = some (i, a')) :
    a'.store.insts = a.store.insts := by
  unfold testTop at h
  split at h
  case h_1 => cases h
  case h_7 =>
      split at h
      case h_1 st cast =>
          cases h
          exact castBool_insts cast
      case h_2 =>
          cases h
          rfl
      case h_3 => cases h
  case h_8 =>
      split at h
      case h_1 =>
          cases h
          rfl
      case h_2 =>
          cases h
          rfl
      case h_3 => cases h
  all_goals
    cases h
    rfl

theorem takeRetval_insts (h : a.takeRetval = some a') : a'.store.insts = a.store.insts := by
  unfold takeRetval at h
  split at h
  · cases h
  · cases h
    rfl

theorem leaveBlock_insts (h : a.leaveBlock = some a') : a'.store.insts = a.store.insts := by
  unfold leaveBlock at h
  split at h
  · cases h
    rfl
  · split at h
    · cases h
      rfl
    · cases h

theorem getCatchLoop_insts {n : Nat} {pc : Int} (h : getCatchLoop n a = some (pc, a')) :
    a'.store.insts = a.store.insts := by
  induction n generalizing a with
  | zero =>
      cases h
      rfl
  | succ n ih =>
      rw [getCatchLoop] at h
      split at h
      · cases h
        rfl
      · split at h
        · cases h
          rfl
        · obtain ⟨b, left, h⟩ := Option.bind_eq_some_iff.mp h
          exact (ih h).trans (leaveBlock_insts left)

theorem throw_insts (h : a.throw = some a') : a'.store.insts = a.store.insts := by
  obtain ⟨⟨pc, b⟩, unwound, h⟩ := Option.bind_eq_some_iff.mp h
  have caught := getCatchLoop_insts unwound
  simp only at h
  split at h
  · obtain ⟨c, left, rfl⟩ := Option.map_eq_some_iff.mp h
    obtain ⟨d, taken, left⟩ := Option.bind_eq_some_iff.mp left
    exact (leaveBlock_insts left).trans ((takeRetval_insts taken).trans caught)
  · cases h
    exact caught

theorem jumpIf_insts {zero : Bool} {target : Int} (h : a.jumpIf env zero target = some a') :
    a'.store.insts = a.store.insts := by
  obtain ⟨⟨test, b⟩, tested, h⟩ := Option.bind_eq_some_iff.mp h
  have same := testTop_insts tested
  cases test with
  | none =>
      cases h
      exact same
  | some i =>
      simp only at h
      refine (pop_insts h).trans ?_
      split
      · exact same
      · exact same

theorem ret_insts (h : a.ret = some a') : a'.store.insts = a.store.insts := by
  obtain ⟨c, popped, h⟩ := Option.bind_eq_some_iff.mp h
  obtain ⟨d, left, rfl⟩ := Option.map_eq_some_iff.mp h
  obtain ⟨b, taken, popped⟩ := Option.bind_eq_some_iff.mp popped
  exact (leaveBlock_insts left).trans ((pop_insts popped).trans (takeRetval_insts taken))

theorem deref_insts {mode : ArgSource} {arg : Int} (h : a.deref env mode arg = some a') :
    a'.store.insts = a.store.insts := by
  unfold deref at h
  split at h
  · obtain ⟨found, _, rfl⟩ := Option.map_eq_some_iff.mp h
    cases found <;> rfl
  · cases h

theorem sderef_insts {mode mode2 : ArgSource} {arg1 arg2 : Int}
    (h : a.sderef env mode mode2 arg1 arg2 = some a') : a'.store.insts = a.store.insts := by
  unfold sderef at h
  split at h
  · split at h
    · cases h
      rfl
    · obtain ⟨o, _, h⟩ := Option.bind_eq_some_iff.mp h
      obtain ⟨jsp, _, h⟩ := Option.bind_eq_some_iff.mp h
      split at h
      · cases h
        rfl
      · cases h
  · cases h

theorem exec0_insts {op : OpCode} (h : a.exec0 op = some a') :
    a'.store.insts = a.store.insts := by
  cases op with
  | nop | vret | native =>
      cases h
      rfl
  | null => exact stackPush_insts (v := .null) h
  | rshift | lshift | mult | div | add | sub | mod | lt | lteq | eq | gt | gteq | neq
  | binor | binand | xor => exact binop_insts h
  | or => exact binop_insts (f := fun x y => .value (.ofBool (y.truth != 0 || x.truth != 0))) h
  | and => exact binop_insts (f := fun x y => .value (.ofBool (y.truth != 0 && x.truth != 0))) h
  | negate | compl | not => exact unop_insts h
  | inc | dec => exact preCount_insts h
  | pinc | pdec => exact postCount_insts h
  | ret => exact ret_insts h
  | throw => exact throw_insts h
  | leave => exact leaveBlock_insts h
  | «break» =>
      obtain ⟨⟨pc, b⟩, broke, rfl⟩ := Option.map_eq_some_iff.mp h
      obtain ⟨rfl, -⟩ := breakBlock_eq broke
      simp only
      split <;> rfl
  | «continue» =>
      obtain ⟨⟨pc, b⟩, broke, rfl⟩ := Option.map_eq_some_iff.mp h
      obtain ⟨rfl, -⟩ := breakBlock_eq broke
      simp only
      split <;> rfl
  | dup =>
      obtain ⟨v, _, pushed⟩ := Option.bind_eq_some_iff.mp h
      exact stackPush_insts pushed
  | assign => exact assign_insts h
  | this =>
      obtain ⟨ip, _, rfl⟩ := Option.map_eq_some_iff.mp h
      rfl
  | rvalue | rot | rot3 =>
      unfold exec0 at h
      simp only at h
      split at h <;> cases h
      rfl
  | pop => exact pop_insts h
  | _ => cases h

theorem exec1_insts {op : OpCode} {mode : ArgSource} {arg : Int}
    (h : a.exec1 env op mode arg = some a') : a'.store.insts = a.store.insts := by
  cases op with
  | enter | jmp | line =>
      cases h
      rfl
  | «try» =>
      obtain ⟨v, _, h⟩ := Option.bind_eq_some_iff.mp h
      obtain ⟨pc, _, h⟩ := Option.bind_eq_some_iff.mp h
      unfold setTry at h
      split at h <;> cases h
      rfl
  | setbreak =>
      obtain ⟨v, _, h⟩ := Option.bind_eq_some_iff.mp h
      obtain ⟨pc, _, h⟩ := Option.bind_eq_some_iff.mp h
      unfold setBreak at h
      split at h <;> cases h
      rfl
  | push =>
      obtain ⟨v, _, pushed⟩ := Option.bind_eq_some_iff.mp h
      exact stackPush_insts pushed
  | lvalue =>
      obtain ⟨l, _, rfl⟩ := Option.map_eq_some_iff.mp h
      rfl
  | deref => exact deref_insts h
  | jmpz | jmpnz => exact jumpIf_insts h
  | _ => cases h

/-- An instruction that calls nothing leaves the instances alone. -/
theorem exec_insts {i : Instr} (h : a.exec env i = some a') : a'.store.insts = a.store.insts := by
  cases i with
  | emit0 op => exact exec0_insts h
  | emit1 op mode arg =>
      cases arg with
      | none => cases h
      | some arg => exact exec1_insts h
  | emit2 op mode mode2 arg1 arg2 =>
      cases op with
      | sderef => exact sderef_insts h
      | _ => cases h

theorem afterCall_insts {err : InterpErrors} (h : Qinterp.afterCall err a = some a') :
    a'.store.insts = a.store.insts := by
  unfold Qinterp.afterCall at h
  simp only at h
  split at h
  · obtain ⟨⟨pc, b⟩, unwound, h⟩ := Option.bind_eq_some_iff.mp h
    have caught := getCatchLoop_insts unwound
    simp only at h
    split at h
    · cases h
      exact caught
    · split at h
      · cases h
      · cases h
        exact caught
  · cases h
    rfl

end Act

/-! ## Computations from a frame -/

/-- From `q` to `q'` the number of frames is the same, and instances were only added. -/
structure Extends (q q' : Qinterp) : Prop where
  depth : q'.frames.length = q.frames.length
  insts : q.store.insts <+: q'.store.insts

theorem Extends.refl (q : Qinterp) : Extends q q := ⟨rfl, List.prefix_rfl⟩

theorem Extends.trans {q q' q'' : Qinterp} (h : Extends q q') (h' : Extends q' q'') :
    Extends q q'' :=
  ⟨h'.depth.trans h.depth, h.insts.trans h'.insts⟩

/-- The class of an instance stays what it is. -/
theorem Extends.classOf {q q' : Qinterp} (h : Extends q q') {inst c : Nat}
    (known : q.classOf inst = some c) : q'.classOf inst = some c := by
  obtain ⟨jinst, found, rfl⟩ := Option.map_eq_some_iff.mp known
  obtain ⟨more, eq⟩ := h.insts
  have less := (List.getElem?_eq_some_iff.mp found).1
  rw [Qinterp.classOf, ← eq, List.getElem?_append_left less, found]
  rfl

/-- A logged call happens in a frame above the first `n`. -/
def Event.Above (n : Nat) : Event → Prop
  | .invoke _ q => n < q.frames.length
  | .fetch _ _ => True

theorem Event.Above.weaken {n m : Nat} (le : m ≤ n) {e : Event} (h : e.Above n) : e.Above m := by
  cases e with
  | invoke mp q => exact Nat.lt_of_le_of_lt le h
  | fetch base q => trivial

/-- A computation from `q` calls methods in frames above the first `n`, adds instances, and comes
back. -/
def Inner {α : Type} (n : Nat) (q : Qinterp) (t : Traced Event (Qinterp × α)) : Prop :=
  Keeps (fun _ => True) (Event.Above n) t fun r => Extends q r.1

/-- The same of a method. -/
def RunInner (run : Run) : Prop := ∀ q, Inner q.frames.length q (run q)

/-- Native methods only add instances. -/
def Host.KeepsInstances (host : Host) : Prop :=
  ∀ mp q, q.store.insts <+: (host.native mp q).store.insts

section

variable {α β : Type} {n : Nat} {q : Qinterp}

theorem Inner.pure {q' : Qinterp} (h : Extends q q') (a : α) : Inner n q (.pure (q', a)) :=
  Keeps.pure h

theorem Inner.fault : Inner n q (.fault : Traced Event (Qinterp × α)) := Keeps.fault

theorem Inner.timeout : Inner n q (.timeout : Traced Event (Qinterp × α)) := Keeps.timeout

theorem Inner.bind {t : Traced Event (Qinterp × α)} {f : Qinterp × α → Traced Event (Qinterp × β)}
    (first : Inner n q t) (rest : ∀ r, Extends q r.1 → Inner n r.1 (f r)) :
    Inner n q (t.bind f) := by
  refine Keeps.bind first fun r extends_ => ?_
  exact (rest r extends_).weaken fun r' later => extends_.trans later

/-- It may start where the other extends. -/
theorem Inner.from {q₀ : Qinterp} {t : Traced Event (Qinterp × α)} (h : Extends q₀ q)
    (inner : Inner n q t) : Inner n q₀ t :=
  inner.weaken fun _ later => h.trans later

theorem Inner.below {m : Nat} (le : m ≤ n) {t : Traced Event (Qinterp × α)} (h : Inner n q t) :
    Inner m q t where
  log := holdsWhile_iff.mpr fun pre e post eq conds =>
    (holdsWhile_iff.mp h.log pre e post eq conds).weaken le
  result := h.result

end

namespace Qinterp

variable {env : Env} {run : Run}

theorem extends_stack (q : Qinterp) (stack : List Variant) :
    Extends q { q with stack := stack } :=
  ⟨rfl, List.prefix_rfl⟩

theorem put_extends {q : Qinterp} {a a' : Act} (act : q.act? = some a)
    (same : a'.store.insts = a.store.insts) : Extends q (q.put a') := by
  obtain ⟨frames, -, store, -⟩ := act?_some act
  refine ⟨?_, ?_⟩
  · show (a'.frame :: q.frames.tail).length = _
    rw [frames]
    rfl
  · have eq : a'.store.insts = q.store.insts := by rw [same, store]
    show q.store.insts <+: a'.store.insts
    exact eq ▸ List.prefix_rfl

theorem onAct_extends {q q' : Qinterp} {g : Act → Option Act} (h : q.onAct g = some q')
    (same : ∀ a a', g a = some a' → a'.store.insts = a.store.insts) : Extends q q' := by
  obtain ⟨a, a', act, worked, rfl⟩ := onAct_some h
  exact put_extends act (same a a' worked)

theorem leaveFrame_extends {nopop : Bool} {q q' : Qinterp} (h : q.leaveFrame nopop = some q') :
    q.frames.length = q'.frames.length + 1 ∧ q'.store.insts = q.store.insts := by
  unfold leaveFrame at h
  split at h
  · cases h
  · rename_i f rest frames
    obtain ⟨stack, _, rfl⟩ := Option.map_eq_some_iff.mp h
    rw [frames]
    exact ⟨rfl, rfl⟩

/-- A call that found no method. -/
theorem unfound_extends {jsp : Nat} {nopop : Bool} {q q' : Qinterp} {stack : List Variant}
    (h : ({ q.enterFrame jsp with stack := stack } : Qinterp).leaveFrame nopop = some q') :
    Extends q q' := by
  obtain ⟨depth, insts⟩ := leaveFrame_extends h
  exact ⟨(Nat.succ.inj depth).symm, insts ▸ List.prefix_rfl⟩

theorem passArgs_insts {depth : Nat} {args : List Vardef} {stack passed rest : List Variant}
    {st st' : Store} (h : passArgs depth args stack st = some (passed, rest, st')) :
    st'.insts = st.insts := by
  induction args generalizing stack st passed with
  | nil =>
      cases h
      rfl
  | cons vdp args ih =>
      cases stack with
      | nil => cases h
      | cons v stack =>
          obtain ⟨⟨more, rest', st₁⟩, read, eq⟩ := Option.map_eq_some_iff.mp h
          cases eq
          exact (ih read).trans rfl

/-- Where a call starts its method. -/
theorem setup_extends {mp : JsMethod} {jsp : Nat} {nopop : Bool} {q q' : Qinterp}
    (h : (((q.enterFrame jsp).setMethod mp).onAct fun a => some (a.enterBlock 0)).bind
      (setLocals mp nopop) = some q') :
    q'.frames.length = q.frames.length + 1 ∧ q'.store.insts = q.store.insts := by
  obtain ⟨f, frames, _⟩ := (fresh_of_setup h).frame
  refine ⟨by rw [frames]; rfl, ?_⟩
  obtain ⟨q₁, entered, located⟩ := Option.bind_eq_some_iff.mp h
  obtain ⟨a, a', act, eq, rfl⟩ := onAct_some entered
  cases eq
  obtain ⟨-, -, store, -⟩ := act?_some act
  obtain ⟨⟨passed, rest, st⟩, passes, rfl⟩ := Option.map_eq_some_iff.mp located
  show st.insts = _
  rw [passArgs_insts passes]
  show a.store.insts = _
  rw [store]
  rfl

theorem runNative_extends (keeps : env.KeepsInstances) (mp : JsMethod) (q : Qinterp) :
    Extends q (runNative env mp q).1 := by
  obtain ⟨frames, stack, store, linenum⟩ := q
  cases frames with
  | nil => exact ⟨rfl, keeps mp ⟨[], stack, store, linenum⟩⟩
  | cons f rest => exact ⟨rfl, keeps mp ⟨f :: rest, stack, store, linenum⟩⟩

theorem runMethod_inner (good : RunInner run) (keeps : env.KeepsInstances) (mp : JsMethod)
    (q : Qinterp) : Inner q.frames.length q (runMethod env run mp q) := by
  unfold runMethod
  split
  · exact .pure (runNative_extends keeps mp q) _
  · exact good q

/-- A method is called in a frame of its own. -/
theorem callMethod_inner (good : RunInner run) (keeps : env.KeepsInstances) (jsp : Nat)
    (mp : JsMethod) (nopop : Bool) (q : Qinterp) :
    Inner q.frames.length q ((q.enterFrame jsp).callMethod env run mp nopop) := by
  unfold callMethod
  refine Keeps.bind (Keeps.ofOption fun q₁ setup => setup_extends setup) fun q₁ ⟨depth, insts⟩ => ?_
  have above : q.frames.length < q₁.frames.length := by
    omega
  refine Keeps.note above fun _ => ?_
  have ran : Inner q.frames.length q₁ (runMethod env run mp q₁) :=
    (runMethod_inner good keeps mp q₁).below (by omega)
  refine Keeps.bind ran fun ⟨q₂, err⟩ extends_ => ?_
  refine Keeps.bind (Q := fun q₃ => Extends q q₃) (Keeps.ofOption fun q₃ left => ?_)
    fun q₃ back => Keeps.pure back
  obtain ⟨q', leftBlock, leftFrame⟩ := Option.bind_eq_some_iff.mp left
  have block := onAct_extends leftBlock fun a a' => Act.leaveBlock_insts
  obtain ⟨depth₃, insts₃⟩ := leaveFrame_extends leftFrame
  have later := extends_.trans block
  refine ⟨?_, ?_⟩
  · have same := later.depth
    omega
  · rw [insts₃, ← insts]
    exact later.insts

theorem callIn_inner (good : RunInner run) (keeps : env.KeepsInstances) (ctx : Nat)
    (mname : List Char) (nopop : Bool) (q : Qinterp) :
    Inner q.frames.length q (q.callIn env run ctx mname nopop) := by
  unfold callIn
  simp only
  split
  · refine Keeps.bind (Q := fun q' => Extends q q') (Keeps.ofOption fun q' left => ?_)
      fun q' back => Keeps.pure back
    cases nopop
    · exact unfound_extends left
    · exact unfound_extends left
  · exact callMethod_inner good keeps _ _ _ _

theorem callStaticMethod_inner (good : RunInner run) (keeps : env.KeepsInstances)
    (fqname : List Char) (q : Qinterp) :
    Inner q.frames.length q (q.callStaticMethod env run fqname) := by
  unfold callStaticMethod
  simp only
  split
  · exact .pure (.refl q) _
  · split
    · exact Keeps.bind (Q := fun q' => Extends q q')
        (Keeps.ofOption fun q' left => unfound_extends left) fun q' back => Keeps.pure back
    · exact callMethod_inner good keeps _ _ _ _

theorem callInstMethod_inner (good : RunInner run) (keeps : env.KeepsInstances) (inst : Nat)
    (mname : List Char) (nopop : Bool) (q : Qinterp) :
    Inner q.frames.length q (q.callInstMethod env run inst mname nopop) := by
  unfold callInstMethod
  split
  · exact .fault
  · exact callIn_inner good keeps _ _ _ _

theorem callBaseMethod_inner (good : RunInner run) (keeps : env.KeepsInstances) (inst : Nat)
    (mname : List Char) (q : Qinterp) :
    Inner q.frames.length q (q.callBaseMethod env run inst mname) := by
  unfold callBaseMethod
  split
  · exact .fault
  · split
    · exact callInstMethod_inner good keeps _ _ _ _
    · exact callIn_inner good keeps _ _ _ _

theorem callInternalConstructors_inner (good : RunInner run) (keeps : env.KeepsInstances)
    (inst n c : Nat) (q : Qinterp) :
    Inner q.frames.length q (q.callInternalConstructors env run inst n c) := by
  induction n generalizing c q with
  | zero => exact .timeout
  | succ n ih =>
      rw [callInternalConstructors]
      split
      case h_1 => exact .fault
      case h_2 jsp found =>
          refine .bind ?_ fun r later => ?_
          · split
            · exact .pure (.refl q) _
            · exact ih _ _
          · obtain ⟨q₁, ok⟩ := r
            rw [← later.depth]
            simp only
            split
            · exact .pure (.refl q₁) _
            · refine .from (extends_stack q₁ (.inst inst :: q₁.stack)) ?_
              split
              case h_1 =>
                  exact Keeps.bind (Q := fun q' => Extends _ q')
                    (Keeps.ofOption fun q' left => unfound_extends left) fun q' back =>
                      Keeps.pure back
              case h_2 mp method =>
                  exact .bind (callMethod_inner good keeps c mp false
                    { q₁ with stack := .inst inst :: q₁.stack }) fun r _ => .pure (.refl r.1) _

theorem callConstructors_inner (good : RunInner run) (keeps : env.KeepsInstances)
    (inst n c argcount : Nat) (q : Qinterp) :
    Inner q.frames.length q (q.callConstructors env run inst n c argcount) := by
  induction n generalizing c argcount q with
  | zero => exact .timeout
  | succ n ih =>
      rw [callConstructors]
      split
      case h_1 => exact .fault
      case h_2 jsp found =>
          refine .bind ?_ fun r later => ?_
          · split
            · exact .pure (.refl q) _
            · exact ih _ _ _
          · obtain ⟨q₁, err₁⟩ := r
            rw [← later.depth]
            simp only
            split
            · exact .pure (.refl q₁) _
            · refine .bind (callInstMethod_inner good keeps _ _ _ q₁) fun r after => ?_
              obtain ⟨q₂, err₂⟩ := r
              rw [← after.depth]
              simp only
              split
              · split
                · exact ih _ _ _
                · exact .pure (.refl q₂) _
              · split
                · split
                  · exact .pure (extends_stack q₂ _) _
                  · exact .fault
                · exact .pure (.refl q₂) _

theorem dispatch_inner (good : RunInner run) (keeps : env.KeepsInstances) (fuel : Nat)
    (op : OpCode) (sig : List Char) (argc inst : Nat) (q : Qinterp) :
    Inner q.frames.length q (q.dispatch env run fuel op sig argc inst) := by
  unfold dispatch
  split
  · exact callInstMethod_inner good keeps _ _ _ _
  · split
    · exact .fault
    · exact callConstructors_inner good keeps _ _ _ _ _
  · exact callBaseMethod_inner good keeps _ _ _

/-! ## Steps -/

/-- What a step is asked to be. -/
def StepInner (q : Qinterp) (t : Traced Event Qinterp) : Prop :=
  Keeps (fun _ => True) (Event.Above q.frames.length) t (Extends q)

theorem resume_inner {q : Qinterp} {t : Traced Event (Qinterp × InterpErrors)}
    (inner : Inner q.frames.length q t) : StepInner q (t.bind fun r => r.1.resume r.2) :=
  Keeps.bind inner fun _ later => Keeps.ofOption fun _ resumed =>
    later.trans (onAct_extends resumed fun _ _ => Act.afterCall_insts)

theorem callOp_inner (good : RunInner run) (keeps : env.KeepsInstances) (fuel : Nat) (op : OpCode)
    (arg1 arg2 : Int) (a : Act) (q : Qinterp) :
    StepInner q (q.callOp env run fuel op arg1 arg2 a) := by
  unfold callOp
  split
  case h_2 => exact Keeps.fault
  case h_1 sig vthis _ _ =>
      refine resume_inner (?_ : Inner q.frames.length q _)
      split
      · exact dispatch_inner good keeps _ _ _ _ _ _
      · exact callStaticMethod_inner good keeps _ _

theorem newOp_inner (good : RunInner run) (keeps : env.KeepsInstances) (fuel : Nat)
    (name : List Char) (q : Qinterp) : StepInner q (q.newOp env run fuel name) := by
  unfold newOp
  split
  case h_1 =>
      refine Keeps.ofOption fun q' raised => onAct_extends raised fun a a' eq => ?_
      cases eq
      rfl
  case h_2 c found =>
      split
      case h_1 => exact Keeps.timeout
      case h_2 slots loaded =>
          simp only
          refine Keeps.bind (callInternalConstructors_inner good keeps q.store.insts.length fuel c
            { q with store := addInst c slots q.store }) fun r later => ?_
          refine Keeps.ofOption fun q' pushed => ?_
          have added : Extends q { q with store := addInst c slots q.store } :=
            ⟨rfl, List.prefix_append _ _⟩
          refine (added.trans later).trans (onAct_extends pushed fun a a' eq => ?_)
          cases eq
          split <;> rfl

theorem step_inner (good : RunInner run) (keeps : env.KeepsInstances) (fuel : Nat) (i : Instr)
    {a : Act} {q : Qinterp} (act : q.act? = some a) : StepInner q (step env run fuel i a q) := by
  unfold step
  split
  case h_1 => exact callOp_inner good keeps _ _ _ _ _ _
  case h_2 => exact callOp_inner good keeps _ _ _ _ _ _
  case h_3 => exact callOp_inner good keeps _ _ _ _ _ _
  case h_4 =>
      split
      · exact Keeps.fault
      · exact resume_inner (callStaticMethod_inner good keeps _ _)
  case h_5 =>
      split
      · exact newOp_inner good keeps _ _ _
      · exact Keeps.fault
  case h_6 =>
      refine Keeps.ofOption fun q' executed => ?_
      have worked : q.onAct (Act.exec env i) = some q' := by
        rw [onAct, act]
        exact executed
      exact onAct_extends worked fun _ _ => Act.exec_insts

/-! ## Methods -/

theorem loop_inner (good : RunInner run) (keeps : env.KeepsInstances) (fuel base n : Nat)
    (q : Qinterp) : StepInner q (loop env run fuel base n q) := by
  induction n generalizing q with
  | zero => exact Keeps.timeout
  | succ n ih =>
      unfold loop
      split
      · exact Keeps.fault
      · rename_i a act
        split
        · refine Keeps.note trivial fun _ => ?_
          split
          · exact Keeps.fault
          · rename_i i fetched
            have moved : Extends q (q.put (advance i a)) := put_extends act rfl
            have stepped := step_inner good keeps fuel i (act?_advance act i)
            rw [StepInner, moved.depth] at stepped
            refine Keeps.bind stepped fun q' later => ?_
            have rest := ih q'
            have whole := moved.trans later
            rw [StepInner, whole.depth] at rest
            exact rest.weaken fun _ => whole.trans
        · exact Keeps.pure (.refl q)

theorem activation_inner (good : RunInner run) (keeps : env.KeepsInstances) (fuel : Nat)
    (q : Qinterp) : Inner q.frames.length q (activation env run fuel q) := by
  unfold activation
  split
  · exact .fault
  · rename_i a act
    simp only
    have start : Extends q (q.put (a.goto 0)) := put_extends act rfl
    have ran := loop_inner good keeps fuel a.stack.length fuel (q.put (a.goto 0))
    rw [StepInner, start.depth] at ran
    refine Keeps.bind ran fun q' later => ?_
    split
    · exact Keeps.fault
    · rename_i a' act'
      refine Keeps.pure ((start.trans later).trans (put_extends act' ?_))
      unfold epilogue
      split <;> rfl

end Qinterp

/-- A method logs calls in frames above its own. -/
theorem interp_inner {env : Env} (keeps : env.KeepsInstances) (n : Nat) :
    RunInner (interp env n) := by
  induction n with
  | zero => exact fun _ => .timeout
  | succ n ih => exact fun q => Qinterp.activation_inner ih keeps n q

end Jspp.Kernel
