/-
# Kernel.Protocol -- what a run leaves in the interpreter

A virtual table holds a method under its own signature, and the signature spells
the number of parameters, so a method that `qinterpRun` finds takes exactly the
operands it was called with.  Leaving its frame then pops all of them and at
most one value is pushed, which `qinterpRun` takes: nothing is left.  Where the
class or the method is not found nothing is popped but that one operand.

* `length_args`: a signature counts the parameters.
* `qinterpRun_restores_iff`.
-/
import Jspp.Kernel.Calls
import Jspp.Kernel.Methods

namespace Jspp.Kernel

open Jspp.Compiler Jspp.Theory

set_option autoImplicit false

/-! ## Signatures -/

/-- The letters at the end of a signature that stand for its result and its parameters. -/
def sigArgs (sig : List Char) : Nat := (sig.reverse.takeWhile fun c => c = 'v').length

theorem sigArgs_eq (name : List Char) {kind : Char} (notV : kind ≠ 'v') (n : Nat) :
    sigArgs (name ++ [':', kind, 'v'] ++ List.replicate n 'v') = n + 1 := by
  have rev : (name ++ [':', kind, 'v'] ++ List.replicate n 'v').reverse =
      List.replicate (n + 1) 'v' ++ kind :: ':' :: name.reverse := by
    simp [List.replicate_succ']
  rw [sigArgs, rev, List.takeWhile_append_of_pos]
  · simp [notV]
  · intro c mem
    simp [(List.mem_replicate.mp mem).2]

/-- A method whose signature is one of a call with `n` arguments has `n` parameters. -/
theorem length_args {mp : JsMethod} {name : List Char} {kind : Char}
    (notV : kind ≠ 'v') {n : Nat}
    (sig : mp.sig = name ++ [':', kind, 'v'] ++ List.replicate n 'v') : mp.args.length = n := by
  have counted := sigArgs_eq name notV n
  rw [← sig, mp.signed, buildMethodSig] at counted
  cases static : mp.isstatic with
  | true =>
      rw [static, if_pos rfl] at counted
      have own : sigArgs (mp.name ++ ":Sv".toList ++ List.replicate mp.args.length 'v') =
          mp.args.length + 1 := sigArgs_eq mp.name (by decide) _
      omega
  | false =>
      rw [static, if_neg nofun] at counted
      have own : sigArgs (mp.name ++ ":Iv".toList ++ List.replicate mp.args.length 'v') =
          mp.args.length + 1 := sigArgs_eq mp.name (by decide) _
      omega

/-! ## The call of a run -/

namespace Env

/-- The method that `callStaticMethod` finds under a full name. -/
def findStatic (env : Env) (fqname : List Char) : Option JsMethod :=
  let clsname := fqname.takeWhile (· ≠ '.')
  (env.qinterpFindClass clsname).bind fun jsp =>
    env.findMethod jsp (fqname.drop (clsname.length + 1))

end Env

/-- The full name `qinterpRun` calls. -/
def runName (startcls mainmethod : List Char) (argcount : Nat) : List Char :=
  startcls ++ ['.'] ++ buildMethodSig mainmethod true ++ List.replicate argcount 'v'

theorem runName_eq (startcls mainmethod : List Char) (n : Nat) :
    runName startcls mainmethod n =
      startcls ++ '.' :: (mainmethod ++ [':', 'S', 'v'] ++ List.replicate n 'v') := by
  simp [runName, buildMethodSig]

/-- What is behind the first dot of that name is still a signature with `n` arguments. -/
theorem runName_drop (startcls mainmethod : List Char) (n : Nat) :
    ∃ name, (runName startcls mainmethod n).drop
      (((runName startcls mainmethod n).takeWhile (· ≠ '.')).length + 1) =
        name ++ [':', 'S', 'v'] ++ List.replicate n 'v' := by
  rw [runName_eq]
  induction startcls with
  | nil => exact ⟨mainmethod, by simp⟩
  | cons c rest ih =>
      by_cases dot : c = '.'
      · exact ⟨rest ++ '.' :: mainmethod, by simp [dot]⟩
      · obtain ⟨name, eq⟩ := ih
        refine ⟨name, ?_⟩
        rw [← eq]
        simp [dot]

theorem findStatic_args {env : Env} (keyed : Keyed env.classes) {startcls mainmethod : List Char}
    {n : Nat} {mp : JsMethod} (found : env.findStatic (runName startcls mainmethod n) = some mp) :
    mp.args.length = n := by
  obtain ⟨jsp, _, method⟩ := Option.bind_eq_some_iff.mp found
  obtain ⟨name, eq⟩ := runName_drop startcls mainmethod n
  exact length_args (by decide) ((findMethod_sig keyed method).trans eq)

namespace Qinterp

variable {env : Env} {run : Run}

theorem callStaticMethod_found {fqname : List Char} {mp : JsMethod} {q : Qinterp}
    (found : env.findStatic fqname = some mp) :
    ∃ jsp, q.callStaticMethod env run fqname = (q.enterFrame jsp).callMethod env run mp false := by
  obtain ⟨jsp, cls, method⟩ := Option.bind_eq_some_iff.mp found
  refine ⟨jsp, ?_⟩
  unfold callStaticMethod
  simp only [cls, method]

theorem callStaticMethod_missing {fqname : List Char} {q : Qinterp}
    (missing : env.findStatic fqname = none) :
    Returns (q.callStaticMethod env run fqname) fun r =>
      r.1.frames = q.frames ∧ r.1.stack = q.stack := by
  unfold callStaticMethod
  simp only
  split
  case h_1 => exact .pure ⟨rfl, rfl⟩
  case h_2 jsp cls =>
      simp only [Env.findStatic, cls, Option.bind_some] at missing
      rw [missing]
      exact .bind (.ofOption fun q' left => leaveFrame_unfound left) fun q' same => .pure same

/-- A call of a method that takes all the operands leaves at most its value. -/
theorem Left.length_le_one {mp : JsMethod} {n : Nat} {rest : List StackFrame} {q' : Qinterp}
    (left : Left mp n false rest q') (args : mp.args.length = n) : q'.stack.length ≤ 1 := by
  obtain ⟨f, before, stack, method, count, popped, eq⟩ := left.stack
  have empty : stack = [] := by
    simp only [leftStack, method, count, args, Nat.le_refl, if_true, Nat.sub_self] at popped
    cases popped
    simp [popTo]
  rw [eq, empty]
  split <;> simp

end Qinterp

/-- With no frame active and `n` operands on the stack, `qinterpRun` with `n`
arguments restores the machine exactly when it found its method, or there was
at most one operand. -/
theorem qinterpRun_restores_iff {host : Host} {s : Session} (prepared : Prepared host s)
    (fuel : Nat) (startcls mainmethod : List Char) (q : Qinterp) (noframe : q.frames = [])
    (r : Qinterp × InterpErrors × Option Variant)
    (ended : (qinterpRun (s.env host) fuel startcls mainmethod q.stack.length q).ending =
      .done r) :
    (r.1.frames = [] ∧ r.1.stack = []) ↔
      ((s.env host).findStatic (runName startcls mainmethod q.stack.length)).isSome ∨
        q.stack.length ≤ 1 := by
  obtain ⟨⟨q₁, err⟩, called, popped⟩ := Traced.ending_bind ended
  have result : r.1.frames = q₁.frames ∧ r.1.stack = q₁.stack.tail := by
    cases stack : q₁.stack with
    | nil =>
        simp only [stack] at popped
        cases popped
        exact ⟨rfl, stack⟩
    | cons v rest =>
        simp only [stack] at popped
        cases popped
        exact ⟨rfl, rfl⟩
  rw [result.1, result.2]
  cases found : (s.env host).findStatic (runName startcls mainmethod q.stack.length) with
  | some mp =>
      obtain ⟨jsp, eq⟩ := Qinterp.callStaticMethod_found found
      have left := Qinterp.callMethod_left (interp_within (s.env host) fuel) _ (eq ▸ called)
      have short := left.length_le_one (findStatic_args prepared.keyed found)
      have empty : q₁.stack.tail = [] := by
        rw [← List.length_eq_zero_iff, List.length_tail]
        exact Nat.sub_eq_zero_of_le short
      have frames : q₁.frames = [] := left.frames.trans noframe
      simp [frames, empty]
  | none =>
      obtain ⟨frames, stack⟩ := Qinterp.callStaticMethod_missing found _ called
      rw [frames, stack, noframe]
      simp only [Option.isSome_none, false_or, true_and, Bool.false_eq_true]
      rw [← List.length_eq_zero_iff, List.length_tail]
      omega

/-- A method without parameters. -/
def returnOne : List Char := "class A { public static main() { return 1; } }".toList

theorem mainRun_done {text : List Char} {n : Nat} {stack : List Variant}
    {r : Qinterp × InterpErrors × Option Variant}
    (h : (mainRun text n stack).bind Traced.result? = some r) :
    ∃ s : Session, loaded text = some s ∧ Prepared plainHost s ∧
      (qinterpRun (s.env plainHost) 200 "A".toList "main".toList n
        { s.q with stack := stack }).ending = .done r := by
  obtain ⟨t, run, result⟩ := Option.bind_eq_some_iff.mp h
  obtain ⟨s, load, rfl⟩ := Option.map_eq_some_iff.mp run
  refine ⟨s, load, loaded_prepared load, ?_⟩
  unfold Traced.result? at result
  split at result
  · rename_i r' ending
    cases result
    exact ending
  · cases result

theorem returnOne_frames {s : Session} (load : loaded returnOne = some s) : s.q.frames = [] := by
  have none : ((loaded returnOne).map fun s => s.q.frames.length) = some 0 := by
    rw [show returnOne = _ from String.toList_ofList]
    decide +kernel
  rw [load] at none
  exact List.length_eq_zero_iff.mp (by simpa using none)

theorem qinterpRun_restores_returnOne :
    ∃ (s : Session) (q : Qinterp) (r : Qinterp × InterpErrors × Option Variant),
      Prepared plainHost s ∧ q.frames = [] ∧
        (qinterpRun (s.env plainHost) 200 "A".toList "main".toList q.stack.length q).ending =
          .done r ∧ r.1.frames = [] ∧ r.1.stack = [] := by
  have found : (((mainRun returnOne 0 []).bind Traced.result?).map fun r => r.2.1) =
      some .none := by decide +kernel
  obtain ⟨r, run, _⟩ := Option.map_eq_some_iff.mp found
  obtain ⟨s, load, prepared, ended⟩ := mainRun_done run
  have noframe : ({ s.q with stack := [] } : Qinterp).frames = [] := returnOne_frames load
  have restored := (qinterpRun_restores_iff prepared 200 "A".toList "main".toList
    { s.q with stack := [] } noframe r ended).mpr (.inr (by simp))
  exact ⟨s, _, r, prepared, noframe, ended, restored⟩

/-- Called with two operands, the method is not known, and one operand stays. -/
theorem unknownMethod_leaves_operand :
    ∃ (s : Session) (q : Qinterp) (r : Qinterp × InterpErrors × Option Variant),
      Prepared plainHost s ∧ q.frames = [] ∧
        (qinterpRun (s.env plainHost) 200 "A".toList "main".toList q.stack.length q).ending =
          .done r ∧ r.2.1 = .unknownMethod ∧ ¬(r.1.frames = [] ∧ r.1.stack = []) := by
  have found : (((mainRun returnOne 2 [.int 1, .int 2]).bind Traced.result?).map fun r =>
      (r.2.1, r.1.stack.length)) = some (.unknownMethod, 1) := by decide +kernel
  obtain ⟨r, run, left⟩ := Option.map_eq_some_iff.mp found
  obtain ⟨s, load, prepared, ended⟩ := mainRun_done run
  have noframe : ({ s.q with stack := [.int 1, .int 2] } : Qinterp).frames = [] :=
    returnOne_frames load
  obtain ⟨err, length⟩ := Prod.mk.inj left
  refine ⟨s, _, r, prepared, noframe, ended, err, fun restored => ?_⟩
  rw [restored.2] at length
  cases length

end Jspp.Kernel
