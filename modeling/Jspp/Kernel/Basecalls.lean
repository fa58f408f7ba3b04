/-
# Kernel.Basecalls -- which method a base call runs

`callBaseMethod` looks the signature up in the base class of the class of the
instance.  The body that makes the call was written in some class, and the
instance may be of a class derived from it; then the lookup starts at that class
or below it.

* `baseMethod`, `baseTarget`: what the call denotes, and what it runs.
* `PassesOn`: the classes in between find what their base classes find.
* `basecall_iff`; `basecall_broken`: a method that calls itself.
-/
import Jspp.Kernel.Contexts

namespace Jspp.Kernel

open Jspp.Compiler Jspp.Theory

set_option autoImplicit false

namespace Env

def baseOf (env : Env) (c : Nat) : Option Nat := (env.classes[c]?).bind JsClass.baseclass

/-- What a signature denotes in the base class of a class. -/
def baseMethod (env : Env) (c : Nat) (sig : List Char) : Option JsMethod :=
  (env.baseOf c).bind fun base => env.findMethod base sig

/-- What a base call runs on an instance of the class. -/
def baseTarget (env : Env) (c : Nat) (sig : List Char) : Option JsMethod :=
  match env.baseOf c with
  | none => env.findMethod c sig
  | some base => env.findMethod base sig

theorem baseTarget_eq {env : Env} {c base : Nat} (based : env.baseOf c = some base)
    (sig : List Char) : env.baseTarget c sig = env.findMethod base sig := by
  rw [baseTarget, based]

theorem baseMethod_eq {env : Env} {c base : Nat} (based : env.baseOf c = some base)
    (sig : List Char) : env.baseMethod c sig = env.findMethod base sig := by
  rw [baseMethod, based]
  rfl

end Env

/-- From a class up to `b` every class finds for the signature what its base class finds. -/
inductive PassesOn (env : Env) (sig : List Char) (b : Nat) : Nat → Prop where
  | last {base : Nat} (based : env.baseOf b = some base)
      (same : env.findMethod b sig = env.findMethod base sig) : PassesOn env sig b b
  | next {e base : Nat} (based : env.baseOf e = some base)
      (same : env.findMethod e sig = env.findMethod base sig)
      (rest : PassesOn env sig b base) : PassesOn env sig b e

theorem PassesOn.findMethod {env : Env} {sig : List Char} {b e : Nat}
    (h : PassesOn env sig b e) : env.findMethod e sig = env.baseMethod b sig := by
  induction h with
  | last based same => rw [same, Env.baseMethod_eq based]
  | next _ same _ ih => rw [same, ih]

/-- The first method that a computation runs. -/
def firstMethod {α : Type} (t : Traced Event α) : Option JsMethod :=
  match t.log.head? with
  | some (.invoke mp _) => some mp
  | _ => none

section

variable {env : Env} {run : Run} {q : Qinterp}

theorem firstMethod_call {d : Nat} {mp mp' : JsMethod} {nopop : Bool}
    (ran : firstMethod ((q.enterFrame d).callMethod env run mp nopop) = some mp') : mp' = mp := by
  unfold firstMethod at ran
  split at ran
  case h_2 => cases ran
  case h_1 _ m q₁ first =>
      cases ran
      obtain ⟨_, _, _, eq, _⟩ := callMethod_invokes first
      cases eq
      rfl

/-- Leaving a frame runs no method. -/
theorem firstMethod_unfound {α : Type} (o : Option Qinterp) (a : α) :
    firstMethod ((Traced.ofOption o).bind fun q => .pure (q, a)) = none := by
  cases o <;> rfl

/-- A lookup that runs a method runs the one it found. -/
theorem firstMethod_callIn {d : Nat} {sig : List Char} {mp : JsMethod} {nopop : Bool}
    (ran : firstMethod (q.callIn env run d sig nopop) = some mp) :
    env.findMethod d sig = some mp := by
  unfold Qinterp.callIn at ran
  simp only at ran
  split at ran
  case h_1 missing =>
      rw [firstMethod_unfound] at ran
      cases ran
  case h_2 m found =>
      rw [found, firstMethod_call ran]

/-- A base call runs what the base class of the instance's class finds. -/
theorem firstMethod_base {inst d : Nat} {sig : List Char} {mp : JsMethod}
    (instance_ : q.classOf inst = some d)
    (ran : firstMethod (q.callBaseMethod env run inst sig) = some mp) :
    env.baseTarget d sig = some mp := by
  unfold Qinterp.callBaseMethod at ran
  split at ran
  case h_1 => cases ran
  case h_2 jsp at_d =>
      rw [instance_, Option.bind_some] at at_d
      split at ran
      case h_1 top =>
          have based : env.baseOf d = none := by rw [Env.baseOf, at_d, Option.bind_some, top]
          rw [Env.baseTarget, based]
          rw [Qinterp.callInstMethod, instance_] at ran
          exact firstMethod_callIn ran
      case h_2 base above =>
          have based : env.baseOf d = some base := by
            rw [Env.baseOf, at_d, Option.bind_some, above]
          rw [Env.baseTarget_eq based]
          exact firstMethod_callIn ran

end

/-- A base call on an instance of class `d` runs the method that the signature denotes
in the base class of class `b` exactly when the base class of `d` finds that method.
It does when `d` is `b`, and when the classes from the base of `d` up to `b` all find
what their base classes find. -/
theorem basecall_iff {env : Env} {run : Run} {q : Qinterp} {inst d : Nat} (b : Nat)
    {sig : List Char} {mp : JsMethod} (instance_ : q.classOf inst = some d)
    (ran : firstMethod (q.callBaseMethod env run inst sig) = some mp) :
    (env.baseMethod b sig = some mp ↔ env.baseTarget d sig = env.baseMethod b sig) ∧
      ((d = b ∧ (env.baseOf b).isSome ∨
          ∃ base, env.baseOf d = some base ∧ PassesOn env sig b base) →
        env.baseMethod b sig = some mp) := by
  have target := firstMethod_base instance_ ran
  refine ⟨?_, ?_⟩
  · rw [target]
    exact eq_comm
  · rintro (⟨rfl, based⟩ | ⟨base, based, passes⟩)
    · obtain ⟨base, based⟩ := Option.isSome_iff_exists.mp based
      rw [Env.baseMethod_eq based, ← Env.baseTarget_eq based, target]
    · rw [← passes.findMethod, ← Env.baseTarget_eq based, target]

/-- Three classes, the second of which calls the method of the first from its own. -/
def threeClasses : List Char :=
  ("class B \x7b public m() \x7b return 1; \x7d \x7d " ++
    "class C : B \x7b public m() \x7b return ::m(); \x7d \x7d " ++
      "class A : C \x7b public static main() \x7b return 1; \x7d \x7d").toList

/-- A base call of `m` on a new instance of the class: the class of the method it runs
and that of the method in the base class of class 2. -/
def baseCall (text : List Char) (d : Nat) : Option (Option Nat × Option Nat) :=
  (loaded text).map fun s =>
    let env := s.env plainHost
    let q := { s.q with stack := [.inst 0], store := ⟨fun _ => .void, [⟨d, 0⟩]⟩ }
    let ran := firstMethod (q.callBaseMethod env (interp env 20) 0 "m:Ivv".toList)
    (ran.map JsMethod.myclass, (env.baseMethod 2 "m:Ivv".toList).map JsMethod.myclass)

theorem baseCall_some {text : List Char} {d : Nat} {r e : Nat}
    (h : baseCall text d = some (some r, some e)) :
    ∃ (s : Session) (q : Qinterp) (mp m : JsMethod), Prepared plainHost s ∧
      q.classOf 0 = some d ∧
        firstMethod (q.callBaseMethod (s.env plainHost) (interp (s.env plainHost) 20) 0
          "m:Ivv".toList) = some mp ∧ mp.myclass = r ∧
            (s.env plainHost).baseMethod 2 "m:Ivv".toList = some m ∧ m.myclass = e := by
  obtain ⟨s, load, eq⟩ := Option.map_eq_some_iff.mp h
  obtain ⟨ran, lexical⟩ := Prod.mk.inj eq
  obtain ⟨mp, ran, at_mp⟩ := Option.map_eq_some_iff.mp ran
  obtain ⟨m, lexical, at_m⟩ := Option.map_eq_some_iff.mp lexical
  exact ⟨s, _, mp, m, loaded_prepared load, rfl, ran, at_mp, lexical, at_m⟩

/-- On an instance of the third class the call in the second runs the method it is in. -/
theorem basecall_broken :
    ∃ (s : Session) (q : Qinterp) (mp : JsMethod), Prepared plainHost s ∧
      q.classOf 0 = some 3 ∧
        firstMethod (q.callBaseMethod (s.env plainHost) (interp (s.env plainHost) 20) 0
          "m:Ivv".toList) = some mp ∧ mp.myclass = 2 ∧
            (s.env plainHost).baseMethod 2 "m:Ivv".toList ≠ some mp := by
  have calls : baseCall threeClasses 3 = some (some 2, some 1) := by
    rw [show threeClasses = _ from toList_three _ _ _]
    decide +kernel
  obtain ⟨s, q, mp, m, prepared, instance_, ran, at_mp, lexical, at_m⟩ := baseCall_some calls
  refine ⟨s, q, mp, prepared, instance_, ran, at_mp, fun same => ?_⟩
  rw [lexical] at same
  cases same
  exact absurd (at_mp.symm.trans at_m) (by decide)

/-- On an instance of the second class it runs that of the first. -/
theorem basecall_iff_own :
    ∃ (s : Session) (q : Qinterp) (mp : JsMethod), Prepared plainHost s ∧
      q.classOf 0 = some 2 ∧ (s.env plainHost).baseMethod 2 "m:Ivv".toList = some mp := by
  have calls : baseCall threeClasses 2 = some (some 1, some 1) := by
    rw [show threeClasses = _ from toList_three _ _ _]
    decide +kernel
  obtain ⟨s, q, mp, m, prepared, instance_, ran, _, lexical, _⟩ := baseCall_some calls
  have based : ((s.env plainHost).baseOf 2).isSome := by
    cases none : (s.env plainHost).baseOf 2 with
    | none =>
        rw [Env.baseMethod, none] at lexical
        cases lexical
    | some base => rfl
  exact ⟨s, q, mp, prepared, instance_, (basecall_iff 2 instance_ ran).2 (.inl ⟨rfl, based⟩)⟩

end Jspp.Kernel
