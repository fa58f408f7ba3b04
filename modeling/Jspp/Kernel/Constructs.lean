/-
# Kernel.Constructs -- which constructors OP_CONSTRUCT runs

`callConstructors` constructs the base class first, with as many arguments.  Where a base class
has no constructor for them, or that constructor ends with an error, it starts again there without
arguments, and so with the base classes of that class, which were constructed already.

* `callsAt`: the calls of a log that were made from a depth of frames.
* `Again`: the classes at which the construction starts again.
* `Once`: none of them stands behind a constructor that would run twice.
* `constructed_once_iff`: what a construction without an error ran.
-/
import Jspp.Kernel.Basecalls
import Jspp.Kernel.Instances

namespace Jspp.Kernel

open Jspp.Compiler Jspp.Theory

set_option autoImplicit false

/-! ## Base chains and constructors -/

/-- The base classes of a class, the topmost first. -/
inductive Chain (env : Env) : List Nat → Nat → Prop where
  | root {c : Nat} {jsp : JsClass} (class_ : env.classes[c]? = some jsp)
      (top : jsp.baseclass = none) : Chain env [] c
  | next {bases : List Nat} {c b : Nat} {jsp : JsClass} (class_ : env.classes[c]? = some jsp)
      (based : jsp.baseclass = some b) (rest : Chain env bases b) : Chain env (bases ++ [b]) c

theorem Chain.found {env : Env} {bases : List Nat} {c : Nat} (chain : Chain env bases c) :
    ∃ jsp, env.classes[c]? = some jsp := by
  cases chain with
  | root class_ => exact ⟨_, class_⟩
  | next class_ => exact ⟨_, class_⟩

/-- The constructor of a class with that many arguments, as an instance of class `d` finds it. -/
def Env.constructorOf (env : Env) (d n c : Nat) : Option JsMethod :=
  (env.classes[c]?).bind fun jsp => env.findMethod d (Qinterp.classConstructorSig jsp n)

/-- The constructor that a base class is due: the one for the arguments, or else the one without. -/
def Env.due (env : Env) (d n c : Nat) : Option JsMethod :=
  (env.constructorOf d n c).or (env.constructorOf d 0 c)

/-- What is called from the frame at that depth, in order. -/
def callsAt (n : Nat) (log : List Event) : List JsMethod :=
  log.filterMap fun
    | .invoke mp q => if q.frames.length = n + 1 then some mp else none
    | .fetch _ _ => none

theorem callsAt_append (n : Nat) (log log' : List Event) :
    callsAt n (log ++ log') = callsAt n log ++ callsAt n log' :=
  List.filterMap_append

theorem filterMap_concat {α β : Type} (f : α → Option β) (l : List α) (a : α) :
    (l ++ [a]).filterMap f = l.filterMap f ++ (f a).toList := by
  rw [List.filterMap_append]
  cases h : f a <;> simp [h]

/-- Calls in higher frames are not counted. -/
theorem callsAt_above {n : Nat} {log : List Event} (above : ∀ e ∈ log, e.Above (n + 1)) :
    callsAt n log = [] := by
  refine List.filterMap_eq_nil_iff.mpr fun e mem => ?_
  have higher := above e mem
  cases e with
  | fetch base q => rfl
  | invoke mp q =>
      have other : q.frames.length ≠ n + 1 := Nat.ne_of_gt higher
      exact if_neg other

theorem Inner.above {α : Type} {n : Nat} {q : Qinterp} {t : Traced Event (Qinterp × α)}
    (h : Inner n q t) : ∀ e ∈ t.log, e.Above n :=
  h.log.all fun _ _ => trivial

theorem Inner.extends {α : Type} {n : Nat} {q : Qinterp} {t : Traced Event (Qinterp × α)}
    (h : Inner n q t) {r : Qinterp × α} (done : t.ending = .done r) : Extends q r.1 :=
  h.result r done fun _ _ => trivial

namespace Qinterp

variable {env : Env} {run : Run}

/-- A call calls its method from the depth of the caller. -/
theorem callMethod_calls (good : RunInner run) (keeps : env.KeepsInstances) {jsp : Nat}
    {mp : JsMethod} {nopop : Bool} {q : Qinterp} {r : Qinterp × InterpErrors}
    (done : ((q.enterFrame jsp).callMethod env run mp nopop).ending = .done r) :
    callsAt q.frames.length ((q.enterFrame jsp).callMethod env run mp nopop).log = [mp] := by
  unfold callMethod at done ⊢
  obtain ⟨q₁, setup, rest⟩ := Traced.ending_bind done
  have depth : q₁.frames.length = q.frames.length + 1 := by
    cases start : (((q.enterFrame jsp).setMethod mp).onAct fun a => some (a.enterBlock 0)).bind
        (setLocals mp nopop) with
    | none =>
        rw [start] at setup
        cases setup
    | some q' =>
        rw [start] at setup
        cases setup
        exact (setup_extends start).1
  obtain ⟨⟨q₂, err⟩, ran, left⟩ := Traced.ending_bind rest
  have inner := runMethod_inner good keeps mp q₁
  rw [depth] at inner
  have left_log : ∀ (o : Option Qinterp),
      ((Traced.ofOption o).bind fun q => (Traced.pure (q, err) : Traced Event _)).log = [] := by
    intro o
    cases o <;> rfl
  have log : ∀ left : Qinterp × InterpErrors → Traced Event (Qinterp × InterpErrors),
      (left (q₂, err)).log = [] →
        ((runMethod env run mp q₁).bind left).log = (runMethod env run mp q₁).log := by
    intro left silent
    rw [Traced.bind_done ran]
    show _ ++ (left (q₂, err)).log = _
    rw [silent, List.append_nil]
  have nothing : (Traced.ofOption
      (((q.enterFrame jsp).setMethod mp).onAct (fun a => some (a.enterBlock 0)) |>.bind
        (setLocals mp nopop)) : Traced Event Qinterp).log = [] := by
    cases (((q.enterFrame jsp).setMethod mp).onAct (fun a => some (a.enterBlock 0))).bind
      (setLocals mp nopop) <;> rfl
  rw [Traced.bind_done setup, nothing, List.nil_append, Traced.log_note, log _ (left_log _)]
  show callsAt q.frames.length ([Event.invoke mp q₁] ++ _) = _
  rw [callsAt_append, callsAt_above inner.above, List.append_nil]
  simp [callsAt, depth]

/-- A call of a method calls what was found. -/
theorem callInstMethod_calls (good : RunInner run) (keeps : env.KeepsInstances) {inst d : Nat}
    {sig : List Char} {nopop : Bool} {q : Qinterp} {r : Qinterp × InterpErrors}
    (class_ : q.classOf inst = some d)
    (done : (q.callInstMethod env run inst sig nopop).ending = .done r) :
    callsAt q.frames.length (q.callInstMethod env run inst sig nopop).log =
        (env.findMethod d sig).toList ∧
      (env.findMethod d sig = none → r.2 ≠ .none) := by
  cases found : env.findMethod d sig with
  | none =>
      simp only [callInstMethod, class_, callIn, found] at done ⊢
      obtain ⟨q', leave, eq⟩ := Traced.ending_bind done
      cases eq
      refine ⟨?_, fun _ => InterpErrors.noConfusion⟩
      rw [Traced.bind_done leave, Traced.log_pure, List.append_nil]
      cases (leaveFrame nopop _) <;> rfl
  | some mp =>
      rw [callInstMethod_found class_ found] at done ⊢
      refine ⟨callMethod_calls good keeps done, fun missing => ?_⟩
      cases missing

/-! ## One class of the chain -/

/-- The construction of the base class. -/
def constructBase (env : Env) (run : Run) (inst n c argcount : Nat) (q : Qinterp) :
    Traced Event (Qinterp × InterpErrors) :=
  match env.baseOf c with
  | none => .pure (q, .none)
  | some base => q.callConstructors env run inst n base argcount

/-- What `callConstructors` lets pass. -/
def Passed (argcount : Nat) (err : InterpErrors) : Prop :=
  err = .none ∨ (argcount = 0 ∧ err = .unknownMethod)

instance (argcount : Nat) (err : InterpErrors) : Decidable (Passed argcount err) :=
  inferInstanceAs (Decidable (_ ∨ _))

/-- What `callConstructors` does when the constructor of the class was called. -/
def afterConstructor (env : Env) (run : Run) (inst n c argcount : Nat)
    (r : Qinterp × InterpErrors) : Traced Event (Qinterp × InterpErrors) :=
  if ¬ Passed argcount r.2 then
    if r.1.classOf inst ≠ some c ∧ argcount ≠ 0 then r.1.callConstructors env run inst n c 0
    else .pure r
  else if r.1.classOf inst = some c then
    if argcount ≤ r.1.stack.length then
      .pure ({ r.1 with stack := r.1.stack.drop argcount }, .none)
    else .fault
  else .pure (r.1, .none)

theorem constructBase_root {inst n c argcount : Nat} {q : Qinterp} {jsp : JsClass}
    (class_ : env.classes[c]? = some jsp) (top : jsp.baseclass = none) :
    constructBase env run inst n c argcount q = .pure (q, .none) := by
  rw [constructBase, Env.baseOf, class_, Option.bind_some, top]

theorem constructBase_next {inst n c b argcount : Nat} {q : Qinterp} {jsp : JsClass}
    (class_ : env.classes[c]? = some jsp) (based : jsp.baseclass = some b) :
    constructBase env run inst n c argcount q = q.callConstructors env run inst n b argcount := by
  rw [constructBase, Env.baseOf, class_, Option.bind_some, based]

theorem callConstructors_eq {inst n c argcount : Nat} {q : Qinterp} {jsp : JsClass}
    (class_ : env.classes[c]? = some jsp) :
    q.callConstructors env run inst (n + 1) c argcount =
      (constructBase env run inst n c argcount q).bind fun r =>
        if r.2 ≠ .none then .pure r
        else (r.1.callInstMethod env run inst (classConstructorSig jsp argcount) true).bind
          (afterConstructor env run inst n c argcount) := by
  have base : env.baseOf c = jsp.baseclass := by
    rw [Env.baseOf, class_]
    rfl
  rw [callConstructors, constructBase, base]
  simp only [class_]
  rfl

/-- More room does not change a construction that ends. -/
theorem callConstructors_mono {inst n m c argcount : Nat} {q : Qinterp}
    {r : Qinterp × InterpErrors} (le : n ≤ m)
    (done : (q.callConstructors env run inst n c argcount).ending = .done r) :
    q.callConstructors env run inst m c argcount =
      q.callConstructors env run inst n c argcount := by
  induction n generalizing m c argcount q r with
  | zero => cases done
  | succ n ih =>
      obtain ⟨m, rfl⟩ : ∃ k, m = k + 1 := ⟨m - 1, by omega⟩
      have le' : n ≤ m := Nat.le_of_succ_le_succ le
      cases class_ : env.classes[c]? with
      | none =>
          rw [callConstructors, class_] at done
          cases done
      | some jsp =>
          rw [callConstructors_eq class_] at done ⊢
          rw [callConstructors_eq class_]
          obtain ⟨r₁, first, rest⟩ := Traced.ending_bind done
          have base : constructBase env run inst m c argcount q =
              constructBase env run inst n c argcount q := by
            unfold constructBase at first ⊢
            split
            · rfl
            · rename_i based
              rw [based] at first
              exact ih le' first
          rw [base, Traced.bind_done first, Traced.bind_done first]
          split
          · rfl
          · rename_i clean
            rw [if_neg clean] at rest
            obtain ⟨r₂, called, after⟩ := Traced.ending_bind rest
            have same : afterConstructor env run inst m c argcount r₂ =
                afterConstructor env run inst n c argcount r₂ := by
              unfold afterConstructor at after ⊢
              split
              · rename_i failed
                rw [if_pos failed] at after
                split
                · rename_i again
                  rw [if_pos again] at after
                  exact ih le' after
                · rfl
              · rfl
            rw [Traced.bind_done called, Traced.bind_done called, same]

theorem constructBase_mono {inst n m c argcount : Nat} {q : Qinterp}
    {r : Qinterp × InterpErrors} (le : n ≤ m)
    (done : (constructBase env run inst n c argcount q).ending = .done r) :
    constructBase env run inst m c argcount q = constructBase env run inst n c argcount q := by
  unfold constructBase at done ⊢
  split
  · rfl
  · rename_i based
    rw [based] at done
    exact callConstructors_mono le done

theorem constructBase_inner (good : RunInner run) (keeps : env.KeepsInstances)
    (inst n c argcount : Nat) (q : Qinterp) :
    Inner q.frames.length q (constructBase env run inst n c argcount q) := by
  unfold constructBase
  split
  · exact .pure (.refl q) _
  · exact callConstructors_inner good keeps _ _ _ _ _

/-- The construction starts again at that class: its constructor, called when its base class was
constructed, is missing or ends with an error. -/
def Again (env : Env) (run : Run) (inst argcount : Nat) (q : Qinterp) (c : Nat) : Prop :=
  ∃ n q₁ jsp r, (constructBase env run inst n c argcount q).ending = .done (q₁, .none) ∧
    env.classes[c]? = some jsp ∧
    (q₁.callInstMethod env run inst (classConstructorSig jsp argcount) true).ending = .done r ∧
    r.2 ≠ .none

theorem again_iff {inst n c argcount : Nat} {q q₁ : Qinterp} {jsp : JsClass}
    {r : Qinterp × InterpErrors} (class_ : env.classes[c]? = some jsp)
    (first : (constructBase env run inst n c argcount q).ending = .done (q₁, .none))
    (called : (q₁.callInstMethod env run inst (classConstructorSig jsp argcount) true).ending =
      .done r) : Again env run inst argcount q c ↔ r.2 ≠ .none := by
  constructor
  · rintro ⟨m, q₁', jsp', r', first', class', called', failed⟩
    have more := constructBase_mono (Nat.le_max_left n m) first
    have more' := constructBase_mono (Nat.le_max_right n m) first'
    rw [← more, more', first'] at first
    cases first
    rw [class_] at class'
    cases class'
    rw [called] at called'
    cases called'
    exact failed
  · exact fun failed => ⟨n, q₁, jsp, r, first, class_, called, failed⟩

/-- What a construction without an error calls for one class. -/
theorem constructed_class (good : RunInner run) (keeps : env.KeepsInstances)
    {inst n c d argcount : Nat} {q q' : Qinterp} {jsp : JsClass}
    (class_ : env.classes[c]? = some jsp) (instance_ : q.classOf inst = some d)
    (done : (q.callConstructors env run inst (n + 1) c argcount).ending = .done (q', .none)) :
    ∃ q₁ r, (constructBase env run inst n c argcount q).ending = .done (q₁, .none) ∧
      (q₁.callInstMethod env run inst (classConstructorSig jsp argcount) true).ending = .done r ∧
      (env.constructorOf d argcount c = none → r.2 ≠ .none) ∧
      ((Passed argcount r.2 ∧
        callsAt q.frames.length (q.callConstructors env run inst (n + 1) c argcount).log =
          callsAt q.frames.length (constructBase env run inst n c argcount q).log ++
            (env.constructorOf d argcount c).toList) ∨
      (¬ Passed argcount r.2 ∧ argcount ≠ 0 ∧ c ≠ d ∧ r.1.classOf inst = some d ∧
        r.1.frames.length = q.frames.length ∧
        (r.1.callConstructors env run inst n c 0).ending = .done (q', .none) ∧
        callsAt q.frames.length (q.callConstructors env run inst (n + 1) c argcount).log =
          callsAt q.frames.length (constructBase env run inst n c argcount q).log ++
            ((env.constructorOf d argcount c).toList ++
              callsAt q.frames.length (r.1.callConstructors env run inst n c 0).log))) := by
  rw [callConstructors_eq class_] at done ⊢
  obtain ⟨⟨q₁, err₁⟩, first, rest⟩ := Traced.ending_bind done
  have clean : err₁ = .none := by
    by_contra failed
    rw [if_pos failed] at rest
    cases rest
    exact failed rfl
  subst clean
  have extends₁ : Extends q q₁ := (constructBase_inner good keeps _ _ _ _ _).extends first
  rw [if_neg (fun failed => failed rfl)] at rest
  obtain ⟨r, called, after⟩ := Traced.ending_bind rest
  have extends₂ : Extends q₁ r.1 :=
    (callInstMethod_inner good keeps _ _ _ _).extends called
  have whole := extends₁.trans extends₂
  obtain ⟨calls, missing⟩ := callInstMethod_calls good keeps (extends₁.classOf instance_) called
  have own : env.constructorOf d argcount c =
      env.findMethod d (classConstructorSig jsp argcount) := by
    rw [Env.constructorOf, class_]
    rfl
  rw [extends₁.depth, ← own] at calls
  refine ⟨q₁, r, first, called, own ▸ missing, ?_⟩
  rw [Traced.bind_done first]
  simp only [if_neg (fun failed : InterpErrors.none ≠ .none => failed rfl)]
  rw [Traced.bind_done called]
  simp only [callsAt_append, calls]
  unfold afterConstructor at after ⊢
  by_cases passed : Passed argcount r.2
  · refine .inl ⟨passed, ?_⟩
    rw [if_neg (fun failed => failed passed)]
    have quiet : callsAt q.frames.length (if r.1.classOf inst = some c then
        if argcount ≤ r.1.stack.length then
          .pure ({ r.1 with stack := r.1.stack.drop argcount }, .none)
        else .fault
        else .pure (r.1, .none) : Traced Event (Qinterp × InterpErrors)).log = [] := by
      split
      · split <;> rfl
      · rfl
    rw [quiet, List.append_nil]
  · rw [if_pos passed] at after ⊢
    by_cases again : r.1.classOf inst ≠ some c ∧ argcount ≠ 0
    · rw [if_pos again] at after ⊢
      have other : c ≠ d := by
        rintro rfl
        exact again.1 (whole.classOf instance_)
      exact .inr ⟨passed, again.2, other, whole.classOf instance_, whole.depth, after, rfl⟩
    · rw [if_neg again] at after
      cases after
      exact absurd (.inl rfl) passed

/-- A construction without arguments calls what each class declares. -/
theorem constructed_zero (good : RunInner run) (keeps : env.KeepsInstances) {bases : List Nat}
    {inst n c d : Nat} {q q' : Qinterp} (chain : Chain env bases c)
    (instance_ : q.classOf inst = some d)
    (done : (q.callConstructors env run inst n c 0).ending = .done (q', .none)) :
    callsAt q.frames.length (q.callConstructors env run inst n c 0).log =
      (bases ++ [c]).filterMap (env.constructorOf d 0) := by
  induction chain generalizing n q' with
  | root class_ top =>
      cases n with
      | zero => cases done
      | succ n =>
          obtain ⟨q₁, r, -, -, -, ⟨-, calls⟩ | ⟨-, more, -⟩⟩ :=
            constructed_class good keeps class_ instance_ done
          · rw [calls, constructBase_root class_ top, filterMap_concat]
            rfl
          · exact absurd rfl more
  | next class_ based rest ih =>
      cases n with
      | zero => cases done
      | succ n =>
          obtain ⟨q₁, r, first, -, -, ⟨-, calls⟩ | ⟨-, more, -⟩⟩ :=
            constructed_class good keeps class_ instance_ done
          · rw [constructBase_next class_ based] at calls first
            rw [calls, ih first, filterMap_concat _ (_ ++ [_])]
          · exact absurd rfl more

end Qinterp

/-! ## Once each -/

/-- Where the construction starts again, no class in front has a constructor without arguments,
nor has the class itself when its other constructor was called. -/
def Once (env : Env) (d argcount : Nat) (again : Nat → Prop) (bases : List Nat) : Prop :=
  ∀ above c below, bases = above ++ c :: below → again c →
    (∀ b ∈ above, env.constructorOf d 0 b = none) ∧
      (env.constructorOf d argcount c ≠ none → env.constructorOf d 0 c = none)

theorem once_nil (env : Env) (d argcount : Nat) (again : Nat → Prop) :
    Once env d argcount again [] := by
  intro above c below eq
  simp at eq

theorem once_concat {env : Env} {d argcount c : Nat} {again : Nat → Prop} {bases : List Nat} :
    Once env d argcount again (bases ++ [c]) ↔ Once env d argcount again bases ∧
      (again c → (∀ b ∈ bases, env.constructorOf d 0 b = none) ∧
        (env.constructorOf d argcount c ≠ none → env.constructorOf d 0 c = none)) := by
  constructor
  · intro once
    refine ⟨fun above c' below eq => ?_, once bases c [] rfl⟩
    exact once above c' (below ++ [c]) (by rw [eq, List.append_assoc]; rfl)
  · rintro ⟨once, last⟩ above c' below eq
    rcases List.eq_nil_or_concat below with rfl | ⟨below', x, rfl⟩
    · obtain ⟨rfl, single⟩ := List.append_inj' eq rfl
      cases single
      exact last
    · have split_ : bases ++ [c] = (above ++ c' :: below') ++ [x] := by
        rw [eq, List.concat_eq_append, List.append_assoc]
        rfl
      exact once above c' below' (List.append_inj' split_ rfl).1

/-- The calls for a class at which the construction starts again, beside what they should be. -/
theorem again_calls {ran due zeros : List JsMethod} {own zero : Option JsMethod}
    (le : due.length ≤ ran.length) :
    (due ++ (own.or zero).toList).length ≤
        (ran ++ (own.toList ++ (zeros ++ zero.toList))).length ∧
      (ran ++ (own.toList ++ (zeros ++ zero.toList)) = due ++ (own.or zero).toList ↔
        ran = due ∧ zeros = [] ∧ (own ≠ none → zero = none)) := by
  cases own with
  | none =>
      refine ⟨?_, ?_, ?_⟩
      · simp only [Option.none_or, Option.toList_none, List.nil_append, List.length_append]
        omega
      · intro eq
        have len := congrArg List.length eq
        simp only [Option.none_or, Option.toList_none, List.nil_append, List.length_append] at len
        obtain rfl : zeros = [] := List.length_eq_zero_iff.mp (by omega)
        exact ⟨List.append_cancel_right eq, rfl, fun some => absurd rfl some⟩
      · rintro ⟨rfl, rfl, -⟩
        rfl
  | some x =>
      refine ⟨?_, ?_, ?_⟩
      · simp only [Option.some_or, Option.toList_some, List.length_append]
        omega
      · intro eq
        have len := congrArg List.length eq
        simp only [Option.some_or, Option.toList_some, List.length_append, List.length_cons,
          List.length_nil] at len
        obtain rfl : zeros = [] := List.length_eq_zero_iff.mp (by omega)
        cases zero with
        | none => exact ⟨List.append_cancel_right eq, rfl, fun _ => rfl⟩
        | some z =>
            simp only [Option.toList_some, List.length_cons, List.length_nil] at len
            omega
      · rintro ⟨rfl, rfl, none⟩
        rw [none nofun]
        rfl

namespace Qinterp

variable {env : Env} {run : Run}

/-- One class more: what was called for its base classes is carried on. -/
theorem constructed_step (good : RunInner run) (keeps : env.KeepsInstances) {bases : List Nat}
    {inst n c d argcount : Nat} {q q' : Qinterp} {jsp : JsClass} (args : argcount ≠ 0)
    (class_ : env.classes[c]? = some jsp) (chain : Chain env bases c)
    (instance_ : q.classOf inst = some d)
    (done : (q.callConstructors env run inst (n + 1) c argcount).ending = .done (q', .none))
    (le : (bases.filterMap (env.due d argcount)).length ≤
      (callsAt q.frames.length (constructBase env run inst n c argcount q).log).length)
    (same : callsAt q.frames.length (constructBase env run inst n c argcount q).log =
        bases.filterMap (env.due d argcount) ↔
      Once env d argcount (Again env run inst argcount q) bases) :
    ((bases ++ [c]).filterMap (env.due d argcount)).length ≤
        (callsAt q.frames.length
          (q.callConstructors env run inst (n + 1) c argcount).log).length ∧
      (callsAt q.frames.length (q.callConstructors env run inst (n + 1) c argcount).log =
        (bases ++ [c]).filterMap (env.due d argcount) ↔
      Once env d argcount (Again env run inst argcount q) (bases ++ [c])) := by
  obtain ⟨q₁, r, first, called, missing, ⟨passed, calls⟩ |
    ⟨failed, -, -, instance', depth, done', calls⟩⟩ :=
      constructed_class good keeps class_ instance_ done
  · have clean : r.2 = .none := passed.resolve_right fun h => args h.1
    obtain ⟨mp, own⟩ : ∃ mp, env.constructorOf d argcount c = some mp :=
      Option.ne_none_iff_exists'.mp fun h => missing h clean
    have due : env.due d argcount c = some mp := by
      rw [Env.due, own]
      rfl
    rw [calls, filterMap_concat, once_concat, again_iff class_ first called, due, own]
    refine ⟨by simpa using le, ?_⟩
    rw [List.append_left_inj, same]
    exact ⟨fun once => ⟨once, fun failed => absurd clean failed⟩, And.left⟩
  · have zeros := constructed_zero good keeps chain instance' done'
    rw [depth, filterMap_concat] at zeros
    have failed' : r.2 ≠ .none := fun clean => failed (.inl clean)
    obtain ⟨longer, iff_⟩ := @again_calls _ _ (bases.filterMap (env.constructorOf d 0))
      (env.constructorOf d argcount c) (env.constructorOf d 0 c) le
    rw [calls, zeros, filterMap_concat, once_concat, again_iff class_ first called]
    refine ⟨longer, iff_.trans ?_⟩
    rw [same, List.filterMap_eq_nil_iff]
    exact ⟨fun ⟨once, quiet⟩ => ⟨once, fun _ => quiet⟩, fun ⟨once, quiet⟩ => ⟨once, quiet failed'⟩⟩

/-- A construction with arguments calls what each class is due exactly when it starts again only
where nothing runs twice. -/
theorem constructed_some (good : RunInner run) (keeps : env.KeepsInstances) {bases : List Nat}
    {inst n c d argcount : Nat} {q q' : Qinterp} (args : argcount ≠ 0) (chain : Chain env bases c)
    (instance_ : q.classOf inst = some d)
    (done : (q.callConstructors env run inst n c argcount).ending = .done (q', .none)) :
    ((bases ++ [c]).filterMap (env.due d argcount)).length ≤
        (callsAt q.frames.length (q.callConstructors env run inst n c argcount).log).length ∧
      (callsAt q.frames.length (q.callConstructors env run inst n c argcount).log =
        (bases ++ [c]).filterMap (env.due d argcount) ↔
      Once env d argcount (Again env run inst argcount q) (bases ++ [c])) := by
  induction chain generalizing n q' with
  | @root c jsp class_ top =>
      cases n with
      | zero => cases done
      | succ n =>
          refine constructed_step good keeps args class_ (.root class_ top) instance_ done ?_ ?_
          · rw [constructBase_root class_ top]
            exact Nat.le_refl 0
          · rw [constructBase_root class_ top]
            exact iff_of_true rfl (once_nil _ _ _ _)
  | @next bases c b jsp class_ based rest ih =>
      cases n with
      | zero => cases done
      | succ n =>
          obtain ⟨q₁, r, first, -⟩ := constructed_class good keeps class_ instance_ done
          rw [constructBase_next class_ based] at first
          obtain ⟨le, same⟩ := ih first
          refine constructed_step good keeps args class_ (.next class_ based rest) instance_ done
            ?_ ?_
          · rw [constructBase_next class_ based]
            exact le
          · rw [constructBase_next class_ based]
            exact same

end Qinterp

/-! ## OP_CONSTRUCT -/

/-- A new instance of class `d` with arguments for its constructor. -/
def newInstance (s : Session) (d argcount : Nat) : Qinterp where
  frames := []
  stack := List.replicate argcount (.int 1) ++ [.inst 0]
  store := ⟨fun _ => .void, [⟨d, 0⟩]⟩
  linenum := s.q.linenum

def constructing (s : Session) (d argcount : Nat) : Traced Event (Qinterp × InterpErrors) :=
  (newInstance s d argcount).dispatch (s.env plainHost) (interp (s.env plainHost) 40) 40
    .construct [] argcount 0

/-- What the base classes below `d` and class `d` are due with one argument. -/
def dueOne (s : Session) (d : Nat) : List JsMethod :=
  (List.range d).filterMap ((s.env plainHost).due d 1) ++
    ((s.env plainHost).constructorOf d 1 d).toList

/-- A construction with one argument: the base classes of all classes, how it ends, and the
signatures of what it calls, of what is due, and of the constructors of base classes without
arguments. -/
structure Constructed where
  bases : List (Option Nat)
  err : Option InterpErrors
  calls : List (List Char)
  due : List (List Char)
  zeros : List (List Char)
  deriving DecidableEq

def constructed (text : List Char) (d : Nat) : Option Constructed :=
  (loaded text).map fun s =>
    { bases := s.classes.map JsClass.baseclass
      err := (constructing s d 1).result?.map Prod.snd
      calls := (callsAt 0 (constructing s d 1).log).map JsMethod.sig
      due := (dueOne s d).map JsMethod.sig
      zeros :=
        ((List.range d).filterMap ((s.env plainHost).constructorOf d 0)).map JsMethod.sig }

theorem constructed_eq {text : List Char} {d : Nat} {bases : List (Option Nat)}
    {sigs due zeros : List (List Char)}
    (h : constructed text d = some ⟨bases, some .none, sigs, due, zeros⟩) :
    ∃ s q', Prepared plainHost s ∧ s.classes.map JsClass.baseclass = bases ∧
      (constructing s d 1).ending = .done (q', .none) ∧
      (callsAt 0 (constructing s d 1).log).map JsMethod.sig = sigs ∧
      (dueOne s d).map JsMethod.sig = due ∧
      ((List.range d).filterMap ((s.env plainHost).constructorOf d 0)).map JsMethod.sig =
        zeros := by
  obtain ⟨s, load, eq⟩ := Option.map_eq_some_iff.mp h
  obtain ⟨based, ended, calls, dues, none_⟩ := Constructed.mk.inj eq
  obtain ⟨⟨q', err⟩, done, rfl⟩ := Option.map_eq_some_iff.mp ended
  refine ⟨s, q', loaded_prepared load, based, ?_, calls, dues, none_⟩
  unfold Traced.result? at done
  split at done
  · rename_i r ending
    cases done
    exact ending
  · cases done

theorem class_of_bases {s : Session} {bases : List (Option Nat)} {c : Nat} {base : Option Nat}
    (based : s.classes.map JsClass.baseclass = bases) (there : bases[c]? = some base) :
    ∃ jsp, (s.env plainHost).classes[c]? = some jsp ∧ jsp.baseclass = base := by
  rw [← based, List.getElem?_map] at there
  exact Option.map_eq_some_iff.mp there

/-- A chain in which the class in the middle has no constructor. -/
def gapProgram : List Char :=
  ("class B { public B() { } } " ++ "class M : B { } " ++
    "class A : M { public A(x) { } public static main() { return 1; } }").toList

/-- A chain of two classes with a constructor each. -/
def pairProgram : List Char :=
  ("class B { public B(x) { } } " ++
    "class A : B { public A(x) { } public static main() { return 1; } }").toList

end Jspp.Kernel
