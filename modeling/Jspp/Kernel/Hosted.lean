/-
# Kernel.Hosted -- instances that are created from native code

`createJSClassInstance` creates the instance as OP_NEW does, and then calls the
constructors itself: the one of the class first, then those of its base classes up to
the topmost.  OP_CONSTRUCT begins at the topmost.

* `createJSClassInstance`, `scripted`: from native code, and OP_NEW with OP_CONSTRUCT.
* `callInstMethod_unfound`: a constructor that is missing leaves no trace.
* `callConstructors_zero`, `hostConstructors_zero`: without arguments the same
  constructors, in opposite orders.
* `base_first`: with arguments OP_CONSTRUCT begins with a base class, if one has a constructor.
-/
import Jspp.Kernel.Constructs
import Jspp.Kernel.Natives
import Jspp.Kernel.Straight

namespace Jspp.Theory

set_option autoImplicit false

namespace Traced

theorem bind_congr {E : Type} {α β : Type} {t : Traced E α} {f g : α → Traced E β}
    (same : ∀ a, t.ending = .done a → f a = g a) : t.bind f = t.bind g := by
  cases ending : t.ending with
  | done a => rw [bind_done ending, bind_done ending, same a ending]
  | fault => simp only [bind, ending]
  | timeout => simp only [bind, ending]

theorem log_bind {E : Type} {α β : Type} (t : Traced E α) (f : α → Traced E β) :
    ∃ more, (t.bind f).log = t.log ++ more := by
  cases ending : t.ending with
  | done a => exact ⟨_, by rw [bind_done ending]⟩
  | fault => exact ⟨[], by simp only [bind, ending, List.append_nil]⟩
  | timeout => exact ⟨[], by simp only [bind, ending, List.append_nil]⟩

end Traced

end Jspp.Theory

namespace Jspp.Kernel

open Jspp.Compiler Jspp.Theory

set_option autoImplicit false

/-! ## The constructors of a chain -/

/-- The constructors for the arguments, and those without, of classes in a list. -/
def Env.BaseConstructor (env : Env) (d argc : Nat) (classes : List Nat) (mp : JsMethod) : Prop :=
  ∃ c ∈ classes, env.constructorOf d argc c = some mp ∨ env.constructorOf d 0 c = some mp

/-- None of the classes has a constructor that a construction with arguments calls. -/
def Env.Silent (env : Env) (d argc : Nat) (classes : List Nat) : Prop :=
  ∀ c ∈ classes, env.constructorOf d argc c = none ∧ env.constructorOf d 0 c = none

theorem Chain.unique {env : Env} {bases bases' : List Nat} {c : Nat} (chain : Chain env bases c)
    (chain' : Chain env bases' c) : bases = bases' := by
  induction chain generalizing bases' with
  | root class_ top =>
      cases chain' with
      | root => rfl
      | next class' based =>
          cases class_.symm.trans class'
          cases top.symm.trans based
  | next class_ based rest ih =>
      cases chain' with
      | root class' top =>
          cases class_.symm.trans class'
          cases top.symm.trans based
      | next class' based' rest' =>
          cases class_.symm.trans class'
          cases based.symm.trans based'
          rw [ih rest']

theorem Chain.inside {env : Env} {bases : List Nat} {b c : Nat} (chain : Chain env bases c)
    (mem : b ∈ bases) : ∃ above, Chain env above b ∧ above.length < bases.length := by
  induction chain with
  | root => cases mem
  | @next bases _ b' _ _ _ rest ih =>
      have longer : bases.length < (bases ++ [b']).length := by simp
      rcases List.mem_append.mp mem with mem | mem
      · obtain ⟨above, chain, less⟩ := ih mem
        exact ⟨above, chain, less.trans longer⟩
      · cases List.mem_singleton.mp mem
        exact ⟨bases, rest, longer⟩

/-- A class is not its own base class. -/
theorem Chain.not_mem {env : Env} {bases : List Nat} {c : Nat} (chain : Chain env bases c) :
    c ∉ bases := by
  intro mem
  obtain ⟨above, chain', less⟩ := chain.inside mem
  rw [chain.unique chain'] at less
  exact Nat.lt_irrefl _ less

/-! ## Both ways -/

namespace Qinterp

/-- `qinterpCreateJSClassInstance`: the instance is the next one of the store. -/
def qinterpCreateJSClassInstance (env : Env) (run : Run) (fuel : Nat) (name : List Char)
    (q : Qinterp) : Traced Event (Qinterp × InterpErrors) :=
  match env.qinterpFindClass name with
  | none => .pure (q, .classNotFound)
  | some c =>
      match loadBaseFields env fuel c with
      | none => .timeout
      | some slots =>
          ({ q with store := addInst c slots q.store }.callInternalConstructors env run
            q.store.insts.length fuel c).bind fun (q, ok) =>
              .pure (q, if ok then .none else .internalError2)

/-- The loop of `createJSClassInstance` from class `c` on. -/
def hostConstructors (env : Env) (run : Run) (inst argc : Nat) :
    Nat → Nat → Qinterp → Traced Event (Qinterp × InterpErrors)
  | 0, _, _ => .timeout
  | n + 1, c, q =>
      match env.classes[c]? with
      | none => .fault
      | some jsp =>
          let next (q : Qinterp) : Traced Event (Qinterp × InterpErrors) :=
            match jsp.baseclass with
            | none => .pure (q, .none)
            | some base => hostConstructors env run inst argc n base q
          (q.callInstMethod env run inst (classConstructorSig jsp argc) true).bind fun (q, err) =>
            if err = .none then next q
            else if err = .unknownMethod ∧ argc > 0 then
              (q.callInstMethod env run inst (classConstructorSig jsp 0) true).bind fun (q, err) =>
                if err ≠ .none then .pure (q, err) else next q
            -- a missing default constructor
            else if err = .unknownMethod ∧ argc = 0 then next q
            else .pure (q, err)

/-- The instance and its arguments on the operand stack. -/
def pushed (inst : Nat) (args : List Variant) (q : Qinterp) : Qinterp :=
  { q with stack := args.reverse ++ .inst inst :: q.stack }

/-- `createJSClassInstance`, whose first half is that of `qinterpCreateJSClassInstance`. -/
def createJSClassInstance (env : Env) (run : Run) (fuel : Nat) (name : List Char)
    (args : List Variant) (q : Qinterp) : Traced Event (Qinterp × InterpErrors) :=
  match env.qinterpFindClass name with
  | none => .pure (q, .classNotFound)
  | some c =>
      (q.qinterpCreateJSClassInstance env run fuel name).bind fun (q', err) =>
        if err ≠ .none then .pure (q', err)
        else (q'.pushed q.store.insts.length args).hostConstructors env run q.store.insts.length
          args.length fuel c

/-- OP_NEW, the arguments, and OP_CONSTRUCT. -/
def scripted (env : Env) (run : Run) (fuel : Nat) (name : List Char) (args : List Variant)
    (q : Qinterp) : Traced Event (Qinterp × InterpErrors) :=
  (q.qinterpCreateJSClassInstance env run fuel name).bind fun (q', err) =>
    if err ≠ .none then .pure (q', err)
    else (q'.pushed q.store.insts.length args).dispatch env run fuel .construct [] args.length
      q.store.insts.length

variable {env : Env} {run : Run}

/-- OP_NEW leaves the instance on the stack, or raises what it ends with. -/
theorem newOp_eq (fuel : Nat) (name : List Char) (q : Qinterp) :
    q.newOp env run fuel name =
      (q.qinterpCreateJSClassInstance env run fuel name).bind fun (q', err) =>
        .ofOption (q'.onAct fun a =>
          some (if err = .none then a.push (.inst q.store.insts.length) else a.raise err)) := by
  unfold newOp qinterpCreateJSClassInstance
  cases env.qinterpFindClass name with
  | none => simp
  | some c =>
      dsimp only
      cases loadBaseFields env fuel c with
      | none => rfl
      | some slots =>
          dsimp only
          rw [Traced.bind_assoc]
          refine Traced.bind_congr fun ⟨q', ok⟩ _ => ?_
          cases ok <;> simp

/-- A constructor that is missing leaves no trace. -/
theorem callInstMethod_unfound {inst d : Nat} {sig : List Char} {q : Qinterp}
    (class_ : q.classOf inst = some d) (unfound : env.findMethod d sig = none) :
    q.callInstMethod env run inst sig true = .pure (q, .unknownMethod) := by
  have left : (q.enterFrame d).leaveFrame true = some q := by
    show some { q with store := q.store.mapSlots _ 0 0 Variant.varclear } = some q
    rw [mapSlots_empty]
  simp only [callInstMethod, class_, callIn, unfound]
  rw [if_pos trivial, left]
  rfl

/-! ## Constructors without arguments -/

/-- The methods of a list on an instance of class `d`, until one ends with an error.  A method that
ends as an unknown one does is passed over. -/
def inOrder (env : Env) (run : Run) (d : Nat) : List JsMethod → Qinterp →
    Traced Event (Qinterp × InterpErrors)
  | [], q => .pure (q, .none)
  | mp :: rest, q =>
      ((q.enterFrame d).callMethod env run mp true).bind fun r =>
        if Passed 0 r.2 then inOrder env run d rest r.1 else .pure r

theorem inOrder_append (d : Nat) (first second : List JsMethod) (q : Qinterp) :
    inOrder env run d (first ++ second) q =
      (inOrder env run d first q).bind fun r =>
        if r.2 ≠ .none then .pure r else inOrder env run d second r.1 := by
  induction first generalizing q with
  | nil => rfl
  | cons mp first ih =>
      rw [List.cons_append, inOrder, inOrder, Traced.bind_assoc]
      refine Traced.bind_congr fun r _ => ?_
      split
      · exact ih r.1
      · rename_i failed
        have err : r.2 ≠ .none := fun clean => failed (.inl clean)
        rw [Traced.pure_bind, if_pos err]

theorem inOrder_inner (good : RunInner run) (keeps : env.KeepsInstances) (d : Nat)
    (methods : List JsMethod) (q : Qinterp) :
    Inner q.frames.length q (inOrder env run d methods q) := by
  induction methods generalizing q with
  | nil => exact .pure (.refl q) _
  | cons mp rest ih =>
      refine .bind (callMethod_inner good keeps d mp true q) fun r later => ?_
      split
      · exact later.depth ▸ ih r.1
      · exact .pure (.refl r.1) _

theorem constructorOf_class {d c k : Nat} {jsp : JsClass} (class_ : env.classes[c]? = some jsp) :
    env.constructorOf d k c = env.findMethod d (classConstructorSig jsp k) := by
  rw [Env.constructorOf, class_]
  rfl

variable {bases : List Nat} {inst n c d : Nat} {q : Qinterp}

/-- The room that a construction takes that ends. -/
theorem callConstructors_room {argcount : Nat} {r : Qinterp × InterpErrors}
    (chain : Chain env bases c)
    (done : (q.callConstructors env run inst n c argcount).ending = .done r) :
    bases.length < n := by
  induction chain generalizing n q r with
  | root class_ =>
      cases n with
      | zero => cases done
      | succ n => exact Nat.succ_pos n
  | next class_ based rest ih =>
      cases n with
      | zero => cases done
      | succ n =>
          rw [callConstructors_eq class_] at done
          obtain ⟨r₁, first, -⟩ := Traced.ending_bind done
          rw [constructBase_next class_ based] at first
          have room := ih first
          rw [List.length_append]
          exact Nat.succ_lt_succ room

/-- The constructor of one class. -/
theorem afterConstructor_zero {jsp : JsClass} (class_ : env.classes[c]? = some jsp)
    (instance_ : q.classOf inst = some d) :
    (q.callInstMethod env run inst (classConstructorSig jsp 0) true).bind
        (afterConstructor env run inst n c 0) =
      inOrder env run d (env.constructorOf d 0 c).toList q := by
  have stop : ∀ r : Qinterp × InterpErrors, afterConstructor env run inst n c 0 r =
      if Passed 0 r.2 then .pure (r.1, .none) else .pure r := by
    intro r
    unfold afterConstructor
    by_cases passed : Passed 0 r.2
    · rw [if_neg (not_not_intro passed), if_pos passed, if_pos (Nat.zero_le _)]
      split <;> rfl
    · rw [if_pos passed, if_neg passed, if_neg (fun h => h.2 rfl)]
  cases own : env.constructorOf d 0 c with
  | none =>
      rw [constructorOf_class class_] at own
      rw [callInstMethod_unfound instance_ own, Traced.pure_bind, stop, if_pos (.inr ⟨rfl, rfl⟩)]
      rfl
  | some mp =>
      rw [constructorOf_class class_] at own
      rw [callInstMethod_found instance_ own]
      exact Traced.bind_congr fun r _ => stop r

/-- OP_CONSTRUCT without arguments runs the constructors in the order of the chain. -/
theorem callConstructors_zero (good : RunInner run) (keeps : env.KeepsInstances)
    (chain : Chain env bases c) (instance_ : q.classOf inst = some d)
    (room : bases.length < n) :
    q.callConstructors env run inst n c 0 =
      inOrder env run d ((bases ++ [c]).filterMap (env.constructorOf d 0)) q := by
  induction chain generalizing n q with
  | @root c jsp class_ top =>
      obtain ⟨n, rfl⟩ : ∃ k, n = k + 1 := ⟨n - 1, by omega⟩
      rw [callConstructors_eq class_, constructBase_root class_ top, Traced.pure_bind,
        if_neg (fun failed => failed rfl), afterConstructor_zero class_ instance_,
        filterMap_concat]
      rfl
  | @next bases c b jsp class_ based rest ih =>
      obtain ⟨n, rfl⟩ : ∃ k, n = k + 1 := ⟨n - 1, by omega⟩
      have room' : bases.length < n := by simpa using room
      rw [callConstructors_eq class_, constructBase_next class_ based, ih instance_ room',
        filterMap_concat (a := c), inOrder_append]
      refine Traced.bind_congr fun r done => ?_
      split
      · rfl
      · have later := (inOrder_inner good keeps d _ q).extends done
        exact afterConstructor_zero class_ (later.classOf instance_)

/-- The next class of the loop. -/
def nextClass (env : Env) (run : Run) (inst argc n : Nat) (jsp : JsClass) (q : Qinterp) :
    Traced Event (Qinterp × InterpErrors) :=
  match jsp.baseclass with
  | none => .pure (q, .none)
  | some base => hostConstructors env run inst argc n base q

/-- What the loop does when the constructor of the class was called. -/
def afterHosted (env : Env) (run : Run) (inst argc n : Nat) (jsp : JsClass)
    (r : Qinterp × InterpErrors) : Traced Event (Qinterp × InterpErrors) :=
  if r.2 = .none then nextClass env run inst argc n jsp r.1
  else if r.2 = .unknownMethod ∧ argc > 0 then
    (r.1.callInstMethod env run inst (classConstructorSig jsp 0) true).bind fun r =>
      if r.2 ≠ .none then .pure r else nextClass env run inst argc n jsp r.1
  else if r.2 = .unknownMethod ∧ argc = 0 then nextClass env run inst argc n jsp r.1
  else .pure r

theorem hostConstructors_eq {argc : Nat} {jsp : JsClass} (class_ : env.classes[c]? = some jsp) :
    hostConstructors env run inst argc (n + 1) c q =
      (q.callInstMethod env run inst (classConstructorSig jsp argc) true).bind
        (afterHosted env run inst argc n jsp) := by
  rw [hostConstructors, class_]
  rfl

/-- One class of the loop without arguments. -/
theorem hosted_zero {jsp : JsClass} (good : RunInner run) (keeps : env.KeepsInstances)
    (class_ : env.classes[c]? = some jsp) (instance_ : q.classOf inst = some d)
    {methods : List JsMethod}
    (above : ∀ q, q.classOf inst = some d →
      nextClass env run inst 0 n jsp q = inOrder env run d methods q) :
    (q.callInstMethod env run inst (classConstructorSig jsp 0) true).bind
        (afterHosted env run inst 0 n jsp) =
      inOrder env run d ((env.constructorOf d 0 c).toList ++ methods) q := by
  have stop : ∀ r : Qinterp × InterpErrors, r.1.classOf inst = some d →
      afterHosted env run inst 0 n jsp r =
        if Passed 0 r.2 then inOrder env run d methods r.1 else .pure r := by
    intro ⟨q, err⟩ later
    unfold afterHosted Passed
    rw [above q later]
    by_cases clean : err = .none
    · simp [clean]
    · by_cases unknown : err = .unknownMethod
      · simp [unknown]
      · simp [clean, unknown]
  cases own : env.constructorOf d 0 c with
  | none =>
      rw [constructorOf_class class_] at own
      rw [callInstMethod_unfound instance_ own, Traced.pure_bind, stop _ instance_,
        if_pos (.inr ⟨rfl, rfl⟩)]
      rfl
  | some mp =>
      rw [constructorOf_class class_] at own
      rw [callInstMethod_found instance_ own]
      refine Traced.bind_congr fun r done => ?_
      have later := (callMethod_inner good keeps d mp true q).extends done
      exact stop r (later.classOf instance_)

/-- The loop without arguments runs them in the opposite order. -/
theorem hostConstructors_zero (good : RunInner run) (keeps : env.KeepsInstances)
    (chain : Chain env bases c) (instance_ : q.classOf inst = some d)
    (room : bases.length < n) :
    hostConstructors env run inst 0 n c q =
      inOrder env run d ((bases ++ [c]).filterMap (env.constructorOf d 0)).reverse q := by
  have whole : ∀ (l : List JsMethod) (o : Option JsMethod),
      (l ++ o.toList).reverse = o.toList ++ l.reverse := by
    intro l o
    cases o <;> simp
  induction chain generalizing n q with
  | @root c jsp class_ top =>
      obtain ⟨n, rfl⟩ : ∃ k, n = k + 1 := ⟨n - 1, by omega⟩
      have top' : ∀ q, nextClass env run inst 0 n jsp q = inOrder env run d [] q := by
        intro q
        rw [nextClass, top]
        rfl
      rw [hostConstructors_eq class_, filterMap_concat, whole]
      exact hosted_zero good keeps class_ instance_ fun q _ => top' q
  | @next bases c b jsp class_ based rest ih =>
      obtain ⟨n, rfl⟩ : ∃ k, n = k + 1 := ⟨n - 1, by omega⟩
      have room' : bases.length < n := by simpa using room
      have above : ∀ q, q.classOf inst = some d → nextClass env run inst 0 n jsp q =
          inOrder env run d ((bases ++ [b]).filterMap (env.constructorOf d 0)).reverse q := by
        intro q instance_
        rw [nextClass, based]
        exact ih instance_ room'
      rw [hostConstructors_eq class_, filterMap_concat, whole]
      exact hosted_zero good keeps class_ instance_ above

/-! ## Constructors with arguments -/

/-- The first call of a computation is one of these methods. -/
def Leads (depth : Nat) (methods : JsMethod → Prop) (t : Traced Event (Qinterp × InterpErrors)) :
    Prop :=
  ∃ mp rest, methods mp ∧ callsAt depth t.log = mp :: rest

theorem Leads.bind {depth : Nat} {methods : JsMethod → Prop}
    {t : Traced Event (Qinterp × InterpErrors)} (h : Leads depth methods t)
    (f : Qinterp × InterpErrors → Traced Event (Qinterp × InterpErrors)) :
    Leads depth methods (t.bind f) := by
  obtain ⟨mp, rest, mem, calls⟩ := h
  obtain ⟨more, log⟩ := Traced.log_bind t f
  refine ⟨mp, rest ++ callsAt depth more, mem, ?_⟩
  rw [log, callsAt_append, calls]
  rfl

theorem Leads.ne_nil {depth : Nat} {methods : JsMethod → Prop}
    {t : Traced Event (Qinterp × InterpErrors)} (h : Leads depth methods t) :
    callsAt depth t.log ≠ [] := by
  obtain ⟨mp, rest, -, calls⟩ := h
  rw [calls]
  exact List.cons_ne_nil _ _

/-- A constructor that is called is the first one. -/
theorem leads_found (good : RunInner run) (keeps : env.KeepsInstances) {jsp : JsClass} {k : Nat}
    {mp : JsMethod} {methods : JsMethod → Prop} {r : Qinterp × InterpErrors}
    (class_ : env.classes[c]? = some jsp) (instance_ : q.classOf inst = some d)
    (found : env.constructorOf d k c = some mp) (mem : methods mp)
    (done : (q.callInstMethod env run inst (classConstructorSig jsp k) true).ending = .done r) :
    Leads q.frames.length methods
      (q.callInstMethod env run inst (classConstructorSig jsp k) true) := by
  obtain ⟨calls, -⟩ := callInstMethod_calls good keeps instance_ done
  rw [constructorOf_class class_] at found
  exact ⟨mp, [], mem, calls.trans (by rw [found]; rfl)⟩

theorem leads_inOrder (good : RunInner run) (keeps : env.KeepsInstances) {mp : JsMethod}
    {methods : List JsMethod} {r : Qinterp × InterpErrors}
    (done : (inOrder env run d (mp :: methods) q).ending = .done r) :
    Leads q.frames.length (mp = ·) (inOrder env run d (mp :: methods) q) := by
  obtain ⟨r₁, called, -⟩ := Traced.ending_bind done
  have calls := callMethod_calls good keeps called
  exact Leads.bind ⟨mp, [], rfl, calls⟩ _

theorem leads_weaken {depth : Nat} {methods methods' : JsMethod → Prop}
    {t : Traced Event (Qinterp × InterpErrors)} (h : Leads depth methods t)
    (sub : ∀ mp, methods mp → methods' mp) : Leads depth methods' t := by
  obtain ⟨mp, rest, mem, calls⟩ := h
  exact ⟨mp, rest, sub mp mem, calls⟩

theorem silent_filterMap {argc : Nat} {classes : List Nat}
    (silent : env.Silent d argc classes) :
    classes.filterMap (env.constructorOf d 0) = [] :=
  List.filterMap_eq_nil_iff.mpr fun c mem => (silent c mem).2

/-- One base class, whose own base classes have no constructor. -/
theorem base_step (good : RunInner run) (keeps : env.KeepsInstances) {argc : Nat} {jsp : JsClass}
    {r : Qinterp × InterpErrors} (args : argc ≠ 0) (chain : Chain env bases c)
    (class_ : env.classes[c]? = some jsp) (other : d ≠ c) (instance_ : q.classOf inst = some d)
    (silent : env.Silent d argc bases)
    (done : ((q.callInstMethod env run inst (classConstructorSig jsp argc) true).bind
      (afterConstructor env run inst n c argc)).ending = .done r) :
    ((q.callInstMethod env run inst (classConstructorSig jsp argc) true).bind
          (afterConstructor env run inst n c argc) = .pure (q, .none) ∧
        env.Silent d argc (bases ++ [c])) ∨
      Leads q.frames.length (env.BaseConstructor d argc (bases ++ [c]))
        ((q.callInstMethod env run inst (classConstructorSig jsp argc) true).bind
          (afterConstructor env run inst n c argc)) := by
  have here : c ∈ bases ++ [c] := List.mem_append_right _ List.mem_cons_self
  cases own : env.constructorOf d argc c with
  | some mp =>
      obtain ⟨r₁, called, -⟩ := Traced.ending_bind done
      exact .inr ((leads_found good keeps class_ instance_ own ⟨c, here, .inl own⟩ called).bind _)
  | none =>
      have lacks := own
      rw [constructorOf_class class_] at lacks
      rw [callInstMethod_unfound instance_ lacks, Traced.pure_bind] at done ⊢
      have again : afterConstructor env run inst n c argc (q, .unknownMethod) =
          q.callConstructors env run inst n c 0 := by
        have failed : ¬ Passed argc .unknownMethod := by simp [Passed, args]
        have apart : q.classOf inst ≠ some c := fun same => other (by simpa [instance_] using same)
        rw [afterConstructor, if_pos failed, if_pos ⟨apart, args⟩]
      rw [again] at done ⊢
      have room := callConstructors_room chain done
      rw [callConstructors_zero good keeps chain instance_ room, filterMap_concat,
        silent_filterMap silent, List.nil_append] at done ⊢
      cases zero : env.constructorOf d 0 c with
      | none =>
          refine .inl ⟨rfl, fun b mem => ?_⟩
          rcases List.mem_append.mp mem with above | same
          · exact silent b above
          · rw [List.mem_singleton.mp same]
            exact ⟨own, zero⟩
      | some mp =>
          rw [zero] at done
          refine .inr (leads_weaken (leads_inOrder good keeps done) ?_)
          rintro _ rfl
          exact ⟨c, here, .inr zero⟩

/-- A construction of base classes with arguments leaves no trace, or it calls a constructor of
one of them first. -/
theorem base_first (good : RunInner run) (keeps : env.KeepsInstances) {argc : Nat}
    {r : Qinterp × InterpErrors} (args : argc ≠ 0) (chain : Chain env bases c)
    (other : d ∉ bases ++ [c]) (instance_ : q.classOf inst = some d)
    (done : (q.callConstructors env run inst n c argc).ending = .done r) :
    (q.callConstructors env run inst n c argc = .pure (q, .none) ∧
        env.Silent d argc (bases ++ [c])) ∨
      Leads q.frames.length (env.BaseConstructor d argc (bases ++ [c]))
        (q.callConstructors env run inst n c argc) := by
  induction chain generalizing n q r with
  | @root c jsp class_ top =>
      cases n with
      | zero => cases done
      | succ n =>
          rw [callConstructors_eq class_, constructBase_root class_ top, Traced.pure_bind,
            if_neg (fun failed => failed rfl)] at done ⊢
          exact base_step good keeps args (.root class_ top) class_ (by simpa using other)
            instance_ nofun done
  | @next bases c b jsp class_ based rest ih =>
      cases n with
      | zero => cases done
      | succ n =>
          rw [callConstructors_eq class_, constructBase_next class_ based] at done ⊢
          obtain ⟨r₁, first, -⟩ := Traced.ending_bind done
          have other' : d ∉ bases ++ [b] := fun mem => other (List.mem_append_left _ mem)
          rcases ih other' instance_ first with ⟨nothing, silent⟩ | leads
          · rw [nothing, Traced.pure_bind, if_neg (fun failed => failed rfl)] at done ⊢
            refine base_step good keeps args (.next class_ based rest) class_ ?_ instance_ silent
              done
            rintro rfl
            exact other (List.mem_append_right _ List.mem_cons_self)
          · refine .inr (leads_weaken (leads.bind _) ?_)
            rintro mp ⟨c', mem, own⟩
            exact ⟨c', List.mem_append_left _ mem, own⟩

end Qinterp

end Jspp.Kernel
