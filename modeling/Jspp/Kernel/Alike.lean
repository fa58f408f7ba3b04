/-
# Kernel.Alike -- where native code and scripts construct alike

Both ways to create an instance call its constructors in opposite orders, and they part where a
class has no constructor for the arguments: OP_CONSTRUCT takes the one without, or none at
all, for a base class only, and the loop of `createJSClassInstance` for each class, but it
asks for one of them.

* `Alike`, `Agreeable`: the chains for which both call the same.
* `agree_zero`, `agree_args`: from the new instance on.
* `hosted_alike_iff`: both ways from a class.
-/
import Jspp.Kernel.Hosted
import Jspp.Kernel.Programs
import Jspp.Kernel.Signatures

namespace Jspp.Kernel

open Jspp.Compiler Jspp.Theory

set_option autoImplicit false

/-- No two of the classes have one name. -/
def Env.NamedApart (env : Env) (classes : List Nat) : Prop :=
  classes.Pairwise fun b c => nameOf env.classes b ≠ nameOf env.classes c

/-- A constructor has the name of its class. -/
theorem constructorOf_name {env : Env} (keyed : Keyed env.classes) {d k k' b c : Nat}
    {mp : JsMethod} (own : env.constructorOf d k b = some mp)
    (other : env.constructorOf d k' c = some mp) : nameOf env.classes b = nameOf env.classes c := by
  obtain ⟨jsp, class_, found⟩ := Option.bind_eq_some_iff.mp own
  obtain ⟨jsp', class', found'⟩ := Option.bind_eq_some_iff.mp other
  have sig := (findMethod_sig keyed found).symm.trans (findMethod_sig keyed found')
  have shape : ∀ (jsp : JsClass) k, Qinterp.classConstructorSig jsp k =
      jsp.name ++ [':', 'I', 'v'] ++ List.replicate (k + 1) 'v' := by
    intro jsp k
    simp [Qinterp.classConstructorSig, List.replicate_succ]
  rw [shape, shape] at sig
  have ctor : 'I' ≠ 'v' := by decide
  have same : jsp.name = jsp'.name := ((sig_inj ctor ctor).mp sig).1
  rw [nameOf, nameOf, class_, class', Option.map_some, Option.map_some, same]

namespace Qinterp

variable {env : Env} {run : Run} {bases : List Nat} {inst n c d : Nat} {q : Qinterp}

/-! ## Both ways from a new instance -/

/-- The class has no constructor, or the one for the arguments ends so that the loop of
`createJSClassInstance` ends with it. -/
def AloneAlike (env : Env) (run : Run) (argc : Nat) (bases : List Nat) (d : Nat) (q : Qinterp) :
    Prop :=
  match env.constructorOf d argc d with
  | none => env.constructorOf d 0 d = none
  | some mp => ∀ r, ((q.enterFrame d).callMethod env run mp true).ending = .done r →
      (r.2 = .none → bases = []) ∧ (r.2 = .unknownMethod → env.constructorOf d 0 d = none)

/-- Without arguments, at most one class of the chain has a constructor; with arguments, no base
class has one. -/
def Alike (env : Env) (run : Run) (argc : Nat) (bases : List Nat) (d : Nat) (q : Qinterp) : Prop :=
  if argc = 0 then ((bases ++ [d]).filterMap (env.constructorOf d 0)).length ≤ 1
  else env.Silent d argc bases ∧ AloneAlike env run argc bases d q

theorem reverse_short {α : Type} {l : List α} (short : l.length ≤ 1) : l.reverse = l := by
  match l, short with
  | [], _ => rfl
  | [_], _ => rfl

theorem constructors_apart (keyed : Keyed env.classes) {classes : List Nat}
    (named : env.NamedApart classes) :
    (classes.filterMap (env.constructorOf d 0)).Pairwise (· ≠ ·) := by
  refine List.Pairwise.filterMap _ ?_ named
  rintro b c apart mp own _ other rfl
  exact apart (constructorOf_name keyed own other)

/-- Without arguments both ways agree where one class has a constructor; with names of their own,
nowhere else. -/
theorem agree_zero (good : RunInner run) (keeps : env.KeepsInstances) (keyed : Keyed env.classes)
    {r r' : Qinterp × InterpErrors} (chain : Chain env bases d)
    (instance_ : q.classOf inst = some d)
    (hosted : (hostConstructors env run inst 0 n d q).ending = .done r)
    (scripted : (q.callConstructors env run inst n d 0).ending = .done r') :
    (Alike env run 0 bases d q →
      callsAt q.frames.length (hostConstructors env run inst 0 n d q).log =
        callsAt q.frames.length (q.callConstructors env run inst n d 0).log ∧ r.2 = r'.2) ∧
    (env.NamedApart (bases ++ [d]) →
      callsAt q.frames.length (hostConstructors env run inst 0 n d q).log =
        callsAt q.frames.length (q.callConstructors env run inst n d 0).log →
      Alike env run 0 bases d q) := by
  have room := callConstructors_room chain scripted
  rw [hostConstructors_zero good keeps chain instance_ room] at hosted ⊢
  rw [callConstructors_zero good keeps chain instance_ room] at scripted ⊢
  rw [Alike, if_pos rfl]
  refine ⟨fun short => ?_, fun named same => ?_⟩
  · rw [reverse_short short] at hosted ⊢
    rw [hosted] at scripted
    cases scripted
    exact ⟨rfl, rfl⟩
  · have apart := constructors_apart (d := d) keyed named
    generalize (bases ++ [d]).filterMap (env.constructorOf d 0) = methods at *
    match methods with
    | [] => exact Nat.zero_le 1
    | [_] => exact Nat.le_refl 1
    | first :: next :: methods =>
        exfalso
        obtain ⟨last, rest, reverse⟩ := List.exists_cons_of_ne_nil
          (List.reverse_ne_nil_iff.mpr (List.cons_ne_nil next methods))
        have whole : (first :: next :: methods).reverse = last :: (rest ++ [first]) := by
          rw [List.reverse_cons, reverse]
          rfl
        rw [whole] at hosted same
        obtain ⟨_, _, rfl, calls⟩ := leads_inOrder good keeps hosted
        obtain ⟨_, _, rfl, calls'⟩ := leads_inOrder good keeps scripted
        rw [calls, calls'] at same
        have mem : last ∈ next :: methods :=
          List.mem_reverse.mp (reverse ▸ List.mem_cons_self)
        exact (List.pairwise_cons.mp apart).1 last mem (List.cons.inj same).1.symm

theorem unknown_ne_none : InterpErrors.unknownMethod ≠ .none := InterpErrors.noConfusion

/-- With base classes the loop ends with an unknown method where they have no constructor. -/
theorem nextClass_silent {argc : Nat} {jsp : JsClass} {r : Qinterp × InterpErrors} (args : argc ≠ 0)
    (chain : Chain env bases d) (class_ : env.classes[d]? = some jsp)
    (instance_ : q.classOf inst = some d) (silent : env.Silent d argc bases)
    (done : (nextClass env run inst argc n jsp q).ending = .done r) :
    nextClass env run inst argc n jsp q =
      .pure (q, if bases = [] then .none else .unknownMethod) := by
  cases chain with
  | root class' top =>
      cases class_.symm.trans class'
      rw [nextClass, top, if_pos rfl]
  | @next bases _ b _ class' based rest =>
      cases class_.symm.trans class'
      obtain ⟨base, found⟩ := rest.found
      obtain ⟨lacks, zero⟩ := silent b (List.mem_append_right _ List.mem_cons_self)
      rw [constructorOf_class found] at lacks zero
      rw [nextClass, based] at done ⊢
      cases n with
      | zero => cases done
      | succ n =>
          simp only
          rw [hostConstructors_eq found, callInstMethod_unfound instance_ lacks, Traced.pure_bind,
            afterHosted, if_neg unknown_ne_none, if_pos ⟨rfl, Nat.pos_of_ne_zero args⟩,
            callInstMethod_unfound instance_ zero, Traced.pure_bind, if_pos unknown_ne_none,
            if_neg (by simp)]

/-- The loop calls a constructor of the class first, if it has one. -/
theorem host_first (good : RunInner run) (keeps : env.KeepsInstances) {argc : Nat}
    {r : Qinterp × InterpErrors} (args : argc ≠ 0) (chain : Chain env bases d)
    (instance_ : q.classOf inst = some d)
    (done : (hostConstructors env run inst argc n d q).ending = .done r) :
    (env.Silent d argc [d] ∧
        hostConstructors env run inst argc n d q = .pure (q, .unknownMethod)) ∨
      Leads q.frames.length (env.BaseConstructor d argc [d])
        (hostConstructors env run inst argc n d q) := by
  obtain ⟨jsp, class_⟩ := chain.found
  cases n with
  | zero => cases done
  | succ n =>
      rw [hostConstructors_eq class_] at done ⊢
      cases own : env.constructorOf d argc d with
      | some mp =>
          obtain ⟨r₁, called, -⟩ := Traced.ending_bind done
          exact .inr ((leads_found good keeps class_ instance_ own
            ⟨d, List.mem_cons_self, .inl own⟩ called).bind _)
      | none =>
          have lacks := own
          rw [constructorOf_class class_] at lacks
          rw [callInstMethod_unfound instance_ lacks, Traced.pure_bind, afterHosted, if_neg nofun,
            if_pos ⟨rfl, Nat.pos_of_ne_zero args⟩] at done ⊢
          cases zero : env.constructorOf d 0 d with
          | some mp =>
              obtain ⟨r₁, called, -⟩ := Traced.ending_bind done
              exact .inr ((leads_found good keeps class_ instance_ zero
                ⟨d, List.mem_cons_self, .inr zero⟩ called).bind _)
          | none =>
              refine .inl ⟨fun c mem => ?_, ?_⟩
              · rw [List.mem_singleton.mp mem]
                exact ⟨own, zero⟩
              · rw [constructorOf_class class_] at zero
                rw [callInstMethod_unfound instance_ zero, Traced.pure_bind, if_pos nofun]

/-- OP_CONSTRUCT calls the constructor of the class alone, or one of a base class first. -/
theorem script_first (good : RunInner run) (keeps : env.KeepsInstances) {argc : Nat}
    {jsp : JsClass} {r : Qinterp × InterpErrors} (args : argc ≠ 0) (chain : Chain env bases d)
    (class_ : env.classes[d]? = some jsp) (instance_ : q.classOf inst = some d)
    (done : (q.callConstructors env run inst (n + 1) d argc).ending = .done r) :
    (env.Silent d argc bases ∧ q.callConstructors env run inst (n + 1) d argc =
        (q.callInstMethod env run inst (classConstructorSig jsp argc) true).bind
          (afterConstructor env run inst n d argc)) ∨
      Leads q.frames.length (env.BaseConstructor d argc bases)
        (q.callConstructors env run inst (n + 1) d argc) := by
  have other := chain.not_mem
  rw [callConstructors_eq class_] at done ⊢
  cases chain with
  | root class' top =>
      cases class_.symm.trans class'
      rw [constructBase_root class_ top, Traced.pure_bind, if_neg (fun failed => failed rfl)]
      exact .inl ⟨nofun, rfl⟩
  | next class' based rest =>
      cases class_.symm.trans class'
      rw [constructBase_next class_ based] at done ⊢
      obtain ⟨r₁, first, -⟩ := Traced.ending_bind done
      rcases base_first good keeps args rest other instance_ first with ⟨nothing, silent⟩ | leads
      · rw [nothing, Traced.pure_bind, if_neg (fun failed => failed rfl)]
        exact .inl ⟨silent, rfl⟩
      · exact .inr (leads.bind _)

/-- What OP_CONSTRUCT ends with when it called the constructor of the class. -/
theorem afterConstructor_own {argc : Nat} {r r' : Qinterp × InterpErrors} (args : argc ≠ 0)
    (instance_ : r.1.classOf inst = some d)
    (done : (afterConstructor env run inst n d argc r).ending = .done r') :
    (afterConstructor env run inst n d argc r).log = [] ∧ r'.2 = r.2 := by
  unfold afterConstructor at done ⊢
  by_cases passed : Passed argc r.2
  · have clean : r.2 = .none := passed.resolve_right fun h => args h.1
    rw [if_neg (not_not_intro passed), if_pos instance_] at done ⊢
    split at done
    · cases done
      rename_i enough
      rw [if_pos enough]
      exact ⟨rfl, clean.symm⟩
    · cases done
  · rw [if_pos passed, if_neg (fun h => h.1 instance_)] at done ⊢
    cases done
    exact ⟨rfl, rfl⟩

/-- What the loop makes of the constructor of a class whose base classes have none. -/
theorem afterHosted_iff (good : RunInner run) (keeps : env.KeepsInstances) {argc : Nat}
    {jsp : JsClass} {r r' : Qinterp × InterpErrors} (args : argc ≠ 0) (chain : Chain env bases d)
    (class_ : env.classes[d]? = some jsp) (instance_ : r.1.classOf inst = some d)
    (silent : env.Silent d argc bases)
    (done : (afterHosted env run inst argc n jsp r).ending = .done r') :
    (callsAt r.1.frames.length (afterHosted env run inst argc n jsp r).log = [] ∧ r'.2 = r.2) ↔
      (r.2 = .none → bases = []) ∧
        (r.2 = .unknownMethod → env.constructorOf d 0 d = none) := by
  unfold afterHosted at done ⊢
  by_cases clean : r.2 = .none
  · rw [if_pos clean] at done ⊢
    have eq := nextClass_silent args chain class_ instance_ silent done
    rw [eq] at done ⊢
    cases done
    by_cases root : bases = []
    · simp [root, clean, callsAt]
    · simp [root, clean]
  · rw [if_neg clean] at done ⊢
    by_cases unknown : r.2 = .unknownMethod
    · rw [if_pos ⟨unknown, Nat.pos_of_ne_zero args⟩] at done ⊢
      cases zero : env.constructorOf d 0 d with
      | none =>
          rw [constructorOf_class class_] at zero
          rw [callInstMethod_unfound instance_ zero, Traced.pure_bind, if_pos unknown_ne_none] at done ⊢
          cases done
          simp [unknown, callsAt]
      | some mp =>
          obtain ⟨r₁, called, -⟩ := Traced.ending_bind done
          have leads : Leads r.1.frames.length (· = mp)
              (r.1.callInstMethod env run inst (classConstructorSig jsp 0) true) :=
            leads_found good keeps class_ instance_ zero rfl called
          refine iff_of_false (fun same => (leads.bind _).ne_nil same.1) ?_
          intro stops
          cases stops.2 unknown
    · rw [if_neg (fun h => unknown h.1), if_neg (fun h => unknown h.1)] at done ⊢
      cases done
      simp [clean, unknown, callsAt]

/-- Where base classes have no constructor, the loop stops at the class exactly when both ways
agree. -/
theorem alone_iff (good : RunInner run) (keeps : env.KeepsInstances) {argc : Nat} {jsp : JsClass}
    {r r' : Qinterp × InterpErrors} (args : argc ≠ 0) (chain : Chain env bases d)
    (class_ : env.classes[d]? = some jsp) (instance_ : q.classOf inst = some d)
    (silent : env.Silent d argc bases)
    (own : q.callConstructors env run inst (n + 1) d argc =
      (q.callInstMethod env run inst (classConstructorSig jsp argc) true).bind
        (afterConstructor env run inst n d argc))
    (hosted : (hostConstructors env run inst argc (n + 1) d q).ending = .done r)
    (scripted : (q.callConstructors env run inst (n + 1) d argc).ending = .done r') :
    (callsAt q.frames.length (hostConstructors env run inst argc (n + 1) d q).log =
        callsAt q.frames.length (q.callConstructors env run inst (n + 1) d argc).log ∧
      r.2 = r'.2) ↔ AloneAlike env run argc bases d q := by
  rw [own] at scripted ⊢
  rw [hostConstructors_eq class_] at hosted ⊢
  obtain ⟨r₁, called, scripted⟩ := Traced.ending_bind scripted
  rw [Traced.bind_done called] at hosted
  have later := (callInstMethod_inner good keeps inst _ true q).extends called
  have instance' := later.classOf instance_
  obtain ⟨quiet, code⟩ := afterConstructor_own args instance' scripted
  have stops := afterHosted_iff good keeps args chain class_ instance' silent hosted
  rw [Traced.bind_done called, Traced.bind_done called, callsAt_append, quiet, List.append_nil,
    List.append_right_eq_self, code, ← later.depth, stops, AloneAlike]
  cases found : env.constructorOf d argc d with
  | none =>
      rw [constructorOf_class class_] at found
      rw [callInstMethod_unfound instance_ found] at called
      cases called
      simp
  | some mp =>
      rw [constructorOf_class class_] at found
      rw [callInstMethod_found instance_ found] at called
      refine ⟨fun stops r called' => ?_, fun all => all r₁ called⟩
      rw [called] at called'
      cases called'
      exact stops

/-- With arguments both ways agree where no base class has a constructor and the one of the class
stops both; with names of their own, nowhere else. -/
theorem agree_args (good : RunInner run) (keeps : env.KeepsInstances) (keyed : Keyed env.classes)
    {argc : Nat} {r r' : Qinterp × InterpErrors} (args : argc ≠ 0) (chain : Chain env bases d)
    (instance_ : q.classOf inst = some d)
    (hosted : (hostConstructors env run inst argc n d q).ending = .done r)
    (scripted : (q.callConstructors env run inst n d argc).ending = .done r') :
    (Alike env run argc bases d q →
      callsAt q.frames.length (hostConstructors env run inst argc n d q).log =
        callsAt q.frames.length (q.callConstructors env run inst n d argc).log ∧ r.2 = r'.2) ∧
    (env.NamedApart (bases ++ [d]) →
      callsAt q.frames.length (hostConstructors env run inst argc n d q).log =
        callsAt q.frames.length (q.callConstructors env run inst n d argc).log ∧ r.2 = r'.2 →
      Alike env run argc bases d q) := by
  obtain ⟨jsp, class_⟩ := chain.found
  rw [Alike, if_neg args]
  cases n with
  | zero => cases hosted
  | succ n =>
      rcases script_first good keeps args chain class_ instance_ scripted with
        ⟨silent, own⟩ | ⟨mp, rest, ⟨b, above, base⟩, calls'⟩
      · have both :=
          alone_iff good keeps args chain class_ instance_ silent own hosted scripted
        exact ⟨fun alike => both.mpr alike.2, fun _ same => ⟨silent, both.mp same⟩⟩
      · refine ⟨fun alike => ?_, fun named same => ?_⟩
        · obtain ⟨none_, zero⟩ := alike.1 b above
          rw [none_, zero] at base
          exact absurd base (by simp)
        · exfalso
          rw [calls'] at same
          rcases host_first good keeps args chain instance_ hosted with
            ⟨-, nothing⟩ | ⟨mp', rest', ⟨c, mem, class'⟩, calls⟩
          · rw [nothing] at same
            exact List.cons_ne_nil mp rest same.1.symm
          · rw [calls] at same
            cases (List.cons.inj same.1).1
            cases List.mem_singleton.mp mem
            have apart := (List.pairwise_append.mp named).2.2 b above d List.mem_cons_self
            have named' : nameOf env.classes b = nameOf env.classes d := by
              rcases base with base | base <;> rcases class' with class' | class' <;>
                exact constructorOf_name keyed base class'
            exact apart named'

theorem agree_iff (good : RunInner run) (keeps : env.KeepsInstances) (keyed : Keyed env.classes)
    {argc : Nat} {r r' : Qinterp × InterpErrors} (chain : Chain env bases d)
    (instance_ : q.classOf inst = some d)
    (hosted : (hostConstructors env run inst argc n d q).ending = .done r)
    (scripted : (q.callConstructors env run inst n d argc).ending = .done r') :
    (Alike env run argc bases d q →
      callsAt q.frames.length (hostConstructors env run inst argc n d q).log =
        callsAt q.frames.length (q.callConstructors env run inst n d argc).log ∧ r.2 = r'.2) ∧
    (env.NamedApart (bases ++ [d]) →
      callsAt q.frames.length (hostConstructors env run inst argc n d q).log =
        callsAt q.frames.length (q.callConstructors env run inst n d argc).log ∧ r.2 = r'.2 →
      Alike env run argc bases d q) := by
  by_cases args : argc = 0
  · subst args
    obtain ⟨forth, back⟩ := agree_zero good keeps keyed chain instance_ hosted scripted
    exact ⟨forth, fun named same => back named same.1⟩
  · exact agree_args good keeps keyed args chain instance_ hosted scripted

/-! ## Both ways from a class -/

theorem chain_of_construct {argc : Nat} {r : Qinterp × InterpErrors}
    (done : (q.callConstructors env run inst n c argc).ending = .done r) :
    ∃ bases, Chain env bases c := by
  induction n generalizing c q r with
  | zero => cases done
  | succ n ih =>
      cases class_ : env.classes[c]? with
      | none =>
          rw [callConstructors, class_] at done
          cases done
      | some jsp =>
          cases based : jsp.baseclass with
          | none => exact ⟨[], .root class_ based⟩
          | some b =>
              rw [callConstructors_eq class_, constructBase_next class_ based] at done
              obtain ⟨r₁, first, -⟩ := Traced.ending_bind done
              obtain ⟨bases, chain⟩ := ih first
              exact ⟨bases ++ [b], .next class_ based chain⟩

/-- The instance that was created is the next one of the store. -/
theorem created_instance (good : RunInner run) (keeps : env.KeepsInstances) {fuel : Nat}
    {name : List Char} {q' : Qinterp} (found : env.qinterpFindClass name = some d)
    (done : (q.qinterpCreateJSClassInstance env run fuel name).ending = .done (q', .none)) :
    q'.frames.length = q.frames.length ∧ q'.classOf q.store.insts.length = some d := by
  unfold qinterpCreateJSClassInstance at done
  rw [found] at done
  cases loaded : loadBaseFields env fuel d with
  | none =>
      simp only [loaded] at done
      cases done
  | some slots =>
      simp only [loaded] at done
      obtain ⟨⟨q₁, ok⟩, built, rest⟩ := Traced.ending_bind done
      obtain ⟨rfl, -⟩ := Prod.mk.inj (Ending.done.inj rest)
      have later := (callInternalConstructors_inner good keeps q.store.insts.length fuel d
        { q with store := addInst d slots q.store }).extends built
      refine ⟨later.depth, later.classOf ?_⟩
      show ((q.store.insts ++ [(⟨d, slots⟩ : JsInst)])[q.store.insts.length]?).map _ = some d
      rw [List.getElem?_concat_length]
      rfl

/-- Once the instance is created, both ways agree on its constructors. -/
def Agreeable (env : Env) (run : Run) (fuel : Nat) (name : List Char) (args : List Variant)
    (q : Qinterp) : Prop :=
  ∀ d bases q', env.qinterpFindClass name = some d → Chain env bases d →
    (q.qinterpCreateJSClassInstance env run fuel name).ending = .done (q', .none) →
    Alike env run args.length bases d (q'.pushed q.store.insts.length args)

/-- No two classes of the chain have one name. -/
def ChainNamed (env : Env) (name : List Char) : Prop :=
  ∀ d bases, env.qinterpFindClass name = some d → Chain env bases d →
    env.NamedApart (bases ++ [d])

end Qinterp

/-- An instance that native code creates has the constructors run that a script runs for it, with
the same code, where one class of its chain has a constructor without arguments at most, or no base
class has one and that of the class stops both; in chains without a repeated name, only there. -/
theorem hosted_alike_iff {host : Host} {s : Session} (prepared : Prepared host s)
    (keeps : (s.env host).KeepsInstances) {m n : Nat} {name : List Char} {args : List Variant}
    {q : Qinterp} {r r' : Qinterp × InterpErrors}
    (hosted : (q.createJSClassInstance (s.env host) (interp (s.env host) m) n name args).ending =
      .done r)
    (scripted : (q.scripted (s.env host) (interp (s.env host) m) n name args).ending = .done r') :
    (Qinterp.Agreeable (s.env host) (interp (s.env host) m) n name args q →
      callsAt q.frames.length
          (q.createJSClassInstance (s.env host) (interp (s.env host) m) n name args).log =
        callsAt q.frames.length
          (q.scripted (s.env host) (interp (s.env host) m) n name args).log ∧ r.2 = r'.2) ∧
    (Qinterp.ChainNamed (s.env host) name →
      callsAt q.frames.length
          (q.createJSClassInstance (s.env host) (interp (s.env host) m) n name args).log =
        callsAt q.frames.length
          (q.scripted (s.env host) (interp (s.env host) m) n name args).log ∧ r.2 = r'.2 →
      Qinterp.Agreeable (s.env host) (interp (s.env host) m) n name args q) := by
  have good := interp_inner keeps m
  have keyed : Keyed (s.env host).classes := prepared.keyed
  unfold Qinterp.createJSClassInstance Qinterp.scripted at *
  cases found : (s.env host).qinterpFindClass name with
  | none =>
      have none_ : q.qinterpCreateJSClassInstance (s.env host) (interp (s.env host) m) n name =
          .pure (q, .classNotFound) := by
        rw [Qinterp.qinterpCreateJSClassInstance, found]
      rw [found] at hosted
      rw [none_] at scripted ⊢
      cases hosted
      cases scripted
      exact ⟨fun _ => ⟨rfl, rfl⟩, fun _ _ d _ _ found' => nomatch found.symm.trans found'⟩
  | some d =>
      simp only [found] at hosted ⊢
      obtain ⟨⟨q', err⟩, created, hosted⟩ := Traced.ending_bind hosted
      rw [Traced.bind_done created] at scripted
      rw [Traced.bind_done created, Traced.bind_done created]
      dsimp only at hosted scripted ⊢
      by_cases failed : err ≠ .none
      · rw [if_pos failed] at hosted scripted ⊢
        rw [if_pos failed]
        cases hosted
        cases scripted
        refine ⟨fun _ => ⟨rfl, rfl⟩, fun _ _ _ _ q'' _ _ created' => ?_⟩
        cases created.symm.trans created'
        exact absurd rfl failed
      · obtain rfl : err = .none := not_not.mp failed
        rw [if_neg failed] at hosted scripted ⊢
        rw [if_neg failed]
        obtain ⟨depth, instance_⟩ := Qinterp.created_instance good keeps found created
        have instance' : (q'.pushed q.store.insts.length args).classOf q.store.insts.length =
            some d := instance_
        simp only [Qinterp.dispatch, instance'] at scripted ⊢
        obtain ⟨bases, chain⟩ := Qinterp.chain_of_construct scripted
        have both := Qinterp.agree_iff good keeps keyed chain instance' hosted scripted
        have depth' : (q'.pushed q.store.insts.length args).frames.length = q.frames.length := depth
        rw [depth'] at both
        rw [callsAt_append, callsAt_append, List.append_right_inj]
        refine ⟨fun agreeable => both.1 (agreeable d bases q' found chain created), ?_⟩
        intro named same d' bases' q'' found' chain' created'
        cases found.symm.trans found'
        cases created.symm.trans created'
        rw [← chain.unique chain']
        exact both.2 (named d bases found chain) same

/-! ## Two programs -/

/-- The interpreter of a prepared session, with no instance yet. -/
def idle (s : Session) : Qinterp where
  frames := []
  stack := []
  store := ⟨fun _ => .void, []⟩
  linenum := s.q.linenum

def hosting (s : Session) (name : List Char) (args : List Variant) :
    Traced Event (Qinterp × InterpErrors) :=
  (idle s).createJSClassInstance (s.env plainHost) (interp (s.env plainHost) 40) 40 name args

def scripting (s : Session) (name : List Char) (args : List Variant) :
    Traced Event (Qinterp × InterpErrors) :=
  (idle s).scripted (s.env plainHost) (interp (s.env plainHost) 40) 40 name args

/-- How an instance is created from native code and by a script: the base classes of all classes,
the class that is found, how both end, the signatures of what they call, and of the constructors
without arguments of the classes up to the one that is found. -/
structure Creation where
  bases : List (Option Nat)
  found : Option Nat
  hosted : Option InterpErrors × List (List Char)
  scripted : Option InterpErrors × List (List Char)
  zeros : List (List Char)
  deriving DecidableEq

/-- How a computation ended, and what it called. -/
def outcomeOf (t : Traced Event (Qinterp × InterpErrors)) :
    Option InterpErrors × List (List Char) :=
  (t.result?.map Prod.snd, (callsAt 0 t.log).map JsMethod.sig)

def creation (text name : List Char) (args : List Variant) : Option Creation :=
  (loaded text).map fun s =>
    let found := (s.env plainHost).qinterpFindClass name
    { bases := s.classes.map JsClass.baseclass
      found
      hosted := outcomeOf (hosting s name args)
      scripted := outcomeOf (scripting s name args)
      zeros := ((List.range (found.getD 0 + 1)).filterMap
        ((s.env plainHost).constructorOf (found.getD 0) 0)).map JsMethod.sig }

theorem outcomeOf_done {t : Traced Event (Qinterp × InterpErrors)} {err : InterpErrors}
    {sigs : List (List Char)} (h : outcomeOf t = (some err, sigs)) :
    ∃ q', t.ending = .done (q', err) ∧ (callsAt 0 t.log).map JsMethod.sig = sigs := by
  obtain ⟨ended, calls⟩ := Prod.mk.inj h
  obtain ⟨⟨q', err'⟩, done, rfl⟩ := Option.map_eq_some_iff.mp ended
  refine ⟨q', ?_, calls⟩
  unfold Traced.result? at done
  split at done
  · rename_i r ending
    cases done
    exact ending
  · cases done

theorem creation_eq {text name : List Char} {args : List Variant} {bases : List (Option Nat)}
    {d : Nat} {err err' : InterpErrors} {sigs sigs' zeros : List (List Char)}
    (h : creation text name args =
      some ⟨bases, some d, (some err, sigs), (some err', sigs'), zeros⟩) :
    ∃ s q' q'', Prepared plainHost s ∧ s.classes.map JsClass.baseclass = bases ∧
      (s.env plainHost).qinterpFindClass name = some d ∧
      (hosting s name args).ending = .done (q', err) ∧
      (callsAt 0 (hosting s name args).log).map JsMethod.sig = sigs ∧
      (scripting s name args).ending = .done (q'', err') ∧
      (callsAt 0 (scripting s name args).log).map JsMethod.sig = sigs' ∧
      ((List.range (d + 1)).filterMap ((s.env plainHost).constructorOf d 0)).map JsMethod.sig =
        zeros := by
  obtain ⟨s, load, eq⟩ := Option.map_eq_some_iff.mp h
  obtain ⟨based, found, hosted, scripted, none_⟩ := Creation.mk.inj eq
  obtain ⟨q', done, calls⟩ := outcomeOf_done hosted
  obtain ⟨q'', done', calls'⟩ := outcomeOf_done scripted
  rw [found] at none_
  exact ⟨s, q', q'', loaded_prepared load, based, found, done, calls, done', calls', none_⟩

/-- The internal constructors of a chain of that many classes. -/
def built (n : Nat) : List (List Char) := List.replicate n "@@constructor:Ivv".toList

/-- A class with a constructor without arguments. -/
def plainProgram : List Char :=
  "class A { public A() { } public static main() { return 1; } }".toList

/-- The script has both constructors run; native code calls them the other way round, and then
misses one of the topmost class. -/
theorem hosted_differently :
    ∃ s q' q'', Prepared plainHost s ∧ (s.env plainHost).KeepsInstances ∧
      (hosting s "A".toList [.int 1]).ending = .done (q', .unknownMethod) ∧
      (scripting s "A".toList [.int 1]).ending = .done (q'', .none) ∧
      callsAt 0 (hosting s "A".toList [.int 1]).log ≠
        callsAt 0 (scripting s "A".toList [.int 1]).log := by
  have run : creation pairProgram "A".toList [.int 1] = some ⟨[none, some 0, some 1], some 2,
      (some .unknownMethod, built 3 ++ ["A:Ivvv".toList, "B:Ivvv".toList]),
      (some .none, built 3 ++ ["B:Ivvv".toList, "A:Ivvv".toList]), []⟩ := by
    rw [show pairProgram = _ from toList_literals _ _]
    decide +kernel
  obtain ⟨s, q', q'', prepared, -, -, done, calls, done', calls', -⟩ := creation_eq run
  refine ⟨s, q', q'', prepared, fun _ _ => List.prefix_rfl, done, done', fun same => ?_⟩
  rw [same, calls'] at calls
  exact absurd calls (by decide)

/-- A class with a base class, one constructor in the chain; OP_NEW is the creation without the
constructor's call. -/
theorem hosted_alike_plain :
    ∃ s q' q'', Prepared plainHost s ∧
      (hosting s "A".toList []).ending = .done (q', .none) ∧
      (scripting s "A".toList []).ending = .done (q'', .none) ∧
      callsAt 0 (hosting s "A".toList []).log = callsAt 0 (scripting s "A".toList []).log ∧
      (idle s).newOp (s.env plainHost) (interp (s.env plainHost) 40) 40 "A".toList =
        ((idle s).qinterpCreateJSClassInstance (s.env plainHost) (interp (s.env plainHost) 40) 40
          "A".toList).bind fun p => .ofOption (p.1.onAct fun a =>
            some (if p.2 = .none then a.push (.inst (idle s).store.insts.length) else
              a.raise p.2)) := by
  have run : creation plainProgram "A".toList [] = some ⟨[none, some 0], some 1,
      (some .none, built 2 ++ ["A:Ivv".toList]), (some .none, built 2 ++ ["A:Ivv".toList]),
      ["A:Ivv".toList]⟩ := by
    rw [show plainProgram = _ from String.toList_ofList]
    decide +kernel
  obtain ⟨s, q', q'', prepared, based, found, done, -, done', -, zeros⟩ := creation_eq run
  obtain ⟨_, class₀, base₀⟩ := class_of_bases (c := 0) based rfl
  obtain ⟨_, class₁, base₁⟩ := class_of_bases (c := 1) based rfl
  have chain : Chain (s.env plainHost) [0] 1 := .next class₁ base₁ (.root class₀ base₀)
  have keeps : (s.env plainHost).KeepsInstances := fun _ _ => List.prefix_rfl
  have agreeable : Qinterp.Agreeable (s.env plainHost) (interp (s.env plainHost) 40) 40 "A".toList
      [] (idle s) := by
    intro d bases q₁ found' chain' _
    cases found.symm.trans found'
    rw [← chain.unique chain', Qinterp.Alike, if_pos List.length_nil]
    have one := congrArg List.length zeros
    rw [List.length_map] at one
    exact Nat.le_of_eq one
  exact ⟨s, q', q'', prepared, done, done',
    ((hosted_alike_iff prepared keeps done done').1 agreeable).1, Qinterp.newOp_eq _ _ _⟩

end Jspp.Kernel
