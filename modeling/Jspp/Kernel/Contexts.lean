/-
# Kernel.Contexts -- the class that operands are resolved in

`callInstMethod` enters the frame with the class of the instance, not with the
class the method was written in, and every step keeps it.  Static fields and
constants are looked up in that class, so an inherited method finds those of its
own class exactly when it names no static field, or runs on its own class, and
its constants are the same in both.

* `Instr.operands`, `SameOperands`: what an inherited method's operands denote.
* `SharedContext`: the condition on the two classes.
* `context_iff`; `context_broken`: a static field of a base class.
-/
import Jspp.Kernel.Layout

namespace Jspp.Kernel

open Jspp.Compiler Jspp.Theory

set_option autoImplicit false

/-! ## Operands -/

/-- The operands of an instruction, with their modes. -/
def operands : Instr → List (ArgSource × Int)
  | .emit0 _ | .emit1 _ _ none => []
  | .emit1 _ mode (some arg) => [(mode, arg)]
  | .emit2 _ mode mode2 arg1 arg2 => [(mode, arg1), (mode2, arg2)]

/-- The same activation with another class in its frame. -/
def Act.within (c : Nat) (a : Act) : Act := { a with frame := { a.frame with ctx := c } }

/-- The class has a static field of that number. -/
def Env.HasStatic (env : Env) (c : Nat) (arg : Int) : Prop :=
  ∃ jsp : JsClass, env.classes[c]? = some jsp ∧ 0 ≤ arg ∧ arg < jsp.staticCount

/-- On an instance of `d` every operand of the method denotes what it does on one of `b`. -/
def SameOperands (env : Env) (b d : Nat) (mp : JsMethod) : Prop :=
  ∀ i ∈ mp.body.code, ∀ o ∈ operands i, ∀ a : Act,
    (a.within d).qinterpResolve env o.1 o.2 = (a.within b).qinterpResolve env o.1 o.2

/-- The classes are one where the method names a static field, and have the same
constants where it names one. -/
def SharedContext (env : Env) (b d : Nat) (mp : JsMethod) : Prop :=
  ∀ i ∈ mp.body.code, ∀ o ∈ operands i,
    (o.1 = .class → d = b ∨ ¬ env.HasStatic d o.2 ∧ ¬ env.HasStatic b o.2) ∧
      (o.1 = .const → env.const d o.2 = env.const b o.2)

section

variable {env : Env} {b d : Nat}

/-- A static operand denotes the field of that class and number. -/
theorem resolve_static_iff (a : Act) (arg : Int) (src : Source) :
    a.qinterpResolve env .class arg = some src ↔
      env.HasStatic a.frame.ctx arg ∧ src = .loc (.static a.frame.ctx arg.toNat) := by
  rw [Act.qinterpResolve]
  constructor
  · intro found
    obtain ⟨jsp, at_c, found⟩ := Option.bind_eq_some_iff.mp found
    split at found <;> cases found
    rename_i room
    exact ⟨⟨jsp, at_c, room⟩, rfl⟩
  · rintro ⟨⟨jsp, at_c, room⟩, rfl⟩
    rw [at_c]
    exact if_pos room

/-- Some activation. -/
def Act.blank : Act := ⟨⟨0, none, 0, [], .none, .void, 0, 0⟩, 0, [], ⟨fun _ => .void, []⟩, 0⟩

theorem same_static_iff (arg : Int) :
    (∀ a : Act, (a.within d).qinterpResolve env .class arg =
      (a.within b).qinterpResolve env .class arg) ↔
        d = b ∨ ¬ env.HasStatic d arg ∧ ¬ env.HasStatic b arg := by
  constructor
  · intro same
    have blank := same .blank
    by_cases at_d : env.HasStatic d arg
    · have src := (resolve_static_iff (Act.blank.within d) arg _).mpr ⟨at_d, rfl⟩
      rw [blank] at src
      obtain ⟨_, eq⟩ := (resolve_static_iff (Act.blank.within b) arg _).mp src
      cases eq
      exact .inl rfl
    · by_cases at_b : env.HasStatic b arg
      · have src := (resolve_static_iff (Act.blank.within b) arg _).mpr ⟨at_b, rfl⟩
        rw [← blank] at src
        exact absurd ((resolve_static_iff (Act.blank.within d) arg _).mp src).1 at_d
      · exact .inr ⟨at_d, at_b⟩
  · rintro (rfl | ⟨no_d, no_b⟩) a
    · rfl
    · have none_of : ∀ c, ¬ env.HasStatic c arg →
          (a.within c).qinterpResolve env .class arg = none := by
        intro c missing
        apply Option.eq_none_iff_forall_not_mem.mpr
        intro src found
        exact missing ((resolve_static_iff (a.within c) arg src).mp found).1
      rw [none_of d no_d, none_of b no_b]

theorem same_const_iff (arg : Int) :
    (∀ a : Act, (a.within d).qinterpResolve env .const arg =
      (a.within b).qinterpResolve env .const arg) ↔ env.const d arg = env.const b arg := by
  constructor
  · intro same
    have blank : (env.const d arg).map Source.value = (env.const b arg).map Source.value :=
      same .blank
    exact Option.map_injective (fun _ _ eq => Source.value.inj eq) blank
  · intro eq a
    exact congrArg (Option.map Source.value) eq

/-- An inherited method finds its static fields and constants exactly on a class that
shares its context. -/
theorem sameOperands_iff (mp : JsMethod) :
    SameOperands env b d mp ↔ SharedContext env b d mp := by
  refine forall₂_congr fun i _ => forall₂_congr fun o _ => ?_
  obtain ⟨mode, arg⟩ := o
  cases mode with
  | «class» => simp [same_static_iff]
  | const => simp [same_const_iff]
  | im | inst | block =>
      refine iff_of_true (fun a => rfl) ⟨nofun, nofun⟩

end

/-! ## The class in the frame -/

/-- A method that is found on the class of the instance runs in a frame of that class. -/
theorem callInstMethod_found {env : Env} {run : Run} {q : Qinterp} {inst d : Nat}
    {sig : List Char} {mp : JsMethod} (instance_ : q.classOf inst = some d)
    (found : env.findMethod d sig = some mp) (nopop : Bool) :
    q.callInstMethod env run inst sig nopop = (q.enterFrame d).callMethod env run mp nopop := by
  rw [Qinterp.callInstMethod, instance_]
  simp only [Qinterp.callIn, found]

/-- The first thing a call does is to run its method in a frame of the class looked in. -/
theorem callMethod_invokes {env : Env} {run : Run} {q : Qinterp} {d : Nat} {mp : JsMethod}
    {nopop : Bool} {e : Event}
    (first : ((q.enterFrame d).callMethod env run mp nopop).log.head? = some e) :
    ∃ q₁ f rest, e = .invoke mp q₁ ∧ q₁.frames = f :: rest ∧ f.ctx = d ∧ f.curmethod = some mp := by
  unfold Qinterp.callMethod at first
  cases setup : (((q.enterFrame d).setMethod mp).onAct fun a => some (a.enterBlock 0)).bind
      (Qinterp.setLocals mp nopop) with
  | none =>
      rw [setup] at first
      cases first
  | some q₁ =>
      rw [setup] at first
      obtain ⟨f, frames, ctx, method, _⟩ := (Qinterp.fresh_of_setup setup).frame
      refine ⟨q₁, f, _, ?_, frames, ctx, method⟩
      cases first
      rfl

/-- A step keeps the class and the method of its frame. -/
theorem step_context {env : Env} {n fuel : Nat} {i : Instr} {a : Act} {q q' : Qinterp}
    (act : q.act? = some a) (stepped : (Qinterp.step env (interp env n) fuel i a q).ending = .done q') :
    ∃ f f' rest, q.frames = f :: rest ∧ q'.frames = f' :: rest ∧ f'.ctx = f.ctx ∧
      f'.curmethod = f.curmethod := by
  obtain ⟨f, f', rest, at_q, at_q', same, _⟩ :=
    Qinterp.step_stepped (interp_within env n) fuel i act q' stepped
  exact ⟨f, f', rest, at_q, at_q', same.ctx, same.curmethod⟩

/-- A static operand of a method is the number of a static field of its class. -/
theorem Owned.static_operand {classes : List JsClass} (h : Owned classes) {jsp : JsClass}
    (mem : jsp ∈ classes) {mp : JsMethod} (method : mp ∈ jsp.methods) {offset : Int}
    (inCode : Instr.emit1 .lvalue .class (some offset) ∈ mp.body.code) :
    ∃ vdp ∈ jsp.fields, vdp.isstatic = true ∧ (vdp.offset : Int) = offset := by
  obtain ⟨cdata, ok⟩ := h jsp mem mp method
  rcases ok.fieldsIn _ inCode .class offset rfl with block | ⟨vdp, field, mode, at_vdp⟩
  · cases block
  · have modes := jsp.laid.modes vdp field
    refine ⟨vdp, field, ?_, at_vdp⟩
    cases static : vdp.isstatic with
    | true => rfl
    | false =>
        rw [mode, static] at modes
        cases modes

/-- A method that is found on class `d` and called on an instance of it runs in a frame
of `d`, and every step keeps it there.  Its operands denote what they do on an instance
of the class it was compiled in exactly when the two classes share its context; the
static ones are numbers of fields of that class. -/
theorem context_iff {host : Host} {s : Session} (prepared : Prepared host s) {d : Nat}
    {mp : JsMethod} {sig : List Char} (found : (s.env host).findMethod d sig = some mp) :
    (∀ (run : Run) (q : Qinterp) (inst : Nat) (nopop : Bool) (e : Event), q.classOf inst = some d →
      (q.callInstMethod (s.env host) run inst sig nopop).log.head? = some e →
        ∃ q₁ f rest, e = .invoke mp q₁ ∧ q₁.frames = f :: rest ∧ f.ctx = d ∧
          f.curmethod = some mp) ∧
      (∀ (n fuel : Nat) (i : Instr) (a : Act) (q q' : Qinterp), q.act? = some a →
        (Qinterp.step (s.env host) (interp (s.env host) n) fuel i a q).ending = .done q' →
          ∃ f f' rest, q.frames = f :: rest ∧ q'.frames = f' :: rest ∧ f'.ctx = f.ctx ∧
            f'.curmethod = f.curmethod) ∧
      (∀ jsp ∈ s.classes, ∀ mp ∈ jsp.methods, ∀ offset,
        Instr.emit1 .lvalue .class (some offset) ∈ mp.body.code →
          ∃ vdp ∈ jsp.fields, vdp.isstatic = true ∧ (vdp.offset : Int) = offset) ∧
      (SameOperands (s.env host) mp.myclass d mp ↔ SharedContext (s.env host) mp.myclass d mp) := by
  refine ⟨?_, fun _ _ _ _ _ _ => step_context, ?_, sameOperands_iff mp⟩
  · intro run q inst nopop e instance_ first
    rw [callInstMethod_found instance_ found] at first
    exact callMethod_invokes first
  · intro jsp mem mp method offset inCode
    exact (prepared.classes owned_invariant).static_operand mem method inCode

/-- A class with a static field that its method returns, and one derived from it. -/
def inheritedStatic : List Char :=
  ("class B \x7b public static var s = 5; public get() \x7b return s; \x7d \x7d " ++
    "class A : B \x7b public static main() \x7b return 1; \x7d \x7d").toList

/-- The method found on a class of a loaded text: the class it was compiled in,
whether its code reads the first static field, and how many there are. -/
def foundOn (text : List Char) (d : Nat) (sig : List Char) : Option (Nat × Bool × Nat) :=
  (loaded text).bind fun s =>
    ((s.env plainHost).findMethod d sig).bind fun mp =>
      (s.classes[mp.myclass]?).map fun jsp =>
        (mp.myclass, mp.body.code.contains (.emit1 .lvalue .class (some 0)), jsp.staticCount)

theorem foundOn_some {text : List Char} {d b n : Nat} {sig : List Char} {reads : Bool}
    (h : foundOn text d sig = some (b, reads, n)) :
    ∃ (s : Session) (mp : JsMethod) (jsp : JsClass), Prepared plainHost s ∧
      (s.env plainHost).findMethod d sig = some mp ∧ mp.myclass = b ∧
        mp.body.code.contains (.emit1 .lvalue .class (some 0)) = reads ∧
          s.classes[b]? = some jsp ∧ jsp.staticCount = n := by
  obtain ⟨s, load, h⟩ := Option.bind_eq_some_iff.mp h
  obtain ⟨mp, found, h⟩ := Option.bind_eq_some_iff.mp h
  obtain ⟨jsp, at_b, eq⟩ := Option.map_eq_some_iff.mp h
  obtain ⟨at_mp, rest⟩ := Prod.mk.inj eq
  obtain ⟨code, count⟩ := Prod.mk.inj rest
  exact ⟨s, mp, jsp, loaded_prepared load, found, at_mp, code, at_mp ▸ at_b, count⟩

/-- On an instance of the derived class the static field is not that of the base. -/
theorem context_broken :
    ∃ (s : Session) (mp : JsMethod), Prepared plainHost s ∧
      (s.env plainHost).findMethod 2 "get:Ivv".toList = some mp ∧
        ¬ SameOperands (s.env plainHost) mp.myclass 2 mp := by
  have there : foundOn inheritedStatic 2 "get:Ivv".toList = some (1, true, 2) := by
    rw [show inheritedStatic = _ from toList_literals _ _]
    decide +kernel
  obtain ⟨s, mp, jsp, prepared, found, at_mp, reads, at_b, count⟩ := foundOn_some there
  refine ⟨s, mp, prepared, found, fun same => ?_⟩
  have shared := (sameOperands_iff mp).mp same _ (List.contains_iff_mem.mp reads) (.class, 0)
    List.mem_cons_self
  rw [at_mp] at shared
  rcases shared.1 rfl with eq | ⟨_, missing⟩
  · cases eq
  · exact missing ⟨jsp, at_b, Int.le_refl 0, by simp [count]⟩

/-- On its own class the method finds it. -/
theorem context_iff_own :
    ∃ (s : Session) (mp : JsMethod), Prepared plainHost s ∧
      (s.env plainHost).findMethod 1 "get:Ivv".toList = some mp ∧ mp.myclass = 1 ∧
        SameOperands (s.env plainHost) mp.myclass 1 mp := by
  have there : foundOn inheritedStatic 1 "get:Ivv".toList = some (1, true, 2) := by
    rw [show inheritedStatic = _ from toList_literals _ _]
    decide +kernel
  obtain ⟨s, mp, jsp, prepared, found, at_mp, _⟩ := foundOn_some there
  refine ⟨s, mp, prepared, found, at_mp, (context_iff prepared found).2.2.2.mpr ?_⟩
  rw [at_mp]
  exact fun _ _ _ _ => ⟨fun _ => .inl rfl, fun _ => rfl⟩

end Jspp.Kernel
