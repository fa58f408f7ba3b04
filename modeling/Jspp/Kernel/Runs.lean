/-
# Kernel.Runs -- invariants along whole runs

A run is what `qinterpRun` logs on a prepared session, or what loading an
accepted text logs.  A property of the current frame that holds when a method
starts, and that every instruction keeps, holds at every fetch of every run, at
every depth of calls, for as long as the steps before met a condition.

* `Ran`: the logs of runs.
* `Started`: the state a method starts in.
* `loop_keeps`: the rule of the loop of `_interp`.
* `ShapeLogic`, `ShapeLogic.ran`: invariants of the program counter and the blocks.
-/
import Jspp.Kernel.Protocol

namespace Jspp.Kernel

open Jspp.Compiler Jspp.Theory

set_option autoImplicit false

/-! ## Runs -/

/-- The logs of `qinterpRun` on a prepared session, and of loading a program into one. -/
inductive Ran (host : Host) : List Event → Prop where
  | run {s : Session} (prepared : Prepared host s) (fuel : Nat) (startcls mainmethod : List Char)
      (argcount : Nat) (q : Qinterp) :
      Ran host (qinterpRun (s.env host) fuel startcls mainmethod argcount q).log
  | load {s : Session} {text : List Char} (prepared : Prepared host s)
      (accepted : (parseChar s.intrinsics text).accepted) (fuel : Nat) :
      Ran host (qinterpPrepare host fuel (parseChar s.intrinsics text) s).log

/-- A method that was found, in its fresh frame. -/
def Started (env : Env) (mp : JsMethod) (q : Qinterp) : Prop :=
  ∃ (ctx : Nat) (sig : List Char) (count : Nat) (rest : List StackFrame),
    env.findMethod ctx sig = some mp ∧ Qinterp.Fresh mp ctx count rest q

/-- `run` keeps the log in order from the start of every method on. -/
structure RunKeeps (env : Env) (run : Run) (cond P : Event → Prop) : Prop where
  run : ∀ mp q, Started env mp q → mp.isnative = false → Keeps cond P (run q) fun _ => True
  invoke : ∀ mp q, Started env mp q → P (.invoke mp q)

section

variable {env : Env} {run : Run} {cond P : Event → Prop}

theorem runMethod_keeps (keeps : RunKeeps env run cond P) {mp : JsMethod} {q : Qinterp}
    (started : Started env mp q) :
    Keeps cond P (Qinterp.runMethod env run mp q) fun _ => True := by
  unfold Qinterp.runMethod
  split
  case isTrue => exact .pure trivial
  case isFalse compiled => exact keeps.run mp q started (by simpa using compiled)

theorem callMethod_keeps (keeps : RunKeeps env run cond P) {ctx : Nat} {sig : List Char}
    {mp : JsMethod} (found : env.findMethod ctx sig = some mp) (nopop : Bool) (q : Qinterp) :
    Keeps cond P ((q.enterFrame ctx).callMethod env run mp nopop) fun _ => True := by
  unfold Qinterp.callMethod
  refine .bind (.ofOption fun q₁ setup => Qinterp.fresh_of_setup setup) fun q₁ fresh => ?_
  have started : Started env mp q₁ := ⟨ctx, sig, _, _, found, fresh⟩
  refine .note (keeps.invoke mp q₁ started) fun _ => ?_
  refine .bind (runMethod_keeps keeps started) fun ⟨q₂, err⟩ _ => ?_
  exact .bind (.ofOption (Q := fun _ => True) fun _ _ => trivial) fun _ _ => .pure trivial

theorem CallTree.keeps {α : Type} {q : Qinterp} {t : Traced Event (Qinterp × α)}
    (h : CallTree env run α q t) (good : RunWithin run) (keeps : RunKeeps env run cond P) :
    Keeps cond P t fun _ => True := by
  induction h with
  | quiet silent same => exact .silent silent fun _ _ => trivial
  | call nopop same found => exact callMethod_keeps keeps found nopop _
  | bind first rest ih ih' =>
      exact .bind (ih.and (first.balanced good)) fun r back => ih' r back.2

namespace Qinterp

theorem resume_keeps {q : Qinterp} {t : Traced Event (Qinterp × InterpErrors)}
    (tree : CallTree env run InterpErrors q t) (good : RunWithin run)
    (keeps : RunKeeps env run cond P) :
    Keeps cond P (t.bind fun r => r.1.resume r.2) fun _ => True :=
  .bind (tree.keeps good keeps) fun _ _ => .ofOption fun _ _ => trivial

theorem callOp_keeps (good : RunWithin run) (keeps : RunKeeps env run cond P) (fuel : Nat)
    (op : OpCode) (arg1 arg2 : Int) (a : Act) (q : Qinterp) :
    Keeps cond P (q.callOp env run fuel op arg1 arg2 a) fun _ => True := by
  unfold callOp
  split
  case h_2 => exact .fault
  case h_1 sig vthis _ _ =>
      refine resume_keeps (?_ : CallTree env run InterpErrors q _) good keeps
      split
      · exact dispatch_tree _ _ _ _ _ _
      · exact callStaticMethod_tree _ _

theorem newOp_keeps (good : RunWithin run) (keeps : RunKeeps env run cond P) (fuel : Nat)
    (name : List Char) (q : Qinterp) :
    Keeps cond P (q.newOp env run fuel name) fun _ => True := by
  unfold newOp
  split
  case h_1 => exact .ofOption fun _ _ => trivial
  case h_2 c found =>
      split
      case h_1 => exact .timeout
      case h_2 slots loaded =>
          simp only
          exact .bind ((callInternalConstructors_tree _ _ _ _ _ _).keeps good keeps) fun _ _ =>
            .ofOption fun _ _ => trivial

/-- What a step logs is the logs of the methods it calls. -/
theorem step_keeps (good : RunWithin run) (keeps : RunKeeps env run cond P) (fuel : Nat)
    (i : Instr) (a : Act) (q : Qinterp) :
    Keeps cond P (step env run fuel i a q) fun _ => True := by
  unfold step
  split
  case h_1 => exact callOp_keeps good keeps _ _ _ _ _ _
  case h_2 => exact callOp_keeps good keeps _ _ _ _ _ _
  case h_3 => exact callOp_keeps good keeps _ _ _ _ _ _
  case h_4 =>
      split
      · exact .fault
      · exact resume_keeps (callStaticMethod_tree _ _) good keeps
  case h_5 =>
      split
      · exact newOp_keeps good keeps _ _ _
      · exact .fault
  case h_6 => exact .ofOption fun _ _ => trivial

/-! ## The loop -/

/-- The condition of the `while` of `_interp`. -/
def Running (f : StackFrame) : Prop := f.pc < (codeOf f).length ∧ f.err = .none

/-- An invariant of the loop: it makes every fetch good, and every step keeps it. -/
theorem loop_keeps {I : Qinterp → Prop} {base fuel : Nat}
    (fetched : ∀ q a, q.act? = some a → Running a.frame → I q → P (.fetch base q))
    (stepped : ∀ q a i, q.act? = some a → Running a.frame → I q → cond (.fetch base q) →
      fetch (codeOf a.frame) a.frame.pc = some i →
        Keeps cond P (step env run fuel i (advance i a) (q.put (advance i a))) I)
    (n : Nat) {q : Qinterp} (inv : I q) : Keeps cond P (loop env run fuel base n q) I := by
  induction n generalizing q with
  | zero => exact .timeout
  | succ n ih =>
      rw [loop]
      split
      case h_1 => exact .fault
      case h_2 a act =>
          split
          case isFalse => exact .pure inv
          case isTrue running =>
              refine .note (fetched q a act running inv) fun met => ?_
              split
              case h_1 => exact .fault
              case h_2 i read =>
                  exact .bind (stepped q a i act running inv met read) fun q' inv' => ih inv'

end Qinterp

end

/-! ## Invariants of a frame -/

/-- `J` holds of the frame a method starts in and of what every instruction makes of
it, so long as the fetches meet `cond`; it makes a fetch good. -/
structure ShapeLogic (env : Env) (cond P : Event → Prop) (J : StackFrame → Prop) : Prop where
  started : ∀ mp q f rest, Started env mp q → mp.isnative = false → q.frames = f :: rest →
    J { f with pc := 0 }
  fetched : ∀ base (q : Qinterp) f rest, q.frames = f :: rest → Qinterp.Running f → J f →
    P (.fetch base q)
  stepped : ∀ base (q : Qinterp) f rest i f', q.frames = f :: rest → Qinterp.Running f → J f →
    cond (.fetch base q) → fetch (Qinterp.codeOf f) f.pc = some i → SameCall f f' →
      Moves i ⟨f.pc + i.size, f.blockframes⟩ f'.shape → J f'
  invoked : ∀ mp q, Started env mp q → P (.invoke mp q)

namespace ShapeLogic

variable {env : Env} {cond P : Event → Prop} {J : StackFrame → Prop}

/-- The invariant of the loop. -/
def Holds (J : StackFrame → Prop) (q : Qinterp) : Prop :=
  ∀ f rest, q.frames = f :: rest → f.err = .none → J f

theorem activation (logic : ShapeLogic env cond P J) {run : Run} (good : RunWithin run)
    (keeps : RunKeeps env run cond P) (fuel : Nat) {mp : JsMethod} {q : Qinterp}
    (started : Started env mp q) (compiled : mp.isnative = false) :
    Keeps cond P (Qinterp.activation env run fuel q) fun _ => True := by
  unfold Qinterp.activation
  split
  case h_1 => exact .fault
  case h_2 a act =>
      have frames := (Qinterp.act?_some act).1
      have inv : Holds J (q.put (a.goto 0)) := by
        intro f rest eq _
        obtain ⟨rfl, rfl⟩ := List.cons.inj eq
        exact logic.started mp q a.frame _ started compiled frames
      refine .bind (Qinterp.loop_keeps ?_ ?_ _ inv) fun q' _ => ?_
      · intro q a act running inv
        have frames := (Qinterp.act?_some act).1
        exact logic.fetched _ q a.frame _ frames running (inv _ _ frames running.2)
      · intro q a i act running inv met read
        have frames := (Qinterp.act?_some act).1
        have log := Qinterp.step_keeps good keeps fuel i (Qinterp.advance i a)
          (q.put (Qinterp.advance i a))
        refine (log.and (Qinterp.step_stepped good fuel i (Qinterp.act?_advance act i))).weaken
          fun q' both => ?_
        obtain ⟨f, f', rest, at_put, at_q', same, stops | moves⟩ := both.2
        · intro g below eq none
          rw [at_q'] at eq
          obtain ⟨rfl, rfl⟩ := List.cons.inj eq
          exact absurd none stops
        · intro g below eq none
          rw [at_q'] at eq
          obtain ⟨rfl, rfl⟩ := List.cons.inj eq
          obtain ⟨rfl, rfl⟩ := List.cons.inj at_put
          have inv := inv _ _ frames running.2
          exact logic.stepped _ q a.frame _ i _ frames running inv met read
            ⟨same.ctx, same.curmethod, same.stackcount, same.base⟩ moves
      · split
        · exact .fault
        · exact .pure trivial

/-- Every activation of `_interp` keeps the log in order. -/
theorem interp (logic : ShapeLogic env cond P J) (n : Nat) :
    RunKeeps env (interp env n) cond P := by
  induction n with
  | zero => exact ⟨fun _ _ _ _ => .timeout, logic.invoked⟩
  | succ n ih =>
      refine ⟨fun mp q started compiled => ?_, logic.invoked⟩
      exact logic.activation (interp_within env n) ih n started compiled

end ShapeLogic

/-! ## From activations to runs -/

section

variable {cond P : Event → Prop}

theorem qinterpRun_keeps {env : Env} {fuel : Nat} (keeps : RunKeeps env (interp env fuel) cond P)
    (startcls mainmethod : List Char) (argcount : Nat) (q : Qinterp) :
    Keeps cond P (qinterpRun env fuel startcls mainmethod argcount q) fun _ => True := by
  unfold qinterpRun
  refine .bind ((Qinterp.callStaticMethod_tree _ _).keeps (interp_within env fuel) keeps)
    fun ⟨q', err⟩ _ => ?_
  simp only
  split <;> exact .pure trivial

variable {host : Host} {Q : List JsClass → Prop}

theorem prepareClass_keeps (inv : ClassInvariant Q) {fuel : Nat} {pp : Program}
    (keeps : ∀ env : Env, env.toHost = host → Q env.classes →
      RunKeeps env (interp env fuel) cond P)
    (c : Nat) {s : Session} (h : Q s.classes) :
    Keeps cond P (prepareClass host fuel pp c s) fun _ => True := by
  unfold prepareClass
  split
  case h_1 => exact .fault
  case h_2 jsp found =>
      simp only
      split
      case h_1 => exact .timeout
      case h_2 => exact .pure trivial
      case h_3 classes linked =>
          have linkedQ := inv.consts pp.comp.cdata c _ (inv.link _ _ _ _ _ linked h)
          refine .bind (qinterpRun_keeps (keeps _ rfl linkedQ) _ _ _ _)
            fun ⟨q, err, varret⟩ _ => ?_
          simp only
          split
          · exact .fault
          · exact .pure trivial

theorem prepareLoop_keeps (inv : ClassInvariant Q) {fuel : Nat} {pp : Program}
    (keeps : ∀ env : Env, env.toHost = host → Q env.classes →
      RunKeeps env (interp env fuel) cond P)
    (cs : List Nat) {s : Session} (h : Q s.classes) :
    Keeps cond P (prepareLoop host fuel pp cs s) fun _ => True := by
  induction cs generalizing s with
  | nil => exact .pure trivial
  | cons c cs ih =>
      have classes : Returns (prepareClass host fuel pp c s) fun r => Q r.1.classes :=
        prepareClass_classes inv h
      refine .bind ((prepareClass_keeps inv keeps c h).and classes) fun ⟨s', ok⟩ here => ?_
      simp only
      split
      · exact ih here.2
      · exact .pure trivial

/-- What holds of the activations in every environment with sound classes holds of
every run. -/
theorem Ran.holds (inv : ClassInvariant Q)
    (keeps : ∀ env : Env, env.toHost = host → Q env.classes → ∀ fuel,
      RunKeeps env (interp env fuel) cond P)
    {log : List Event} (ran : Ran host log) : HoldsWhile cond P log := by
  cases ran with
  | @run s prepared fuel startcls mainmethod argcount q =>
      have classes : Q (s.env host).classes := prepared.classes inv
      exact (qinterpRun_keeps (keeps _ rfl classes fuel) _ _ _ _).log
  | @load s text prepared accepted fuel =>
      have parsed : Q (parseChar s.intrinsics text).heap :=
        inv.parse _ _ accepted (prepared.classes inv)
      refine Keeps.log (Q := fun _ => True) ?_
      unfold qinterpPrepare
      refine .bind (prepareLoop_keeps inv (fun env same classes => keeps env same classes fuel) _
        parsed) fun ⟨s', ok⟩ _ => .pure trivial

end

end Jspp.Kernel
