/-
# Kernel.Frames -- one call and its frame

A call pushes one frame and pops it again, whatever it ends with, and working on
a frame never exchanges its class, its method or the locals outside of its
blocks.

* `SameCall`, `Within`: the same frame at a later point of its call.
* `Fresh`, `fresh_of_setup`: the frame a method starts in.
* `callMethod_left`: what a call leaves behind.
-/
import Jspp.Kernel.Shape

namespace Jspp.Kernel

open Jspp.Compiler Jspp.Theory

set_option autoImplicit false

/-! ## One frame -/

/-- `f'` is `f` at a later point of the same call. -/
structure SameCall (f f' : StackFrame) : Prop where
  ctx : f'.ctx = f.ctx
  curmethod : f'.curmethod = f.curmethod
  stackcount : f'.stackcount = f.stackcount
  base : f'.baseLocals = f.baseLocals

theorem SameCall.trans {f g h : StackFrame} (first : SameCall f g) (second : SameCall g h) :
    SameCall f h :=
  ⟨second.ctx.trans first.ctx, second.curmethod.trans first.curmethod,
    second.stackcount.trans first.stackcount, second.base.trans first.base⟩

theorem Kept.sameCall {a a' : Act} (h : Kept a a') : SameCall a.frame a'.frame :=
  ⟨h.ctx, h.curmethod, h.stackcount, h.base⟩

/-- From `q` to `q'` only the top frame was worked on, and it is still the frame
of the same call. -/
def Within (q q' : Qinterp) : Prop :=
  ∃ f f' rest, q.frames = f :: rest ∧ q'.frames = f' :: rest ∧ SameCall f f'

theorem Within.trans {q q' q'' : Qinterp} (h : Within q q') (h' : Within q' q'') : Within q q'' := by
  obtain ⟨f, f', rest, at_q, at_q', same⟩ := h
  obtain ⟨g, g', rest', at_g, at_g', same'⟩ := h'
  rw [at_q'] at at_g
  obtain ⟨rfl, rfl⟩ := List.cons.inj at_g
  exact ⟨f, g', _, at_q, at_g', same.trans same'⟩

theorem Qinterp.act?_some {q : Qinterp} {a : Act} (h : q.act? = some a) :
    q.frames = a.frame :: q.frames.tail ∧ a.stack = q.stack ∧ a.store = q.store ∧
      a.depth = q.frames.length := by
  unfold Qinterp.act? at h
  split at h
  case h_1 => cases h
  case h_2 f rest frames =>
      cases h
      exact ⟨by rw [frames]; rfl, rfl, rfl, rfl⟩

theorem Qinterp.act?_of_frames {q : Qinterp} {f : StackFrame} {rest : List StackFrame}
    (h : q.frames = f :: rest) :
    q.act? = some ⟨f, q.frames.length, q.stack, q.store, q.linenum⟩ := by
  unfold Qinterp.act?
  rw [h]

theorem within_put {q : Qinterp} {a a' : Act} (h : q.act? = some a) (kept : Kept a a') :
    Within q (q.put a') :=
  ⟨a.frame, a'.frame, q.frames.tail, (Qinterp.act?_some h).1, rfl, kept.sameCall⟩

theorem onAct_some {q q' : Qinterp} {g : Act → Option Act} (h : q.onAct g = some q') :
    ∃ a a', q.act? = some a ∧ g a = some a' ∧ q' = q.put a' := by
  obtain ⟨a, act, h⟩ := Option.bind_eq_some_iff.mp h
  obtain ⟨a', worked, rfl⟩ := Option.map_eq_some_iff.mp h
  exact ⟨a, a', act, worked, rfl⟩

/-! ## Calls -/

/-- `_interp` as an argument: it stays in its frame. -/
def RunWithin (run : Run) : Prop := ∀ q, Returns (run q) fun r => Within q r.1

namespace Qinterp

/-- The state a call starts its method in. -/
structure Fresh (mp : JsMethod) (jsp count : Nat) (rest : List StackFrame) (q : Qinterp) : Prop where
  frame : ∃ f, q.frames = f :: rest ∧ f.ctx = jsp ∧ f.curmethod = some mp ∧
    f.stackcount = count ∧ f.err = .none ∧ f.locals = mp.args.length ∧
      f.blockframes = [⟨0, -1, 0, -1, none, none⟩]

theorem setLocals_some {mp : JsMethod} {nopop : Bool} {q q' : Qinterp}
    (h : q.setLocals mp nopop = some q') :
    ∃ f rest, q.frames = f :: rest ∧
      q'.frames = { f with locals := f.locals + mp.args.length } :: rest := by
  unfold setLocals at h
  split at h
  case h_1 => cases h
  case h_2 f rest frames =>
      obtain ⟨passed, _, rfl⟩ := Option.map_eq_some_iff.mp h
      exact ⟨f, rest, frames, rfl⟩

/-- Setting up a call gives the fresh frame its method, its first block and its arguments. -/
theorem fresh_of_setup {mp : JsMethod} {jsp : Nat} {nopop : Bool} {q q' : Qinterp}
    (h : (((q.enterFrame jsp).setMethod mp).onAct fun a => some (a.enterBlock 0)).bind
      (setLocals mp nopop) = some q') : Fresh mp jsp q.stack.length q.frames q' := by
  obtain ⟨q₁, entered, located⟩ := Option.bind_eq_some_iff.mp h
  obtain ⟨a, a', act, eq, rfl⟩ := onAct_some entered
  cases eq
  obtain ⟨f, rest, frames, frames'⟩ := setLocals_some located
  cases act
  cases frames
  exact ⟨_, frames', rfl, rfl, rfl, rfl, by simp [Act.enterBlock], rfl⟩

theorem leaveFrame_some {nopop : Bool} {q q' : Qinterp} (h : q.leaveFrame nopop = some q') :
    ∃ f stack, q.frames = f :: q'.frames ∧ leftStack f nopop q.stack = some stack ∧
      q'.stack = if returnsValue f then f.retval :: stack else stack := by
  unfold leaveFrame at h
  split at h
  case h_1 => cases h
  case h_2 f rest frames =>
      obtain ⟨stack, left, rfl⟩ := Option.map_eq_some_iff.mp h
      exact ⟨f, stack, frames, left, rfl⟩

theorem runNative_within (env : Env) (mp : JsMethod) {q : Qinterp} {f : StackFrame}
    {rest : List StackFrame} (frames : q.frames = f :: rest) :
    Within q (runNative env mp q).1 := by
  refine ⟨f, { f with retval := (env.native mp q).retval }, rest, frames, ?_, rfl, rfl, rfl, rfl⟩
  unfold runNative
  simp only
  rw [frames]

theorem runMethod_within {env : Env} {run : Run} {mp : JsMethod} {q : Qinterp} {f : StackFrame}
    {rest : List StackFrame} (frames : q.frames = f :: rest) (good : RunWithin run) :
    Returns (runMethod env run mp q) fun r => Within q r.1 := by
  unfold runMethod
  split
  · exact .pure (runNative_within env mp frames)
  · exact good q

/-- What a call leaves behind: the frames of its caller, and the operand stack
`leaveFrame` made of what the method left. -/
structure Left (mp : JsMethod) (count : Nat) (nopop : Bool) (rest : List StackFrame)
    (q' : Qinterp) : Prop where
  frames : q'.frames = rest
  stack : ∃ (f : StackFrame) (before stack : List Variant), f.curmethod = some mp ∧
    f.stackcount = count ∧ leftStack f nopop before = some stack ∧
      q'.stack = if returnsValue f then f.retval :: stack else stack

theorem callMethod_left {env : Env} {run : Run} {mp : JsMethod} {jsp : Nat} {nopop : Bool}
    {q : Qinterp} (good : RunWithin run) :
    Returns ((q.enterFrame jsp).callMethod env run mp nopop) fun r =>
      Left mp q.stack.length nopop q.frames r.1 := by
  unfold callMethod
  refine .bind (.ofOption fun q₁ setup => fresh_of_setup setup) fun q₁ fresh => .note ?_
  obtain ⟨f, frames, _, method, count, _⟩ := fresh.frame
  refine .bind (runMethod_within frames good) fun r within => ?_
  refine .bind (.ofOption fun q₂ left => ?_) fun q₂ left => .pure left
  obtain ⟨q₃, blockLeft, frameLeft⟩ := Option.bind_eq_some_iff.mp left
  obtain ⟨a, a', act, leave, rfl⟩ := onAct_some blockLeft
  have kept := within.trans (within_put act (Act.leaveBlock_kept leave).1)
  obtain ⟨g, g', below, at_q, at_put, same⟩ := kept
  rw [frames] at at_q
  obtain ⟨rfl, rfl⟩ := List.cons.inj at_q
  obtain ⟨h, stack, at_h, leftEq, stackEq⟩ := leaveFrame_some frameLeft
  rw [at_put] at at_h
  obtain ⟨rfl, rest⟩ := List.cons.inj at_h
  exact ⟨rest.symm, g', _, stack, same.curmethod.trans method, same.stackcount.trans count, leftEq,
    stackEq⟩

/-- A call that found no method leaves the frames as they were. -/
theorem leaveFrame_unfound {jsp : Nat} {nopop : Bool} {q q' : Qinterp} {stack : List Variant}
    (h : ({ q.enterFrame jsp with stack := stack }).leaveFrame nopop = some q') :
    q'.frames = q.frames ∧ q'.stack = stack := by
  obtain ⟨f, stack', frames, left, stackEq⟩ := leaveFrame_some h
  obtain ⟨rfl, rest⟩ := List.cons.inj frames
  cases left
  exact ⟨rest.symm, stackEq⟩

end Qinterp

end Jspp.Kernel
