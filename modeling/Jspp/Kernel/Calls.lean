/-
# Kernel.Calls -- how the call functions call methods

A call function of `interpinner.c` calls methods one after another and does
nothing else that another frame could see.  `CallTree` says that once; what
holds of one method call is carried over to all of them by induction on it.

* `CallTree`: a computation made of method calls; every call function is one.
* `CallTree.balanced`: the frames of the caller are the same afterwards.
* `step_stepped`: every step of an activation moves as its instruction says.
* `interp_within`: `_interp` stays in its frame.
-/
import Jspp.Kernel.Frames

namespace Jspp.Kernel

open Jspp.Compiler Jspp.Theory

set_option autoImplicit false

/-! ## What a call may disturb -/

/-- The place is not a local of a frame above the first `n`. -/
def Loc.Below (n : Nat) : Loc → Prop
  | .local depth _ => depth ≤ n
  | _ => True

/-- The frames are the same, and so are the variants they can name. -/
structure Undisturbed (q q' : Qinterp) : Prop where
  frames : q'.frames = q.frames
  store : ∀ l : Loc, l.Below q.frames.length → q'.store.get l = q.store.get l

theorem Undisturbed.refl (q : Qinterp) : Undisturbed q q := ⟨rfl, fun _ _ => rfl⟩

theorem Undisturbed.trans {q q' q'' : Qinterp} (h : Undisturbed q q') (h' : Undisturbed q' q'') :
    Undisturbed q q'' := by
  refine ⟨h'.frames.trans h.frames, fun l below => ?_⟩
  rw [h'.store l (by rwa [h.frames]), h.store l below]

/-- Only the operand stack was exchanged. -/
theorem undisturbed_stack (q : Qinterp) (stack : List Variant) :
    Undisturbed q { q with stack := stack } :=
  ⟨rfl, fun _ _ => rfl⟩

/-- A computation from `q` that works on its own operand stack and calls methods. -/
inductive CallTree (env : Env) (run : Run) :
    (α : Type) → Qinterp → Traced Event (Qinterp × α) → Prop where
  | quiet {α : Type} {q : Qinterp} {t : Traced Event (Qinterp × α)} (silent : t.log = [])
      (same : Returns t fun r => Undisturbed q r.1) : CallTree env run α q t
  | call {q q' : Qinterp} {ctx : Nat} {sig : List Char} {mp : JsMethod} (nopop : Bool)
      (same : Undisturbed q q') (found : env.findMethod ctx sig = some mp) :
      CallTree env run InterpErrors q ((q'.enterFrame ctx).callMethod env run mp nopop)
  | bind {α β : Type} {q : Qinterp} {t : Traced Event (Qinterp × α)}
      {f : Qinterp × α → Traced Event (Qinterp × β)} (first : CallTree env run α q t)
      (rest : ∀ r, r.1.frames = q.frames → CallTree env run β r.1 (f r)) :
      CallTree env run β q (t.bind f)

section

variable {env : Env} {run : Run} {α : Type} {q : Qinterp} {t : Traced Event (Qinterp × α)}

theorem CallTree.pure {q' : Qinterp} (same : Undisturbed q q') (a : α) :
    CallTree env run α q (.pure (q', a)) :=
  .quiet rfl (.pure same)

theorem CallTree.fault : CallTree env run α q .fault := .quiet rfl .fault

theorem CallTree.timeout : CallTree env run α q .timeout := .quiet rfl .timeout

theorem CallTree.from {q₀ : Qinterp} (same : Undisturbed q₀ q) (h : CallTree env run α q t) :
    CallTree env run α q₀ t := by
  induction h generalizing q₀ with
  | quiet silent back => exact .quiet silent (back.weaken fun r later => same.trans later)
  | call nopop here found => exact .call nopop (same.trans here) found
  | bind first rest ih _ =>
      exact .bind (ih same) fun r frames => rest r (frames.trans same.frames.symm)

/-- The frames of the caller are the same after a call. -/
theorem CallTree.balanced (h : CallTree env run α q t) (good : RunWithin run) :
    Returns t fun r => r.1.frames = q.frames := by
  induction h with
  | quiet silent back => exact back.weaken fun r same => same.frames
  | call nopop same found =>
      exact (Qinterp.callMethod_left good).weaken fun r left => left.frames.trans same.frames
  | bind first rest ih ih' =>
      refine .bind ih fun r frames => ?_
      exact (ih' r frames).weaken fun r' later => later.trans frames

end

/-! ## The call functions -/

namespace Qinterp

variable {env : Env} {run : Run}

/-- Leaving a frame clears its locals, and those are above the frames that stay. -/
theorem leaveFrame_store {nopop : Bool} {q q' : Qinterp} (h : q.leaveFrame nopop = some q')
    {l : Loc} (below : l.Below q'.frames.length) : q'.store.get l = q.store.get l := by
  unfold leaveFrame at h
  split at h
  case h_1 => cases h
  case h_2 f rest frames =>
      obtain ⟨stack, _, rfl⟩ := Option.map_eq_some_iff.mp h
      cases l with
      | «local» depth slot =>
          have other : ¬(depth = q.frames.length ∧ 0 ≤ slot ∧ slot < f.locals) := by
            have le : depth ≤ rest.length := below
            rw [frames, List.length_cons]
            omega
          exact if_neg other
      | static | field | elem => rfl

/-- A call that found no method. -/
theorem unfound_tree {jsp : Nat} {nopop : Bool} {q : Qinterp} {stack : List Variant} {α : Type}
    (a : α) :
    CallTree env run α q
      ((Traced.ofOption (({ q.enterFrame jsp with stack := stack }).leaveFrame nopop)).bind
        fun q => .pure (q, a)) := by
  cases left : ({ q.enterFrame jsp with stack := stack }).leaveFrame nopop with
  | none => exact .fault
  | some q' =>
      obtain ⟨frames, _⟩ := leaveFrame_unfound left
      refine .pure ⟨frames, fun l below => ?_⟩ a
      rw [← frames] at below
      exact leaveFrame_store left below

theorem callStaticMethod_tree (fqname : List Char) (q : Qinterp) :
    CallTree env run InterpErrors q (q.callStaticMethod env run fqname) := by
  unfold callStaticMethod
  simp only
  split
  case h_1 => exact .pure (.refl q) _
  case h_2 jsp cls =>
      split
      case h_1 => exact unfound_tree _
      case h_2 mp found => exact .call false (.refl q) found

theorem callIn_tree (ctx : Nat) (mname : List Char) (nopop : Bool) (q : Qinterp) :
    CallTree env run InterpErrors q (q.callIn env run ctx mname nopop) := by
  unfold callIn
  simp only
  split
  case h_1 =>
      cases nopop
      · exact unfound_tree _
      · exact unfound_tree _
  case h_2 mp found => exact .call nopop (.refl q) found

theorem callInstMethod_tree (inst : Nat) (mname : List Char) (nopop : Bool) (q : Qinterp) :
    CallTree env run InterpErrors q (q.callInstMethod env run inst mname nopop) := by
  unfold callInstMethod
  split
  · exact .fault
  · exact callIn_tree _ _ _ _

theorem callBaseMethod_tree (inst : Nat) (mname : List Char) (q : Qinterp) :
    CallTree env run InterpErrors q (q.callBaseMethod env run inst mname) := by
  unfold callBaseMethod
  split
  · exact .fault
  · split
    · exact callInstMethod_tree _ _ _ _
    · exact callIn_tree _ _ _ _

variable (env run) in
theorem callInternalConstructors_tree (inst n c : Nat) (q : Qinterp) :
    CallTree env run Bool q (q.callInternalConstructors env run inst n c) := by
  induction n generalizing c q with
  | zero => exact .timeout
  | succ n ih =>
      rw [callInternalConstructors]
      split
      case h_1 => exact .fault
      case h_2 jsp found =>
          refine .bind ?_ fun ⟨q₁, ok⟩ _ => ?_
          · split
            · exact .pure (.refl q) _
            · exact ih _ _
          · simp only
            split
            · exact .pure (.refl q₁) _
            · refine .from (undisturbed_stack q₁ (.inst inst :: q₁.stack)) ?_
              split
              case h_1 => exact unfound_tree _
              case h_2 mp method =>
                  exact .bind (.call false (.refl _) method) fun ⟨q₂, err⟩ _ => .pure (.refl q₂) _

theorem callConstructors_tree (inst n c argcount : Nat) (q : Qinterp) :
    CallTree env run InterpErrors q (q.callConstructors env run inst n c argcount) := by
  induction n generalizing c argcount q with
  | zero => exact .timeout
  | succ n ih =>
      rw [callConstructors]
      split
      case h_1 => exact .fault
      case h_2 jsp found =>
          refine .bind ?_ fun ⟨q₁, err₁⟩ _ => ?_
          · split
            · exact .pure (.refl q) _
            · exact ih _ _ _
          · simp only
            split
            · exact .pure (.refl q₁) _
            · refine .bind (callInstMethod_tree _ _ _ _) fun ⟨q₂, err₂⟩ _ => ?_
              simp only
              split
              · split
                · exact ih _ _ _
                · exact .pure (.refl q₂) _
              · split
                · split
                  · exact .pure (undisturbed_stack q₂ _) _
                  · exact .fault
                · exact .pure (.refl q₂) _

theorem dispatch_tree (fuel : Nat) (op : OpCode) (sig : List Char) (argc inst : Nat)
    (q : Qinterp) : CallTree env run InterpErrors q (q.dispatch env run fuel op sig argc inst) := by
  unfold dispatch
  split
  · exact callInstMethod_tree _ _ _ _
  · split
    · exact .fault
    · exact callConstructors_tree _ _ _ _ _
  · exact callBaseMethod_tree _ _ _

end Qinterp

/-! ## Steps -/

/-- What a step of an activation did: it stayed in its frame, and unless it ended
the activation it moved as its instruction says. -/
def Stepped (i : Instr) (q q' : Qinterp) : Prop :=
  ∃ f f' rest, q.frames = f :: rest ∧ q'.frames = f' :: rest ∧ SameCall f f' ∧
    (f'.err ≠ .none ∨ Moves i f.shape f'.shape)

theorem Stepped.within {i : Instr} {q q' : Qinterp} (h : Stepped i q q') : Within q q' := by
  obtain ⟨f, f', rest, at_q, at_q', same, _⟩ := h
  exact ⟨f, f', rest, at_q, at_q', same⟩

/-- After a call the frame is the caller's again. -/
theorem stepped_onAct {i : Instr} {q q₁ q₂ : Qinterp} {g : Act → Option Act}
    (frames : q₁.frames = q.frames) (h : q₁.onAct g = some q₂)
    (moves : ∀ a a', g a = some a' →
      Kept a a' ∧ (a'.frame.err ≠ .none ∨ Moves i a.frame.shape a'.frame.shape)) :
    Stepped i q q₂ := by
  obtain ⟨a, a', act, worked, rfl⟩ := onAct_some h
  obtain ⟨kept, moved⟩ := moves a a' worked
  have at_q := (Qinterp.act?_some act).1
  exact ⟨a.frame, a'.frame, q₁.frames.tail, frames ▸ at_q, rfl, kept.sameCall, moved⟩

namespace Qinterp

variable {env : Env} {run : Run}

/-- The instructions that call: a call's result keeps the shape, or is caught. -/
def Calls (i : Instr) : Prop := ∀ s s', s' = s ∨ Catches s s' → Moves i s s'

theorem calls_emit2 {op : OpCode} {mode mode2 : ArgSource} {arg1 arg2 : Int} :
    Calls (.emit2 op mode mode2 arg1 arg2) := fun _ _ moved => moved

theorem calls_scall {mode : ArgSource} {arg : Option Int} : Calls (.emit1 .scall mode arg) :=
  fun _ _ moved => moved

theorem resume_stepped (good : RunWithin run) {i : Instr} (calls : Calls i) {q : Qinterp}
    {t : Traced Event (Qinterp × InterpErrors)} (tree : CallTree env run InterpErrors q t) :
    Returns (t.bind fun r => r.1.resume r.2) (Stepped i q) := by
  refine .bind (tree.balanced good) fun r frames => .ofOption fun q' resumed => ?_
  refine stepped_onAct frames resumed fun a a' after => ?_
  obtain ⟨kept, stops | moved⟩ := Act.afterCall_moves after
  · exact ⟨kept, .inl stops⟩
  · exact ⟨kept, .inr (calls _ _ moved)⟩

theorem callOp_stepped (good : RunWithin run) {i : Instr} (calls : Calls i) (fuel : Nat)
    (op : OpCode) (arg1 arg2 : Int) (a : Act) (q : Qinterp) :
    Returns (q.callOp env run fuel op arg1 arg2 a) (Stepped i q) := by
  unfold callOp
  split
  case h_2 => exact .fault
  case h_1 sig vthis _ _ =>
      refine resume_stepped good calls (?_ : CallTree env run InterpErrors q _)
      split
      · exact dispatch_tree _ _ _ _ _ _
      · exact callStaticMethod_tree _ _

theorem newOp_stepped (good : RunWithin run) {i : Instr} (stays : ∀ s, Moves i s s) (fuel : Nat)
    (name : List Char) (q : Qinterp) : Returns (q.newOp env run fuel name) (Stepped i q) := by
  unfold newOp
  split
  case h_1 =>
      refine .ofOption fun q' raised => stepped_onAct rfl raised fun a a' eq => ?_
      cases eq
      exact ⟨⟨rfl, rfl, rfl, rfl, rfl⟩, .inl nofun⟩
  case h_2 c found =>
      split
      case h_1 => exact .timeout
      case h_2 slots loaded =>
          simp only
          have tree := callInternalConstructors_tree env run q.store.insts.length
            fuel c { q with store := addInst c slots q.store }
          refine .bind (tree.balanced good) fun r frames => ?_
          refine .ofOption fun q' pushed => stepped_onAct (q := q) frames pushed fun a a' eq => ?_
          cases eq
          split
          · exact ⟨⟨rfl, rfl, rfl, rfl, rfl⟩, .inr (stays _)⟩
          · exact ⟨⟨rfl, rfl, rfl, rfl, rfl⟩, .inl nofun⟩

/-- Every step of an activation stays in its frame and moves as its instruction says. -/
theorem step_stepped (good : RunWithin run) (fuel : Nat) (i : Instr) {a : Act} {q : Qinterp}
    (act : q.act? = some a) : Returns (step env run fuel i a q) (Stepped i q) := by
  unfold step
  split
  case h_1 => exact callOp_stepped good calls_emit2 _ _ _ _ _ _
  case h_2 => exact callOp_stepped good calls_emit2 _ _ _ _ _ _
  case h_3 => exact callOp_stepped good calls_emit2 _ _ _ _ _ _
  case h_4 =>
      split
      · exact .fault
      · exact resume_stepped good calls_scall (callStaticMethod_tree _ _)
  case h_5 =>
      split
      · refine newOp_stepped good ?_ _ _ _
        exact fun _ => rfl
      · exact .fault
  case h_6 =>
      refine .ofOption fun q' executed => ?_
      obtain ⟨a', exec, rfl⟩ := Option.map_eq_some_iff.mp executed
      obtain ⟨kept, moved⟩ := Act.exec_moves exec
      exact ⟨a.frame, a'.frame, q.frames.tail, (act?_some act).1, rfl, kept.sameCall, moved⟩

theorem act?_put (q : Qinterp) {a : Act} (depth : q.frames.tail.length + 1 = a.depth) :
    (q.put a).act? = some a := by
  obtain ⟨frame, d, stack, store, linenum⟩ := a
  cases depth
  rfl

/-- The state `_interp` works in once it read an instruction. -/
theorem act?_advance {q : Qinterp} {a : Act} (act : q.act? = some a) (i : Instr) :
    (q.put (advance i a)).act? = some (advance i a) := by
  refine act?_put q ?_
  obtain ⟨frames, _, _, depth⟩ := act?_some act
  have len := congrArg List.length frames
  rw [List.length_cons] at len
  exact (len.symm.trans depth.symm)

theorem within_advance {q : Qinterp} {a : Act} (act : q.act? = some a) (i : Instr) :
    Within q (q.put (advance i a)) :=
  within_put act ⟨rfl, rfl, rfl, rfl, rfl⟩

theorem loop_within (good : RunWithin run) (fuel base n : Nat) (q : Qinterp) :
    Returns (loop env run fuel base n q) fun q' => q'.frames = q.frames ∨ Within q q' := by
  induction n generalizing q with
  | zero => exact .timeout
  | succ n ih =>
      rw [loop]
      split
      case h_1 => exact .fault
      case h_2 a act =>
          split
          case isFalse => exact .pure (.inl rfl)
          case isTrue =>
              refine .note ?_
              split
              case h_1 => exact .fault
              case h_2 i read =>
                  refine .bind (step_stepped good fuel i (act?_advance act i)) fun q₁ stepped => ?_
                  have first := (within_advance act i).trans stepped.within
                  refine (ih q₁).weaken fun q₂ later => .inr ?_
                  rcases later with same | within
                  · obtain ⟨f, f', rest, at_q, at_q₁, kept⟩ := first
                    exact ⟨f, f', rest, at_q, same.trans at_q₁, kept⟩
                  · exact first.trans within

theorem activation_within (good : RunWithin run) (fuel : Nat) (q : Qinterp) :
    Returns (activation env run fuel q) fun r => Within q r.1 := by
  unfold activation
  split
  case h_1 => exact .fault
  case h_2 a act =>
      have start : Within q (q.put (a.goto 0)) := within_put act ⟨rfl, rfl, rfl, rfl, rfl⟩
      refine .bind (loop_within good fuel _ _ _) fun q₁ looped => ?_
      have here : Within q q₁ := by
        rcases looped with same | within
        · obtain ⟨f, f', rest, at_q, at_put, kept⟩ := start
          exact ⟨f, f', rest, at_q, same.trans at_put, kept⟩
        · exact start.trans within
      split
      case h_1 => exact .fault
      case h_2 b actB =>
          refine .pure (here.trans (within_put actB ?_))
          unfold epilogue
          simp only
          split <;> exact ⟨rfl, rfl, rfl, rfl, rfl⟩

end Qinterp

/-- `_interp` stays in its frame. -/
theorem interp_within (env : Env) (n : Nat) : RunWithin (interp env n) := by
  induction n with
  | zero => exact fun _ => .timeout
  | succ n ih => exact fun q => Qinterp.activation_within ih n q

end Jspp.Kernel
