/-
# Kernel.Paths -- the rounds of one activation

A round of the loop of `_interp` executes one instruction of the activation,
calls included.  `pass` is such a round as a function, and `Follows` the states
that some number of rounds leads to while every one of them meets a condition.

* `pass`, `pass_stepped`: what a round does to its frame; `loop_pass`: it is one.
* `Follows`: the rule for what holds along the rounds is `Follows.holds`.
* `At`: a state at an address, with its operand stack and store.
* `pass_dup`, `pass_push`, `pass_eq`, `pass_jmpz`, `pass_jmp`: rounds from there.
* `inside_round`: a round in a statement stays there or comes to its end.
* `Entry`: the run of a loaded program up to a statement of its `main`.
-/
import Jspp.Compiler.Exits
import Jspp.Kernel.Blocks

namespace Jspp.Kernel

open Jspp.Compiler Jspp.Theory

set_option autoImplicit false

namespace Qinterp

/-! ## Rounds -/

/-- One round of the loop of `_interp`, when it executes an instruction and comes back. -/
def pass (env : Env) (run : Run) (fuel : Nat) (q : Qinterp) : Option Qinterp :=
  match q.act? with
  | none => none
  | some a =>
      if a.frame.pc < (codeOf a.frame).length ∧ a.frame.err = .none then
        match fetch (codeOf a.frame) a.frame.pc with
        | none => none
        | some i => (step env run fuel i (advance i a) (q.put (advance i a))).result?
      else none

section

variable {env : Env} {run : Run} {fuel : Nat} {q q' : Qinterp}

theorem result?_eq_some {R : Type} {t : Traced Event R} {r : R} (h : t.result? = some r) :
    t.ending = .done r := by
  unfold Traced.result? at h
  split at h
  · rename_i r' ending
    cases h
    exact ending
  · cases h

/-- A round executes the instruction that is read, in the frame on top. -/
theorem pass_some (h : pass env run fuel q = some q') :
    ∃ a i, q.act? = some a ∧ Running a.frame ∧ fetch (codeOf a.frame) a.frame.pc = some i ∧
      (step env run fuel i (advance i a) (q.put (advance i a))).ending = .done q' := by
  unfold pass at h
  split at h
  case h_1 => cases h
  case h_2 a act =>
      split at h
      case isFalse => cases h
      case isTrue running =>
          split at h
          case h_1 => cases h
          case h_2 i read => exact ⟨a, i, act, running, read, result?_eq_some h⟩

/-- What a round does to its frame. -/
theorem pass_stepped (good : RunWithin run) (h : pass env run fuel q = some q') :
    ∃ f f' rest i, q.frames = f :: rest ∧ q'.frames = f' :: rest ∧ Running f ∧
      fetch (codeOf f) f.pc = some i ∧ SameCall f f' ∧
        (f'.err ≠ .none ∨ Moves i ⟨f.pc + i.size, f.blockframes⟩ f'.shape) := by
  obtain ⟨a, i, act, running, read, ended⟩ := pass_some h
  obtain ⟨f, f', rest, at_put, at_q', same, moved⟩ :=
    step_stepped good fuel i (act?_advance act i) q' ended
  obtain ⟨rfl, rfl⟩ := List.cons.inj at_put
  have frames := (act?_some act).1
  refine ⟨a.frame, f', q.frames.tail, i, frames, at_q', running, read, ?_, moved⟩
  exact ⟨same.ctx, same.curmethod, same.stackcount, same.base⟩

/-- The loop goes on from where a round comes back. -/
theorem loop_pass (base n : Nat) (h : pass env run fuel q = some q') :
    (loop env run fuel base (n + 1) q).ending = (loop env run fuel base n q').ending := by
  obtain ⟨a, i, act, running, read, ended⟩ := pass_some h
  have bound : ∀ t : Traced Event Qinterp, t.ending = .done q' →
      (t.bind (loop env run fuel base n)).ending = (loop env run fuel base n q').ending := by
    rintro ⟨log, ending⟩ rfl
    rfl
  rw [loop]
  simp only [act, read]
  rw [if_pos (show a.frame.pc < (codeOf a.frame).length ∧ a.frame.err = .none from running)]
  exact bound _ ended

/-- A round with an instruction that calls nothing. -/
theorem pass_exec {a : Act} {i : Instr} (act : q.act? = some a)
    (read : fetch (codeOf a.frame) a.frame.pc = some i)
    (plain : ∀ (a : Act) (q : Qinterp),
      step env run fuel i a q = .ofOption ((a.exec env i).map q.put))
    (h : pass env run fuel q = some q') :
    ∃ a', (advance i a).exec env i = some a' ∧ q' = q.put a' := by
  obtain ⟨b, j, act', _, read', ended⟩ := pass_some h
  rw [act] at act'
  cases act'
  rw [read] at read'
  cases read'
  rw [plain] at ended
  cases executed : (advance i a).exec env i with
  | none =>
      rw [executed] at ended
      cases ended
  | some a' =>
      rw [executed] at ended
      cases ended
      exact ⟨a', rfl, rfl⟩

end

/-! ## Several rounds -/

/-- The states that so many rounds lead to, each of which meets the condition. -/
inductive Follows (env : Env) (run : Run) (fuel : Nat) (ok : Qinterp → Qinterp → Prop)
    (q₀ : Qinterp) : Nat → Qinterp → Prop where
  | start : Follows env run fuel ok q₀ 0 q₀
  | round {k : Nat} {q q' : Qinterp} (before : Follows env run fuel ok q₀ k q)
      (passed : pass env run fuel q = some q') (met : ok q q') :
      Follows env run fuel ok q₀ (k + 1) q'

/-- What holds at the start and is kept by every round that meets the condition. -/
theorem Follows.holds {env : Env} {run : Run} {fuel : Nat} {ok : Qinterp → Qinterp → Prop}
    {q₀ q : Qinterp} {k : Nat} {P : Nat → Qinterp → Prop} (start : P 0 q₀)
    (keeps : ∀ k q q', P k q → pass env run fuel q = some q' → ok q q' → P (k + 1) q')
    (h : Follows env run fuel ok q₀ k q) : P k q := by
  induction h with
  | start => exact start
  | round before passed met ih => exact keeps _ _ _ ih passed met

/-- Several rounds stay in the frame they start in. -/
theorem Follows.same {env : Env} {run : Run} {fuel : Nat} {ok : Qinterp → Qinterp → Prop}
    {q₀ q : Qinterp} {k : Nat} (good : RunWithin run) {f : StackFrame} {rest : List StackFrame}
    (frames : q₀.frames = f :: rest) (h : Follows env run fuel ok q₀ k q) :
    ∃ f', q.frames = f' :: rest ∧ SameCall f f' := by
  refine h.holds (P := fun _ q => ∃ f', q.frames = f' :: rest ∧ SameCall f f')
    ⟨f, frames, ⟨rfl, rfl, rfl, rfl⟩⟩ ?_
  rintro k q q' ⟨f₁, top, same⟩ passed _
  obtain ⟨g, f', _, i, at_q, at_q', _, _, next, _⟩ := pass_stepped good passed
  rw [top] at at_q
  obtain ⟨rfl, rfl⟩ := List.cons.inj at_q
  exact ⟨f', at_q', same.trans next⟩

/-- So many rounds, all of which pass a test. -/
def passes (env : Env) (run : Run) (fuel : Nat) (going : Qinterp → Qinterp → Bool) :
    Nat → Qinterp → Option Qinterp
  | 0, q => some q
  | n + 1, q =>
      (passes env run fuel going n q).bind fun q =>
        (pass env run fuel q).bind fun q' => if going q q' then some q' else none

theorem passes_follows {env : Env} {run : Run} {fuel : Nat} {going : Qinterp → Qinterp → Bool}
    {ok : Qinterp → Qinterp → Prop} (met : ∀ q q', going q q' = true → ok q q') {n : Nat}
    {q₀ q : Qinterp} (h : passes env run fuel going n q₀ = some q) :
    Follows env run fuel ok q₀ n q := by
  induction n generalizing q with
  | zero =>
      cases h
      exact .start
  | succ n ih =>
      obtain ⟨q₁, before, h⟩ := Option.bind_eq_some_iff.mp h
      obtain ⟨q₂, passed, h⟩ := Option.bind_eq_some_iff.mp h
      split at h
      case isTrue goes =>
          cases h
          exact .round (ih before) passed (met q₁ _ goes)
      case isFalse => cases h

/-! ## States at an address -/

/-- The value of a literal. -/
def litValue (env : Env) (ctx : Nat) : Expr → Option Variant
  | .push .im arg => some (.int arg)
  | .push .const arg => env.const ctx arg
  | _ => none

/-- The activation ends: an error, a return or an exception. -/
def Halted (q : Qinterp) : Prop := ∃ f rest, q.frames = f :: rest ∧ f.err ≠ .none

/-- An activation of that method in a frame of that class and depth, at an address,
with its operand stack and store. -/
structure At (mp : JsMethod) (ctx depth : Nat) (st : Store) (pc : Int) (stack : List Variant)
    (q : Qinterp) : Prop where
  frame : ∃ f rest, q.frames = f :: rest ∧ f.curmethod = some mp ∧ f.ctx = ctx ∧ f.pc = pc ∧
    f.err = .none ∧ rest.length + 1 = depth
  stack : q.stack = stack
  store : q.store = st

section

variable {env : Env} {run : Run} {fuel : Nat} {mp : JsMethod} {ctx depth : Nat} {st : Store}
  {k : Nat} {stack : List Variant} {q q' : Qinterp} {c : Ctx} {scope : List Local}

/-- The activation of a state, and what it reads. -/
theorem At.act {pc : Int} (h : At mp ctx depth st pc stack q) :
    ∃ f : StackFrame, ∃ linenum, q.act? = some ⟨f, depth, stack, st, linenum⟩ ∧
      f.curmethod = some mp ∧ f.ctx = ctx ∧ f.pc = pc ∧ f.err = .none ∧
        q.frames.tail.length + 1 = depth := by
  obtain ⟨f, rest, frames, method, at_ctx, at_pc, good, at_depth⟩ := h.frame
  refine ⟨f, q.linenum, ?_, method, at_ctx, at_pc, good, by rw [frames]; exact at_depth⟩
  unfold act?
  rw [frames]
  simp only [h.stack, h.store, List.length_cons, at_depth]

/-- The state after work in that frame that only moves on in its method. -/
theorem at_put {f : StackFrame} {linenum pc : Int} {next : Nat} (method : f.curmethod = some mp)
    (at_ctx : f.ctx = ctx) (good : f.err = .none) (at_depth : q.frames.tail.length + 1 = depth)
    (eq : pc = next) :
    At mp ctx depth st next stack (q.put ⟨{ f with pc := pc }, depth, stack, st, linenum⟩) :=
  ⟨⟨{ f with pc := pc }, q.frames.tail, rfl, method, at_ctx, eq, good, at_depth⟩, rfl, rfl⟩

theorem halted_put {a : Act} (bad : a.frame.err ≠ .none) : Halted (q.put a) :=
  ⟨a.frame, q.frames.tail, rfl, bad⟩

variable (ok : Compiled mp)

include ok

/-- What is read at the address of a spot is its instruction. -/
theorem At.read (h : At mp ctx depth st k stack q) {i : Instr}
    (spot : lineAt (mp.body.spots mp.params) k = some ⟨i, c, scope⟩) :
    ∀ a, q.act? = some a → fetch (codeOf a.frame) a.frame.pc = some i := by
  intro a act
  obtain ⟨f, linenum, act', method, _, pc, _, _⟩ := h.act
  rw [act] at act'
  cases act'
  obtain ⟨_, _, _, okCode⟩ := ok
  rw [codeOf, method, pc]
  simp only [Option.map_some, Option.getD_some]
  rw [fetch, if_neg (by omega), Int.toNat_natCast, okCode.code, ← Body.map_spots mp.params,
    fetchAt_spots, spot]
  rfl

theorem pass_dup {v : Variant} (h : At mp ctx depth st k (v :: stack) q)
    (spot : lineAt (mp.body.spots mp.params) k = some ⟨.emit0 .dup, c, scope⟩)
    (passed : pass env run fuel q = some q') :
    Halted q' ∨ At mp ctx depth st ↑(k + 1) (v :: v :: stack) q' := by
  obtain ⟨f, linenum, act, method, at_ctx, pc, good, at_depth⟩ := h.act
  obtain ⟨a', executed, rfl⟩ := pass_exec act (h.read ok spot _ act) (fun _ _ => rfl) passed
  have pushed : (advance (.emit0 .dup) ⟨f, depth, v :: stack, st, linenum⟩).stackPush v = some a' :=
    executed
  unfold Act.stackPush at pushed
  split at pushed
  · cases pushed
    exact .inl (halted_put nofun)
  · cases pushed
    refine .inr (at_put method at_ctx good at_depth ?_)
    rw [pc]
    rfl

theorem pass_push {mode : ArgSource} {arg : Int} (plain : mode = .im ∨ mode = .const)
    (h : At mp ctx depth st k stack q)
    (spot : lineAt (mp.body.spots mp.params) k = some ⟨.emit1 .push mode (some arg), c, scope⟩)
    (passed : pass env run fuel q = some q') :
    Halted q' ∨ ∃ w, litValue env ctx (.push mode arg) = some w ∧
      At mp ctx depth st ↑(k + 3) (w :: stack) q' := by
  obtain ⟨f, linenum, act, method, at_ctx, pc, good, at_depth⟩ := h.act
  obtain ⟨a', executed, rfl⟩ := pass_exec act (h.read ok spot _ act) (fun _ _ => rfl) passed
  obtain ⟨w, resolved, pushed⟩ := Option.bind_eq_some_iff.mp
    (show ((advance (.emit1 .push mode (some arg)) ⟨f, depth, stack, st, linenum⟩).resolveValue env
      mode arg).bind (fun v => Act.stackPush v (advance (.emit1 .push mode (some arg))
        ⟨f, depth, stack, st, linenum⟩)) = some a' from executed)
  have value : litValue env ctx (.push mode arg) = some w := by
    rcases plain with rfl | rfl
    · exact resolved
    · obtain ⟨src, const, eq⟩ := Option.map_eq_some_iff.mp resolved
      obtain ⟨u, found, rfl⟩ := Option.map_eq_some_iff.mp const
      cases eq
      rw [← at_ctx]
      exact found
  unfold Act.stackPush at pushed
  split at pushed
  · cases pushed
    exact .inl (halted_put nofun)
  · cases pushed
    refine .inr ⟨_, value, at_put method at_ctx good at_depth ?_⟩
    rw [pc]
    rfl

theorem pass_eq {v w : Variant} (h : At mp ctx depth st k (w :: v :: stack) q)
    (spot : lineAt (mp.body.spots mp.params) k = some ⟨.emit0 .eq, c, scope⟩)
    (passed : pass env run fuel q = some q') :
    Halted q' ∨ ∃ r, Variant.varAssignOpEQ (st.operand depth v) (st.operand depth w) = .value r ∧
      At mp ctx depth st ↑(k + 1) (r :: stack) q' := by
  obtain ⟨f, linenum, act, method, at_ctx, pc, good, at_depth⟩ := h.act
  obtain ⟨a', executed, rfl⟩ := pass_exec act (h.read ok spot _ act) (fun _ _ => rfl) passed
  have compared : (advance (.emit0 .eq) ⟨f, depth, w :: v :: stack, st, linenum⟩).binop
      Variant.varAssignOpEQ = some a' := executed
  unfold Act.binop at compared
  simp only [advance, Act.goto] at compared
  split at compared
  case h_1 r value =>
      cases compared
      refine .inr ⟨r, value, at_put method at_ctx good at_depth ?_⟩
      rw [pc]
      rfl
  case h_2 =>
      cases compared
      exact .inl (halted_put nofun)
  case h_3 => cases compared

theorem pass_jmpz {i : Int} {t : Nat} (h : At mp ctx depth st k (.bool i :: stack) q)
    (spot : lineAt (mp.body.spots mp.params) k = some ⟨.im .jmpz t, c, scope⟩)
    (passed : pass env run fuel q = some q') :
    At mp ctx depth st ↑(if i = 0 then t else k + 3) stack q' := by
  obtain ⟨f, linenum, act, method, at_ctx, pc, good, at_depth⟩ := h.act
  obtain ⟨a', executed, rfl⟩ := pass_exec act (h.read ok spot _ act) (fun _ _ => rfl) passed
  have jumped : (advance (.im .jmpz t) ⟨f, depth, .bool i :: stack, st, linenum⟩).jumpIf env
      true t = some a' := executed
  unfold Act.jumpIf at jumped
  simp only [advance, Act.goto, Act.testTop, Option.bind_some] at jumped
  by_cases zero : i = 0
  · simp only [zero, beq_self_eq_true, if_true] at jumped ⊢
    cases jumped
    exact at_put method at_ctx good at_depth rfl
  · have ne : (i == 0) = false := by simpa using zero
    simp only [ne, Bool.false_eq_true, if_false, zero] at jumped ⊢
    cases jumped
    refine at_put method at_ctx good at_depth ?_
    rw [pc]
    rfl

theorem pass_jmp {t : Int} (h : At mp ctx depth st k stack q)
    (spot : lineAt (mp.body.spots mp.params) k = some ⟨.jmp (some t), c, scope⟩)
    (passed : pass env run fuel q = some q') : At mp ctx depth st t stack q' := by
  obtain ⟨f, linenum, act, method, at_ctx, pc, good, at_depth⟩ := h.act
  obtain ⟨a', executed, rfl⟩ := pass_exec act (h.read ok spot _ act) (fun _ _ => rfl) passed
  cases executed
  exact ⟨⟨_, q.frames.tail, rfl, method, at_ctx, rfl, good, at_depth⟩, rfl, rfl⟩

end

/-- The frame on top is one of that method, between two addresses. -/
def Inside (mp : JsMethod) (lo hi : Nat) (q : Qinterp) : Prop :=
  ∃ f rest, q.frames = f :: rest ∧ f.curmethod = some mp ∧ ↑lo ≤ f.pc ∧ f.pc ≤ ↑hi

/-- Nothing leads out of a part of the code: no jump to -1, no `break` or `continue`, and
no exception that is caught. -/
structure KeepsIn (lo hi : Nat) (q q' : Qinterp) : Prop where
  filled : ∀ f rest mode, q.frames = f :: rest →
    fetch (codeOf f) f.pc ≠ some (.emit1 .jmp mode (some (-1)))
  broke : ∀ f rest, q.frames = f :: rest → fetch (codeOf f) f.pc = some (.emit0 .break) →
    ↑lo ≤ Act.getBreak f ∧ Act.getBreak f ≤ ↑hi
  continued : ∀ f rest, q.frames = f :: rest → fetch (codeOf f) f.pc = some (.emit0 .continue) →
    ↑lo ≤ Act.getBreak f - 3 ∧ Act.getBreak f - 3 ≤ ↑hi
  caught : ∀ f rest f' rest' pc, q.frames = f :: rest → q'.frames = f' :: rest' →
    Catches ⟨pc, f.blockframes⟩ f'.shape →
      ↑lo ≤ Act.handlerPc f.blockframes ∧ Act.handlerPc f.blockframes ≤ ↑hi

section

variable {env : Env} {run : Run} {fuel : Nat} {q q' : Qinterp}

/-- Nothing follows when the activation ended. -/
theorem not_pass_halted (halted : Halted q) : pass env run fuel q ≠ some q' := by
  intro passed
  obtain ⟨f, rest, frames, bad⟩ := halted
  obtain ⟨a, i, act, running, _, _⟩ := pass_some passed
  have same := (act?_some act).1
  rw [frames] at same
  cases same
  exact bad running.2

end

/-! ## Rounds in a statement -/

/-- A test of a round that leads nowhere but on. -/
def calm (q q' : Qinterp) : Bool :=
  match q.frames with
  | [] => true
  | f :: _ =>
      (q'.frames.all fun f' => f'.pc != Act.handlerPc f.blockframes) &&
        match fetch (codeOf f) f.pc with
        | some (.emit0 .break) | some (.emit0 .continue) => false
        | some (.emit1 .jmp _ (some t)) => t != -1
        | _ => true

theorem calm_keepsIn {q q' : Qinterp} (h : calm q q' = true) (lo hi : Nat) :
    KeepsIn lo hi q q' := by
  unfold calm at h
  split at h
  case h_1 none =>
      refine ⟨?_, ?_, ?_, ?_⟩
      all_goals
        intro f rest
        simp [none]
  case h_2 f rest frames =>
      obtain ⟨free, stays⟩ := Bool.and_eq_true_iff.mp h
      refine ⟨?_, ?_, ?_, ?_⟩
      all_goals
        intro g below
      · intro mode top read
        rw [frames] at top
        cases top
        rw [read] at stays
        simp at stays
      · intro top read
        rw [frames] at top
        cases top
        rw [read] at stays
        cases stays
      · intro top read
        rw [frames] at top
        cases top
        rw [read] at stays
        cases stays
      · intro f' rest' pc top next caught
        rw [frames] at top
        cases top
        have away := List.all_eq_true.mp free f' (by simp [next])
        have there : f'.pc = Act.handlerPc f.blockframes := congrArg Shape.pc caught.2
        simp [there] at away

section

variable {whole : List Spot} {last : Ctx} {lo hi b : Nat} {l : Spot} {s s' : Shape}

/-- The ways an instruction can leave its part of the code. -/
theorem stays_step (wired : l.Wired whole last b) (stays : l.Stays lo hi b)
    (pc : s.pc = ↑(b + l.instr.size)) (moves : Moves l.instr s s') :
    (↑lo ≤ s'.pc ∧ s'.pc ≤ ↑hi) ∨ (∃ mode, l.instr = .emit1 .jmp mode (some (-1))) ∨
      (l.instr = .emit0 .break ∧ s'.pc = ((s.blocks.head?).map BlockFrame.breakpc).getD (-1)) ∨
      (l.instr = .emit0 .continue ∧
        s'.pc = ((s.blocks.head?).map BlockFrame.breakpc).getD (-1) - 3) ∨ Catches s s' := by
  obtain ⟨i, c, scope⟩ := l
  obtain ⟨low, next, jumps⟩ := stays
  have behind : ↑lo ≤ s.pc ∧ s.pc ≤ ↑hi := by
    rw [pc]
    simp only at next ⊢
    omega
  have stay : s' = s → ↑lo ≤ s'.pc ∧ s'.pc ≤ ↑hi := by
    rintro rfl
    exact behind
  cases i with
  | emit2 op mode mode2 arg1 arg2 =>
      rcases moves with same | caught
      · exact .inl (stay same)
      · exact .inr (.inr (.inr (.inr caught)))
  | emit0 op =>
      cases op with
      | leave =>
          have eq : s' = ⟨s.pc, s.blocks.tail⟩ := moves
          subst eq
          exact .inl behind
      | «break» => exact .inr (.inr (.inl ⟨rfl, congrArg Shape.pc moves.1⟩))
      | «continue» => exact .inr (.inr (.inr (.inl ⟨rfl, congrArg Shape.pc moves.2⟩)))
      | throw => exact .inr (.inr (.inr (.inr moves)))
      | ret | vret => exact False.elim moves
      | _ => exact .inl (stay moves)
  | emit1 op mode arg =>
      cases op with
      | enter =>
          cases arg with
          | none => exact False.elim moves
          | some n =>
              obtain ⟨bf, _, _, _, _, _, rfl⟩ := moves
              exact .inl behind
      | setbreak | «try» =>
          cases arg with
          | none => exact False.elim wired
          | some t =>
              obtain ⟨rfl, _⟩ := wired
              obtain ⟨bf, rest, _, rfl⟩ := moves
              exact .inl behind
      | jmp =>
          cases arg with
          | none => exact False.elim moves
          | some t =>
              have eq : s' = ⟨t, s.blocks⟩ := moves
              subst eq
              rcases jumps _ _ _ rfl (.inl rfl) with ⟨_, rfl⟩ | room
              · exact .inr (.inl ⟨mode, rfl⟩)
              · exact .inl room
      | jmpz | jmpnz =>
          cases arg with
          | none => exact False.elim moves
          | some t =>
              rcases moves with same | rfl
              · exact .inl (stay same)
              · rcases jumps _ _ _ rfl (by decide) with ⟨eq, _⟩ | room
                · cases eq
                · exact .inl room
      | scall =>
          rcases moves with same | caught
          · exact .inl (stay same)
          · exact .inr (.inr (.inr (.inr caught)))
      | _ => exact .inl (stay moves)

end

section

variable {env : Env} {run : Run} {fuel : Nat} {mp : JsMethod} {q q' : Qinterp}

/-- A round from inside of a statement stays there, or comes to its end. -/
theorem inside_round (good : RunWithin run) (ok : Compiled mp) {st : Stmt} {start : Nat} {c : Ctx}
    {scope : List Local} (placed : Placed (mp.body.spots mp.params) start (st.spots start c scope))
    (inside : Inside mp start (start + st.size) q)
    (going : ∀ f rest, q.frames = f :: rest → f.pc ≠ ↑(start + st.size))
    (keeps : KeepsIn start (start + st.size) q q') (passed : pass env run fuel q = some q') :
    Halted q' ∨ Inside mp start (start + st.size) q' := by
  obtain ⟨f, f', rest, i, frames, frames', _, read, same, moved⟩ := pass_stepped good passed
  obtain ⟨g, _, frames₂, method, low, high⟩ := inside
  rw [frames] at frames₂
  obtain ⟨rfl, rfl⟩ := List.cons.inj frames₂
  rcases moved with bad | moves
  · exact .inl ⟨f', rest, frames', bad⟩
  · refine .inr ⟨f', rest, frames', same.curmethod.trans method, ?_⟩
    have short := going f rest frames
    have fetched : fetch mp.code f.pc = some i := by
      rw [codeOf, method] at read
      exact read
    obtain ⟨k, l, at_k, at_l, rfl⟩ := ok.fetch fetched
    have stays := Placed.stays placed (k := k) (by omega) (by omega) at_l
    have wired := (Body.wired mp.params mp.body).at at_l
    rw [Nat.zero_add] at wired
    have behind : f.pc + ↑l.instr.size = ↑(k + l.instr.size) := by omega
    rcases stays_step wired stays behind moves with
      room | ⟨mode, eq⟩ | ⟨eq, pc⟩ | ⟨eq, pc⟩ | caught
    · exact room
    · exact absurd (eq ▸ read) (keeps.filled f rest mode frames)
    · have target := keeps.broke f rest frames (eq ▸ read)
      rw [getBreak_eq] at target
      show ↑start ≤ f'.shape.pc ∧ f'.shape.pc ≤ _
      rw [pc]
      exact target
    · have target := keeps.continued f rest frames (eq ▸ read)
      rw [getBreak_eq] at target
      show ↑start ≤ f'.shape.pc ∧ f'.shape.pc ≤ _
      rw [pc]
      exact target
    · have target := keeps.caught f rest f' rest _ frames frames' caught
      show ↑start ≤ f'.shape.pc ∧ f'.shape.pc ≤ _
      rw [caught.2]
      exact target

end

end Qinterp

open Qinterp

/-! ## Runs of a loaded program -/

/-- The first statement of a kind in a sequence of statements, with where it stands. -/
def Stmt.find (wanted : Stmt → Bool) (b : Nat) (c : Ctx) (scope : List Local) :
    Stmt → Option (Nat × Stmt × Ctx × List Local)
  | .seq s t =>
      match Stmt.find wanted b c scope s with
      | none => Stmt.find wanted (b + s.size) c (scope ++ s.decls) t
      | some found => some found
  | s => if wanted s then some (b, s, c, scope) else none

theorem Stmt.find_placed {whole : List Spot} {wanted : Stmt → Bool} {s s' : Stmt} {b b' : Nat}
    {c c' : Ctx} {scope scope' : List Local} (placed : Placed whole b (s.spots b c scope))
    (found : Stmt.find wanted b c scope s = some (b', s', c', scope')) :
    Placed whole b' (s'.spots b' c' scope') := by
  cases s with
  | seq s t =>
      rw [Stmt.find] at found
      split at found
      case h_1 =>
          have behind := placed.append_right
          rw [Stmt.extent_spots] at behind
          exact Stmt.find_placed behind found
      case h_2 first =>
          cases found
          exact Stmt.find_placed placed.append_left first
  | _ =>
      rw [Stmt.find] at found
      · split at found
        case isTrue =>
            cases found
            exact placed
        case isFalse => cases found
      · exact nofun

/-- The first statement of a kind in a method. -/
def Body.find (wanted : Stmt → Bool) (params : List Local) :
    Body → Option (Nat × Stmt × Ctx × List Local)
  | .method locals s => Stmt.find wanted 3 (Ctx.start.enter locals) params s
  | _ => none

theorem Body.find_placed {wanted : Stmt → Bool} {params : List Local} {body : Body} {b : Nat}
    {s : Stmt} {c : Ctx} {scope : List Local}
    (found : Body.find wanted params body = some (b, s, c, scope)) :
    Placed (body.spots params) b (s.spots b c scope) := by
  cases body with
  | method locals s =>
      have placed : Placed ((Body.method locals s).spots params) 3
          (s.spots 3 (Ctx.start.enter locals) params) :=
        (Placed.self ((Body.method locals s).spots params)).tail.append_left
      exact Stmt.find_placed placed found
  | empty | inits es => cases found

/-- The state in which a method of class 1 without arguments starts. -/
def startOf (mp : JsMethod) (q : Qinterp) : Qinterp :=
  { q with
    frames := [⟨1, some mp, mp.args.length, [⟨0, -1, 0, -1, none, none⟩], .none, .void,
      q.stack.length, 0⟩] }

/-- A statement of `main` of class 1 of a session, and a state of a run of it. -/
structure Entry where
  s : Session
  mp : JsMethod
  b : Nat
  st : Stmt
  c : Ctx
  scope : List Local
  q : Qinterp

/-- `n` rounds from the start of `main` of a loaded text. -/
def entry (text : List Char) (wanted : Stmt → Bool) (n : Nat) : Option Entry :=
  (loaded text).bind fun s =>
    let env := s.env plainHost
    (env.findMethod 1 "main:Sv".toList).bind fun mp =>
      (Body.find wanted mp.params mp.body).bind fun (b, st, c, scope) =>
        (passes env (interp env 20) 20 (fun _ _ => true) n (startOf mp s.q)).map fun q =>
          ⟨s, mp, b, st, c, scope, q⟩

/-- What an entry shows: a statement of an accepted program, and a state of its `main`. -/
structure Entry.Real (n : Nat) (x : Entry) : Prop where
  prepared : Prepared plainHost x.s
  found : (x.s.env plainHost).findMethod 1 "main:Sv".toList = some x.mp
  placed : Placed (x.mp.body.spots x.mp.params) x.b (x.st.spots x.b x.c x.scope)
  started : ∃ q₁, Started (x.s.env plainHost) x.mp q₁ ∧
    Follows (x.s.env plainHost) (interp (x.s.env plainHost) 20) 20 (fun _ _ => True) q₁ n x.q
  frame : ∃ f, x.q.frames = [f] ∧ f.curmethod = some x.mp ∧ f.ctx = 1

theorem entry_real {text : List Char} {wanted : Stmt → Bool} {n : Nat} {x : Entry}
    (h : entry text wanted n = some x) : x.Real n := by
  obtain ⟨s, load, h⟩ := Option.bind_eq_some_iff.mp h
  obtain ⟨mp, found, h⟩ := Option.bind_eq_some_iff.mp h
  obtain ⟨⟨b, st, c, scope⟩, first, h⟩ := Option.bind_eq_some_iff.mp h
  obtain ⟨q, before, rfl⟩ := Option.map_eq_some_iff.mp h
  have started : Started (s.env plainHost) mp (startOf mp s.q) :=
    ⟨1, _, _, [], found, ⟨_, rfl, rfl, rfl, rfl, rfl, rfl, rfl⟩⟩
  have walked : Follows (s.env plainHost) (interp (s.env plainHost) 20) 20 (fun _ _ => True)
      (startOf mp s.q) n q := passes_follows (fun _ _ _ => trivial) before
  obtain ⟨f, frames, same⟩ := walked.same (interp_within _ _) rfl
  exact ⟨loaded_prepared load, found, Body.find_placed first, ⟨_, started, walked⟩,
    f, frames, same.curmethod, same.ctx⟩

end Jspp.Kernel
