/-
# Kernel.Shape -- what an instruction does to its frame

The program counter and the block frames of a stack frame are its shape.  Only a
few instructions change more of it than the program counter; `exec_moves` says
once what each instruction does, for the steps after which the activation goes
on, and the invariants of runs are derived from that.

* `Moves`: the step relation on shapes.
* `exec_moves`, `afterCall_moves`: instructions and returning calls are such steps.
* `Kept`: what no instruction changes.
-/
import Jspp.Kernel.Interp

namespace Jspp.Kernel

open Jspp.Compiler

set_option autoImplicit false

/-! ## Parts of a frame that stay -/

/-- The locals that no block reserved. -/
def StackFrame.baseLocals (f : StackFrame) : Int :=
  f.locals - (f.blockframes.map BlockFrame.localcount).sum

/-- Working on a frame keeps its class, its method, where it started, and the
locals outside of its blocks. -/
structure Kept (a a' : Act) : Prop where
  ctx : a'.frame.ctx = a.frame.ctx
  curmethod : a'.frame.curmethod = a.frame.curmethod
  stackcount : a'.frame.stackcount = a.frame.stackcount
  depth : a'.depth = a.depth
  base : a'.frame.baseLocals = a.frame.baseLocals

theorem Kept.refl (a : Act) : Kept a a := ⟨rfl, rfl, rfl, rfl, rfl⟩

theorem Kept.trans {a b c : Act} (h : Kept a b) (h' : Kept b c) : Kept a c :=
  ⟨h'.ctx.trans h.ctx, h'.curmethod.trans h.curmethod, h'.stackcount.trans h.stackcount,
    h'.depth.trans h.depth, h'.base.trans h.base⟩

/-- The program counter and the block frames. -/
structure Shape where
  pc : Int
  blocks : List BlockFrame

def StackFrame.shape (f : StackFrame) : Shape := ⟨f.pc, f.blockframes⟩

/-- The shape is untouched, and so is the error code. -/
structure Still (a a' : Act) : Prop where
  kept : Kept a a'
  shape : a'.frame.shape = a.frame.shape
  err : a'.frame.err = a.frame.err

theorem Still.refl (a : Act) : Still a a := ⟨.refl a, rfl, rfl⟩

theorem Still.trans {a b c : Act} (h : Still a b) (h' : Still b c) : Still a c :=
  ⟨h.kept.trans h'.kept, h'.shape.trans h.shape, h'.err.trans h.err⟩

/-- An instruction either leaves the shape, or it ends the activation. -/
def StillOrStops (a a' : Act) : Prop := Kept a a' ∧ (Still a a' ∨ a'.frame.err ≠ .none)

theorem Still.orStops {a a' : Act} (h : Still a a') : StillOrStops a a' := ⟨h.kept, .inl h⟩

namespace Act

theorem still_stack (a : Act) (stack : List Variant) (store : Store) (linenum : Int) :
    Still a { a with stack := stack, store := store, linenum := linenum } :=
  ⟨⟨rfl, rfl, rfl, rfl, rfl⟩, rfl, rfl⟩

theorem stops_raise (a : Act) {e : InterpErrors} (ne : e ≠ .none) : StillOrStops a (a.raise e) :=
  ⟨⟨rfl, rfl, rfl, rfl, rfl⟩, .inr ne⟩

variable {a a' : Act}

theorem pop_still (h : a.pop = some a') : Still a a' := by
  unfold pop at h
  split at h
  case h_1 => cases h
  case h_2 =>
      cases h
      exact a.still_stack _ _ _

theorem stackPush_still {v : Variant} (h : a.stackPush v = some a') : StillOrStops a a' := by
  cases v with
  | delegate =>
      cases h
      exact ⟨⟨rfl, rfl, rfl, rfl, rfl⟩, .inr nofun⟩
  | _ =>
      cases h
      exact (a.still_stack _ _ _).orStops

theorem binop_still {f : Variant → Variant → VarResult} (h : a.binop f = some a') :
    StillOrStops a a' := by
  unfold binop at h
  split at h
  case h_2 => cases h
  case h_1 =>
      split at h
      case h_1 =>
          cases h
          exact (a.still_stack _ _ _).orStops
      case h_2 =>
          cases h
          exact a.stops_raise nofun
      case h_3 => cases h

theorem unop_still {f : Variant → Option Variant} (h : a.unop f = some a') : StillOrStops a a' := by
  unfold unop at h
  split at h
  case h_1 => cases h
  all_goals
    split at h
    case h_1 =>
        cases h
        exact (a.still_stack _ _ _).orStops
    case h_2 =>
        cases h
        exact a.stops_raise nofun

theorem preCount_still {delta : Int} (h : a.preCount delta = some a') : StillOrStops a a' := by
  unfold preCount at h
  split at h
  case h_2 => cases h
  case h_1 =>
      split at h
      case h_1 =>
          cases h
          exact (a.still_stack _ _ _).orStops
      case h_2 =>
          cases h
          exact a.stops_raise nofun

theorem postCount_still {delta : Int} (h : a.postCount delta = some a') : StillOrStops a a' := by
  unfold postCount at h
  split at h
  case h_2 => cases h
  case h_1 =>
      simp only at h
      split at h
      case h_1 =>
          cases h
          exact (a.still_stack _ _ _).orStops
      case h_2 =>
          cases h
          exact ⟨⟨rfl, rfl, rfl, rfl, rfl⟩, .inr nofun⟩

theorem assign_still (h : a.assign = some a') : StillOrStops a a' := by
  unfold assign at h
  split at h
  case h_2 => cases h
  case h_1 =>
      simp only at h
      split at h
      case isTrue =>
          cases h
          exact ⟨⟨rfl, rfl, rfl, rfl, rfl⟩, .inr nofun⟩
      case isFalse =>
          cases h
          exact (a.still_stack _ _ _).orStops

theorem deref_still {env : Env} {mode : ArgSource} {arg : Int}
    (h : a.deref env mode arg = some a') : StillOrStops a a' := by
  unfold deref at h
  split at h
  case h_2 => cases h
  case h_1 =>
      obtain ⟨found, _, rfl⟩ := Option.map_eq_some_iff.mp h
      cases found with
      | missing => exact a.stops_raise nofun
      | place l => exact (a.still_stack _ _ _).orStops

theorem sderef_still {env : Env} {mode mode2 : ArgSource} {arg1 arg2 : Int}
    (h : a.sderef env mode mode2 arg1 arg2 = some a') : StillOrStops a a' := by
  unfold sderef at h
  split at h
  case h_2 => cases h
  case h_1 =>
      split at h
      case h_1 =>
          cases h
          exact a.stops_raise nofun
      case h_2 =>
          obtain ⟨o, _, h⟩ := Option.bind_eq_some_iff.mp h
          obtain ⟨jsp, _, h⟩ := Option.bind_eq_some_iff.mp h
          split at h
          case isTrue =>
              cases h
              exact (a.still_stack _ _ _).orStops
          case isFalse => cases h

theorem testTop_still {env : Env} {i : Option Int} (h : a.testTop env = some (i, a')) :
    Still a a' := by
  unfold testTop at h
  split at h
  case h_1 => cases h
  case h_7 =>
      split at h
      case h_1 =>
          cases h
          exact a.still_stack _ _ _
      case h_2 =>
          cases h
          exact .refl a
      case h_3 => cases h
  case h_8 =>
      split at h
      case h_1 =>
          cases h
          exact a.still_stack _ _ _
      case h_2 =>
          cases h
          exact .refl a
      case h_3 => cases h
  all_goals
    cases h
    exact .refl a

theorem takeRetval_kept (h : a.takeRetval = some a') :
    Kept a a' ∧ a'.frame.shape = a.frame.shape ∧ a'.frame.err = a.frame.err := by
  unfold takeRetval at h
  split at h
  case h_1 => cases h
  case h_2 =>
      cases h
      exact ⟨⟨rfl, rfl, rfl, rfl, rfl⟩, rfl, rfl⟩

/-! ## Blocks -/

theorem leaveBlock_kept (h : a.leaveBlock = some a') :
    Kept a a' ∧ a'.frame.shape = ⟨a.frame.pc, a.frame.blockframes.tail⟩ ∧
      a'.frame.err = a.frame.err := by
  unfold leaveBlock at h
  split at h
  case h_1 none =>
      cases h
      refine ⟨.refl _, ?_, rfl⟩
      simp [StackFrame.shape, none]
  case h_2 bf rest blocks =>
      split at h
      case isTrue room =>
          cases h
          refine ⟨⟨rfl, rfl, rfl, rfl, ?_⟩, ?_, rfl⟩
          · simp only [StackFrame.baseLocals, blocks, List.map_cons, List.sum_cons]
            omega
          · simp [StackFrame.shape, blocks]
      case isFalse => cases h

/-- `breakBlock` leaves no block: the count it compares with was written when at
least as many blocks were open. -/
theorem breakLoop_eq {count n : Nat} (h : breakLoop count n a = some a') :
    count ≤ a.frame.blockframes.length ∧ a' = a := by
  induction n generalizing a with
  | zero => cases h
  | succ n ih =>
      rw [breakLoop] at h
      split at h
      case isFalse enough =>
          cases h
          exact ⟨Nat.le_of_not_lt enough, rfl⟩
      case isTrue few =>
          obtain ⟨b, left, h⟩ := Option.bind_eq_some_iff.mp h
          have blocks := congrArg Shape.blocks (leaveBlock_kept left).2.1
          have le : b.frame.blockframes.length ≤ a.frame.blockframes.length := by
            have eq : b.frame.blockframes = a.frame.blockframes.tail := blocks
            rw [eq, List.length_tail]
            omega
          have enough := (ih h).1
          omega

theorem breakBlock_eq {pc : Int} (h : a.breakBlock = some (pc, a')) :
    a' = a ∧ pc = getBreak a.frame := by
  unfold breakBlock at h
  split at h
  case h_1 none =>
      cases h
      exact ⟨rfl, by simp [getBreak, none]⟩
  case h_2 bf rest blocks =>
      obtain ⟨b, loop, eq⟩ := Option.map_eq_some_iff.mp h
      cases eq
      exact ⟨(breakLoop_eq loop).2, by simp [getBreak, blocks]⟩

/-- The blocks that are left when an exception looks for its handler. -/
def caught (blocks : List BlockFrame) : List BlockFrame := blocks.dropWhile fun bf => bf.catchpc = -1

/-- The address of the handler, -1 when there is none. -/
def handlerPc (blocks : List BlockFrame) : Int :=
  match caught blocks with
  | [] => -1
  | bf :: _ => bf.catchpc

theorem getCatchLoop_kept {n : Nat} {pc : Int} (room : a.frame.blockframes.length < n)
    (h : getCatchLoop n a = some (pc, a')) :
    Kept a a' ∧ a'.frame.shape = ⟨a.frame.pc, caught a.frame.blockframes⟩ ∧
      a'.frame.err = a.frame.err ∧ pc = handlerPc a.frame.blockframes := by
  induction n generalizing a with
  | zero => cases room
  | succ n ih =>
      rw [getCatchLoop] at h
      split at h
      case h_1 none =>
          cases h
          refine ⟨.refl _, ?_, rfl, ?_⟩
          · simp [StackFrame.shape, caught, none]
          · simp [handlerPc, caught, none]
      case h_2 bf rest blocks =>
          split at h
          case isTrue found =>
              cases h
              refine ⟨.refl _, ?_, rfl, ?_⟩
              · simp [StackFrame.shape, caught, blocks, found]
              · simp [handlerPc, caught, blocks, found]
          case isFalse open_ =>
              obtain ⟨b, left, h⟩ := Option.bind_eq_some_iff.mp h
              obtain ⟨keptB, shapeB, errB⟩ := leaveBlock_kept left
              have blocksB : b.frame.blockframes = rest := by
                have eq := congrArg Shape.blocks shapeB
                simpa [StackFrame.shape, blocks] using eq
              have pcB : b.frame.pc = a.frame.pc := congrArg Shape.pc shapeB
              have less : b.frame.blockframes.length < n := by
                rw [blocksB]
                rw [blocks, List.length_cons] at room
                omega
              obtain ⟨kept, shape, err, pcEq⟩ := ih less h
              have skip : bf.catchpc = -1 := by simpa using open_
              refine ⟨keptB.trans kept, ?_, err.trans errB, ?_⟩
              · rw [shape, pcB, blocksB, blocks]
                simp [caught, skip]
              · rw [pcEq, blocksB, blocks]
                simp [handlerPc, caught, skip]

theorem getCatch_kept {pc : Int} (h : a.getCatch = some (pc, a')) :
    Kept a a' ∧ a'.frame.shape = ⟨a.frame.pc, caught a.frame.blockframes⟩ ∧
      a'.frame.err = a.frame.err ∧ pc = handlerPc a.frame.blockframes :=
  getCatchLoop_kept (Nat.lt_succ_self _) h

end Act

/-! ## The step relation -/

/-- An exception goes to a handler. -/
def Catches (s s' : Shape) : Prop :=
  Act.handlerPc s.blocks ≠ -1 ∧ s' = ⟨Act.handlerPc s.blocks, Act.caught s.blocks⟩

/-- What an instruction makes of a shape whose program counter stands behind it,
when the activation goes on. -/
def Moves (i : Instr) (s s' : Shape) : Prop :=
  match i with
  | .emit0 .leave => s' = ⟨s.pc, s.blocks.tail⟩
  | .emit0 .break =>
      s' = ⟨((s.blocks.head?).map BlockFrame.breakpc).getD (-1), s.blocks⟩ ∧ s'.pc ≠ -1
  | .emit0 .continue =>
      ((s.blocks.head?).map BlockFrame.breakpc).getD (-1) ≠ -1 ∧
        s' = ⟨((s.blocks.head?).map BlockFrame.breakpc).getD (-1) - 3, s.blocks⟩
  | .emit0 .throw => Catches s s'
  | .emit0 .ret | .emit0 .vret => False
  | .emit1 .enter _ (some n) =>
      ∃ bf : BlockFrame, bf.localcount = n.toNat ∧ bf.catchpc = -1 ∧ bf.guard = none ∧
        bf.breakpc = ((s.blocks.head?).map BlockFrame.breakpc).getD (-1) ∧
          bf.loop = (s.blocks.head?).bind BlockFrame.loop ∧ s' = ⟨s.pc, bf :: s.blocks⟩
  | .emit1 .setbreak .im (some t) =>
      ∃ bf rest, s.blocks = bf :: rest ∧
        s' = ⟨s.pc, { bf with
          blockcount := s.blocks.length, breakpc := t, loop := some (s.pc - 3) } :: rest⟩
  | .emit1 .try .im (some t) =>
      ∃ bf rest, s.blocks = bf :: rest ∧
        s' = ⟨s.pc, { bf with catchpc := t, guard := some (s.pc - 3) } :: rest⟩
  | .emit1 .setbreak _ _ | .emit1 .try _ _ => True
  | .emit1 .jmp _ (some t) => s' = ⟨t, s.blocks⟩
  | .emit1 .jmpz _ (some t) | .emit1 .jmpnz _ (some t) => s' = s ∨ s' = ⟨t, s.blocks⟩
  | .emit1 .jmp _ none | .emit1 .jmpz _ none | .emit1 .jmpnz _ none | .emit1 .enter _ none => False
  | .emit1 .scall _ _ | .emit2 _ _ _ _ _ => s' = s ∨ Catches s s'
  | _ => s' = s

namespace Act

variable {env : Env} {a a' : Act}

theorem doBreak_moves (h : a.doBreak = some a') :
    Kept a a' ∧ (a'.frame.err ≠ .none ∨ Moves (.emit0 .break) a.frame.shape a'.frame.shape) := by
  obtain ⟨⟨pc, b⟩, broke, rfl⟩ := Option.map_eq_some_iff.mp h
  obtain ⟨rfl, rfl⟩ := breakBlock_eq broke
  simp only
  split
  case isTrue => exact ⟨⟨rfl, rfl, rfl, rfl, rfl⟩, .inl nofun⟩
  case isFalse target =>
      refine ⟨⟨rfl, rfl, rfl, rfl, rfl⟩, .inr ?_⟩
      have eq : getBreak b.frame = ((b.frame.blockframes.head?).map BlockFrame.breakpc).getD (-1) := by
        unfold getBreak
        cases b.frame.blockframes <;> rfl
      rw [eq] at target ⊢
      exact ⟨rfl, target⟩

theorem doContinue_moves (h : a.doContinue = some a') :
    Kept a a' ∧ (a'.frame.err ≠ .none ∨ Moves (.emit0 .continue) a.frame.shape a'.frame.shape) := by
  obtain ⟨⟨pc, b⟩, broke, rfl⟩ := Option.map_eq_some_iff.mp h
  obtain ⟨rfl, rfl⟩ := breakBlock_eq broke
  simp only
  split
  case isTrue => exact ⟨⟨rfl, rfl, rfl, rfl, rfl⟩, .inl nofun⟩
  case isFalse target =>
      refine ⟨⟨rfl, rfl, rfl, rfl, rfl⟩, .inr ?_⟩
      have eq : getBreak b.frame = ((b.frame.blockframes.head?).map BlockFrame.breakpc).getD (-1) := by
        unfold getBreak
        cases b.frame.blockframes <;> rfl
      rw [eq] at target ⊢
      exact ⟨target, rfl⟩

theorem throw_moves (h : a.throw = some a') :
    Kept a a' ∧ (a'.frame.err ≠ .none ∨ Catches a.frame.shape a'.frame.shape) := by
  obtain ⟨⟨pc, b⟩, unwound, h⟩ := Option.bind_eq_some_iff.mp h
  obtain ⟨kept, shape, _, rfl⟩ := getCatch_kept unwound
  simp only at h
  split at h
  case isTrue =>
      obtain ⟨c, left, rfl⟩ := Option.map_eq_some_iff.mp h
      obtain ⟨d, taken, left⟩ := Option.bind_eq_some_iff.mp left
      have keptD := (takeRetval_kept taken).1
      have keptC := (leaveBlock_kept left).1
      have all := (kept.trans ⟨keptD.ctx, keptD.curmethod, keptD.stackcount, keptD.depth, keptD.base⟩).trans keptC
      exact ⟨⟨all.ctx, all.curmethod, all.stackcount, all.depth, all.base⟩, .inl nofun⟩
  case isFalse found =>
      cases h
      refine ⟨⟨kept.ctx, kept.curmethod, kept.stackcount, kept.depth, kept.base⟩, .inr ⟨found, ?_⟩⟩
      have blocks : b.frame.blockframes = caught a.frame.blockframes := congrArg Shape.blocks shape
      rw [StackFrame.shape]
      exact congrArg _ blocks

theorem jumpIf_moves {zero : Bool} {target : Int} (h : a.jumpIf env zero target = some a') :
    Kept a a' ∧ (a'.frame.err ≠ .none ∨ a'.frame.shape = a.frame.shape ∨
      a'.frame.shape = ⟨target, a.frame.blockframes⟩) := by
  obtain ⟨⟨test, b⟩, tested, h⟩ := Option.bind_eq_some_iff.mp h
  have still := testTop_still tested
  cases test with
  | none =>
      cases h
      exact ⟨⟨still.kept.ctx, still.kept.curmethod, still.kept.stackcount, still.kept.depth,
        still.kept.base⟩, .inl nofun⟩
  | some i =>
      simp only at h
      have popped := pop_still h
      have blocks : b.frame.blockframes = a.frame.blockframes := congrArg Shape.blocks still.shape
      split at popped
      case isTrue =>
          have shape := popped.shape
          refine ⟨⟨popped.kept.ctx.trans still.kept.ctx, popped.kept.curmethod.trans still.kept.curmethod,
            popped.kept.stackcount.trans still.kept.stackcount,
            popped.kept.depth.trans still.kept.depth, popped.kept.base.trans still.kept.base⟩,
            .inr (.inr ?_)⟩
          rw [shape, ← blocks]
          rfl
      case isFalse =>
          exact ⟨still.kept.trans popped.kept, .inr (.inl (popped.shape.trans still.shape))⟩

theorem ret_stops (h : a.ret = some a') : Kept a a' ∧ a'.frame.err ≠ .none := by
  obtain ⟨c, popped, h⟩ := Option.bind_eq_some_iff.mp h
  obtain ⟨d, left, rfl⟩ := Option.map_eq_some_iff.mp h
  obtain ⟨b, taken, popped⟩ := Option.bind_eq_some_iff.mp popped
  have all := ((takeRetval_kept taken).1.trans (pop_still popped).kept).trans (leaveBlock_kept left).1
  exact ⟨⟨all.ctx, all.curmethod, all.stackcount, all.depth, all.base⟩, nofun⟩

/-- An instruction that keeps the shape is a step when its move is to stay. -/
theorem moves_of_still {i : Instr} (h : StillOrStops a a')
    (stays : ∀ s, Moves i s s) :
    Kept a a' ∧ (a'.frame.err ≠ .none ∨ Moves i a.frame.shape a'.frame.shape) := by
  refine ⟨h.1, ?_⟩
  rcases h.2 with still | stops
  · rw [still.shape]
    exact .inr (stays _)
  · exact .inl stops

/-- What an operator or a stack instruction does is an instruction without operand. -/
theorem exec0_moves {op : OpCode} (h : a.exec0 op = some a') :
    Kept a a' ∧ (a'.frame.err ≠ .none ∨ Moves (.emit0 op) a.frame.shape a'.frame.shape) := by
  cases op with
  | nop =>
      cases h
      exact moves_of_still (Still.refl a).orStops fun _ => rfl
  | null => exact moves_of_still (stackPush_still (v := .null) h) fun _ => rfl
  | rshift | lshift | mult | div | add | sub | mod | lt | lteq | eq | gt | gteq | neq
  | binor | binand | xor => exact moves_of_still (binop_still h) fun _ => rfl
  | or =>
      exact moves_of_still (binop_still
        (f := fun x y => .value (.ofBool (y.truth != 0 || x.truth != 0))) h) fun _ => rfl
  | and =>
      exact moves_of_still (binop_still
        (f := fun x y => .value (.ofBool (y.truth != 0 && x.truth != 0))) h) fun _ => rfl
  | negate | compl | not => exact moves_of_still (unop_still h) fun _ => rfl
  | inc | dec => exact moves_of_still (preCount_still h) fun _ => rfl
  | pinc | pdec => exact moves_of_still (postCount_still h) fun _ => rfl
  | vret =>
      cases h
      exact ⟨⟨rfl, rfl, rfl, rfl, rfl⟩, .inl nofun⟩
  | ret => exact ⟨(ret_stops h).1, .inl (ret_stops h).2⟩
  | throw => exact throw_moves h
  | leave =>
      obtain ⟨kept, shape, _⟩ := leaveBlock_kept h
      exact ⟨kept, .inr shape⟩
  | «break» => exact doBreak_moves h
  | «continue» => exact doContinue_moves h
  | dup =>
      obtain ⟨v, _, pushed⟩ := Option.bind_eq_some_iff.mp h
      exact moves_of_still (stackPush_still pushed) fun _ => rfl
  | assign => exact moves_of_still (assign_still h) fun _ => rfl
  | this =>
      obtain ⟨ip, _, rfl⟩ := Option.map_eq_some_iff.mp h
      exact moves_of_still (a.still_stack _ _ _).orStops fun _ => rfl
  | rvalue | rot | rot3 =>
      unfold exec0 at h
      simp only at h
      split at h <;> cases h
      exact moves_of_still (a.still_stack _ _ _).orStops fun _ => rfl
  | pop => exact moves_of_still (pop_still h).orStops fun _ => rfl
  | native =>
      cases h
      exact ⟨⟨rfl, rfl, rfl, rfl, rfl⟩, .inl nofun⟩
  | _ => cases h

theorem enterBlock_moves (mode : ArgSource) (n : Int) :
    Moves (.emit1 .enter mode (some n)) a.frame.shape (a.enterBlock n.toNat).frame.shape := by
  have brk : getBreak a.frame = ((a.frame.blockframes.head?).map BlockFrame.breakpc).getD (-1) := by
    unfold getBreak
    cases a.frame.blockframes <;> rfl
  exact ⟨newBlock n.toNat a.frame, rfl, rfl, rfl, brk, rfl, rfl⟩

theorem enterBlock_kept (n : Nat) : Kept a (a.enterBlock n) := by
  refine ⟨rfl, rfl, rfl, rfl, ?_⟩
  simp only [StackFrame.baseLocals, enterBlock, newBlock, List.map_cons, List.sum_cons]
  omega

theorem exec1_moves {op : OpCode} {mode : ArgSource} {arg : Int}
    (h : a.exec1 env op mode arg = some a') :
    Kept a a' ∧ (a'.frame.err ≠ .none ∨ Moves (.emit1 op mode (some arg)) a.frame.shape a'.frame.shape) := by
  cases op with
  | enter =>
      cases h
      exact ⟨enterBlock_kept _, .inr (enterBlock_moves mode arg)⟩
  | «try» =>
      obtain ⟨v, value, h⟩ := Option.bind_eq_some_iff.mp h
      obtain ⟨pc, int, h⟩ := Option.bind_eq_some_iff.mp h
      unfold setTry at h
      split at h <;> cases h
      rename_i bf rest blocks _
      refine ⟨⟨rfl, rfl, rfl, rfl, by simp [StackFrame.baseLocals, blocks]⟩, .inr ?_⟩
      cases mode with
      | im =>
          cases value
          cases int
          exact ⟨bf, rest, blocks, rfl⟩
      | _ => trivial
  | setbreak =>
      obtain ⟨v, value, h⟩ := Option.bind_eq_some_iff.mp h
      obtain ⟨pc, int, h⟩ := Option.bind_eq_some_iff.mp h
      unfold setBreak at h
      split at h <;> cases h
      rename_i bf rest blocks _
      refine ⟨⟨rfl, rfl, rfl, rfl, by simp [StackFrame.baseLocals, blocks]⟩, .inr ?_⟩
      cases mode with
      | im =>
          cases value
          cases int
          exact ⟨bf, rest, blocks, rfl⟩
      | _ => trivial
  | push =>
      obtain ⟨v, _, pushed⟩ := Option.bind_eq_some_iff.mp h
      exact moves_of_still (stackPush_still pushed) fun _ => rfl
  | lvalue =>
      obtain ⟨l, _, rfl⟩ := Option.map_eq_some_iff.mp h
      exact moves_of_still (a.still_stack _ _ _).orStops fun _ => rfl
  | deref => exact moves_of_still (deref_still h) fun _ => rfl
  | jmpz | jmpnz =>
      obtain ⟨kept, stops | stay | jumped⟩ := jumpIf_moves h
      · exact ⟨kept, .inl stops⟩
      · exact ⟨kept, .inr (.inl stay)⟩
      · exact ⟨kept, .inr (.inr jumped)⟩
  | jmp =>
      cases h
      exact ⟨⟨rfl, rfl, rfl, rfl, rfl⟩, .inr rfl⟩
  | line =>
      cases h
      exact moves_of_still (a.still_stack _ _ _).orStops fun _ => rfl
  | _ => cases h

/-- An instruction that calls nothing is a step. -/
theorem exec_moves {i : Instr} (h : a.exec env i = some a') :
    Kept a a' ∧ (a'.frame.err ≠ .none ∨ Moves i a.frame.shape a'.frame.shape) := by
  cases i with
  | emit0 op => exact exec0_moves h
  | emit1 op mode arg =>
      cases arg with
      | none => cases h
      | some arg => exact exec1_moves h
  | emit2 op mode mode2 arg1 arg2 =>
      cases op with
      | sderef =>
          obtain ⟨kept, still | stops⟩ := sderef_still h
          · exact ⟨kept, .inr (.inl still.shape)⟩
          · exact ⟨kept, .inl stops⟩
      | _ => cases h

/-- A call that returned leaves the shape of its caller, or an exception catches. -/
theorem afterCall_moves {err : InterpErrors} (h : Qinterp.afterCall err a = some a') :
    Kept a a' ∧ (a'.frame.err ≠ .none ∨ a'.frame.shape = a.frame.shape ∨
      Catches a.frame.shape a'.frame.shape) := by
  unfold Qinterp.afterCall at h
  simp only at h
  split at h
  case isFalse =>
      cases h
      exact ⟨⟨rfl, rfl, rfl, rfl, rfl⟩, .inr (.inl rfl)⟩
  case isTrue exc =>
      obtain ⟨⟨pc, b⟩, unwound, h⟩ := Option.bind_eq_some_iff.mp h
      obtain ⟨kept, shape, err_, rfl⟩ := getCatch_kept unwound
      simp only at h
      split at h
      case isTrue found =>
          cases h
          refine ⟨⟨kept.ctx, kept.curmethod, kept.stackcount, kept.depth, kept.base⟩, .inr (.inr ⟨found, ?_⟩)⟩
          have blocks : b.frame.blockframes = caught a.frame.blockframes := congrArg Shape.blocks shape
          rw [StackFrame.shape]
          exact congrArg _ blocks
      case isFalse =>
          split at h
          case h_1 => cases h
          case h_2 =>
              cases h
              refine ⟨⟨kept.ctx, kept.curmethod, kept.stackcount, kept.depth, kept.base⟩, .inl ?_⟩
              change b.frame.err ≠ .none
              rw [err_, show (raise err a).frame.err = err from rfl, exc]
              nofun

end Act

end Jspp.Kernel
