/-
# Kernel.Blocks -- how many blocks are open

A call opens one block, and the compiled code opens and leaves the others.  As
long as no `OP_BREAK` or `OP_CONTINUE` finds a target, the open blocks of a
frame are the one of its call and those that stand around its next instruction
in the source, in their order.  The two instructions end a loop or a `switch`
without leaving a block of it, whose body always is one.

* `enclosing`: the number of blocks around an instruction.
* `exact_step`: one instruction keeps the open blocks those of the source.
* `blocks_counted`: along every run; `counted_broken`: a `break`.
-/
import Jspp.Kernel.Locals

namespace Jspp.Kernel

open Jspp.Compiler Jspp.Theory

set_option autoImplicit false

/-! ## Where blocks are left -/

/-- An instruction that leaves a block stands in one. -/
def LeavesInside (ls : List Spot) : Prop := ∀ l ∈ ls, l.instr = .emit0 .leave → l.ctx.blocks ≠ []

@[simp] theorem leavesInside_nil : LeavesInside [] := fun _ mem => absurd mem List.not_mem_nil

@[simp] theorem leavesInside_cons {l : Spot} {ls : List Spot} :
    LeavesInside (l :: ls) ↔ (l.instr = .emit0 .leave → l.ctx.blocks ≠ []) ∧ LeavesInside ls :=
  List.forall_mem_cons

@[simp] theorem leavesInside_append {xs ys : List Spot} :
    LeavesInside (xs ++ ys) ↔ LeavesInside xs ∧ LeavesInside ys :=
  List.forall_mem_append

theorem marked_leavesInside {c : Ctx} (inside : c.blocks ≠ []) (scope : List Local)
    (is : List Instr) : LeavesInside (marked c scope is) := by
  intro l mem _
  obtain ⟨i, _, rfl⟩ := List.mem_map.mp mem
  exact inside

mutual

theorem Stmt.leavesInside {c : Ctx} (inside : c.blocks ≠ []) (s : Stmt) (b : Nat)
    (scope : List Local) : LeavesInside (s.spots b c scope) := by
  have code := marked_leavesInside inside
  have entered : ∀ n, (c.enter n).blocks ≠ [] := fun _ => List.cons_ne_nil _ _
  cases s with
  | skip | decl => exact leavesInside_nil
  | seq s t =>
      exact leavesInside_append.mpr
        ⟨Stmt.leavesInside inside s _ _, Stmt.leavesInside inside t _ _⟩
  | line | brk | cont | vret => simp [Stmt.spots, inside]
  | expr e => exact code _ _
  | ret e | throw e => simp [Stmt.spots, code]
  | block n s => simp [Stmt.spots, inside, entered, Stmt.leavesInside (entered n) s]
  | ite e s t =>
      simp [Stmt.spots, inside, code, Stmt.leavesInside inside s, Stmt.leavesInside inside t]
  | «while» e s =>
      have looped : ∀ l, (c.inLoop l).blocks ≠ [] := fun _ => inside
      simp [Stmt.spots, inside, looped, marked_leavesInside (looped _),
        Stmt.leavesInside (looped _) s]
  | «for» cond post s =>
      have looped : ∀ l, (c.inLoop l).blocks ≠ [] := fun _ => inside
      simp [Stmt.spots, inside, looped, marked_leavesInside (looped _),
        Stmt.leavesInside (looped _) s]
  | switch e n cs =>
      have looped : ∀ l, ((c.inLoop l).enter n).blocks ≠ [] := fun _ => List.cons_ne_nil _ _
      have around : ∀ l, (c.inLoop l).blocks ≠ [] := fun _ => inside
      simp [Stmt.spots, code, inside, around, looped, Cases.leavesInside (looped _) cs]
  | «try» s v n h f =>
      have guarded : ∀ k, (c.inTry k).blocks ≠ [] := fun _ => inside
      simp [Stmt.spots, inside, code, entered, Stmt.leavesInside (guarded _) s,
        Stmt.leavesInside (entered n) h, Stmt.leavesInside inside f]

theorem Cases.leavesInside {c : Ctx} (inside : c.blocks ≠ []) (cs : Cases) (b : Nat)
    (scope : List Local) : LeavesInside (cs.spots b c scope) := by
  cases cs with
  | nil => exact leavesInside_nil
  | case v s rest =>
      simp [Cases.spots, marked_leavesInside inside, Stmt.leavesInside inside s,
        Cases.leavesInside inside rest]
  | default s rest =>
      simp [Cases.spots, inside, Stmt.leavesInside inside s, Cases.leavesInside inside rest]

end

theorem Body.leavesInside (params : List Local) (body : Body) :
    LeavesInside (body.spots params) := by
  cases body with
  | empty => exact leavesInside_nil
  | method n s =>
      have entered : (Ctx.start.enter n).blocks ≠ [] := List.cons_ne_nil _ _
      have body := Stmt.leavesInside entered s 3 params
      simp only [Body.spots, leavesInside_cons, leavesInside_append, leavesInside_nil, and_true]
      exact ⟨Instr.noConfusion, body, fun _ => entered⟩
  | inits es =>
      intro l mem leave
      obtain ⟨i, inCode, rfl⟩ := List.mem_map.mp mem
      have plain : StraightAll es.code := es.straight
      rcases List.mem_append.mp inCode with arg | last
      · have straight := plain i arg
        rw [show i = _ from leave] at straight
        cases straight
      · rw [List.mem_singleton.mp last] at leave
        cases leave

/-! ## One instruction -/

/-- The counts of a frame whose open blocks are those ones and the block of its call. -/
def callBlocks (around : List Nat) : List Nat := around ++ [0]

/-- If there is an instruction at the address, the open blocks are those around it. -/
def Exact (spots : List Spot) (t : Int) (blocks : List BlockFrame) : Prop :=
  ∀ (k : Nat) (l : Spot), t = k → lineAt spots k = some l →
    counts blocks = callBlocks l.ctx.blocks

/-- The handlers that are set lead to where the blocks that stay are those around. -/
def Handled (spots : List Spot) : List BlockFrame → Prop
  | [] => True
  | bf :: rest => Exact spots bf.catchpc (bf :: rest) ∧ Handled spots rest

/-- The open blocks are those around the next instruction, and the handlers lead so. -/
def ExactShape (spots : List Spot) (s : Shape) : Prop :=
  Exact spots s.pc s.blocks ∧ Handled spots s.blocks

section

variable {spots : List Spot} {blocks : List BlockFrame} {around : List Nat}

theorem exact_none {t : Int} (neg : t < 0) (blocks : List BlockFrame) : Exact spots t blocks := by
  intro k l eq _
  omega

theorem Exact.of_leads {k : Nat} (leads : Leads spots .start k around)
    (same : counts blocks = callBlocks around) : Exact spots k blocks := by
  obtain ⟨c, point, rfl⟩ := leads
  intro j l eq read
  have here : j = k := by omega
  subst here
  rcases point with ⟨l', read', rfl⟩ | ⟨rfl, rfl⟩
  · rw [read] at read'
    cases read'
    exact same
  · rw [lineAt_extent] at read
    cases read

theorem Exact.of_leadsTo {t : Int} (leads : LeadsTo spots .start t around)
    (same : counts blocks = callBlocks around) : Exact spots t blocks := by
  obtain ⟨k, rfl, leads⟩ := leads
  exact .of_leads leads same

theorem Handled.tail (h : Handled spots blocks) : Handled spots blocks.tail := by
  cases blocks with
  | nil => trivial
  | cons bf rest => exact h.2

theorem Handled.caught (h : Handled spots blocks) :
    Exact spots (Act.handlerPc blocks) (Act.caught blocks) ∧
      Handled spots (Act.caught blocks) := by
  induction blocks with
  | nil => exact ⟨exact_none (by simp [Act.handlerPc, Act.caught]) _, trivial⟩
  | cons bf rest ih =>
      by_cases skip : bf.catchpc = -1
      · have eq : Act.caught (bf :: rest) = Act.caught rest := by simp [Act.caught, skip]
        rw [Act.handlerPc, eq]
        exact ih h.tail
      · have eq : Act.caught (bf :: rest) = bf :: rest := by simp [Act.caught, skip]
        rw [Act.handlerPc, eq]
        exact ⟨h.1, h⟩

variable {b : Nat} {l : Spot} {s s' : Shape}

theorem exactShape_stay (pc : s.pc = ↑(b + l.instr.size))
    (same : counts s.blocks = callBlocks l.ctx.blocks) (handled : Handled spots s.blocks)
    (next : Leads spots .start (b + l.instr.size) l.ctx.blocks) (eq : s' = s) :
    ExactShape spots s' := by
  subst eq
  exact ⟨pc ▸ .of_leads next same, handled⟩

theorem exactShape_goto {t : Int} (lands : Exact spots t s.blocks)
    (handled : Handled spots s.blocks) (eq : s' = ⟨t, s.blocks⟩) : ExactShape spots s' := by
  subst eq
  exact ⟨lands, handled⟩

theorem exactShape_catch (handled : Handled spots s.blocks) (caught : Catches s s') :
    ExactShape spots s' := by
  obtain ⟨_, rfl⟩ := caught
  exact handled.caught

/-- The instruction is not one that breaks or continues to a target. -/
def Idle (i : Instr) (s : Shape) : Prop :=
  i = .emit0 .break ∨ i = .emit0 .continue →
    ((s.blocks.head?).map BlockFrame.breakpc).getD (-1) = -1

/-- An instruction leads from the blocks around it to those around the next one. -/
theorem exact_step (wired : l.Wired spots .start b) (inside : l.instr = .emit0 .leave → l.ctx.blocks ≠ [])
    (idle : Idle l.instr s) (pc : s.pc = ↑(b + l.instr.size))
    (same : counts s.blocks = callBlocks l.ctx.blocks) (handled : Handled spots s.blocks)
    (moves : Moves l.instr s s') : ExactShape spots s' := by
  obtain ⟨i, c, scope⟩ := l
  cases i with
  | emit2 op mode mode2 arg1 arg2 =>
      rcases moves with stay | caught
      · exact exactShape_stay pc same handled wired stay
      · exact exactShape_catch handled caught
  | emit0 op =>
      cases op with
      | leave =>
          have eq : s' = ⟨s.pc, s.blocks.tail⟩ := moves
          subst eq
          refine ⟨?_, handled.tail⟩
          rw [pc]
          refine .of_leads wired ?_
          have tail := congrArg List.tail same
          rw [callBlocks, List.tail_append_of_ne_nil (inside rfl)] at tail
          rw [counts, List.map_tail]
          exact tail
      | «break» => exact absurd (idle (.inl rfl)) (by rw [moves.1] at moves; exact moves.2)
      | «continue» => exact absurd (idle (.inr rfl)) moves.1
      | throw => exact exactShape_catch handled moves
      | ret | vret => exact False.elim moves
      | _ => exact exactShape_stay pc same handled wired moves
  | emit1 op mode arg =>
      cases op with
      | enter =>
          cases arg with
          | none => exact False.elim moves
          | some n =>
              obtain ⟨bf, count, nocatch, _, _, _, rfl⟩ := moves
              refine ⟨?_, ?_, handled⟩
              · show Exact spots s.pc _
                rw [pc]
                refine .of_leads wired ?_
                rw [counts_cons, count, same]
                rfl
              · rw [nocatch]
                exact exact_none (by simp) _
      | setbreak =>
          cases arg with
          | none => exact False.elim wired
          | some t =>
              obtain ⟨rfl, next, _⟩ := wired
              obtain ⟨bf, rest, blocks, rfl⟩ := moves
              rw [blocks] at same handled
              refine ⟨?_, handled⟩
              show Exact spots s.pc _
              rw [pc]
              exact .of_leads next same
      | «try» =>
          cases arg with
          | none => exact False.elim wired
          | some t =>
              obtain ⟨rfl, next, target⟩ := wired
              obtain ⟨bf, rest, blocks, rfl⟩ := moves
              rw [blocks] at same handled
              refine ⟨?_, .of_leadsTo target same, handled.2⟩
              show Exact spots s.pc _
              rw [pc]
              exact .of_leads next same
      | jmp =>
          cases arg with
          | none => exact False.elim moves
          | some t =>
              refine exactShape_goto ?_ handled moves
              rcases wired with rfl | leads
              · exact exact_none (by simp) _
              · exact .of_leadsTo leads same
      | jmpz | jmpnz =>
          cases arg with
          | none => exact False.elim moves
          | some t =>
              rcases moves with stay | jumped
              · exact exactShape_stay pc same handled wired.1 stay
              · exact exactShape_goto (.of_leadsTo wired.2 same) handled jumped
      | scall =>
          rcases moves with stay | caught
          · exact exactShape_stay pc same handled wired stay
          · exact exactShape_catch handled caught
      | _ => exact exactShape_stay pc same handled wired moves

end

/-! ## Along every run -/

/-- How many blocks stand around the instruction at an address of a method. -/
def enclosing (mp : JsMethod) (pc : Nat) : Option Nat :=
  (lineAt (mp.body.spots mp.params) pc).map fun l => l.ctx.blocks.length

/-- The open blocks are the one of the call and those around the fetched instruction. -/
def Event.BlocksCounted : Event → Prop
  | .fetch _ q => ∀ (f : StackFrame) (rest : List StackFrame) (i : Instr), q.frames = f :: rest →
      Compiler.fetch (Qinterp.codeOf f) f.pc = some i →
        ∃ (mp : JsMethod) (pc n : Nat), f.curmethod = some mp ∧ f.pc = pc ∧
          enclosing mp pc = some n ∧ f.blockframes.length = 1 + n
  | .invoke _ _ => True

/-- A fetched `OP_BREAK` or `OP_CONTINUE` has no target. -/
def Event.NoExit : Event → Prop
  | .fetch _ q => ∀ (f : StackFrame) (rest : List StackFrame) (i : Instr), q.frames = f :: rest →
      Compiler.fetch (Qinterp.codeOf f) f.pc = some i →
        i = .emit0 .break ∨ i = .emit0 .continue → Act.getBreak f = -1
  | .invoke _ _ => True

theorem getBreak_eq (f : StackFrame) :
    Act.getBreak f = ((f.blockframes.head?).map BlockFrame.breakpc).getD (-1) := by
  unfold Act.getBreak
  cases f.blockframes <;> rfl

/-- A frame of a compiled method with the blocks open that stand around its next instruction. -/
def Squared (f : StackFrame) : Prop :=
  ∃ mp, f.curmethod = some mp ∧ Compiled mp ∧ ExactShape (mp.body.spots mp.params) f.shape

theorem Compiled.leavesInside {mp : JsMethod} {pc : Nat} {l : Spot}
    (read : lineAt (mp.body.spots mp.params) pc = some l) :
    l.instr = .emit0 .leave → l.ctx.blocks ≠ [] := by
  obtain ⟨pre, post, eq, _⟩ := lineAt_eq_some read
  exact Body.leavesInside mp.params mp.body l (by simp [eq])

theorem squared_logic {env : Env} (compiled : Tables CompiledTable Compiled env.classes) :
    ShapeLogic env Event.NoExit Event.BlocksCounted Squared where
  started := by
    rintro mp q f rest ⟨ctx, sig, count, below, found, fresh⟩ _ frames
    obtain ⟨g, at_g, _, method, _, _, _, blocks⟩ := fresh.frame
    rw [frames] at at_g
    obtain ⟨rfl, rfl⟩ := List.cons.inj at_g
    refine ⟨mp, method, findMethod_compiled compiled found, ?_, ?_⟩
    · refine Exact.of_leads (Body.leads_zero _ _) ?_
      show counts f.blockframes = _
      rw [blocks]
      rfl
    · show Handled _ f.blockframes
      rw [blocks]
      exact ⟨exact_none (by simp) _, trivial⟩
  fetched := by
    intro base q f rest frames _ squared g below i eq read
    rw [frames] at eq
    obtain ⟨rfl, rfl⟩ := List.cons.inj eq
    obtain ⟨mp, method, ok, exact_, _⟩ := squared
    rw [Qinterp.codeOf, method] at read
    obtain ⟨k, l, pc, at_k, _⟩ := ok.fetch read
    refine ⟨mp, k, l.ctx.blocks.length, method, pc, by simp [enclosing, at_k], ?_⟩
    have same := congrArg List.length (exact_ k l pc at_k)
    simpa [counts, callBlocks, StackFrame.shape, Nat.add_comm] using same
  stepped := by
    intro base q f rest i f' frames _ squared idle read same moves
    obtain ⟨mp, method, ok, exact_, handled⟩ := squared
    have noExit := idle f rest i frames read
    rw [Qinterp.codeOf, method] at read
    obtain ⟨k, l, pc, at_k, rfl⟩ := ok.fetch read
    have wired := (Body.wired mp.params mp.body).at at_k
    rw [Nat.zero_add] at wired
    refine ⟨mp, same.curmethod.trans method, ok, ?_⟩
    have behind : f.pc + l.instr.size = ↑(k + l.instr.size) := by
      rw [pc]
      rfl
    let behindIt : Shape := ⟨f.pc + l.instr.size, f.blockframes⟩
    refine exact_step (s := behindIt) wired (Compiled.leavesInside at_k) ?_ behind
      (exact_ k l pc at_k) handled moves
    intro exit
    exact (getBreak_eq f).symm.trans (noExit exit)
  invoked := fun _ _ _ => trivial

/-- As long as every `OP_BREAK` and `OP_CONTINUE` finds no target, the blocks open
at a fetch are the one of the call and those around the instruction; one that finds
a target leaves no block. -/
theorem blocks_counted {host : Host} {log : List Event} (ran : Ran host log) :
    HoldsWhile Event.NoExit Event.BlocksCounted log ∧
      ∀ (a a' : Act) (target : Int), a.breakBlock = some (target, a') →
        a'.frame.blockframes = a.frame.blockframes := by
  constructor
  · exact ran.holds compiled_logic.invariant fun env _ compiled fuel =>
      (squared_logic compiled).interp fuel
  · intro a a' target broke
    rw [(Act.breakBlock_eq broke).1]

/-- A `break` at the end of the body of its loop. -/
def oneBreak : List Char :=
  "class A \x7b public static main() \x7b while (1) \x7b break; \x7d return 1; \x7d \x7d".toList

/-- The blocks open at a fetch are not those around the instruction. -/
def Event.miscounts : Event → Bool
  | .fetch _ q =>
      match q.frames with
      | [] => false
      | f :: _ =>
          match f.curmethod with
          | none => false
          | some mp =>
              (Compiler.fetch mp.code f.pc).isSome &&
                match enclosing mp f.pc.toNat with
                | none => false
                | some n => f.blockframes.length != 1 + n
  | .invoke _ _ => false

theorem Event.not_counted {e : Event} (h : e.miscounts = true) : ¬ e.BlocksCounted := by
  intro counted
  cases e with
  | invoke mp q => exact Bool.noConfusion h
  | fetch base q =>
      simp only [miscounts] at h
      split at h
      case h_1 => cases h
      case h_2 f rest frames =>
          split at h
          case h_1 => cases h
          case h_2 mp method =>
              obtain ⟨fetched, wrong⟩ := Bool.and_eq_true_iff.mp h
              obtain ⟨i, read⟩ := Option.isSome_iff_exists.mp fetched
              have code : Compiler.fetch (Qinterp.codeOf f) f.pc = some i := by
                rw [Qinterp.codeOf, method]
                exact read
              obtain ⟨mp', pc, n, method', at_pc, around, right⟩ := counted f rest i frames code
              rw [method] at method'
              cases method'
              rw [at_pc, Int.toNat_natCast, around] at wrong
              simp [right] at wrong

/-- The run of a method that was loaded. -/
theorem mainLog_ran {text : List Char} {e : Event} (mem : e ∈ mainLog text) :
    Ran plainHost (mainLog text) := by
  unfold mainLog mainRun at mem ⊢
  cases load : loaded text with
  | none => simp [load] at mem
  | some s =>
      exact Ran.run (loaded_prepared load) 200 "A".toList "main".toList 0 { s.q with stack := [] }

/-- The fetch behind the loop finds its body still open. -/
theorem counted_broken :
    ∃ log : List Event, Ran plainHost log ∧ ∃ e ∈ log, ¬ e.BlocksCounted := by
  have wrong : (mainLog oneBreak).any Event.miscounts = true := by
    rw [show oneBreak = _ from String.toList_ofList]
    decide +kernel
  obtain ⟨e, mem, miss⟩ := List.any_eq_true.mp wrong
  exact ⟨mainLog oneBreak, mainLog_ran mem, e, mem, Event.not_counted miss⟩

/-- The first fetch of a method that has one block. -/
theorem blocks_counted_oneLocal :
    ∃ log : List Event, Ran plainHost log ∧ log ≠ [] ∧
      HoldsWhile Event.NoExit Event.BlocksCounted log := by
  obtain ⟨e, mem, _⟩ := List.any_eq_true.mp oneLocal_reads
  exact ⟨mainLog oneLocal, mainLog_ran mem, List.ne_nil_of_mem mem,
    (blocks_counted (mainLog_ran mem)).1⟩

end Jspp.Kernel
