/-
# Kernel.Locals -- every local operand has its slot

Wherever an activation fetches, the blocks that stand around the instruction in
the source are open, in their order; more may be open, because `OP_BREAK` and
`OP_CONTINUE` leave none.  An open block holds the slots its `OP_ENTER`
reserved, so the slots of the blocks around an instruction are there, and the
offsets of its scope are below their number.

* `Opened`, `Guarded`: the blocks at an address, and at the targets in the block frames.
* `opened_step`: one instruction keeps both.
* `local_operands_safe`: along every run.
-/
import Jspp.Kernel.Runs
import Mathlib.Algebra.Order.BigOperators.Group.List

namespace Jspp.Kernel

open Jspp.Compiler Jspp.Theory

set_option autoImplicit false

/-! ## Blocks at an address -/

/-- The counts of locals of some block frames. -/
def counts (blocks : List BlockFrame) : List Nat := blocks.map BlockFrame.localcount

@[simp] theorem counts_cons (bf : BlockFrame) (rest : List BlockFrame) :
    counts (bf :: rest) = bf.localcount :: counts rest := rfl

/-- If there is an instruction at the address, then the blocks around it are open. -/
def Opened (spots : List Spot) (t : Int) (blocks : List BlockFrame) : Prop :=
  ∀ (k : Nat) (l : Spot), t = k → lineAt spots k = some l → l.ctx.blocks.Sublist (counts blocks)

/-- Where the targets in the block frames lead, blocks that stay are open. -/
def Guarded (spots : List Spot) : List BlockFrame → Prop
  | [] => True
  | bf :: rest =>
      Opened spots bf.breakpc (bf :: rest) ∧ Opened spots (bf.breakpc - 3) (bf :: rest) ∧
        Opened spots bf.catchpc (bf :: rest) ∧ Guarded spots rest

section

variable {spots : List Spot}

theorem opened_none {t : Int} (neg : t < 0) (blocks : List BlockFrame) : Opened spots t blocks := by
  intro k l eq _
  omega

theorem Opened.of_leads {k : Nat} {around : List Nat} {blocks : List BlockFrame}
    (leads : Leads spots .start k around) (sub : around.Sublist (counts blocks)) :
    Opened spots k blocks := by
  obtain ⟨c, point, rfl⟩ := leads
  intro j l eq read
  have here : j = k := by omega
  subst here
  rcases point with ⟨l', read', rfl⟩ | ⟨rfl, rfl⟩
  · rw [read] at read'
    cases read'
    exact sub
  · rw [lineAt_extent] at read
    cases read

theorem Opened.of_leadsTo {t : Int} {around : List Nat} {blocks : List BlockFrame}
    (leads : LeadsTo spots .start t around) (sub : around.Sublist (counts blocks)) :
    Opened spots t blocks := by
  obtain ⟨k, rfl, leads⟩ := leads
  exact .of_leads leads sub

theorem Opened.of_lands {t : Int} {around : List Nat} {blocks : List BlockFrame}
    (lands : Lands spots t around) (sub : around.Sublist (counts blocks)) :
    Opened spots t blocks := by
  intro k l eq read
  rw [lands k l eq read]
  exact sub

theorem Opened.mono {t : Int} {blocks more : List BlockFrame} (h : Opened spots t blocks)
    (sub : (counts blocks).Sublist (counts more)) : Opened spots t more :=
  fun k l eq read => (h k l eq read).trans sub

theorem Guarded.tail {blocks : List BlockFrame} (h : Guarded spots blocks) :
    Guarded spots blocks.tail := by
  cases blocks with
  | nil => trivial
  | cons bf rest => exact h.2.2.2

/-- The break target of the innermost block. -/
theorem Guarded.breakpc {blocks : List BlockFrame} (h : Guarded spots blocks) :
    Opened spots ((blocks.head?.map BlockFrame.breakpc).getD (-1)) blocks ∧
      Opened spots ((blocks.head?.map BlockFrame.breakpc).getD (-1) - 3) blocks := by
  cases blocks with
  | nil => exact ⟨opened_none (by simp) _, opened_none (by simp) _⟩
  | cons bf rest => exact ⟨h.1, h.2.1⟩

theorem Guarded.caught {blocks : List BlockFrame} (h : Guarded spots blocks) :
    Opened spots (Act.handlerPc blocks) (Act.caught blocks) ∧ Guarded spots (Act.caught blocks) := by
  induction blocks with
  | nil => exact ⟨opened_none (by simp [Act.handlerPc, Act.caught]) _, trivial⟩
  | cons bf rest ih =>
      by_cases skip : bf.catchpc = -1
      · have eq : Act.caught (bf :: rest) = Act.caught rest := by simp [Act.caught, skip]
        rw [Act.handlerPc, eq]
        exact ih h.tail
      · have eq : Act.caught (bf :: rest) = bf :: rest := by simp [Act.caught, skip]
        rw [Act.handlerPc, eq]
        exact ⟨h.2.2.1, h⟩

/-! ## One instruction -/

variable {b : Nat} {l : Spot} {s s' : Shape}

/-- The blocks around the next instruction are open, and the targets lead to open blocks. -/
def OpenShape (spots : List Spot) (s : Shape) : Prop :=
  Opened spots s.pc s.blocks ∧ Guarded spots s.blocks

theorem openShape_goto {t : Int} (opened : Opened spots t s.blocks) (guarded : Guarded spots s.blocks)
    (eq : s' = ⟨t, s.blocks⟩) : OpenShape spots s' := by
  subst eq
  exact ⟨opened, guarded⟩

theorem openShape_stay (pc : s.pc = ↑(b + l.instr.size)) (sub : l.ctx.blocks.Sublist (counts s.blocks))
    (guarded : Guarded spots s.blocks) (next : Leads spots .start (b + l.instr.size) l.ctx.blocks)
    (eq : s' = s) : OpenShape spots s' := by
  subst eq
  exact ⟨pc ▸ .of_leads next sub, guarded⟩

theorem openShape_catch (guarded : Guarded spots s.blocks) (caught : Catches s s') :
    OpenShape spots s' := by
  obtain ⟨_, rfl⟩ := caught
  exact guarded.caught

/-- An instruction keeps the blocks around it open, and leads to one whose blocks are. -/
theorem opened_step (wired : l.Wired spots .start b) (pc : s.pc = ↑(b + l.instr.size))
    (sub : l.ctx.blocks.Sublist (counts s.blocks)) (guarded : Guarded spots s.blocks)
    (moves : Moves l.instr s s') : OpenShape spots s' := by
  obtain ⟨i, c, scope⟩ := l
  cases i with
  | emit2 op mode mode2 arg1 arg2 =>
      rcases moves with stay | caught
      · exact openShape_stay pc sub guarded wired stay
      · exact openShape_catch guarded caught
  | emit0 op =>
      cases op with
      | leave =>
          have eq : s' = ⟨s.pc, s.blocks.tail⟩ := moves
          subst eq
          refine ⟨?_, guarded.tail⟩
          rw [pc]
          refine .of_leads wired ?_
          rw [counts, List.map_tail]
          exact sub.tail
      | «break» => exact openShape_goto guarded.breakpc.1 guarded moves.1
      | «continue» => exact openShape_goto guarded.breakpc.2 guarded moves.2
      | throw => exact openShape_catch guarded moves
      | ret | vret => exact False.elim moves
      | _ => exact openShape_stay pc sub guarded wired moves
  | emit1 op mode arg =>
      cases op with
      | enter =>
          cases arg with
          | none => exact False.elim moves
          | some n =>
              obtain ⟨bf, count, nocatch, _, brk, _, rfl⟩ := moves
              have more : (counts s.blocks).Sublist (counts (bf :: s.blocks)) :=
                List.sublist_cons_self _ _
              refine ⟨?_, ?_, ?_, ?_, guarded⟩
              · show Opened spots s.pc _
                rw [pc]
                refine .of_leads wired ?_
                rw [counts_cons, count]
                exact sub.cons_cons _
              · rw [brk]
                exact guarded.breakpc.1.mono more
              · rw [brk]
                exact guarded.breakpc.2.mono more
              · rw [nocatch]
                exact opened_none (by simp) _
      | setbreak =>
          cases arg with
          | none => exact False.elim wired
          | some t =>
              obtain ⟨rfl, next, target⟩ := wired
              obtain ⟨bf, rest, blocks, rfl⟩ := moves
              rw [blocks] at sub guarded
              obtain ⟨_, _, catches, below⟩ := guarded
              refine ⟨?_, ?_, ?_, catches, below⟩
              · show Opened spots s.pc _
                rw [pc]
                exact .of_leads next sub
              · rcases target with rfl | ⟨leads, _⟩
                · exact opened_none (by simp) _
                · exact .of_leadsTo leads sub
              · rcases target with rfl | ⟨_, lands⟩
                · exact opened_none (by simp) _
                · exact .of_lands lands sub
      | «try» =>
          cases arg with
          | none => exact False.elim wired
          | some t =>
              obtain ⟨rfl, next, target⟩ := wired
              obtain ⟨bf, rest, blocks, rfl⟩ := moves
              rw [blocks] at sub guarded
              obtain ⟨breaks, continues, _, below⟩ := guarded
              refine ⟨?_, breaks, continues, .of_leadsTo target sub, below⟩
              show Opened spots s.pc _
              rw [pc]
              exact .of_leads next sub
      | jmp =>
          cases arg with
          | none => exact False.elim moves
          | some t =>
              refine openShape_goto ?_ guarded moves
              rcases wired with rfl | leads
              · exact opened_none (by simp) _
              · exact .of_leadsTo leads sub
      | jmpz | jmpnz =>
          cases arg with
          | none => exact False.elim moves
          | some t =>
              rcases moves with stay | jumped
              · exact openShape_stay pc sub guarded wired.1 stay
              · exact openShape_goto (.of_leadsTo wired.2 sub) guarded jumped
      | scall =>
          rcases moves with stay | caught
          · exact openShape_stay pc sub guarded wired stay
          · exact openShape_catch guarded caught
      | _ => exact openShape_stay pc sub guarded wired moves

end

/-! ## Along every run -/

/-- A frame of a compiled method: its locals are its parameters and the slots of
its blocks, and the blocks around its next instruction are open. -/
structure Seated (f : StackFrame) : Prop where
  method : ∃ mp, f.curmethod = some mp ∧ Compiled mp ∧ f.baseLocals = mp.args.length ∧
    OpenShape (mp.body.spots mp.params) f.shape

/-- The slots of the open blocks are among the locals. -/
theorem counts_le_locals {f : StackFrame} {n : Nat} (base : f.baseLocals = n) :
    (counts f.blockframes).sum ≤ f.locals := by
  unfold StackFrame.baseLocals at base
  rw [counts]
  omega

/-- A fetched local operand is below the number of locals. -/
def Event.LocalsSafe : Event → Prop
  | .fetch _ q => ∀ (f : StackFrame) (rest : List StackFrame) (offset : Int),
      q.frames = f :: rest →
        Compiler.fetch (Qinterp.codeOf f) f.pc = some (.emit1 .lvalue .block (some offset)) →
          0 ≤ offset ∧ offset < f.locals
  | .invoke _ _ => True

/-- What is fetched is the instruction of a spot. -/
theorem Compiled.fetch {mp : JsMethod} (compiled : Compiled mp) {pc : Int} {i : Instr}
    (read : Compiler.fetch mp.code pc = some i) :
    ∃ (k : Nat) (l : Spot), pc = k ∧ lineAt (mp.body.spots mp.params) k = some l ∧ l.instr = i := by
  obtain ⟨_, _, _, ok⟩ := compiled
  unfold Compiler.fetch at read
  split at read
  case isTrue => cases read
  case isFalse pos =>
      have code : mp.code = cells ((mp.body.spots mp.params).map Spot.instr) := by
        rw [Body.map_spots, ok.code]
      rw [code, fetchAt_spots] at read
      obtain ⟨l, at_l, rfl⟩ := Option.map_eq_some_iff.mp read
      exact ⟨pc.toNat, l, by omega, at_l, rfl⟩

theorem Compiled.slotted {mp : JsMethod} (compiled : Compiled mp) {k : Nat} {l : Spot}
    (read : lineAt (mp.body.spots mp.params) k = some l) : l.Slotted := by
  obtain ⟨_, _, plain, ok⟩ := compiled
  obtain ⟨pre, post, eq, _⟩ := lineAt_eq_some read
  exact ok.slotted plain l (by simp [eq])

theorem seated_logic {env : Env} (compiled : Tables CompiledTable Compiled env.classes) :
    ShapeLogic env (fun _ => True) Event.LocalsSafe Seated where
  started := by
    rintro mp q f rest ⟨ctx, sig, count, below, found, fresh⟩ _ frames
    obtain ⟨g, at_g, _, method, _, _, locals, blocks⟩ := fresh.frame
    rw [frames] at at_g
    obtain ⟨rfl, rfl⟩ := List.cons.inj at_g
    refine ⟨mp, method, findMethod_compiled compiled found, ?_, ?_⟩
    · simp [StackFrame.baseLocals, locals, blocks]
    · refine ⟨.of_leads (Body.leads_zero _ _) (List.nil_sublist _), ?_⟩
      show Guarded _ f.blockframes
      rw [blocks]
      exact ⟨opened_none (by simp) _, opened_none (by simp) _, opened_none (by simp) _, trivial⟩
  fetched := by
    intro base q f rest frames _ seated g below offset eq read
    rw [frames] at eq
    obtain ⟨rfl, rfl⟩ := List.cons.inj eq
    obtain ⟨mp, method, ok, params, opened, _⟩ := seated.method
    rw [Qinterp.codeOf, method] at read
    obtain ⟨k, l, pc, at_k, instr⟩ := ok.fetch read
    obtain ⟨v, _, rfl, room⟩ := (ok.slotted at_k).room offset instr
    have sub : l.ctx.blocks.sum ≤ (counts f.blockframes).sum :=
      (opened k l pc at_k).sum_le_sum fun _ _ => Nat.zero_le _
    have slots := counts_le_locals params
    omega
  stepped := by
    intro base q f rest i f' _ _ seated _ read same moves
    obtain ⟨mp, method, ok, params, opened, guarded⟩ := seated.method
    rw [Qinterp.codeOf, method] at read
    obtain ⟨k, l, pc, at_k, rfl⟩ := ok.fetch read
    have wired := (Body.wired mp.params mp.body).at at_k
    rw [Nat.zero_add] at wired
    refine ⟨mp, same.curmethod.trans method, ok, same.base.trans params, ?_⟩
    have behind : f.pc + l.instr.size = ↑(k + l.instr.size) := by
      rw [pc]
      rfl
    let behindIt : Shape := ⟨f.pc + l.instr.size, f.blockframes⟩
    exact opened_step (s := behindIt) wired behind (opened k l pc at_k) guarded moves
  invoked := fun _ _ _ => trivial

/-- The variables and parameters in scope at an instruction. -/
def scopeAt (mp : JsMethod) (pc : Nat) : Option (List Local) :=
  (lineAt (mp.body.spots mp.params) pc).map Spot.scope

/-- An instruction has a scope without two variables of one offset, and what it
names is in it. -/
def DistinctAt (mp : JsMethod) (pc : Nat) (i : Instr) : Prop :=
  ∃ scope, scopeAt mp pc = some scope ∧ (scope.map Local.offset).Nodup ∧
    ∀ offset, i = .emit1 .lvalue .block (some offset) → ∃ v ∈ scope, (v.offset : Int) = offset

theorem Compiled.distinctAt {mp : JsMethod} (compiled : Compiled mp) {pc : Nat} {i : Instr}
    (read : fetchAt mp.code pc = some i) : DistinctAt mp pc i := by
  have fetched : Compiler.fetch mp.code pc = some i := by
    rw [Compiler.fetch, if_neg (by omega)]
    exact read
  obtain ⟨k, l, eq, at_k, rfl⟩ := compiled.fetch fetched
  have same : k = pc := by omega
  subst same
  have slotted := compiled.slotted at_k
  refine ⟨l.scope, by simp [scopeAt, at_k], slotted.numbered.nodup, fun offset instr => ?_⟩
  obtain ⟨v, mem, at_v, _⟩ := slotted.room offset instr
  exact ⟨v, mem, at_v⟩

/-- A method with one local. -/
def oneLocal : List Char :=
  "class A \x7b public static main() \x7b var x = 1; return x; \x7d \x7d".toList

/-- The event fetches that local operand. -/
def Event.readsLocal (offset : Int) : Event → Bool
  | .fetch _ q =>
      match q.frames with
      | [] => false
      | f :: _ =>
          Compiler.fetch (Qinterp.codeOf f) f.pc = some (.emit1 .lvalue .block (some offset))
  | .invoke _ _ => false

theorem oneLocal_reads : (mainLog oneLocal).any (Event.readsLocal 0) = true := by
  rw [show oneLocal = _ from String.toList_ofList]
  decide +kernel

end Jspp.Kernel
