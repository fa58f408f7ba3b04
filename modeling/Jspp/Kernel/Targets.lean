/-
# Kernel.Targets -- what an activation fetches

An activation fetches at the start of an instruction as long as every jump it
executed was filled in and no `OP_CONTINUE` acted on a `switch`: a `continue`
goes three cells before the target of `break`, which for a loop is the jump that
closes it and for a `switch` the inside of one.

* `OnStart`, `Aimed`: an address, and the targets in the block frames.
* `aimed_step`: one instruction keeps both.
* `jumps_land`: the jumps of every method, and the fetches of every run.
-/
import Jspp.Compiler.Landing
import Jspp.Kernel.Blocks

namespace Jspp.Kernel

open Jspp.Compiler Jspp.Theory

set_option autoImplicit false

/-! ## Addresses -/

/-- The address of an instruction, or of the end of the code. -/
def OnStart (spots : List Spot) (t : Int) : Prop :=
  ∃ k : Nat, t = k ∧ ((∃ l, lineAt spots k = some l) ∨ k = extent spots)

/-- The targets of a block frame are none or addresses; a `continue` has one as well
unless the target of `break` is the end of a `switch`. -/
structure AimedFrame (spots : List Spot) (bf : BlockFrame) : Prop where
  breaks : bf.breakpc = -1 ∨ OnStart spots bf.breakpc
  continues : bf.breakpc = -1 ∨ EndsSwitch spots bf.breakpc ∨ OnStart spots (bf.breakpc - 3)
  catches : bf.catchpc = -1 ∨ OnStart spots bf.catchpc

def Aimed (spots : List Spot) (blocks : List BlockFrame) : Prop :=
  ∀ bf ∈ blocks, AimedFrame spots bf

/-- The next instruction is one, and the targets in the block frames lead to one. -/
def AimedShape (spots : List Spot) (s : Shape) : Prop :=
  OnStart spots s.pc ∧ Aimed spots s.blocks

section

variable {spots : List Spot} {blocks : List BlockFrame} {around : List Nat}

theorem OnStart.of_leads {k : Nat} (leads : Leads spots .start k around) : OnStart spots k := by
  obtain ⟨c, point, _⟩ := leads
  rcases point with ⟨l, read, _⟩ | ⟨ends, _⟩
  · exact ⟨k, rfl, .inl ⟨l, read⟩⟩
  · exact ⟨k, rfl, .inr ends⟩

theorem OnStart.of_leadsTo {t : Int} (leads : LeadsTo spots .start t around) :
    OnStart spots t := by
  obtain ⟨k, rfl, leads⟩ := leads
  exact .of_leads leads

theorem Aimed.tail (h : Aimed spots blocks) : Aimed spots blocks.tail :=
  fun bf mem => h bf (List.mem_of_mem_tail mem)

theorem Aimed.caught (h : Aimed spots blocks) : Aimed spots (Act.caught blocks) :=
  fun bf mem => h bf ((List.dropWhile_sublist _).subset mem)

/-- The handler that is found was set. -/
theorem Aimed.handler (h : Aimed spots blocks) (found : Act.handlerPc blocks ≠ -1) :
    OnStart spots (Act.handlerPc blocks) := by
  have all := h.caught
  unfold Act.handlerPc at found ⊢
  cases caught : Act.caught blocks with
  | nil => simp [caught] at found
  | cons bf rest =>
      simp only [caught] at found
      exact (all bf (by simp [caught])).catches.resolve_left found

/-- The target of the innermost block. -/
theorem Aimed.head (h : Aimed spots blocks)
    (found : ((blocks.head?).map BlockFrame.breakpc).getD (-1) ≠ -1) :
    ∃ bf ∈ blocks, bf.breakpc ≠ -1 ∧
      ((blocks.head?).map BlockFrame.breakpc).getD (-1) = bf.breakpc ∧ AimedFrame spots bf := by
  cases blocks with
  | nil => exact absurd rfl found
  | cons bf rest => exact ⟨bf, List.mem_cons_self, found, rfl, h bf List.mem_cons_self⟩

/-- A block that is entered aims where the one around it does. -/
theorem Aimed.enter (h : Aimed spots blocks) {bf : BlockFrame} (nocatch : bf.catchpc = -1)
    (same : bf.breakpc = ((blocks.head?).map BlockFrame.breakpc).getD (-1)) :
    Aimed spots (bf :: blocks) := by
  refine List.forall_mem_cons.mpr ⟨?_, h⟩
  by_cases none : bf.breakpc = -1
  · exact ⟨.inl none, .inl none, .inl nocatch⟩
  · obtain ⟨outer, _, _, eq, aimed⟩ := h.head (same ▸ none)
    have eq : bf.breakpc = outer.breakpc := same.trans eq
    exact ⟨eq ▸ aimed.breaks, eq ▸ aimed.continues, .inl nocatch⟩

variable {b : Nat} {l : Spot} {s s' : Shape}

theorem aimedShape_stay (pc : s.pc = ↑(b + l.instr.size)) (aimed : Aimed spots s.blocks)
    (next : Leads spots .start (b + l.instr.size) around) (eq : s' = s) : AimedShape spots s' := by
  subst eq
  exact ⟨pc ▸ .of_leads next, aimed⟩

theorem aimedShape_goto {t : Int} (start : OnStart spots t) (aimed : Aimed spots s.blocks)
    (eq : s' = ⟨t, s.blocks⟩) : AimedShape spots s' := by
  subst eq
  exact ⟨start, aimed⟩

theorem aimedShape_catch (aimed : Aimed spots s.blocks) (caught : Catches s s') :
    AimedShape spots s' := by
  obtain ⟨found, rfl⟩ := caught
  exact ⟨aimed.handler found, aimed.caught⟩

/-- An instruction leads to the start of one, when its jump is filled in and it does
not continue at the end of a `switch`. -/
theorem aimed_step (wired : l.Wired spots .start b) (stops : l.Stops spots)
    (filled : l.instr.Filled)
    (loop : l.instr = .emit0 .continue →
      ¬ EndsSwitch spots (((s.blocks.head?).map BlockFrame.breakpc).getD (-1)))
    (pc : s.pc = ↑(b + l.instr.size)) (aimed : Aimed spots s.blocks)
    (moves : Moves l.instr s s') : AimedShape spots s' := by
  obtain ⟨i, c, scope⟩ := l
  cases i with
  | emit2 op mode mode2 arg1 arg2 =>
      rcases moves with stay | caught
      · exact aimedShape_stay pc aimed wired stay
      · exact aimedShape_catch aimed caught
  | emit0 op =>
      cases op with
      | leave =>
          have eq : s' = ⟨s.pc, s.blocks.tail⟩ := moves
          subst eq
          exact ⟨pc ▸ .of_leads wired, aimed.tail⟩
      | «break» =>
          obtain ⟨eq, found⟩ := moves
          rw [eq] at found
          obtain ⟨bf, _, some, same, frame⟩ := aimed.head found
          exact aimedShape_goto (same ▸ frame.breaks.resolve_left some) aimed eq
      | «continue» =>
          obtain ⟨found, eq⟩ := moves
          obtain ⟨bf, _, some, same, frame⟩ := aimed.head found
          have away := loop rfl
          rw [same] at away
          exact aimedShape_goto
            (same ▸ (frame.continues.resolve_left some).resolve_left away) aimed eq
      | throw => exact aimedShape_catch aimed moves
      | ret | vret => exact False.elim moves
      | _ => exact aimedShape_stay pc aimed wired moves
  | emit1 op mode arg =>
      cases op with
      | enter =>
          cases arg with
          | none => exact False.elim moves
          | some n =>
              obtain ⟨bf, _, nocatch, _, brk, _, rfl⟩ := moves
              exact ⟨pc ▸ .of_leads wired, aimed.enter nocatch brk⟩
      | setbreak =>
          cases arg with
          | none => exact False.elim wired
          | some t =>
              have target := stops mode t rfl
              obtain ⟨rfl, next, leads⟩ := wired
              obtain ⟨bf, rest, blocks, rfl⟩ := moves
              rw [blocks] at aimed
              obtain ⟨here, below⟩ := List.forall_mem_cons.mp aimed
              refine ⟨pc ▸ .of_leads next, List.forall_mem_cons.mpr ⟨⟨?_, ?_, here.catches⟩, below⟩⟩
              · exact leads.imp_right fun leads => .of_leadsTo leads.1
              · refine target.imp_right (Or.imp_right ?_)
                rintro ⟨k, jump, eq, read⟩
                exact ⟨k, eq, .inl ⟨jump, read⟩⟩
      | «try» =>
          cases arg with
          | none => exact False.elim wired
          | some t =>
              obtain ⟨rfl, next, target⟩ := wired
              obtain ⟨bf, rest, blocks, rfl⟩ := moves
              rw [blocks] at aimed
              obtain ⟨here, below⟩ := List.forall_mem_cons.mp aimed
              exact ⟨pc ▸ .of_leads next, List.forall_mem_cons.mpr
                ⟨⟨here.breaks, here.continues, .inr (.of_leadsTo target)⟩, below⟩⟩
      | jmp =>
          cases arg with
          | none => exact False.elim moves
          | some t =>
              refine aimedShape_goto ?_ aimed moves
              obtain ⟨k, eq⟩ := filled
              cases eq
              rcases wired with neg | leads
              · cases neg
              · exact .of_leadsTo leads
      | jmpz | jmpnz =>
          cases arg with
          | none => exact False.elim moves
          | some t =>
              rcases moves with stay | jumped
              · exact aimedShape_stay pc aimed wired.1 stay
              · exact aimedShape_goto (.of_leadsTo wired.2) aimed jumped
      | scall =>
          rcases moves with stay | caught
          · exact aimedShape_stay pc aimed wired stay
          · exact aimedShape_catch aimed caught
      | _ => exact aimedShape_stay pc aimed wired moves

end

/-! ## Along every run -/

/-- The program counter of a fetch is the start of an instruction of the method. -/
def Event.AtStart : Event → Prop
  | .fetch _ q => ∀ (f : StackFrame) (rest : List StackFrame), q.frames = f :: rest →
      ∃ (mp : JsMethod) (pc : Nat), f.curmethod = some mp ∧ f.pc = pc ∧ StartsAt mp.body.code pc
  | .invoke _ _ => True

/-- A fetched jump was filled in, and a fetched `OP_CONTINUE` does not act on a `switch`. -/
def Event.JumpsFilled : Event → Prop
  | .fetch _ q => ∀ (f : StackFrame) (rest : List StackFrame) (i : Instr), q.frames = f :: rest →
      Compiler.fetch (Qinterp.codeOf f) f.pc = some i →
        i.Filled ∧ (i = .emit0 .continue → ∀ mp, f.curmethod = some mp →
          ¬ EndsSwitch (mp.body.spots mp.params) (Act.getBreak f))
  | .invoke _ _ => True

/-- A frame of a compiled method at the start of an instruction. -/
def Pointed (f : StackFrame) : Prop :=
  ∃ mp, f.curmethod = some mp ∧ Compiled mp ∧ AimedShape (mp.body.spots mp.params) f.shape

theorem Compiled.code_eq {mp : JsMethod} (compiled : Compiled mp) :
    mp.code = cells mp.body.code := by
  obtain ⟨_, _, _, ok⟩ := compiled
  exact ok.code

theorem pointed_logic {env : Env} (compiled : Tables CompiledTable Compiled env.classes) :
    ShapeLogic env Event.JumpsFilled Event.AtStart Pointed where
  started := by
    rintro mp q f rest ⟨ctx, sig, count, below, found, fresh⟩ _ frames
    obtain ⟨g, at_g, _, method, _, _, _, blocks⟩ := fresh.frame
    rw [frames] at at_g
    obtain ⟨rfl, rfl⟩ := List.cons.inj at_g
    refine ⟨mp, method, findMethod_compiled compiled found, .of_leads (Body.leads_zero _ _), ?_⟩
    show Aimed _ f.blockframes
    rw [blocks]
    intro bf mem
    rw [List.mem_singleton.mp mem]
    exact ⟨.inl rfl, .inl rfl, .inl rfl⟩
  fetched := by
    intro base q f rest frames running pointed g below eq
    rw [frames] at eq
    obtain ⟨rfl, rfl⟩ := List.cons.inj eq
    obtain ⟨mp, method, ok, ⟨k, pc, point⟩, _⟩ := pointed
    have code : Qinterp.codeOf f = cells mp.body.code := by
      rw [Qinterp.codeOf, method]
      exact ok.code_eq
    have inside := running.1
    rw [code, length_cells_list, ← Body.map_spots mp.params mp.body, ← extent_eq_codeSize] at inside
    refine ⟨mp, k, method, pc, ?_⟩
    rw [← Body.map_spots mp.params mp.body]
    rcases point with ⟨l, read⟩ | ends
    · exact startsAt_of_lineAt read
    · have at_k : f.pc = k := pc
      omega
  stepped := by
    intro base q f rest i f' frames _ pointed met read same moves
    obtain ⟨mp, method, ok, _, aimed⟩ := pointed
    obtain ⟨filled, away⟩ := met f rest i frames read
    rw [Qinterp.codeOf, method] at read
    obtain ⟨k, l, pc, at_k, rfl⟩ := ok.fetch read
    have wired := (Body.wired mp.params mp.body).at at_k
    rw [Nat.zero_add] at wired
    have stops : l.Stops (mp.body.spots mp.params) := by
      obtain ⟨pre, post, eq, _⟩ := lineAt_eq_some at_k
      exact Body.stops mp.params mp.body l (by simp [eq])
    refine ⟨mp, same.curmethod.trans method, ok, ?_⟩
    have behind : f.pc + l.instr.size = ↑(k + l.instr.size) := by
      rw [pc]
      rfl
    let behindIt : Shape := ⟨f.pc + l.instr.size, f.blockframes⟩
    refine aimed_step (s := behindIt) wired stops filled (fun cont => ?_) behind aimed moves
    rw [← getBreak_eq]
    exact away cont mp method
  invoked := fun _ _ _ => trivial

/-- The jumps of a compiled method land on instructions exactly when no `switch` of
it lacks a `default` and no `for` a post expression.  Along every run a fetch is at
the start of an instruction, as long as the executed jumps were filled in and no
`OP_CONTINUE` acted on a `switch`. -/
theorem jumps_land {host : Host} {s : Session} (prepared : Prepared host s) :
    (∀ text : List Char, (parseChar s.intrinsics text).accepted →
      ∀ cls ∈ (parseChar s.intrinsics text).heap, ∀ mp ∈ cls.methods,
        mp.code = cells mp.body.code ∧ (JumpsLand mp.body.code ↔ mp.body.bare = false)) ∧
      ∀ log, Ran host log → HoldsWhile Event.JumpsFilled Event.AtStart log := by
  constructor
  · intro text accepted cls mem mp method
    have all := compiled_logic.invariant.parse _ _ accepted
      (prepared.classes compiled_logic.invariant)
    exact ⟨((all cls mem).1 mp method).code_eq, jumpsLand_iff mp.body⟩
  · intro log ran
    exact ran.holds compiled_logic.invariant fun env _ compiled fuel =>
      (pointed_logic compiled).interp fuel

/-- A `switch` without a `default`, on a value that no clause has. -/
def noDefault : List Char :=
  ("class A \x7b public static main() \x7b switch (1) \x7b case 2: break; \x7d return 1; \x7d " ++
    "\x7d").toList

/-- A fetch before the start of the code. -/
def Event.fetchesOutside : Event → Bool
  | .fetch _ q =>
      match q.frames with
      | [] => false
      | f :: _ => f.pc < 0
  | .invoke _ _ => false

theorem Event.not_atStart {e : Event} (h : e.fetchesOutside = true) : ¬ e.AtStart := by
  intro start
  cases e with
  | invoke mp q => exact Bool.noConfusion h
  | fetch base q =>
      simp only [fetchesOutside] at h
      split at h
      case h_1 => cases h
      case h_2 f rest frames =>
          obtain ⟨mp, pc, _, at_pc, _⟩ := start f rest frames
          have neg : f.pc < 0 := of_decide_eq_true h
          omega

/-- No clause is taken and the jump behind them goes to -1. -/
theorem jumps_astray :
    ∃ log : List Event, Ran plainHost log ∧ ∃ e ∈ log, ¬ e.AtStart := by
  have wrong : (mainLog noDefault).any Event.fetchesOutside = true := by
    rw [show noDefault = _ from toList_literals _ _]
    decide +kernel
  obtain ⟨e, mem, outside⟩ := List.any_eq_true.mp wrong
  exact ⟨mainLog noDefault, mainLog_ran mem, e, mem, Event.not_atStart outside⟩

/-- The smallest session. -/
theorem jumps_land_smallest :
    ∃ log : List Event, Ran plainHost log ∧ log ≠ [] ∧
      HoldsWhile Event.JumpsFilled Event.AtStart log := by
  obtain ⟨e, mem, _⟩ := List.any_eq_true.mp oneLocal_reads
  exact ⟨mainLog oneLocal, mainLog_ran mem, List.ne_nil_of_mem mem,
    (jumps_land objectSession_prepared).2 _ (mainLog_ran mem)⟩

end Jspp.Kernel
