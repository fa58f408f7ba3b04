/-
# Compiler.Wired -- where an instruction can go

The blocks around an instruction are known where it is emitted; this module
follows its exits.  Falling through, jumping, entering and leaving a block, and
the targets that `OP_SETBREAK` and `OP_TRY` write down all lead to instructions
whose blocks are the expected ones, or to the end of the code.  A target of -1
is none.

* `Leads`: an address with the blocks that are open there.
* `Spot.Wired`, `Stmt.wired`, `Body.wired`.
-/
import Jspp.Compiler.Spots

namespace Jspp.Compiler

open Jspp.Kernel Jspp.Theory

set_option autoImplicit false

/-! ## Straight code -/

/-- The instructions that always fall through and leave the block frames alone. -/
def OpCode.straight : OpCode → Bool
  | .jmp | .jmpz | .jmpnz | .try | .setbreak | .enter | .leave | .ret | .vret | .throw | .break
  | .continue => false
  | _ => true

def StraightAll (is : List Instr) : Prop := ∀ i ∈ is, i.op.straight = true

@[simp] theorem straightAll_nil : StraightAll [] := fun _ mem => absurd mem List.not_mem_nil

@[simp] theorem straightAll_cons {i : Instr} {is : List Instr} :
    StraightAll (i :: is) ↔ i.op.straight = true ∧ StraightAll is :=
  List.forall_mem_cons

@[simp] theorem straightAll_append {is js : List Instr} :
    StraightAll (is ++ js) ↔ StraightAll is ∧ StraightAll js :=
  List.forall_mem_append

@[simp] theorem UnOp.straight (op : UnOp) : op.op.straight = true := by
  cases op <;> rfl

@[simp] theorem BinOp.straight (op : BinOp) : op.op.straight = true := by
  cases op <;> rfl

mutual

/-- An expression is straight code. -/
theorem Expr.straight (e : Expr) : StraightAll e.code := by
  cases e with
  | push | null | lvalue | sderef | this => simp [Expr.code, Instr.op, OpCode.straight]
  | deref recv name => simp [Expr.code, Expr.straight recv, Instr.op, OpCode.straight]
  | call base recv name args sig =>
      have op : (if base then OpCode.basecall else .call).straight = true := by
        split <;> rfl
      simp [Expr.code, Expr.straight recv, Args.straight args, Instr.op, op]
  | scall cls name args sig => simp [Expr.code, Args.straight args, Instr.op, OpCode.straight]
  | new cls clsidx args sig => simp [Expr.code, Args.straight args, Instr.op, OpCode.straight]
  | array clsidx addidx elems =>
      simp [Expr.code, Args.add_straight elems, Instr.op, OpCode.straight]
  | unary op e => simp [Expr.code, Expr.straight e, Instr.op]
  | drop e => simp [Expr.code, Expr.straight e, Instr.op, OpCode.straight]
  | binary op l r | early op l r =>
      simp [Expr.code, Expr.straight l, Expr.straight r, Instr.op]
  | assign l r => simp [Expr.code, Expr.straight l, Expr.straight r, Instr.op, OpCode.straight]
  | assignOp op l r =>
      simp only [Expr.code, straightAll_append, straightAll_cons]
      exact ⟨Expr.straight l, rfl, Expr.straight r, rfl, op.straight, rfl, straightAll_nil⟩
  | init mode offset r => simp [Expr.code, Expr.straight r, Instr.op, OpCode.straight]

theorem Args.straight (args : Args) : StraightAll args.code := by
  cases args with
  | nil => exact straightAll_nil
  | cons e rest => simp [Args.code, Expr.straight e, Args.straight rest]

theorem Args.add_straight (args : Args) (addidx : Nat) : StraightAll (args.addCode addidx) := by
  cases args with
  | nil => exact straightAll_nil
  | cons e rest =>
      simp [Args.addCode, Expr.straight e, Args.add_straight rest, Instr.op, OpCode.straight]

end

theorem optCode_straight (o : Option Expr) : StraightAll (optCode o) := by
  cases o with
  | none => exact straightAll_nil
  | some e => exact e.straight

/-! ## Exits -/

section

variable (whole : List Spot) (last : Ctx)

/-- An instruction, or the end of the code, is at that address with those blocks open. -/
def Leads (k : Nat) (blocks : List Nat) : Prop :=
  ∃ c, PointAt whole last k c ∧ c.blocks = blocks

/-- The same for an operand. -/
def LeadsTo (t : Int) (blocks : List Nat) : Prop :=
  ∃ k : Nat, t = k ∧ Leads whole last k blocks

/-- If there is an instruction at the address then with those blocks open. -/
def Lands (t : Int) (blocks : List Nat) : Prop :=
  ∀ (k : Nat) (l : Spot), t = k → lineAt whole k = some l → l.ctx.blocks = blocks

/-- The exits of an instruction at address `b` lead where its blocks say. -/
def Spot.Wired (b : Nat) (l : Spot) : Prop :=
  match l.instr with
  | .emit0 .leave => Leads whole last (b + 1) l.ctx.blocks.tail
  | .emit0 .ret | .emit0 .vret | .emit0 .throw | .emit0 .break | .emit0 .continue => True
  | .emit1 .enter _ (some n) => Leads whole last (b + 3) (n.toNat :: l.ctx.blocks)
  | .emit1 .jmp _ (some t) => t = -1 ∨ LeadsTo whole last t l.ctx.blocks
  | .emit1 .jmp _ none => True
  | .emit1 .setbreak mode (some t) =>
      mode = .im ∧ Leads whole last (b + 3) l.ctx.blocks ∧
        (t = -1 ∨ LeadsTo whole last t l.ctx.blocks ∧ Lands whole (t - 3) l.ctx.blocks)
  | .emit1 .try mode (some t) =>
      mode = .im ∧ Leads whole last (b + 3) l.ctx.blocks ∧ LeadsTo whole last t l.ctx.blocks
  | .emit1 .setbreak _ none | .emit1 .try _ none => False
  | .emit1 .jmpz _ (some t) | .emit1 .jmpnz _ (some t) =>
      Leads whole last (b + 3) l.ctx.blocks ∧ LeadsTo whole last t l.ctx.blocks
  | i => Leads whole last (b + i.size) l.ctx.blocks

end

section

variable {whole : List Spot} {last : Ctx}

theorem leads_of_placed {b : Nat} {l : Spot} {ls : List Spot} (placed : Placed whole b (l :: ls))
    {blocks : List Nat} (same : l.ctx.blocks = blocks) : Leads whole last b blocks :=
  ⟨l.ctx, pointAt_of_placed placed, same⟩

theorem Leads.to {k : Nat} {blocks : List Nat} (h : Leads whole last k blocks) :
    LeadsTo whole last k blocks :=
  ⟨k, rfl, h⟩

theorem Spot.Wired.straight {b : Nat} {l : Spot} (plain : l.instr.op.straight = true)
    (next : Leads whole last (b + l.instr.size) l.ctx.blocks) : l.Wired whole last b := by
  obtain ⟨instr, c, scope⟩ := l
  cases instr with
  | emit0 op => cases op <;> first | exact next | cases plain
  | emit1 op mode arg => cases op <;> first | exact next | cases plain
  | emit2 op mode mode2 arg1 arg2 => exact next

theorem lands_of_placed {b : Nat} {l : Spot} {ls : List Spot} (placed : Placed whole b (l :: ls))
    {t : Int} (eq : t = b) {blocks : List Nat} (same : l.ctx.blocks = blocks) :
    Lands whole t blocks := by
  intro k l' at_k read
  have here : k = b := by omega
  subst here
  rw [lineAt_of_placed placed] at read
  cases read
  exact same

/-- Straight code is wired when what follows it has the same blocks. -/
theorem straight_wired {is : List Instr} (plain : StraightAll is) {b : Nat} {c : Ctx}
    {scope : List Local} (placed : Placed whole b (marked c scope is))
    (next : Leads whole last (b + codeSize is) c.blocks) :
    Along (Spot.Wired whole last) b (marked c scope is) ∧ Leads whole last b c.blocks := by
  induction is generalizing b with
  | nil => exact ⟨trivial, next⟩
  | cons i is ih =>
      obtain ⟨here, plain⟩ := straightAll_cons.mp plain
      have tail : Placed whole (b + i.size) (marked c scope is) := Placed.tail placed
      rw [codeSize_cons, ← Nat.add_assoc] at next
      obtain ⟨along, leads⟩ := ih plain tail next
      exact ⟨⟨.straight here leads, along⟩, leads_of_placed placed rfl⟩

theorem placed_marked {is : List Instr} {b : Nat} {c : Ctx} {scope : List Local} {ls : List Spot}
    (placed : Placed whole b (marked c scope is ++ ls)) :
    Placed whole b (marked c scope is) ∧ Placed whole (b + codeSize is) ls := by
  have right := placed.append_right
  rw [extent_marked] at right
  exact ⟨placed.append_left, right⟩

theorem placed_stmt {s : Stmt} {b b' : Nat} {c : Ctx} {scope : List Local} {ls : List Spot}
    (placed : Placed whole b (s.spots b' c scope ++ ls)) :
    Placed whole b (s.spots b' c scope) ∧ Placed whole (b + s.size) ls := by
  have right := placed.append_right
  rw [Stmt.extent_spots] at right
  exact ⟨placed.append_left, right⟩

theorem placed_cases {cs : Cases} {b b' : Nat} {c : Ctx} {scope : List Local} {ls : List Spot}
    (placed : Placed whole b (cs.spots b' c scope ++ ls)) :
    Placed whole b (cs.spots b' c scope) ∧ Placed whole (b + cs.size) ls := by
  have right := placed.append_right
  rw [Cases.extent_spots] at right
  exact ⟨placed.append_left, right⟩

end

/-! ## Statements -/

section

variable {whole : List Spot} {last : Ctx}

/-- A statement whose code is straight, with one instruction behind it that has no next. -/
theorem stop_wired {e : Expr} {b : Nat} {c : Ctx} {scope : List Local} {op : OpCode}
    (placed : Placed whole b (marked c scope e.code ++ [⟨.emit0 op, c, scope⟩]))
    (stop : ∀ k, Spot.Wired whole last k ⟨.emit0 op, c, scope⟩) :
    Along (Spot.Wired whole last) b (marked c scope e.code ++ [⟨.emit0 op, c, scope⟩]) ∧
      Leads whole last b c.blocks := by
  obtain ⟨code, behind⟩ := placed_marked placed
  have stops : Leads whole last (b + e.size) c.blocks := leads_of_placed behind rfl
  obtain ⟨along, leads⟩ := straight_wired e.straight code stops
  exact ⟨along_append.mpr ⟨along, stop _, trivial⟩, leads⟩

/-- The part of a `for` between its test and its body. -/
theorem postCode_wired {post : Option Expr} {eval b : Nat} {c : Ctx} {scope : List Local}
    (placed : Placed whole b (marked c scope (postCode eval b post)))
    (next : Leads whole last (b + postSize post) c.blocks)
    (again : Leads whole last eval c.blocks) :
    Along (Spot.Wired whole last) b (marked c scope (postCode eval b post)) ∧
      Leads whole last b c.blocks ∧
        ∀ t, postPc b post = some t → LeadsTo whole last t c.blocks := by
  cases post with
  | none => exact ⟨trivial, next, nofun⟩
  | some e =>
      have behind : Placed whole (b + 3) (marked c scope (e.code ++ [.jmp (some ↑eval)])) :=
        Placed.tail placed
      rw [marked, List.map_append] at behind
      obtain ⟨code, jump⟩ := placed_marked behind
      have jumps : Leads whole last (b + 3 + e.size) c.blocks := leads_of_placed jump rfl
      obtain ⟨along, leads⟩ := straight_wired e.straight code jumps
      have size : b + postSize (some e) = b + 3 + e.size + 3 := by
        simp only [postSize]
        omega
      rw [size] at next
      refine ⟨⟨.inr next.to, ?_⟩, leads_of_placed placed rfl, ?_⟩
      · rw [List.map_append]
        exact along_append.mpr ⟨along, .inr again.to, trivial⟩
      · intro t eq
        cases eq
        exact leads.to

mutual

/-- A statement is wired when what follows it has the blocks that are open around it. -/
theorem Stmt.wired {s : Stmt} {b : Nat} {c : Ctx} {scope : List Local}
    (placed : Placed whole b (s.spots b c scope))
    (next : Leads whole last (b + s.size) c.blocks) :
    Along (Spot.Wired whole last) b (s.spots b c scope) ∧ Leads whole last b c.blocks := by
  cases s with
  | skip | decl => exact ⟨trivial, next⟩
  | seq s t =>
      obtain ⟨first, second⟩ := placed_stmt placed
      rw [Stmt.size, ← Nat.add_assoc] at next
      obtain ⟨alongT, leadsT⟩ := Stmt.wired second next
      obtain ⟨alongS, leadsS⟩ := Stmt.wired first leadsT
      refine ⟨along_append.mpr ⟨alongS, ?_⟩, leadsS⟩
      rwa [Stmt.extent_spots]
  | line n => exact ⟨⟨next, trivial⟩, leads_of_placed placed rfl⟩
  | expr e => exact straight_wired e.straight placed next
  | ret e => exact stop_wired placed fun _ => trivial
  | throw e => exact stop_wired placed fun _ => trivial
  | vret => exact ⟨⟨leads_of_placed placed.tail rfl, trivial, trivial⟩, leads_of_placed placed rfl⟩
  | brk => exact ⟨⟨trivial, trivial⟩, leads_of_placed placed rfl⟩
  | cont => exact ⟨⟨trivial, trivial⟩, leads_of_placed placed rfl⟩
  | block n s =>
      obtain ⟨body, leave⟩ := placed_stmt (Placed.tail placed)
      have leaves : Leads whole last (b + 3 + s.size) (c.enter n).blocks := leads_of_placed leave rfl
      have size : b + (Stmt.block n s).size = b + 3 + s.size + 1 := by
        simp only [Stmt.size]
        omega
      rw [size] at next
      obtain ⟨along, leads⟩ := Stmt.wired body leaves
      refine ⟨⟨leads, ?_⟩, leads_of_placed placed rfl⟩
      rw [along_append, Stmt.extent_spots]
      exact ⟨along, next, trivial⟩
  | ite e s t =>
      obtain ⟨test, behind⟩ := placed_marked placed
      obtain ⟨body, jump⟩ := placed_stmt behind.tail
      have other : Placed whole (b + e.size + 3 + s.size + 3)
        (t.spots (b + e.size + 3 + s.size + 3) c (scope ++ s.decls)) := jump.tail
      have size : b + (Stmt.ite e s t).size = b + e.size + 3 + s.size + 3 + t.size := by
        simp only [Stmt.size]
        omega
      rw [size] at next
      obtain ⟨alongT, leadsT⟩ := Stmt.wired other next
      obtain ⟨alongS, leadsS⟩ := Stmt.wired body (leads_of_placed jump rfl)
      have tests : Leads whole last (b + e.size) c.blocks := leads_of_placed behind rfl
      obtain ⟨alongE, leadsE⟩ := straight_wired e.straight test tests
      refine ⟨?_, leadsE⟩
      simp only [Stmt.spots, along_append, along_cons, extent_marked, Stmt.extent_spots]
      exact ⟨alongE, ⟨leadsS, leadsT.to⟩, alongS, .inr next.to, alongT⟩
  | «while» e s =>
      have behindOpen := placed.tail
      obtain ⟨test, behindTest⟩ := placed_marked behindOpen
      obtain ⟨body, behindBody⟩ := placed_stmt behindTest.tail
      have close := behindBody.tail
      have size : b + (Stmt.while e s).size = b + 3 + e.size + 3 + s.size + 3 + 3 := by
        simp only [Stmt.size]
        omega
      rw [size] at next
      have tests : Leads whole last (b + 3 + e.size) c.blocks := leads_of_placed behindTest rfl
      have ends : Leads whole last (b + 3 + e.size + 3 + s.size) c.blocks :=
        leads_of_placed behindBody rfl
      obtain ⟨alongS, leadsS⟩ := Stmt.wired body ends
      obtain ⟨alongE, leadsE⟩ := straight_wired e.straight test tests
      have exit : Leads whole last (b + 3 + e.size + 3 + s.size + 3) c.blocks :=
        leads_of_placed close rfl
      have jumpAt : Placed whole (b + 3 + e.size + 3 + s.size) (_ :: [_]) := behindBody
      refine ⟨?_, leads_of_placed placed rfl⟩
      simp only [Stmt.spots, along_append, along_cons, extent_marked, Stmt.extent_spots]
      refine ⟨⟨rfl, leadsE, .inr ⟨exit.to, ?_⟩⟩, alongE, ⟨leadsS, exit.to⟩, alongS,
        .inr leadsE.to, ⟨rfl, next, .inl rfl⟩, trivial⟩
      exact lands_of_placed jumpAt (by omega) rfl
  | «for» cond post s =>
      have behindOpen := placed.tail
      obtain ⟨test, behindTest⟩ := placed_marked behindOpen
      obtain ⟨again, behindPost⟩ := placed_marked behindTest.tail
      rw [codeSize_postCode] at behindPost
      obtain ⟨body, behindBody⟩ := placed_stmt behindPost
      have close := behindBody.tail
      have size : b + (Stmt.for cond post s).size =
          b + 3 + codeSize (optCode cond) + 3 + postSize post + s.size + 3 + 3 := by
        simp only [Stmt.size]
        omega
      rw [size] at next
      have tests : Leads whole last (b + 3 + codeSize (optCode cond)) c.blocks :=
        leads_of_placed behindTest rfl
      have ends : Leads whole last
          (b + 3 + codeSize (optCode cond) + 3 + postSize post + s.size) c.blocks :=
        leads_of_placed behindBody rfl
      obtain ⟨alongS, leadsS⟩ := Stmt.wired body ends
      obtain ⟨alongE, leadsE⟩ := straight_wired (optCode_straight cond) test tests
      obtain ⟨alongP, leadsP, target⟩ := postCode_wired again leadsS leadsE
      have exit : Leads whole last
          (b + 3 + codeSize (optCode cond) + 3 + postSize post + s.size + 3) c.blocks :=
        leads_of_placed close rfl
      have jumpAt : Placed whole
          (b + 3 + codeSize (optCode cond) + 3 + postSize post + s.size) (_ :: [_]) := behindBody
      refine ⟨?_, leads_of_placed placed rfl⟩
      simp only [Stmt.spots, along_append, along_cons, extent_marked, Stmt.extent_spots,
        codeSize_postCode]
      refine ⟨⟨rfl, leadsE, .inr ⟨exit.to, ?_⟩⟩, alongE, ⟨leadsP, exit.to⟩, alongP, alongS, ?_,
        ⟨rfl, next, .inl rfl⟩, trivial⟩
      · exact lands_of_placed jumpAt (by omega) rfl
      · cases pc : postPc (b + 3 + codeSize (optCode cond) + 3) post with
        | none => trivial
        | some t => exact .inr (target t pc)
  | switch e n cs =>
      obtain ⟨test, behindTest⟩ := placed_marked placed
      have enter := behindTest.tail
      obtain ⟨body, behindBody⟩ := placed_cases enter.tail
      have jumpAt : Placed whole (b + e.size + 3 + 3 + cs.size) (_ :: [_]) := behindBody
      have size : b + (Stmt.switch e n cs).size = b + e.size + 3 + 3 + cs.size + 3 + 1 := by
        simp only [Stmt.size]
        omega
      rw [size] at next
      have tests : Leads whole last (b + e.size) c.blocks := leads_of_placed behindTest rfl
      have enters : Leads whole last (b + e.size + 3) c.blocks := leads_of_placed enter rfl
      have jumps : Leads whole last (b + e.size + 3 + 3 + cs.size) (n :: c.blocks) :=
        leads_of_placed jumpAt rfl
      have leaves : Leads whole last (b + e.size + 3 + 3 + cs.size + 3) (n :: c.blocks) :=
        leads_of_placed jumpAt.tail rfl
      obtain ⟨alongE, leadsE⟩ := straight_wired e.straight test tests
      obtain ⟨alongC, leadsC, default⟩ := Cases.wired body jumps
      refine ⟨?_, leadsE⟩
      simp only [Stmt.spots, along_append, along_cons, extent_marked, Cases.extent_spots]
      refine ⟨alongE, ⟨rfl, enters, .inr ⟨next.to, ?_⟩⟩, leadsC, alongC, default (-1) (.inl rfl), next,
        trivial⟩
      -- the jump at the end has no start inside it
      intro k l at_k read
      have inside : k = b + e.size + 3 + 3 + cs.size + 1 := by omega
      rw [inside, lineAt_inside (lineAt_of_placed jumpAt) (by simp) (by simp)] at read
      cases read
  | «try» s v n handler fin =>
      simp only [Stmt.spots, List.append_assoc, marked, List.map_cons, List.map_nil,
        List.cons_append, List.nil_append] at placed ⊢
      obtain ⟨body, thrown⟩ := placed_stmt placed.tail
      have jump := thrown.tail
      have catches := jump.tail
      have rot := catches.tail
      have assign := rot.tail
      have flag := assign.tail
      have jump' := flag.tail
      have enter := jump'.tail
      obtain ⟨handled, leave⟩ := placed_stmt enter.tail
      have finpc : b + 3 + s.size + 6 + 11 + 3 + handler.size + 1 =
          b + 3 + s.size + 6 + 11 + (3 + handler.size + 1) := by omega
      have behindLeave : Placed whole (b + 3 + s.size + 6 + 11 + 3 + handler.size + 1) _ :=
        leave.tail
      rw [finpc] at behindLeave
      obtain ⟨final, again⟩ := placed_stmt behindLeave
      have ends : Leads whole last (b + 3 + s.size) c.blocks := leads_of_placed thrown rfl
      have caught : Leads whole last (b + 3 + s.size + 6) c.blocks := leads_of_placed catches rfl
      have starts : Leads whole last (b + 3 + s.size + 6 + 11) c.blocks := leads_of_placed enter rfl
      have leaves : Leads whole last (b + 3 + s.size + 6 + 11 + 3 + handler.size) (n :: c.blocks) :=
        leads_of_placed leave rfl
      have tests : Leads whole last
          (b + 3 + s.size + 6 + 11 + (3 + handler.size + 1) + fin.size) c.blocks :=
        leads_of_placed again rfl
      have size : b + (Stmt.try s v n handler fin).size =
          b + 3 + s.size + 6 + 11 + (3 + handler.size + 1) + fin.size + 3 := by
        simp only [Stmt.size]
        omega
      rw [size] at next
      obtain ⟨alongF, leadsF⟩ := Stmt.wired final tests
      have afterLeave : Leads whole last (b + 3 + s.size + 6 + 11 + 3 + handler.size + 1) c.blocks := by
        rw [finpc]
        exact leadsF
      obtain ⟨alongH, leadsH⟩ := Stmt.wired handled leaves
      obtain ⟨alongS, leadsS⟩ := Stmt.wired body ends
      refine ⟨?_, leads_of_placed placed rfl⟩
      simp only [along_append, along_cons, Stmt.extent_spots]
      refine ⟨⟨rfl, leadsS, caught.to⟩, alongS, leads_of_placed jump rfl, .inr leadsF.to,
        leads_of_placed rot rfl, leads_of_placed assign rfl, leads_of_placed flag rfl, leads_of_placed jump' rfl,
        .inr leadsF.to, leadsH, alongH, afterLeave, ?_⟩
      change Along _ (b + 3 + s.size + 6 + 11 + 3 + handler.size + 1) _ ∧
        Spot.Wired whole last (b + 3 + s.size + 6 + 11 + 3 + handler.size + 1 + fin.size) _ ∧ True
      rw [finpc]
      exact ⟨alongF, ⟨next, starts.to⟩, trivial⟩

/-- The clauses of a `switch`; the jump to its `default` leads into them. -/
theorem Cases.wired {cs : Cases} {b : Nat} {c : Ctx} {scope : List Local}
    (placed : Placed whole b (cs.spots b c scope))
    (next : Leads whole last (b + cs.size) c.blocks) :
    Along (Spot.Wired whole last) b (cs.spots b c scope) ∧ Leads whole last b c.blocks ∧
      ∀ pc, pc = -1 ∨ LeadsTo whole last pc c.blocks →
        cs.defaultPc b pc = -1 ∨ LeadsTo whole last (cs.defaultPc b pc) c.blocks := by
  cases cs with
  | nil => exact ⟨trivial, next, fun _ h => h⟩
  | case v s rest =>
      simp only [Cases.spots, marked, List.map_cons, List.map_nil, List.map_append,
        List.append_assoc, List.cons_append, List.nil_append] at placed ⊢
      obtain ⟨test, behindTest⟩ := placed_marked placed.tail
      have jump := behindTest.tail
      have at_body : Placed whole (b + 1 + v.size + 1 + 3) _ := jump.tail
      have bodypc : b + 1 + v.size + 1 + 3 = b + 1 + v.size + 4 := by omega
      rw [bodypc] at at_body
      obtain ⟨body, behind⟩ := placed_stmt at_body
      have size : b + (Cases.case v s rest).size = b + 1 + v.size + 4 + s.size + rest.size := by
        simp only [Cases.size]
        omega
      rw [size] at next
      have compares : Leads whole last (b + 1 + v.size) c.blocks := leads_of_placed behindTest rfl
      obtain ⟨alongR, leadsR, default⟩ := Cases.wired behind next
      obtain ⟨alongS, leadsS⟩ := Stmt.wired body leadsR
      obtain ⟨alongV, leadsV⟩ := straight_wired v.straight test compares
      have matched : Leads whole last (b + 1 + v.size + 1 + 3) c.blocks := by
        rw [bodypc]
        exact leadsS
      refine ⟨?_, leads_of_placed placed rfl, default⟩
      refine ⟨leadsV, along_append.mpr ⟨alongV, ?_⟩⟩
      rw [← marked, extent_marked]
      refine ⟨leads_of_placed jump rfl, ⟨matched, leadsR.to⟩, ?_⟩
      change Along _ (b + 1 + v.size + 1 + 3) _
      rw [bodypc, along_append, Stmt.extent_spots]
      exact ⟨alongS, alongR⟩
  | default s rest =>
      obtain ⟨body, behind⟩ := placed_stmt placed.tail
      have size : b + (Cases.default s rest).size = b + 3 + s.size + rest.size := by
        simp only [Cases.size]
        omega
      rw [size] at next
      obtain ⟨alongR, leadsR, default⟩ := Cases.wired behind next
      obtain ⟨alongS, leadsS⟩ := Stmt.wired body leadsR
      refine ⟨?_, leads_of_placed placed rfl, fun pc _ => default _ (.inr leadsS.to)⟩
      simp only [Cases.spots, along_append, along_cons, Stmt.extent_spots]
      exact ⟨.inr leadsR.to, alongS, alongR⟩

end

end

/-- Every instruction of a method is wired; the end of the code is outside of every block. -/
theorem Body.wired (params : List Local) (body : Body) :
    Along (Spot.Wired (body.spots params) .start) 0 (body.spots params) := by
  have placed := Placed.self (body.spots params)
  cases body with
  | empty => trivial
  | method n s =>
      obtain ⟨code, leave⟩ := placed_stmt placed.tail
      have leaves : Leads ((Body.method n s).spots params) .start (0 + 3 + s.size) [n] :=
        leads_of_placed leave rfl
      have ends : Leads ((Body.method n s).spots params) .start (0 + 3 + s.size + 1) [] := by
        refine ⟨.start, .inr ⟨?_, rfl⟩, rfl⟩
        simp [Body.spots, Nat.add_assoc]
      obtain ⟨along, leads⟩ := Stmt.wired code leaves
      refine ⟨leads, ?_⟩
      rw [along_append, Stmt.extent_spots]
      exact ⟨along, ends, trivial⟩
  | inits es =>
      rw [Body.spots, marked, List.map_append] at placed
      obtain ⟨code, ret⟩ := placed_marked placed
      have returns : Leads ((Body.inits es).spots params) .start (0 + codeSize es.code) [] := by
        rw [Body.spots, marked, List.map_append]
        exact leads_of_placed ret rfl
      have along : Along (Spot.Wired ((Body.inits es).spots params) .start) 0
          (marked .start [] es.code) := by
        refine (straight_wired es.straight ?_ returns).1
        rw [Body.spots, marked, List.map_append]
        exact code
      rw [show (Body.inits es).spots params = marked .start [] es.code ++
        [⟨.emit0 .vret, .start, []⟩] by simp [Body.spots, marked]] at along ⊢
      exact along_append.mpr ⟨along, trivial, trivial⟩

/-- A method starts outside of every block. -/
theorem Body.leads_zero (params : List Local) (body : Body) :
    Leads (body.spots params) .start 0 [] := by
  cases body with
  | empty => exact ⟨.start, pointAt_end _ _, rfl⟩
  | method n s => exact leads_of_placed (Placed.self _) rfl
  | inits es =>
      have placed := Placed.self ((Body.inits es).spots params)
      rw [Body.spots] at placed ⊢
      cases code : es.code ++ [Instr.emit0 .vret] with
      | nil => simp at code
      | cons i is =>
          rw [code] at placed
          exact leads_of_placed placed rfl

end Jspp.Compiler
