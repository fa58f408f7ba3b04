/-
# Compiler.Slots -- the local operands of a method

Every `MODE_BLOCK` operand is the offset of a variable in scope, the variables
of a scope are numbered from 0 on, and the blocks around an instruction reserve
at least as many slots as there are variables in scope.

* `Spot.Slotted`, `Stmt.slotted`, `Body.slotted`.
-/
import Jspp.Compiler.Decode
import Jspp.Compiler.Wired

namespace Jspp.Compiler

open Jspp.Kernel

set_option autoImplicit false

/-- No field of a class is a local. -/
def NoBlockField (fields : List Vardef) : Prop := ∀ vdp ∈ fields, vdp.srcmode ≠ .block

theorem Laid.noBlock {fields : List Vardef} {statics insts : Nat}
    (laid : Laid fields statics insts) : NoBlockField fields := by
  intro vdp mem
  rw [laid.modes vdp mem]
  split <;> decide

/-! ## Expressions -/

/-- A local operand is the offset of a variable of the scope. -/
def Instr.SlotIn (scope : List Local) (i : Instr) : Prop :=
  ∀ offset, i = .emit1 .lvalue .block (some offset) → ∃ v ∈ scope, (v.offset : Int) = offset

def SlotsIn (scope : List Local) (is : List Instr) : Prop := ∀ i ∈ is, i.SlotIn scope

section

variable {scope : List Local}

@[simp] theorem slotsIn_nil : SlotsIn scope [] := fun _ mem => absurd mem List.not_mem_nil

@[simp] theorem slotsIn_cons {i : Instr} {is : List Instr} :
    SlotsIn scope (i :: is) ↔ i.SlotIn scope ∧ SlotsIn scope is :=
  List.forall_mem_cons

@[simp] theorem slotsIn_append {is js : List Instr} :
    SlotsIn scope (is ++ js) ↔ SlotsIn scope is ∧ SlotsIn scope js :=
  List.forall_mem_append

@[simp] theorem slotIn_emit0 (op : OpCode) : (Instr.emit0 op).SlotIn scope :=
  fun _ eq => Instr.noConfusion eq

@[simp] theorem slotIn_emit2 (op : OpCode) (mode mode2 : ArgSource) (arg1 arg2 : Int) :
    (Instr.emit2 op mode mode2 arg1 arg2).SlotIn scope :=
  fun _ eq => Instr.noConfusion eq

theorem slotIn_emit1 {op : OpCode} (ne : op ≠ .lvalue) (mode : ArgSource) (arg : Option Int) :
    (Instr.emit1 op mode arg).SlotIn scope := by
  intro offset eq
  cases eq
  exact absurd rfl ne

theorem slotIn_im {op : OpCode} (ne : op ≠ .lvalue) (arg : Int) :
    (Instr.im op arg).SlotIn scope :=
  slotIn_emit1 ne .im (some arg)

@[simp] theorem slotIn_jmp (target : Option Int) : (Instr.jmp target).SlotIn scope :=
  slotIn_emit1 (show OpCode.jmp ≠ .lvalue by decide) .im target

theorem FieldOf.slotIn {fields : List Vardef} (plain : NoBlockField fields) {mode : ArgSource}
    {offset : Nat} (h : FieldOf fields scope mode offset) :
    (Instr.emit1 .lvalue mode (some ↑offset)).SlotIn scope := by
  intro arg eq
  cases eq
  rcases h with ⟨_, v, mem, rfl⟩ | ⟨vdp, mem, mode, _⟩
  · exact ⟨v, mem, rfl⟩
  · exact absurd mode (plain vdp mem)

end

section

variable {fields : List Vardef} {scope : List Local} {cdata : List Variant}

mutual

theorem Expr.slotsIn (plain : NoBlockField fields) {e : Expr} (h : e.Resolved fields scope cdata) : SlotsIn scope e.code := by
  cases e with
  | push => simp [Expr.code, slotIn_emit1]
  | null | this | sderef => simp [Expr.code]
  | lvalue mode offset => simpa [Expr.code] using FieldOf.slotIn plain h
  | deref recv name => simp [Expr.code, Expr.slotsIn plain h.1, slotIn_emit1]
  | call base recv name args sig => simp [Expr.code, Expr.slotsIn plain h.1, Args.slotsIn plain h.2.1]
  | scall cls name args sig => simp [Expr.code, Args.slotsIn plain h.1, slotIn_emit1]
  | new cls clsidx args sig => simp [Expr.code, Args.slotsIn plain h.1, slotIn_emit1]
  | array clsidx addidx elems => simp [Expr.code, Args.add_slotsIn plain h.1, slotIn_emit1]
  | unary op e | drop e => simpa [Expr.code] using Expr.slotsIn (e := e) plain h
  | binary op l r | early op l r | assign l r | assignOp op l r =>
      simp [Expr.code, Expr.slotsIn plain h.1, Expr.slotsIn plain h.2]
  | init mode offset r => simp [Expr.code, FieldOf.slotIn plain h.1, Expr.slotsIn plain h.2]

theorem Args.slotsIn (plain : NoBlockField fields) {args : Args}
    (h : args.Resolved fields scope cdata) : SlotsIn scope args.code := by
  cases args with
  | nil => exact slotsIn_nil
  | cons e rest => exact slotsIn_append.mpr ⟨Expr.slotsIn plain h.1, Args.slotsIn plain h.2⟩

theorem Args.add_slotsIn (plain : NoBlockField fields) {args : Args} {addidx : Nat}
    (h : args.Resolved fields scope cdata) : SlotsIn scope (args.addCode addidx) := by
  cases args with
  | nil => exact slotsIn_nil
  | cons e rest => simp [Args.addCode, Expr.slotsIn plain h.1, Args.add_slotsIn plain h.2]

end

theorem optCode_slotsIn (plain : NoBlockField fields) {o : Option Expr}
    (h : ∀ e ∈ o, e.Resolved fields scope cdata) : SlotsIn scope (optCode o) := by
  cases o with
  | none => exact slotsIn_nil
  | some e => exact Expr.slotsIn plain (h e rfl)

theorem postCode_slotsIn (plain : NoBlockField fields) {o : Option Expr}
    (h : ∀ e ∈ o, e.Resolved fields scope cdata) (eval b : Nat) : SlotsIn scope (postCode eval b o) := by
  cases o with
  | none => exact slotsIn_nil
  | some e =>
      have code := Expr.slotsIn plain (h e rfl)
      simp [postCode, code, Instr.jmp, slotIn_emit1]

end

/-! ## Statements -/

mutual

/-- What a statement declares goes on with the numbers of its scope. -/
theorem Stmt.Resolved.numbered {fields : List Vardef} {scope : List Local} {cdata : List Variant}
    {s : Stmt} (h : s.Resolved fields scope cdata) (numbered : Numbered scope) :
    Numbered (scope ++ s.decls) := by
  cases s with
  | decl v =>
      obtain ⟨name, offset⟩ := v
      cases h
      exact numbered.snoc name
  | seq s t =>
      rw [Stmt.decls, ← List.append_assoc]
      exact Stmt.Resolved.numbered h.2 (Stmt.Resolved.numbered h.1 numbered)
  | ite e s t =>
      rw [Stmt.decls, ← List.append_assoc]
      exact Stmt.Resolved.numbered h.2.2 (Stmt.Resolved.numbered h.2.1 numbered)
  | «while» e s =>
      rw [Stmt.decls]
      exact Stmt.Resolved.numbered h.2 numbered
  | «for» cond post s =>
      rw [Stmt.decls]
      exact Stmt.Resolved.numbered h.2.2 numbered
  | «try» s v n handler fin =>
      obtain ⟨body, slot, _, _, final⟩ := h
      obtain ⟨name, offset⟩ := v
      cases slot
      have noted := (Stmt.Resolved.numbered body numbered).snoc name
      have all := Stmt.Resolved.numbered final noted
      simpa [Stmt.decls] using all
  | skip | line | expr | ret | vret | brk | cont | throw | block | switch =>
      simpa [Stmt.decls] using numbered

theorem Cases.Resolved.numbered {fields : List Vardef} {scope : List Local} {cdata : List Variant}
    {cs : Cases} (h : cs.Resolved fields scope cdata) (numbered : Numbered scope) :
    Numbered (scope ++ cs.decls) := by
  cases cs with
  | nil => simpa [Cases.decls] using numbered
  | case v s rest =>
      rw [Cases.decls, ← List.append_assoc]
      exact Cases.Resolved.numbered h.2.2 (Stmt.Resolved.numbered h.2.1 numbered)
  | default s rest =>
      rw [Cases.decls, ← List.append_assoc]
      exact Cases.Resolved.numbered h.2 (Stmt.Resolved.numbered h.1 numbered)

end

/-- The scope of a spot has distinct offsets, and the blocks around a local
operand have a slot for it. -/
structure Spot.Slotted (l : Spot) : Prop where
  numbered : Numbered l.scope
  room : ∀ offset, l.instr = .emit1 .lvalue .block (some offset) →
    ∃ v ∈ l.scope, (v.offset : Int) = offset ∧ v.offset < l.ctx.blocks.sum

def SlottedAll (ls : List Spot) : Prop := ∀ l ∈ ls, l.Slotted

@[simp] theorem slottedAll_nil : SlottedAll [] := fun _ mem => absurd mem List.not_mem_nil

@[simp] theorem slottedAll_cons {l : Spot} {ls : List Spot} :
    SlottedAll (l :: ls) ↔ l.Slotted ∧ SlottedAll ls :=
  List.forall_mem_cons

@[simp] theorem slottedAll_append {xs ys : List Spot} :
    SlottedAll (xs ++ ys) ↔ SlottedAll xs ∧ SlottedAll ys :=
  List.forall_mem_append

/-- Instructions in blocks with room for the whole scope. -/
theorem marked_slotted {c : Ctx} {scope : List Local} {is : List Instr} (numbered : Numbered scope)
    (room : scope.length ≤ c.blocks.sum) (slots : SlotsIn scope is) :
    SlottedAll (marked c scope is) := by
  intro l mem
  obtain ⟨i, inCode, rfl⟩ := List.mem_map.mp mem
  refine ⟨numbered, fun offset eq => ?_⟩
  obtain ⟨v, inScope, at_v⟩ := slots i inCode offset eq
  exact ⟨v, inScope, at_v, Nat.lt_of_lt_of_le (numbered.lt inScope) room⟩

theorem Spot.Slotted.of_ne {i : Instr} {c : Ctx} {scope : List Local} (numbered : Numbered scope)
    (ne : i.op ≠ .lvalue) : Spot.Slotted ⟨i, c, scope⟩ := by
  refine ⟨numbered, fun offset eq => absurd ?_ ne⟩
  rw [show i = _ from eq]
  rfl

section

variable {fields : List Vardef} {cdata : List Variant}

mutual

/-- The local operands of a statement have slots, where the blocks around it have
room for the scope and what the statement declares. -/
theorem Stmt.slotted (plain : NoBlockField fields) {s : Stmt} {b : Nat} {c : Ctx}
    {scope : List Local} (h : s.Resolved fields scope cdata) (numbered : Numbered scope)
    (room : scope.length + s.decls.length ≤ c.blocks.sum) : SlottedAll (s.spots b c scope) := by
  have here : scope.length ≤ c.blocks.sum := by omega
  cases s with
  | skip | decl => exact slottedAll_nil
  | seq s t =>
      simp only [Stmt.decls, List.length_append] at room
      refine slottedAll_append.mpr ⟨Stmt.slotted plain h.1 numbered (by omega), ?_⟩
      exact Stmt.slotted plain h.2 (h.1.numbered numbered) (by simp only [List.length_append]; omega)
  | line | brk | cont =>
      simp only [Stmt.spots, slottedAll_cons, slottedAll_nil, and_true]
      exact .of_ne numbered nofun
  | expr e => exact marked_slotted numbered here (Expr.slotsIn plain h)
  | ret e | throw e =>
      simp only [Stmt.spots, slottedAll_cons, slottedAll_append, slottedAll_nil, and_true]
      exact ⟨marked_slotted numbered here (Expr.slotsIn (e := e) plain h), .of_ne numbered nofun⟩
  | vret =>
      simp only [Stmt.spots, slottedAll_cons, slottedAll_nil, and_true]
      exact ⟨.of_ne numbered nofun, .of_ne numbered nofun⟩
  | block n s =>
      obtain ⟨rfl, body⟩ := h
      simp only [Stmt.spots, slottedAll_cons, slottedAll_append, slottedAll_nil, and_true]
      refine ⟨.of_ne numbered nofun, ?_, .of_ne (body.numbered numbered) nofun⟩
      refine Stmt.slotted plain body numbered ?_
      simp only [Ctx.enter, List.sum_cons]
      omega
  | ite e s t =>
      obtain ⟨test, first, second⟩ := h
      have after := first.numbered numbered
      simp only [Stmt.decls, List.length_append] at room
      simp only [Stmt.spots, slottedAll_cons, slottedAll_append]
      refine ⟨marked_slotted numbered here (Expr.slotsIn plain test), .of_ne numbered nofun,
        Stmt.slotted plain first numbered (by omega), .of_ne after nofun,
        Stmt.slotted plain second after ?_⟩
      simp only [List.length_append]
      omega
  | «while» e s =>
      obtain ⟨test, body⟩ := h
      simp only [Stmt.decls] at room
      simp only [Stmt.spots, slottedAll_cons, slottedAll_append, slottedAll_nil, and_true]
      exact ⟨.of_ne numbered nofun, marked_slotted numbered here (Expr.slotsIn plain test),
        .of_ne numbered nofun, Stmt.slotted plain body numbered room, .of_ne numbered nofun,
        .of_ne numbered nofun⟩
  | «for» cond post s =>
      obtain ⟨test, again, body⟩ := h
      simp only [Stmt.decls] at room
      simp only [Stmt.spots, slottedAll_cons, slottedAll_append, slottedAll_nil, and_true]
      exact ⟨.of_ne numbered nofun, marked_slotted numbered here (optCode_slotsIn plain test),
        .of_ne numbered nofun, marked_slotted numbered here (postCode_slotsIn plain again _ _),
        Stmt.slotted plain body numbered room, .of_ne numbered nofun, .of_ne numbered nofun⟩
  | switch e n cs =>
      obtain ⟨test, rfl, body⟩ := h
      simp only [Stmt.spots, slottedAll_cons, slottedAll_append, slottedAll_nil, and_true]
      refine ⟨marked_slotted numbered here (Expr.slotsIn plain test), .of_ne numbered nofun,
        .of_ne numbered nofun, Cases.slotted plain body numbered ?_, .of_ne numbered nofun,
        .of_ne numbered nofun⟩
      simp only [Ctx.enter, Ctx.inLoop, List.sum_cons]
      omega
  | «try» s v n handler fin =>
      obtain ⟨body, slot, rfl, handled, final⟩ := h
      have after := body.numbered numbered
      have caught : Numbered (scope ++ s.decls ++ [v]) := by
        obtain ⟨name, offset⟩ := v
        cases slot
        exact after.snoc name
      have slotOfV : (Instr.emit1 .lvalue .block (some ↑v.offset)).SlotIn
          (scope ++ s.decls ++ [v]) := by
        intro offset eq
        cases eq
        exact ⟨v, by simp, rfl⟩
      simp only [Stmt.decls, List.length_append, List.length_cons] at room
      simp only [Stmt.spots, slottedAll_cons, slottedAll_append, slottedAll_nil, and_true]
      refine ⟨.of_ne numbered nofun, ⟨⟨Stmt.slotted plain body numbered ?_, ?_⟩, ?_⟩,
        ?_, .of_ne caught nofun, ?_, .of_ne (final.numbered caught) nofun⟩
      · simp only [Ctx.inTry]
        omega
      · refine marked_slotted after (by simp only [List.length_append]; omega) ?_
        simp [slotIn_im]
      · refine marked_slotted caught ?_ ?_
        · simp only [List.length_append, List.length_singleton]
          omega
        · simp only [slotsIn_cons, slotsIn_nil, slotIn_emit0, slotIn_jmp, and_true, true_and]
          exact ⟨slotOfV, slotIn_im (by decide) 1, slotIn_im (by decide) _⟩
      · refine Stmt.slotted plain handled caught ?_
        simp only [Ctx.enter, List.sum_cons, List.length_append, List.length_singleton]
        omega
      · refine Stmt.slotted plain final caught ?_
        simp only [List.length_append, List.length_singleton]
        omega

theorem Cases.slotted (plain : NoBlockField fields) {cs : Cases} {b : Nat} {c : Ctx}
    {scope : List Local} (h : cs.Resolved fields scope cdata) (numbered : Numbered scope)
    (room : scope.length + cs.decls.length ≤ c.blocks.sum) : SlottedAll (cs.spots b c scope) := by
  have here : scope.length ≤ c.blocks.sum := by omega
  cases cs with
  | nil => exact slottedAll_nil
  | case v s rest =>
      obtain ⟨test, body, others⟩ := h
      have after := body.numbered numbered
      simp only [Cases.decls, List.length_append] at room
      have code := Expr.slotsIn plain test
      simp only [Cases.spots, slottedAll_append]
      refine ⟨marked_slotted numbered here ?_, Stmt.slotted plain body numbered (by omega),
        Cases.slotted plain others after ?_⟩
      · simp [code, slotIn_im]
      · simp only [List.length_append]
        omega
  | default s rest =>
      obtain ⟨body, others⟩ := h
      have after := body.numbered numbered
      simp only [Cases.decls, List.length_append] at room
      simp only [Cases.spots, slottedAll_cons, slottedAll_append]
      refine ⟨.of_ne numbered nofun, Stmt.slotted plain body numbered (by omega),
        Cases.slotted plain others after ?_⟩
      simp only [List.length_append]
      omega

end

/-- The local operands of a method have slots in its blocks. -/
theorem MethodOk.slotted (plain : NoBlockField fields) {mp : JsMethod}
    (ok : MethodOk fields cdata mp) : SlottedAll (mp.body.spots mp.params) := by
  have resolved := ok.resolved
  cases body : mp.body with
  | empty => exact slottedAll_nil
  | method n s =>
      rw [body] at resolved
      obtain ⟨rfl, code⟩ := resolved
      have numbered := mp.params_numbered
      simp only [Body.spots, slottedAll_cons, slottedAll_append, slottedAll_nil, and_true]
      refine ⟨.of_ne numbered OpCode.noConfusion, Stmt.slotted plain code numbered ?_,
        .of_ne (code.numbered numbered) OpCode.noConfusion⟩
      simp [Ctx.enter, Ctx.start]
  | inits es =>
      rw [body] at resolved
      refine marked_slotted rfl (Nat.zero_le _) ?_
      simp [Args.slotsIn plain resolved]

end

end Jspp.Compiler
