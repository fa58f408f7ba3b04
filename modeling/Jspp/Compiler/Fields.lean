/-
# Compiler.Fields -- the fields that compiled code names

A field operand of compiled code is the offset of a field of the class the code
was compiled in, in the mode of that field.  Only `OP_LVALUE` has one.

* `Instr.FieldIn`, `FieldsIn`: the field operands are offsets of fields.
* `MethodOk.fieldsIn`: those of a compiled method.
-/
import Jspp.Compiler.Accepts

namespace Jspp.Compiler

open Jspp.Kernel

set_option autoImplicit false

/-- A field operand is the offset of a field of that mode. -/
def Instr.FieldIn (fields : List Vardef) (i : Instr) : Prop :=
  ∀ mode offset, i = .emit1 .lvalue mode (some offset) →
    mode = .block ∨ ∃ vdp ∈ fields, vdp.srcmode = mode ∧ (vdp.offset : Int) = offset

/-- All instructions of a list. -/
def FieldsIn (fields : List Vardef) (is : List Instr) : Prop := ∀ i ∈ is, i.FieldIn fields

section

variable {fields : List Vardef} {scope : List Local} {cdata : List Variant}

@[simp] theorem fieldsIn_nil : FieldsIn fields [] := fun _ mem => absurd mem List.not_mem_nil

@[simp] theorem fieldsIn_cons {i : Instr} {is : List Instr} :
    FieldsIn fields (i :: is) ↔ i.FieldIn fields ∧ FieldsIn fields is :=
  List.forall_mem_cons

/-- Lists are looked at one after the other. -/
@[simp] theorem fieldsIn_append {is js : List Instr} :
    FieldsIn fields (is ++ js) ↔ FieldsIn fields is ∧ FieldsIn fields js :=
  List.forall_mem_append

/-- An operand of another mode is no field. -/
theorem fieldIn_of_ne {i : Instr} (ne : i.op ≠ .lvalue) : i.FieldIn fields := by
  rintro mode offset rfl
  exact absurd rfl ne

@[simp] theorem fieldIn_emit0 (op : OpCode) : (Instr.emit0 op).FieldIn fields :=
  fun _ _ eq => Instr.noConfusion eq

@[simp] theorem fieldIn_emit2 (op : OpCode) (mode mode2 : ArgSource) (arg1 arg2 : Int) :
    (Instr.emit2 op mode mode2 arg1 arg2).FieldIn fields :=
  fun _ _ eq => Instr.noConfusion eq

/-- The target of a jump is no field. -/
@[simp] theorem fieldIn_jmp (target : Option Int) : (Instr.jmp target).FieldIn fields :=
  fieldIn_of_ne OpCode.noConfusion

theorem fieldIn_emit1 {op : OpCode} (ne : op ≠ .lvalue) (mode : ArgSource) (arg : Option Int) :
    (Instr.emit1 op mode arg).FieldIn fields :=
  fieldIn_of_ne ne

theorem fieldIn_im {op : OpCode} (ne : op ≠ .lvalue) (arg : Int) :
    (Instr.im op arg).FieldIn fields :=
  fieldIn_of_ne ne

/-- A variable of the method is no field either. -/
theorem fieldIn_slot (offset : Nat) :
    (Instr.emit1 .lvalue .block (some ↑offset)).FieldIn fields := by
  intro mode arg eq
  cases eq
  exact .inl rfl

/-- A field of the class is one of its slots. -/
theorem FieldOf.fieldIn {mode : ArgSource} {offset : Nat} (h : FieldOf fields scope mode offset) :
    (Instr.emit1 .lvalue mode (some ↑offset)).FieldIn fields := by
  intro mode' arg eq
  cases eq
  rcases h with ⟨block, _⟩ | ⟨vdp, mem, mode, at_vdp⟩
  · exact .inl block
  · exact .inr ⟨vdp, mem, mode, congrArg Nat.cast at_vdp⟩

mutual

/-- An expression, by its tree. -/
theorem Expr.fieldsIn {e : Expr} (h : e.Resolved fields scope cdata) : FieldsIn fields e.code := by
  cases e with
  | push => simp [Expr.code, fieldIn_emit1]
  | null | this | sderef => simp [Expr.code]
  | lvalue mode offset => simpa [Expr.code] using FieldOf.fieldIn h
  | deref recv name => simp [Expr.code, Expr.fieldsIn h.1, fieldIn_emit1]
  | call base recv name args sig => simp [Expr.code, Expr.fieldsIn h.1, Args.fieldsIn h.2.1]
  | scall cls name args sig => simp [Expr.code, Args.fieldsIn h.1, fieldIn_emit1]
  | new cls clsidx args sig => simp [Expr.code, Args.fieldsIn h.1, fieldIn_emit1]
  | array clsidx addidx elems => simp [Expr.code, Args.add_fieldsIn h.1, fieldIn_emit1]
  | unary op e | drop e => simpa [Expr.code] using Expr.fieldsIn (e := e) h
  | binary op l r | early op l r | assign l r | assignOp op l r =>
      simp [Expr.code, Expr.fieldsIn h.1, Expr.fieldsIn h.2]
  | init mode offset r => simp [Expr.code, FieldOf.fieldIn h.1, Expr.fieldsIn h.2]

/-- The arguments of a call. -/
theorem Args.fieldsIn {args : Args} (h : args.Resolved fields scope cdata) :
    FieldsIn fields args.code := by
  cases args with
  | nil => exact fieldsIn_nil
  | cons e rest => exact fieldsIn_append.mpr ⟨Expr.fieldsIn h.1, Args.fieldsIn h.2⟩

/-- The elements of an array. -/
theorem Args.add_fieldsIn {args : Args} {addidx : Nat} (h : args.Resolved fields scope cdata) :
    FieldsIn fields (args.addCode addidx) := by
  cases args with
  | nil => exact fieldsIn_nil
  | cons e rest => simp [Args.addCode, Expr.fieldsIn h.1, Args.add_fieldsIn h.2]

end

/-- An expression that may be missing. -/
theorem optCode_fieldsIn {o : Option Expr} (h : ∀ e ∈ o, e.Resolved fields scope cdata) :
    FieldsIn fields (optCode o) := by
  cases o with
  | none => exact fieldsIn_nil
  | some e => exact Expr.fieldsIn (h e rfl)

theorem postCode_fieldsIn {o : Option Expr} (h : ∀ e ∈ o, e.Resolved fields scope cdata)
    (eval b : Nat) : FieldsIn fields (postCode eval b o) := by
  cases o with
  | none => exact fieldsIn_nil
  | some e => simp [postCode, Expr.fieldsIn (h e rfl)]

end

section

variable {fields : List Vardef} {cdata : List Variant}

mutual

/-- A statement, by its tree. -/
theorem Stmt.fieldsIn {scope : List Local} {s : Stmt} (h : s.Resolved fields scope cdata) (b : Nat) :
    FieldsIn fields (s.code b) := by
  have im : ∀ op, op ≠ .lvalue → ∀ arg, (Instr.im op arg).FieldIn fields :=
    fun _ ne => fieldIn_im ne
  cases s with
  | skip | decl => exact fieldsIn_nil
  | line | vret | brk | cont => simp [Stmt.code, im]
  | seq s t => exact fieldsIn_append.mpr ⟨Stmt.fieldsIn h.1 b, Stmt.fieldsIn h.2 _⟩
  | expr e => exact Expr.fieldsIn h
  | ret e | throw e => simpa [Stmt.code] using Expr.fieldsIn (e := e) h
  | block n s => simp [Stmt.code, Stmt.fieldsIn h.2, im]
  | ite e s t => simp [Stmt.code, Expr.fieldsIn h.1, Stmt.fieldsIn h.2.1, Stmt.fieldsIn h.2.2, im]
  | «while» e s => simp [Stmt.code, Expr.fieldsIn h.1, Stmt.fieldsIn h.2, im]
  | «for» cond post s =>
      simp [Stmt.code, optCode_fieldsIn h.1, postCode_fieldsIn h.2.1, Stmt.fieldsIn h.2.2, im]
  | switch e n cs => simp [Stmt.code, Expr.fieldsIn h.1, Cases.fieldsIn h.2.2, im]
  | «try» s v n handler fin =>
      obtain ⟨body, _, _, handled, final⟩ := h
      simp [Stmt.code, Stmt.fieldsIn body, Stmt.fieldsIn handled, Stmt.fieldsIn final,
        fieldIn_slot, im]

/-- The clauses of a `switch`. -/
theorem Cases.fieldsIn {scope : List Local} {cs : Cases} (h : cs.Resolved fields scope cdata)
    (b : Nat) : FieldsIn fields (cs.code b) := by
  cases cs with
  | nil => exact fieldsIn_nil
  | case v s rest =>
      simp [Cases.code, Expr.fieldsIn h.1, Stmt.fieldsIn h.2.1, Cases.fieldsIn h.2.2, fieldIn_im]
  | default s rest => simp [Cases.code, Stmt.fieldsIn h.1, Cases.fieldsIn h.2]

end

/-- The field operands of a method are offsets of the fields of its class. -/
theorem MethodOk.fieldsIn {mp : JsMethod} (ok : MethodOk fields cdata mp) :
    FieldsIn fields mp.body.code := by
  have resolved := ok.resolved
  cases body : mp.body with
  | empty => exact fieldsIn_nil
  | method n s =>
      rw [body] at resolved
      simp [Body.code, Stmt.fieldsIn resolved.2, fieldIn_im]
  | inits es =>
      rw [body] at resolved
      simpa [Body.code] using Args.fieldsIn resolved

end

end Jspp.Compiler
