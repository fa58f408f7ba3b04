/-
# Compiler.Decode -- reading a method's code back

Decoding from index 0 visits the instructions that were emitted, one behind the
other, and ends at the end of the code.  What the operands in `MODE_CONST` are
indices of comes with `Resolved`: the constant table of the program, and a text
where the instruction reads one.

* `decodeCode_cells`: decoding cells gives the instructions they were written for.
* `Stmt.constsOk`, `Expr.constsOk`: the constants a tree's code names.
* `compiled_code_decodes`: both, for the methods of an accepted text.
-/
import Jspp.Compiler.Accepts

namespace Jspp.Compiler

open Jspp.Kernel

set_option autoImplicit false

/-! ## Decoding -/

/-- The instructions from `pc` on, as `_interp` reads them, down to the end of the code. -/
def decodeFrom : Nat → List Cell → Nat → Option (List Instr)
  | 0, _, _ => none
  | n + 1, code, pc =>
      if pc = code.length then some []
      else
        (fetchAt code pc).bind fun i => (decodeFrom n code (pc + i.size)).map fun is => i :: is

/-- `mp->pc` is the length of the code, and a visit takes a cell at least. -/
def decodeCode (code : List Cell) : Option (List Instr) := decodeFrom (code.length + 1) code 0

/-- The opcode words of a code: what `_emit` wrote, in its order. -/
def opcodeWords (code : List Cell) : List Nat :=
  code.filterMap fun
    | .word w => some w
    | _ => none

/-- The word `_emit` writes for an instruction. -/
def Instr.word : Instr → Nat
  | .emit0 op => encodeOp op 0 .class .class
  | .emit1 op mode _ => encodeOp op 1 mode .class
  | .emit2 op mode mode2 _ _ => encodeOp op 2 mode mode2

theorem opcodeWords_cells (is : List Instr) : opcodeWords (cells is) = is.map Instr.word := by
  induction is with
  | nil => rfl
  | cons i is ih =>
      rw [cells_cons, opcodeWords, List.filterMap_append, List.map_cons, ← ih]
      cases i <;> rfl

theorem decodeFrom_cells (pre is : List Instr) (n : Nat) (room : is.length < n) :
    decodeFrom n (cells (pre ++ is)) (codeSize pre) = some is := by
  induction is generalizing pre n with
  | nil =>
      obtain ⟨m, rfl⟩ := Nat.exists_eq_succ_of_ne_zero (Nat.ne_of_gt room)
      simp [decodeFrom]
  | cons i is ih =>
      obtain ⟨m, rfl⟩ := Nat.exists_eq_succ_of_ne_zero (show n ≠ 0 by simp at room; omega)
      have pos := i.size_pos
      have inside : codeSize pre ≠ (cells (pre ++ i :: is)).length := by
        rw [length_cells_list, codeSize_append, codeSize_cons]
        omega
      have read : fetchAt (cells (pre ++ i :: is)) (codeSize pre) = some i := by
        have at_pre := fetchAt_cells (cells pre) (cells is) i
        rw [length_cells_list] at at_pre
        simpa using at_pre
      have rest := ih (pre ++ [i]) m (by simp at room; omega)
      rw [decodeFrom, if_neg inside, read]
      simp only [Option.bind_some]
      rw [show pre ++ i :: is = pre ++ [i] ++ is by simp,
        show codeSize pre + i.size = codeSize (pre ++ [i]) by simp, rest]
      rfl

theorem length_le_codeSize (is : List Instr) : is.length ≤ codeSize is := by
  induction is with
  | nil => exact Nat.le_refl _
  | cons i is ih =>
      have pos := i.size_pos
      rw [List.length_cons, codeSize_cons]
      omega

/-- Decoding inverts emitting. -/
theorem decodeCode_cells (is : List Instr) : decodeCode (cells is) = some is := by
  have room := length_le_codeSize is
  exact decodeFrom_cells [] is _ (by rw [length_cells_list]; omega)

/-! ## Constants -/

/-- The instructions whose first operand is the index of a text. -/
def OpCode.readsText : OpCode → Bool
  | .new | .construct | .call | .basecall | .scall | .deref | .sderef => true
  | _ => false

/-- An operand in `MODE_CONST` is an index of the table, and a text if `text` is set. -/
def ConstAt (cdata : List Variant) (text : Bool) (mode : ArgSource) (arg : Int) : Prop :=
  (mode = .const → ∃ idx : Nat, arg = idx ∧ idx < cdata.length) ∧
    (text = true → mode = .const ∧ ∃ (idx : Nat) (t : List Char), arg = idx ∧ TextAt cdata idx t)

def Instr.ConstsOk (cdata : List Variant) : Instr → Prop
  | .emit0 op => op.readsText = false
  | .emit1 op mode none => mode ≠ .const ∧ op.readsText = false
  | .emit1 op mode (some arg) => ConstAt cdata op.readsText mode arg
  | .emit2 op mode mode2 arg1 arg2 =>
      ConstAt cdata op.readsText mode arg1 ∧ ConstAt cdata false mode2 arg2

theorem TextAt.lt {cdata : List Variant} {idx : Nat} {text : List Char}
    (h : TextAt cdata idx text) : idx < cdata.length := by
  by_contra ge
  simp [TextAt, List.getElem?_eq_none (Nat.le_of_not_lt ge)] at h

theorem ConstAt.of_text {cdata : List Variant} {idx : Nat} {text : List Char} {b : Bool}
    (h : TextAt cdata idx text) : ConstAt cdata b .const idx :=
  ⟨fun _ => ⟨idx, rfl, h.lt⟩, fun _ => ⟨rfl, idx, text, rfl, h⟩⟩

theorem ConstAt.of_ne {cdata : List Variant} {mode : ArgSource} {arg : Int} (ne : mode ≠ .const) :
    ConstAt cdata false mode arg :=
  ⟨fun eq => absurd eq ne, nofun⟩

/-- Instructions whose operands are all immediate name no constant. -/
def ConstsOkAll (cdata : List Variant) (is : List Instr) : Prop := ∀ i ∈ is, i.ConstsOk cdata

section

variable {cdata : List Variant}

@[simp] theorem constsOkAll_nil : ConstsOkAll cdata [] := by
  intro i mem
  cases mem

@[simp] theorem constsOkAll_cons {i : Instr} {is : List Instr} :
    ConstsOkAll cdata (i :: is) ↔ i.ConstsOk cdata ∧ ConstsOkAll cdata is := by
  simp [ConstsOkAll]

@[simp] theorem constsOkAll_append {is js : List Instr} :
    ConstsOkAll cdata (is ++ js) ↔ ConstsOkAll cdata is ∧ ConstsOkAll cdata js := by
  simp [ConstsOkAll, or_imp, forall_and]

@[simp] theorem constsOk_emit0 (op : OpCode) :
    (Instr.emit0 op).ConstsOk cdata ↔ op.readsText = false := Iff.rfl

@[simp] theorem constsOk_im (op : OpCode) (arg : Int) :
    (Instr.im op arg).ConstsOk cdata ↔ op.readsText = false := by
  rw [Instr.im, Instr.ConstsOk]
  constructor
  · intro h
    by_contra text
    exact absurd (h.2 (by simpa using text)).1 (by decide)
  · intro plain
    rw [plain]
    exact .of_ne (by decide)

@[simp] theorem constsOk_jmp (target : Option Int) : (Instr.jmp target).ConstsOk cdata := by
  cases target with
  | none => exact ⟨by decide, rfl⟩
  | some arg => exact .of_ne (by decide)

@[simp] theorem UnOp.plain (op : UnOp) : op.op.readsText = false := by
  cases op <;> rfl

@[simp] theorem BinOp.plain (op : BinOp) : op.op.readsText = false := by
  cases op <;> rfl

/-- No field of a class is a constant. -/
def NoConstField (fields : List Vardef) : Prop := ∀ vdp ∈ fields, vdp.srcmode ≠ .const

theorem Laid.noConst {fields : List Vardef} {statics insts : Nat} (laid : Laid fields statics insts) :
    NoConstField fields := by
  intro vdp mem
  rw [laid.modes vdp mem]
  split <;> decide

variable {fields : List Vardef}

theorem FieldOf.lvalue_ok {scope : List Local} (plain : NoConstField fields) {mode : ArgSource}
    {offset : Nat} (h : FieldOf fields scope mode offset) : (Instr.emit1 .lvalue mode (some offset)).ConstsOk cdata := by
  refine .of_ne ?_
  rcases h with ⟨rfl, _⟩ | ⟨vdp, mem, rfl, _⟩
  · decide
  · exact plain vdp mem

mutual

theorem Expr.constsOk {scope : List Local} (plain : NoConstField fields) {e : Expr} (h : e.Resolved fields scope cdata) :
    ConstsOkAll cdata e.code := by
  cases e with
  | push mode arg =>
      simp only [Expr.code, constsOkAll_cons, constsOkAll_nil, and_true]
      refine ⟨fun const => ?_, nofun⟩
      obtain ⟨lt, pos⟩ := h const
      exact ⟨arg.toNat, (Int.toNat_of_nonneg pos).symm, lt⟩
  | null | this => simp [Expr.code, OpCode.readsText]
  | lvalue mode offset => simpa [Expr.code] using FieldOf.lvalue_ok plain h
  | sderef clsidx offset =>
      obtain ⟨cls, text⟩ := h
      refine constsOkAll_cons.mpr ⟨?_, constsOkAll_nil⟩
      exact ⟨.of_text text, .of_ne (by decide)⟩
  | deref recv name =>
      obtain ⟨recvOk, text, at_name⟩ := h
      refine constsOkAll_append.mpr ⟨Expr.constsOk plain recvOk, ?_⟩
      exact constsOkAll_cons.mpr ⟨.of_text at_name, constsOkAll_nil⟩
  | call base recv name args sig =>
      obtain ⟨recvOk, argsOk, at_sig⟩ := h
      have op : (if base then OpCode.basecall else .call).readsText = true := by
        split <;> rfl
      refine constsOkAll_append.mpr ⟨constsOkAll_append.mpr ?_, ?_⟩
      · exact ⟨Expr.constsOk plain recvOk, Args.constsOk plain argsOk⟩
      · simp only [constsOkAll_cons, constsOkAll_nil, and_true]
        exact ⟨.of_text at_sig, .of_ne (by decide)⟩
  | scall cls name args sig =>
      obtain ⟨argsOk, at_sig⟩ := h
      refine constsOkAll_append.mpr ⟨Args.constsOk plain argsOk, ?_⟩
      exact constsOkAll_cons.mpr ⟨.of_text at_sig, constsOkAll_nil⟩
  | new cls clsidx args sig =>
      obtain ⟨argsOk, at_cls, at_sig⟩ := h
      simp only [Expr.code, constsOkAll_cons, constsOkAll_append, constsOkAll_nil, and_true]
      exact ⟨.of_text at_cls, Args.constsOk plain argsOk, .of_text at_sig, .of_ne (by decide)⟩
  | array clsidx addidx elems =>
      obtain ⟨elemsOk, at_cls, at_add⟩ := h
      simp only [Expr.code, constsOkAll_cons]
      exact ⟨.of_text at_cls, ⟨.of_text at_cls, .of_ne (by decide)⟩,
        Args.addConstsOk plain elemsOk at_add⟩
  | unary op e => simpa [Expr.code] using Expr.constsOk (e := e) plain h
  | drop e => simpa [Expr.code, OpCode.readsText] using Expr.constsOk (e := e) plain h
  | binary op l r =>
      simpa [Expr.code] using And.intro (Expr.constsOk plain h.1) (Expr.constsOk plain h.2)
  | early op l r =>
      simpa [Expr.code] using And.intro (Expr.constsOk plain h.1) (Expr.constsOk plain h.2)
  | assign l r =>
      simpa [Expr.code, OpCode.readsText] using
        And.intro (Expr.constsOk plain h.1) (Expr.constsOk plain h.2)
  | assignOp op l r =>
      refine constsOkAll_append.mpr ⟨Expr.constsOk plain h.1, constsOkAll_cons.mpr ⟨rfl, ?_⟩⟩
      refine constsOkAll_append.mpr ⟨Expr.constsOk plain h.2, ?_⟩
      exact constsOkAll_cons.mpr ⟨rfl, constsOkAll_cons.mpr ⟨op.plain, by simp [OpCode.readsText]⟩⟩
  | init mode offset r =>
      simpa [Expr.code, OpCode.readsText] using
        And.intro (FieldOf.lvalue_ok plain h.1) (Expr.constsOk plain h.2)

theorem Args.constsOk {scope : List Local} (plain : NoConstField fields) {args : Args}
    (h : args.Resolved fields scope cdata) : ConstsOkAll cdata args.code := by
  cases args with
  | nil => exact constsOkAll_nil
  | cons e rest =>
      exact constsOkAll_append.mpr ⟨Expr.constsOk plain h.1, Args.constsOk plain h.2⟩

theorem Args.addConstsOk {scope : List Local} (plain : NoConstField fields) {args : Args} {addidx : Nat}
    {text : List Char} (h : args.Resolved fields scope cdata) (at_add : TextAt cdata addidx text) :
    ConstsOkAll cdata (args.addCode addidx) := by
  cases args with
  | nil => exact constsOkAll_nil
  | cons e rest =>
      simp only [Args.addCode, constsOkAll_cons, constsOkAll_append]
      exact ⟨rfl, Expr.constsOk plain h.1, ⟨.of_text at_add, .of_ne (by decide)⟩,
        Args.addConstsOk plain h.2 at_add⟩

end

theorem optCode_constsOk {scope : List Local} (plain : NoConstField fields) {o : Option Expr}
    (h : ∀ e ∈ o, e.Resolved fields scope cdata) : ConstsOkAll cdata (optCode o) := by
  cases o with
  | none => exact constsOkAll_nil
  | some e => exact Expr.constsOk plain (h e rfl)

theorem postCode_constsOk {scope : List Local} (plain : NoConstField fields) {o : Option Expr}
    (h : ∀ e ∈ o, e.Resolved fields scope cdata) (eval b : Nat) :
    ConstsOkAll cdata (postCode eval b o) := by
  cases o with
  | none => exact constsOkAll_nil
  | some e => simpa [postCode] using Expr.constsOk plain (h e rfl)

mutual

theorem Stmt.constsOk {scope : List Local} (plain : NoConstField fields) {s : Stmt} (h : s.Resolved fields scope cdata)
    (b : Nat) : ConstsOkAll cdata (s.code b) := by
  cases s with
  | skip | decl => exact constsOkAll_nil
  | line n | vret | brk | cont => simp [Stmt.code, OpCode.readsText]
  | seq s t =>
      exact constsOkAll_append.mpr ⟨Stmt.constsOk plain h.1 b, Stmt.constsOk plain h.2 _⟩
  | expr e => exact Expr.constsOk plain h
  | ret e => simpa [Stmt.code, OpCode.readsText] using Expr.constsOk (e := e) plain h
  | throw e => simpa [Stmt.code, OpCode.readsText] using Expr.constsOk (e := e) plain h
  | block n s => simpa [Stmt.code, OpCode.readsText] using Stmt.constsOk plain h.2 _
  | ite c s t =>
      simpa [Stmt.code, OpCode.readsText] using
        ⟨Expr.constsOk plain h.1, Stmt.constsOk plain h.2.1 _, Stmt.constsOk plain h.2.2 _⟩
  | «while» c s =>
      simpa [Stmt.code, OpCode.readsText] using
        And.intro (Expr.constsOk plain h.1) (Stmt.constsOk plain h.2 _)
  | «for» cond post s =>
      simpa [Stmt.code, OpCode.readsText] using
        ⟨optCode_constsOk plain h.1, postCode_constsOk plain h.2.1 _ _, Stmt.constsOk plain h.2.2 _⟩
  | switch e n cases =>
      simpa [Stmt.code, OpCode.readsText] using
        And.intro (Expr.constsOk plain h.1) (Cases.constsOk plain h.2.2 _)
  | «try» s v n handler fin =>
      obtain ⟨body, -, -, handled, final⟩ := h
      have lvalue : (Instr.emit1 .lvalue .block (some v.offset)).ConstsOk cdata :=
        .of_ne (by decide)
      simpa [Stmt.code, OpCode.readsText] using
        ⟨Stmt.constsOk plain body _, lvalue, Stmt.constsOk plain handled _,
          Stmt.constsOk plain final _⟩

theorem Cases.constsOk {scope : List Local} (plain : NoConstField fields) {cs : Cases} (h : cs.Resolved fields scope cdata)
    (b : Nat) : ConstsOkAll cdata (cs.code b) := by
  cases cs with
  | nil => exact constsOkAll_nil
  | case v s rest =>
      simpa [Cases.code, OpCode.readsText] using
        ⟨Expr.constsOk plain h.1, Stmt.constsOk plain h.2.1 _, Cases.constsOk plain h.2.2 _⟩
  | default s rest =>
      simpa [Cases.code] using And.intro (Stmt.constsOk plain h.1 _) (Cases.constsOk plain h.2 _)

end

theorem MethodOk.constsOk {mp : JsMethod} (plain : NoConstField fields)
    (ok : MethodOk fields cdata mp) : ConstsOkAll cdata mp.body.code := by
  have resolved := ok.resolved
  cases body : mp.body with
  | empty => exact constsOkAll_nil
  | method n s =>
      rw [body] at resolved
      simpa [Body.code, OpCode.readsText] using Stmt.constsOk plain resolved.2 3
  | inits es =>
      rw [body] at resolved
      simpa [Body.code, OpCode.readsText] using Args.constsOk plain resolved

end

/-! ## The methods of an accepted text -/

/-- A method that was not there before the text was parsed. -/
def Compiles (intrinsics : List JsClass) (pp : Program) (cls : JsClass) (mp : JsMethod) : Prop :=
  ∃ c i : Nat, pp.heap[c]? = some cls ∧ cls.methods[i]? = some mp ∧
    ¬ ∃ old : JsClass, intrinsics[c]? = some old ∧ old.methods[i]? = some mp

/-- Decoding the code of a compiled method visits what was emitted and ends with
the code; its constants are in the table of the program, and texts where texts
are read. -/
theorem compiled_code_decodes {intrinsics : Intrinsics} {text : List Char} {cls : JsClass}
    {mp : JsMethod} (accepted : (parseChar intrinsics text).accepted)
    (compiled : Compiles intrinsics.heap (parseChar intrinsics text) cls mp) :
    decodeCode mp.code = some mp.body.code ∧
      opcodeWords mp.code = mp.body.code.map Instr.word ∧
        ConstsOkAll (parseChar intrinsics text).comp.cdata mp.body.code := by
  obtain ⟨c, i, found, method, fresh⟩ := compiled
  rcases parseChar_settled accepted c cls i mp found method with old | ok
  · exact absurd old fresh
  · refine ⟨?_, ?_, ok.constsOk cls.laid.noConst⟩
    · rw [ok.code]
      exact decodeCode_cells _
    · rw [ok.code]
      exact opcodeWords_cells _

theorem compiles_of_lookup {pp : Program} {c i n : Nat}
    (there : ((pp.heap[c]?).bind fun cls =>
      (cls.methods[i]?).map fun mp => mp.body.code.length) = some n) :
    ∃ cls mp, Compiles [] pp cls mp ∧ mp.body.code.length = n := by
  obtain ⟨cls, found, there⟩ := Option.bind_eq_some_iff.mp there
  obtain ⟨mp, method, size⟩ := Option.map_eq_some_iff.mp there
  exact ⟨cls, mp, ⟨c, i, found, method, by simp⟩, size⟩

/-- A class with one static method that returns a string constant. -/
def helloText : List Char :=
  "class A \x7b public static m() \x7b return \"a\"; \x7d \x7d".toList

theorem compiled_code_decodes_hello :
    ∃ cls mp, Compiles [] (parseChar ⟨[], []⟩ helloText) cls mp ∧
      decodeCode mp.code = some mp.body.code ∧ mp.body.code.length = 4 := by
  have accepted : (parseChar ⟨[], []⟩ helloText).accepted := by decide +kernel
  have there : (((parseChar ⟨[], []⟩ helloText).heap[0]?).bind fun (cls : JsClass) =>
      (cls.methods[2]?).map fun mp => mp.body.code.length) = some 4 := by decide +kernel
  obtain ⟨cls, mp, compiled, size⟩ := compiles_of_lookup there
  exact ⟨cls, mp, compiled, (compiled_code_decodes accepted compiled).1, size⟩

end Jspp.Compiler
