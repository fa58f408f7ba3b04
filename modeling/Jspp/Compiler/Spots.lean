/-
# Compiler.Spots -- where each instruction of a method stands

`Stmt.spots` is `Stmt.code` once more, with every instruction at its place in
the source: the blocks, loops and protected blocks around it, and the variables
in scope.  The blocks are written down by the counts of locals that their
`OP_ENTER` reserves.

* `Spot`, `Stmt.spots`, `Body.spots`, `Body.map_spots`: the same instructions.
* `Spot.Wired`, `Body.wired`: where an instruction can go, the blocks around it
  are those of the source.
* `Spot.Scoped`, `Body.scoped`: the local operands are variables in scope, and
  their blocks have room for them.
-/
import Jspp.Compiler.Accepts
import Jspp.Theory.Placed

namespace Jspp.Compiler

open Jspp.Kernel Jspp.Theory

set_option autoImplicit false

/-! ## Spots -/

/-- A loop or a `switch`: the address of its `OP_SETBREAK`, where a `break` goes,
and where the next round begins. -/
structure Loop where
  opener : Nat
  stop : Nat
  next : Option Nat
  deriving DecidableEq

/-- What encloses an instruction, innermost first.  A protected block is named by
the address of its `OP_TRY`. -/
structure Ctx where
  blocks : List Nat
  loops : List Loop
  tries : List Nat
  deriving DecidableEq

namespace Ctx

def start : Ctx := ⟨[], [], []⟩

def enter (locals : Nat) (c : Ctx) : Ctx := { c with blocks := locals :: c.blocks }

def leave (c : Ctx) : Ctx := { c with blocks := c.blocks.tail }

def inLoop (l : Loop) (c : Ctx) : Ctx := { c with loops := l :: c.loops }

def inTry (opener : Nat) (c : Ctx) : Ctx := { c with tries := opener :: c.tries }

end Ctx

structure Spot where
  instr : Instr
  ctx : Ctx
  scope : List Local

instance : Line Spot Ctx where
  size l := l.instr.size
  mark := Spot.ctx
  size_pos l := l.instr.size_pos

@[simp] theorem line_size (l : Spot) : Line.size l = l.instr.size := rfl

@[simp] theorem line_mark (l : Spot) : Line.mark l = l.ctx := rfl

/-- Instructions at one place of the source. -/
def marked (c : Ctx) (scope : List Local) (is : List Instr) : List Spot :=
  is.map fun i => ⟨i, c, scope⟩

@[simp] theorem extent_marked (c : Ctx) (scope : List Local) (is : List Instr) :
    extent (marked c scope is) = codeSize is := by
  induction is with
  | nil => rfl
  | cons i is ih =>
      have eq : extent (marked c scope (i :: is)) = i.size + extent (marked c scope is) := rfl
      rw [eq, ih, codeSize_cons]

@[simp] theorem map_marked (c : Ctx) (scope : List Local) (is : List Instr) :
    (marked c scope is).map Spot.instr = is := by
  simp [marked, Function.comp_def]

mutual

/-- The instructions of a statement at address `b`, each at its place. -/
def Stmt.spots (b : Nat) (c : Ctx) (scope : List Local) : Stmt → List Spot
  | .skip | .decl _ => []
  | .seq s t => s.spots b c scope ++ t.spots (b + s.size) c (scope ++ s.decls)
  | .line n => [⟨.im .line n, c, scope⟩]
  | .expr e => marked c scope e.code
  | .ret e => marked c scope e.code ++ [⟨.emit0 .ret, c, scope⟩]
  | .vret => [⟨.emit0 .leave, c, scope⟩, ⟨.emit0 .vret, c.leave, scope⟩]
  | .brk => [⟨.emit0 .break, c, scope⟩]
  | .cont => [⟨.emit0 .continue, c, scope⟩]
  | .throw e => marked c scope e.code ++ [⟨.emit0 .throw, c, scope⟩]
  | .block locals s =>
      let inner := c.enter locals
      ⟨.im .enter locals, c, scope⟩ ::
        (s.spots (b + 3) inner scope ++ [⟨.emit0 .leave, inner, scope ++ s.decls⟩])
  | .ite e s t =>
      let body := b + e.size + 3
      let other := body + s.size + 3
      marked c scope e.code ++ ⟨.im .jmpz other, c, scope⟩ ::
        (s.spots body c scope ++ ⟨.jmp (some ↑(other + t.size)), c, scope ++ s.decls⟩ ::
          t.spots other c (scope ++ s.decls))
  | .while e s =>
      let top := b + 3
      let body := top + e.size + 3
      let exit := body + s.size + 3
      let inner := c.inLoop ⟨b, exit, some top⟩
      ⟨.im .setbreak exit, c, scope⟩ ::
        (marked inner scope e.code ++ ⟨.im .jmpz exit, inner, scope⟩ ::
          (s.spots body inner scope ++
            [⟨.jmp (some ↑top), inner, scope⟩, ⟨.im .setbreak (-1), inner, scope⟩]))
  | .for cond post s =>
      let eval := b + 3
      let after := eval + codeSize (optCode cond) + 3
      let body := after + postSize post
      let exit := body + s.size + 3
      let inner := c.inLoop ⟨b, exit, some (if post.isSome then after + 3 else eval)⟩
      ⟨.im .setbreak exit, c, scope⟩ ::
        (marked inner scope (optCode cond) ++ ⟨.im .jmpz exit, inner, scope⟩ ::
          (marked inner scope (postCode eval after post) ++
            (s.spots body inner scope ++
              [⟨.jmp (postPc after post), inner, scope⟩, ⟨.im .setbreak (-1), inner, scope⟩])))
  | .switch e locals cases =>
      let first := b + e.size + 3 + 3
      let closing := first + cases.size
      let around := c.inLoop ⟨b + e.size, closing + 4, none⟩
      let inner := around.enter locals
      marked c scope e.code ++ ⟨.im .setbreak ↑(closing + 4), c, scope⟩ ::
        ⟨.im .enter locals, around, scope⟩ ::
          (cases.spots first inner scope ++
            [⟨.jmp (some (cases.defaultPc first (-1))), inner, scope⟩,
              ⟨.emit0 .leave, inner, scope⟩])
  | .try s v locals handler fin =>
      let after := b + 3 + s.size
      let catchpc := after + 6
      let startcatch := catchpc + 11
      let finpc := startcatch + (3 + handler.size + 1)
      let caught := scope ++ s.decls ++ [v]
      let inner := c.enter locals
      ⟨.im .try catchpc, c, scope⟩ ::
        (s.spots (b + 3) (c.inTry b) scope ++
          marked c (scope ++ s.decls) [.im .push 0, .jmp (some ↑finpc)] ++
          marked c caught [.emit1 .lvalue .block (some v.offset), .emit0 .rot, .emit0 .assign,
            .im .push 1, .jmp (some ↑finpc), .im .enter locals] ++
          (handler.spots (startcatch + 3) inner caught ++
            ⟨.emit0 .leave, inner, caught⟩ ::
              (fin.spots finpc c caught ++ [⟨.im .jmpnz startcatch, c, caught ++ fin.decls⟩])))

def Cases.spots (b : Nat) (c : Ctx) (scope : List Local) : Cases → List Spot
  | .nil => []
  | .case v s rest =>
      let body := b + 1 + v.size + 4
      marked c scope (.emit0 .dup :: (v.code ++ [.emit0 .eq, .im .jmpz ↑(body + s.size)])) ++
        (s.spots body c scope ++ rest.spots (body + s.size) c (scope ++ s.decls))
  | .default s rest =>
      let body := b + 3
      ⟨.jmp (some ↑(body + s.size)), c, scope⟩ ::
        (s.spots body c scope ++ rest.spots (body + s.size) c (scope ++ s.decls))

end

/-- The instructions of a method, each at its place. -/
def Body.spots (params : List Local) : Body → List Spot
  | .empty => []
  | .method locals s =>
      let inner := Ctx.start.enter locals
      ⟨.im .enter locals, .start, params⟩ ::
        (s.spots 3 inner params ++ [⟨.emit0 .leave, inner, params ++ s.decls⟩])
  | .inits es => marked .start [] (es.code ++ [.emit0 .vret])

/-! ## The same instructions -/

mutual

@[simp] theorem Stmt.map_spots (b : Nat) (c : Ctx) (scope : List Local) (s : Stmt) :
    (s.spots b c scope).map Spot.instr = s.code b := by
  cases s with
  | skip | decl | line | vret | brk | cont => rfl
  | expr e => simp [Stmt.spots, Stmt.code]
  | seq s t => simp [Stmt.spots, Stmt.code, Stmt.map_spots]
  | ret e | throw e => simp [Stmt.spots, Stmt.code]
  | block n s => simp [Stmt.spots, Stmt.code, Stmt.map_spots]
  | ite e s t => simp [Stmt.spots, Stmt.code, Stmt.map_spots]
  | «while» e s => simp [Stmt.spots, Stmt.code, Stmt.map_spots]
  | «for» cond post s => simp [Stmt.spots, Stmt.code, Stmt.map_spots]
  | switch e n cs => simp [Stmt.spots, Stmt.code, Cases.map_spots]
  | «try» s v n h f => simp [Stmt.spots, Stmt.code, Stmt.map_spots]

@[simp] theorem Cases.map_spots (b : Nat) (c : Ctx) (scope : List Local) (cs : Cases) :
    (cs.spots b c scope).map Spot.instr = cs.code b := by
  cases cs with
  | nil => rfl
  | case v s rest => simp [Cases.spots, Cases.code, Stmt.map_spots, Cases.map_spots]
  | default s rest => simp [Cases.spots, Cases.code, Stmt.map_spots, Cases.map_spots]

end

@[simp] theorem Body.map_spots (params : List Local) (body : Body) :
    (body.spots params).map Spot.instr = body.code := by
  cases body <;> simp [Body.spots, Body.code]

theorem extent_eq_codeSize (ls : List Spot) : extent ls = codeSize (ls.map Spot.instr) := by
  rw [extent, codeSize, List.map_map]
  rfl

@[simp] theorem Stmt.extent_spots (b : Nat) (c : Ctx) (scope : List Local) (s : Stmt) :
    extent (s.spots b c scope) = s.size := by
  rw [extent_eq_codeSize, Stmt.map_spots, Stmt.codeSize_code]

@[simp] theorem Cases.extent_spots (b : Nat) (c : Ctx) (scope : List Local) (cs : Cases) :
    extent (cs.spots b c scope) = cs.size := by
  rw [extent_eq_codeSize, Cases.map_spots, Cases.codeSize_code]

/-! ## Reading the code -/

theorem getElem?_behind (pre code : List Cell) (k : Nat) :
    (pre ++ code)[pre.length + k]? = code[k]? := by
  rw [List.getElem?_append_right (Nat.le_add_right _ _), Nat.add_sub_cancel_left]

/-- Fetching behind a prefix fetches from the rest. -/
theorem fetchAt_append (pre code : List Cell) (k : Nat) :
    fetchAt (pre ++ code) (pre.length + k) = fetchAt code k := by
  simp only [fetchAt, getInt32, Nat.add_assoc, getElem?_behind]

/-- The cells behind the first one of an instruction are not opcode words. -/
theorem fetchAt_inside (i : Instr) (code : List Cell) {k : Nat} (pos : 0 < k)
    (short : k < i.size) : fetchAt (i.cells ++ code) k = none := by
  cases i with
  | emit0 op =>
      simp only [Instr.size] at short
      omega
  | emit1 op mode arg =>
      simp only [Instr.size] at short
      rcases (by omega : k = 1 ∨ k = 2) with rfl | rfl <;> rfl
  | emit2 op mode mode2 arg1 arg2 =>
      simp only [Instr.size] at short
      rcases (by omega : k = 1 ∨ k = 2 ∨ k = 3 ∨ k = 4) with rfl | rfl | rfl | rfl <;> rfl

/-- What is fetched at an address is the instruction of the spot there. -/
theorem fetchAt_spots (ls : List Spot) (pc : Nat) :
    fetchAt (cells (ls.map Spot.instr)) pc = (lineAt ls pc).map Spot.instr := by
  induction ls generalizing pc with
  | nil => rfl
  | cons l ls ih =>
      rw [List.map_cons, cells_cons, lineAt]
      by_cases zero : pc = 0
      · subst zero
        simpa using fetchAt_cells [] (cells (ls.map Spot.instr)) l.instr
      · rw [if_neg zero]
        by_cases short : pc < l.instr.size
        · rw [fetchAt_inside l.instr _ (by omega) short, line_size, if_pos short]
          rfl
        · obtain ⟨k, rfl⟩ := Nat.exists_eq_add_of_le (Nat.le_of_not_lt short)
          rw [line_size, if_neg short, Nat.add_sub_cancel_left, ← ih, ← l.instr.length_cells,
            fetchAt_append]

end Jspp.Compiler
