/-
# Compiler.Exits -- a statement is left at its end

The jumps of a statement lead to an address of the statement or to its end, but
for those that were never filled in.  So control leaves it at its end, unless it
leaves it by a `break`, a `continue`, a return or an exception.

* `Spot.Stays`: the addresses an instruction can go to by itself.
* `Stmt.stays`: those of a statement are in it or its end.
* `Placed.stays`: the instruction that is read inside of a statement.
-/
import Jspp.Compiler.Wired

namespace Jspp.Compiler

open Jspp.Kernel Jspp.Theory

set_option autoImplicit false

/-- A jump of the instruction goes to an address from `lo` to `hi`, or it is a jump to -1. -/
def Instr.JumpsIn (lo hi : Nat) (i : Instr) : Prop :=
  ∀ op mode t, i = .emit1 op mode (some t) → op = .jmp ∨ op = .jmpz ∨ op = .jmpnz →
    op = .jmp ∧ t = -1 ∨ (lo : Int) ≤ t ∧ t ≤ hi

/-- The instruction at address `k` stays between `lo` and `hi`. -/
structure Spot.Stays (lo hi k : Nat) (l : Spot) : Prop where
  low : lo ≤ k
  next : k + l.instr.size ≤ hi
  jumps : l.instr.JumpsIn lo hi

section

variable {lo hi : Nat}

theorem jumpsIn_of_ne {i : Instr} (ne : i.op ≠ .jmp ∧ i.op ≠ .jmpz ∧ i.op ≠ .jmpnz) :
    i.JumpsIn lo hi := by
  rintro op mode t rfl (eq | eq | eq)
  · exact absurd eq ne.1
  · exact absurd eq ne.2.1
  · exact absurd eq ne.2.2

theorem jumpsIn_some {op : OpCode} {mode : ArgSource} {t : Int}
    (room : op = .jmp ∧ t = -1 ∨ (lo : Int) ≤ t ∧ t ≤ hi) :
    (Instr.emit1 op mode (some t)).JumpsIn lo hi := by
  intro op' mode' t' eq _
  cases eq
  exact room

theorem jumpsIn_unset : (Instr.jmp none).JumpsIn lo hi := by
  intro op mode t eq
  cases eq

theorem StraightAll.jumpsIn {is : List Instr} (plain : StraightAll is) {i : Instr} (mem : i ∈ is) :
    i.JumpsIn lo hi := by
  have straight := plain i mem
  refine jumpsIn_of_ne ⟨?_, ?_, ?_⟩
  all_goals
    intro eq
    rw [eq] at straight
    cases straight

theorem stays_emit0 {k : Nat} (op : OpCode) {c : Ctx} {scope : List Local} (low : lo ≤ k)
    (next : k + 1 ≤ hi) : Spot.Stays lo hi k ⟨.emit0 op, c, scope⟩ := by
  refine ⟨low, next, ?_⟩
  intro op' mode t eq
  cases eq

/-- An instruction with an operand that is not a jump. -/
theorem stays_emit1 {k : Nat} {op : OpCode} {mode : ArgSource} {arg : Option Int} {c : Ctx}
    {scope : List Local} (low : lo ≤ k) (next : k + 3 ≤ hi)
    (ne : op ≠ .jmp ∧ op ≠ .jmpz ∧ op ≠ .jmpnz) :
    Spot.Stays lo hi k ⟨.emit1 op mode arg, c, scope⟩ :=
  ⟨low, next, jumpsIn_of_ne ne⟩

theorem stays_jump {k : Nat} {op : OpCode} {t : Int} {c : Ctx} {scope : List Local} (low : lo ≤ k)
    (next : k + 3 ≤ hi) (room : (lo : Int) ≤ t ∧ t ≤ hi) :
    Spot.Stays lo hi k ⟨.emit1 op .im (some t), c, scope⟩ :=
  ⟨low, next, jumpsIn_some (.inr room)⟩

theorem straight_stays {is : List Instr} (plain : StraightAll is) {b : Nat} (low : lo ≤ b)
    (high : b + codeSize is ≤ hi) (c : Ctx) (scope : List Local) :
    Along (Spot.Stays lo hi) b (marked c scope is) := by
  induction is generalizing b with
  | nil => trivial
  | cons i is ih =>
      obtain ⟨here, rest⟩ := straightAll_cons.mp plain
      rw [codeSize_cons] at high
      refine ⟨⟨low, by show b + i.size ≤ hi; omega, plain.jumpsIn List.mem_cons_self⟩, ?_⟩
      exact ih rest (by show lo ≤ b + i.size; omega) (by show b + i.size + _ ≤ hi; omega)

theorem postCode_stays {post : Option Expr} {eval b : Nat} (low : lo ≤ b)
    (high : b + postSize post ≤ hi) (again : lo ≤ eval ∧ eval ≤ hi) (c : Ctx)
    (scope : List Local) : Along (Spot.Stays lo hi) b (marked c scope (postCode eval b post)) := by
  cases post with
  | none => trivial
  | some e =>
      simp only [postSize] at high
      have size : e.size = codeSize e.code := rfl
      refine ⟨⟨low, by show b + 3 ≤ hi; omega, jumpsIn_some (.inr ⟨by omega, by omega⟩)⟩, ?_⟩
      show Along _ (b + 3) (marked c scope (e.code ++ [.jmp (some ↑eval)]))
      rw [marked, List.map_append, along_append, ← marked, extent_marked]
      refine ⟨straight_stays e.straight (by omega) (by omega) c scope, ?_, trivial⟩
      exact ⟨by omega, by show b + 3 + codeSize e.code + 3 ≤ hi; omega,
        jumpsIn_some (.inr ⟨by omega, by omega⟩)⟩

theorem postPc_jumpsIn {post : Option Expr} {b : Nat} (low : lo ≤ b)
    (high : b + postSize post ≤ hi) :
    (Instr.jmp (postPc b post)).JumpsIn lo hi := by
  cases post with
  | none => exact jumpsIn_unset
  | some e =>
      simp only [postSize] at high
      exact jumpsIn_some (.inr ⟨by omega, by omega⟩)

end

/-- Lines at an address that is written in two ways. -/
theorem along_move {W : Nat → Spot → Prop} {b b' : Nat} {ls : List Spot} (eq : b = b')
    (h : Along W b' ls) : Along W b ls :=
  eq ▸ h

/-- The address of the `default` clause is in the clauses. -/
theorem Cases.defaultPc_room {lo hi : Nat} (cs : Cases) {b : Nat} (low : lo ≤ b)
    (high : b + cs.size ≤ hi) {pc : Int} (room : pc = -1 ∨ (lo : Int) ≤ pc ∧ pc ≤ hi) :
    cs.defaultPc b pc = -1 ∨ (lo : Int) ≤ cs.defaultPc b pc ∧ cs.defaultPc b pc ≤ hi := by
  cases cs with
  | nil => exact room
  | case v s rest =>
      simp only [Cases.size] at high
      exact Cases.defaultPc_room rest (by omega) (by omega) room
  | default s rest =>
      simp only [Cases.size] at high
      exact Cases.defaultPc_room rest (by omega) (by omega) (.inr (by omega))

mutual

/-- The jumps of a statement stay in it, or go to its end. -/
theorem Stmt.stays {lo hi : Nat} {s : Stmt} {b : Nat} (low : lo ≤ b) (high : b + s.size ≤ hi)
    (c : Ctx) (scope : List Local) : Along (Spot.Stays lo hi) b (s.spots b c scope) := by
  cases s with
  | skip | decl => trivial
  | brk | cont => exact ⟨stays_emit0 _ low high, trivial⟩
  | line n => exact ⟨stays_emit1 low high ⟨nofun, nofun, nofun⟩, trivial⟩
  | vret =>
      simp only [Stmt.size] at high
      exact ⟨stays_emit0 _ low (by omega), stays_emit0 _ (Nat.le_add_right_of_le low) high, trivial⟩
  | expr e => exact straight_stays e.straight low high c scope
  | ret e | throw e =>
      simp only [Stmt.size] at high
      simp only [Stmt.spots, along_append, along_cons, along_nil, and_true, extent_marked]
      exact ⟨straight_stays e.straight low (Nat.le_of_succ_le high) c scope,
        stays_emit0 _ (Nat.le_add_right_of_le low) high⟩
  | seq s t =>
      simp only [Stmt.size] at high
      simp only [Stmt.spots, along_append, Stmt.extent_spots]
      exact ⟨Stmt.stays low (by omega) c scope, Stmt.stays (by omega) (by omega) c _⟩
  | block n s =>
      simp only [Stmt.size] at high
      simp only [Stmt.spots, along_append, along_cons, along_nil, and_true, Stmt.extent_spots,
        line_size, Instr.size_im]
      exact ⟨stays_emit1 low (by omega) ⟨nofun, nofun, nofun⟩,
        Stmt.stays (by omega) (by omega) _ scope, stays_emit0 _ (by omega) (by omega)⟩
  | ite e s t =>
      have size : e.size = codeSize e.code := rfl
      simp only [Stmt.size] at high
      simp only [Stmt.spots, along_append, along_cons, Stmt.extent_spots, extent_marked,
        line_size, Instr.size_im, Instr.size_jmp, size]
      exact ⟨straight_stays e.straight low (by omega) c scope,
        stays_jump (by omega) (by omega) (by omega),
        Stmt.stays (by omega) (by omega) c scope,
        stays_jump (by omega) (by omega) (by omega), Stmt.stays (by omega) (by omega) c _⟩
  | «while» e s =>
      have size : e.size = codeSize e.code := rfl
      simp only [Stmt.size] at high
      simp only [Stmt.spots, along_append, along_cons, along_nil, and_true, Stmt.extent_spots,
        extent_marked, line_size, Instr.size_im, Instr.size_jmp, size]
      exact ⟨stays_emit1 low (by omega) ⟨nofun, nofun, nofun⟩,
        straight_stays e.straight (by omega) (by omega) _ scope,
        stays_jump (by omega) (by omega) (by omega),
        Stmt.stays (by omega) (by omega) _ scope,
        stays_jump (by omega) (by omega) (by omega),
        stays_emit1 (by omega) (by omega) ⟨nofun, nofun, nofun⟩⟩
  | «for» cond post s =>
      simp only [Stmt.size] at high
      simp only [Stmt.spots, along_append, along_cons, along_nil, and_true, Stmt.extent_spots,
        extent_marked, codeSize_postCode, line_size, Instr.size_im, Instr.size_jmp]
      exact ⟨stays_emit1 low (by omega) ⟨nofun, nofun, nofun⟩,
        straight_stays (optCode_straight cond) (by omega) (by omega) _ scope,
        stays_jump (by omega) (by omega) (by omega),
        postCode_stays (by omega) (by omega) (by omega) _ scope,
        Stmt.stays (by omega) (by omega) _ scope,
        ⟨by omega, by show _ + 3 ≤ hi; omega, postPc_jumpsIn (by omega) (by omega)⟩,
        stays_emit1 (by omega) (by omega) ⟨nofun, nofun, nofun⟩⟩
  | switch e n cs =>
      have size : e.size = codeSize e.code := rfl
      simp only [Stmt.size] at high
      simp only [Stmt.spots, along_append, along_cons, along_nil, and_true, Cases.extent_spots,
        extent_marked, line_size, Instr.size_im, Instr.size_jmp, size]
      exact ⟨straight_stays e.straight low (by omega) c scope,
        stays_emit1 (by omega) (by omega) ⟨nofun, nofun, nofun⟩,
        stays_emit1 (by omega) (by omega) ⟨nofun, nofun, nofun⟩,
        Cases.stays (by omega) (by omega) _ scope,
        ⟨by omega, by show _ + 3 ≤ hi; omega,
          jumpsIn_some ((cs.defaultPc_room (by omega) (by omega) (.inl rfl)).imp_left
            fun eq => ⟨rfl, eq⟩)⟩,
        stays_emit0 _ (by omega) (by omega)⟩
  | «try» s v n h f =>
      simp only [Stmt.size] at high
      simp only [Stmt.spots, marked, List.map_cons, List.map_nil, List.append_assoc,
        List.cons_append, List.nil_append, along_append, along_cons, along_nil, and_true,
        Stmt.extent_spots, line_size, Instr.size_im, Instr.size_jmp, Instr.size_emit0,
        Instr.size_emit1]
      refine ⟨stays_emit1 low (by omega) ⟨nofun, nofun, nofun⟩,
        Stmt.stays (by omega) (by omega) _ scope,
        stays_emit1 (by omega) (by omega) ⟨nofun, nofun, nofun⟩,
        stays_jump (by omega) (by omega) (by omega),
        stays_emit1 (by omega) (by omega) ⟨nofun, nofun, nofun⟩,
        stays_emit0 _ (by omega) (by omega), stays_emit0 _ (by omega) (by omega),
        stays_emit1 (by omega) (by omega) ⟨nofun, nofun, nofun⟩,
        stays_jump (by omega) (by omega) (by omega),
        stays_emit1 (by omega) (by omega) ⟨nofun, nofun, nofun⟩, ?_,
        stays_emit0 _ (by omega) (by omega), ?_,
        stays_jump (by omega) (by omega) (by omega)⟩
      · exact along_move (by omega) (Stmt.stays (by omega) (by omega) _ _)
      · exact along_move (by omega) (Stmt.stays (by omega) (by omega) c _)

theorem Cases.stays {lo hi : Nat} {cs : Cases} {b : Nat} (low : lo ≤ b) (high : b + cs.size ≤ hi)
    (c : Ctx) (scope : List Local) : Along (Spot.Stays lo hi) b (cs.spots b c scope) := by
  cases cs with
  | nil => trivial
  | case v s rest =>
      have size : v.size = codeSize v.code := rfl
      simp only [Cases.size] at high
      simp only [Cases.spots, marked, List.map_cons, List.map_nil, List.map_append,
        List.append_assoc, List.cons_append, List.nil_append, along_append, along_cons,
        Stmt.extent_spots, line_size, Instr.size_im, Instr.size_emit0]
      rw [← marked, extent_marked]
      refine ⟨stays_emit0 _ low (by omega), straight_stays v.straight (by omega) (by omega) c scope,
        stays_emit0 _ (by omega) (by omega), stays_jump (by omega) (by omega) (by omega), ?_, ?_⟩
      · exact along_move (by omega) (Stmt.stays (by omega) (by omega) c scope)
      · exact along_move (by omega) (Cases.stays (by omega) (by omega) c _)
  | default s rest =>
      simp only [Cases.size] at high
      simp only [Cases.spots, along_append, along_cons, Stmt.extent_spots, line_size,
        Instr.size_jmp]
      exact ⟨stays_jump low (by omega) (by omega), Stmt.stays (by omega) (by omega) c scope,
        Cases.stays (by omega) (by omega) c _⟩

end

/-! ## Reading inside of a statement -/

theorem lineAt_append_left {xs ys : List Spot} {k : Nat} (inside : k < extent xs) :
    lineAt (xs ++ ys) k = lineAt xs k := by
  induction xs generalizing k with
  | nil => simp at inside
  | cons x xs ih =>
      rw [List.cons_append, lineAt, lineAt]
      split
      · rfl
      · split
        · rfl
        · simp only [extent_cons] at inside
          exact ih (by omega)

/-- What is read inside of a placed part is read from the part. -/
theorem Placed.lineAt {whole part : List Spot} {b k : Nat} (placed : Placed whole b part)
    (inside : k < extent part) : Theory.lineAt whole (b + k) = Theory.lineAt part k := by
  obtain ⟨pre, post, rfl, rfl⟩ := placed
  rw [lineAt_append, lineAt_append_left inside]

/-- An instruction inside of a placed statement stays in it. -/
theorem Placed.stays {whole : List Spot} {s : Stmt} {b k : Nat} {c : Ctx} {scope : List Local}
    {l : Spot} (placed : Placed whole b (s.spots b c scope)) (low : b ≤ k) (high : k < b + s.size)
    (read : Theory.lineAt whole k = some l) : l.Stays b (b + s.size) k := by
  obtain ⟨j, rfl⟩ := Nat.exists_eq_add_of_le low
  rw [Placed.lineAt placed (by rw [Stmt.extent_spots]; omega)] at read
  exact (Stmt.stays (Nat.le_refl b) (Nat.le_refl _) c scope).at read

end Jspp.Compiler
