/-
# Theory.Placed -- lines of code at their addresses

A program is a list of lines, every line takes some number of cells, and the
address of a line is the number of cells before it.  `Placed whole b part` says
that `part` stands in `whole` from address `b` on, and `PointAt whole last b a`
that `b` is the address of a line marked `a`, or the address behind the last
line when the mark of that point is `a`.

* `lineAt_of_placed`: the line read at the address where it stands.
* `Placed.append_left`, `Placed.append_right`: a placed list places its parts.
* `pointAt_of_placed`: the first line of a placed part is a point.
* `Along`, `Along.at`: what holds of every line, at its address.
-/
import Mathlib.Algebra.GroupWithZero.Nat
import Mathlib.Data.List.Basic

namespace Jspp.Theory

set_option autoImplicit false

universe u v

variable {L : Type u} {A : Type v}

/-- A type of lines, with the number of cells a line takes and the mark it carries. -/
class Line (L : Type u) (A : outParam (Type v)) where
  size : L → Nat
  mark : L → A
  size_pos : ∀ l, 0 < size l

open Line

variable [Line L A]

/-- The number of cells of a list of lines. -/
def extent (ls : List L) : Nat := (ls.map size).sum

@[simp] theorem extent_nil : extent ([] : List L) = 0 := rfl

@[simp] theorem extent_cons (l : L) (ls : List L) : extent (l :: ls) = size l + extent ls := by
  simp [extent]

@[simp] theorem extent_append (xs ys : List L) : extent (xs ++ ys) = extent xs + extent ys := by
  simp [extent]

/-- The line that starts at an address, if one does. -/
def lineAt : List L → Nat → Option L
  | [], _ => none
  | l :: ls, pc => if pc = 0 then some l else if pc < size l then none else lineAt ls (pc - size l)

@[simp] theorem lineAt_cons_zero (l : L) (ls : List L) : lineAt (l :: ls) 0 = some l := by
  simp [lineAt]

/-- Reading behind a prefix reads the rest. -/
theorem lineAt_append (pre ls : List L) (k : Nat) :
    lineAt (pre ++ ls) (extent pre + k) = lineAt ls k := by
  induction pre with
  | nil => simp
  | cons l pre ih =>
      have pos := size_pos l
      rw [List.cons_append, lineAt, if_neg (by simp; omega), if_neg (by simp; omega)]
      rw [show extent (l :: pre) + k - size l = extent pre + k by simp; omega, ih]

/-- A line that is read at an address stands behind a prefix of that extent. -/
theorem lineAt_eq_some {ls : List L} {pc : Nat} {l : L} (h : lineAt ls pc = some l) :
    ∃ pre post, ls = pre ++ l :: post ∧ extent pre = pc := by
  induction ls generalizing pc with
  | nil => simp [lineAt] at h
  | cons x ls ih =>
      rw [lineAt] at h
      split at h
      case isTrue zero =>
          cases h
          exact ⟨[], ls, rfl, by simp [zero]⟩
      case isFalse =>
          split at h
          case isTrue => cases h
          case isFalse far =>
              obtain ⟨pre, post, rfl, ext⟩ := ih h
              exact ⟨x :: pre, post, rfl, by simp [ext]; omega⟩

/-- `part` stands in `whole` from address `b` on. -/
def Placed (whole : List L) (b : Nat) (part : List L) : Prop :=
  ∃ pre post, whole = pre ++ (part ++ post) ∧ extent pre = b

theorem Placed.self (whole : List L) : Placed whole 0 whole :=
  ⟨[], [], by simp, rfl⟩

theorem Placed.move {whole : List L} {b b' : Nat} {part : List L} (h : Placed whole b part)
    (eq : b = b') : Placed whole b' part :=
  eq ▸ h

theorem Placed.append_left {whole : List L} {b : Nat} {xs ys : List L}
    (h : Placed whole b (xs ++ ys)) : Placed whole b xs := by
  obtain ⟨pre, post, eq, ext⟩ := h
  exact ⟨pre, ys ++ post, by simp [eq], ext⟩

theorem Placed.append_right {whole : List L} {b : Nat} {xs ys : List L}
    (h : Placed whole b (xs ++ ys)) : Placed whole (b + extent xs) ys := by
  obtain ⟨pre, post, eq, ext⟩ := h
  exact ⟨pre ++ xs, post, by simp [eq], by simp [ext]⟩

theorem Placed.head {whole : List L} {b : Nat} {l : L} {ls : List L}
    (h : Placed whole b (l :: ls)) : Placed whole b [l] := by
  have split : Placed whole b ([l] ++ ls) := h
  exact split.append_left

theorem Placed.tail {whole : List L} {b : Nat} {l : L} {ls : List L}
    (h : Placed whole b (l :: ls)) : Placed whole (b + size l) ls := by
  have split : Placed whole b ([l] ++ ls) := h
  simpa using split.append_right

theorem lineAt_of_placed {whole : List L} {b : Nat} {l : L} {ls : List L}
    (h : Placed whole b (l :: ls)) : lineAt whole b = some l := by
  obtain ⟨pre, post, rfl, rfl⟩ := h
  simpa using lineAt_append pre (l :: (ls ++ post)) 0

/-- The address `b` is the start of a line marked `a`, or the end of the code,
whose mark is `last`. -/
def PointAt (whole : List L) (last : A) (b : Nat) (a : A) : Prop :=
  (∃ l, lineAt whole b = some l ∧ mark l = a) ∨ (b = extent whole ∧ a = last)

theorem pointAt_of_placed {whole : List L} {last : A} {b : Nat} {l : L} {ls : List L}
    (h : Placed whole b (l :: ls)) : PointAt whole last b (mark l) :=
  .inl ⟨l, lineAt_of_placed h, rfl⟩

theorem pointAt_end (whole : List L) (last : A) : PointAt whole last (extent whole) last :=
  .inr ⟨rfl, rfl⟩

theorem lineAt_extent (whole : List L) : lineAt whole (extent whole) = none := by
  simpa [lineAt] using lineAt_append whole [] 0

/-- A point that is not the end of the code is the start of a line. -/
theorem PointAt.line {whole : List L} {last a : A} {b : Nat} (h : PointAt whole last b a)
    (inside : b < extent whole) : ∃ l, lineAt whole b = some l ∧ mark l = a := by
  rcases h with line | ⟨rfl, _⟩
  · exact line
  · exact absurd inside (Nat.lt_irrefl _)

theorem lineAt_lt {whole : List L} {b : Nat} {l : L} (h : lineAt whole b = some l) :
    b + size l ≤ extent whole := by
  obtain ⟨pre, post, rfl, rfl⟩ := lineAt_eq_some h
  simp

theorem PointAt.le {whole : List L} {last a : A} {b : Nat} (h : PointAt whole last b a) :
    b ≤ extent whole := by
  rcases h with ⟨l, line, _⟩ | ⟨rfl, _⟩
  · have := lineAt_lt line
    omega
  · exact Nat.le_refl _

/-- No line starts inside a line. -/
theorem lineAt_inside {whole : List L} {b k : Nat} {l : L} (h : lineAt whole b = some l)
    (pos : 0 < k) (short : k < size l) : lineAt whole (b + k) = none := by
  obtain ⟨pre, post, rfl, rfl⟩ := lineAt_eq_some h
  rw [lineAt_append, lineAt, if_neg (by omega), if_pos short]

/-! ## Properties of lines at their addresses -/

/-- `W` holds of every line at its address, the first one being at `b`. -/
def Along (W : Nat → L → Prop) : Nat → List L → Prop
  | _, [] => True
  | b, l :: ls => W b l ∧ Along W (b + size l) ls

section

variable {W : Nat → L → Prop}

@[simp] theorem along_nil (b : Nat) : Along W b [] := trivial

@[simp] theorem along_cons {b : Nat} {l : L} {ls : List L} :
    Along W b (l :: ls) ↔ W b l ∧ Along W (b + size l) ls := Iff.rfl

@[simp] theorem along_append {b : Nat} {xs ys : List L} :
    Along W b (xs ++ ys) ↔ Along W b xs ∧ Along W (b + extent xs) ys := by
  induction xs generalizing b with
  | nil => simp
  | cons x xs ih =>
      rw [List.cons_append, along_cons, ih, along_cons, extent_cons, and_assoc, Nat.add_assoc]

/-- The line that is read at an address has the property there. -/
theorem Along.at {b pc : Nat} {ls : List L} (h : Along W b ls) {l : L}
    (read : lineAt ls pc = some l) : W (b + pc) l := by
  obtain ⟨pre, post, rfl, rfl⟩ := lineAt_eq_some read
  exact (along_cons.mp (along_append.mp h).2).1

end

end Jspp.Theory
