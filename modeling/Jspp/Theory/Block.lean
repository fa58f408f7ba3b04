/-
# Theory.Block -- blocks of memory and what is written to them

A block is the list of what it holds; a write outside of it is undefined.

* `store`, `storeAll`: one write, and writes one behind another.
* `storeAll_eq`: they replace a stretch of the block.
-/
import Mathlib.Data.List.Basic

namespace Jspp.Theory

set_option autoImplicit false

universe u

variable {α : Type u}

def store (block : List α) (i : Nat) (a : α) : Option (List α) :=
  if i < block.length then some (block.set i a) else none

def storeAll (block : List α) (i : Nat) : List α → Option (List α)
  | [] => some block
  | a :: rest => (store block i a).bind fun block => storeAll block (i + 1) rest

theorem store_inside {block : List α} {i : Nat} (inside : i < block.length) (a : α) :
    store block i a = some (block.set i a) := if_pos inside

theorem store_outside {block : List α} {i : Nat} (outside : block.length ≤ i) (a : α) :
    store block i a = none := if_neg (by omega)

theorem storeAll_eq {block : List α} {i : Nat} {text : List α}
    (inside : i + text.length ≤ block.length) :
    storeAll block i text = some (block.take i ++ text ++ block.drop (i + text.length)) := by
  induction text generalizing block i with
  | nil => simp [storeAll]
  | cons a rest ih =>
      rw [List.length_cons] at inside
      rw [storeAll, store_inside (by omega), Option.bind_some,
        ih (by rw [List.length_set]; omega)]
      have front : (block.set i a).take (i + 1) = block.take i ++ [a] := by
        rw [List.take_set, List.take_succ_eq_append_getElem (by omega), List.set_append_right _ _
          (by rw [List.length_take]; omega), List.length_take, Nat.min_eq_left (by omega),
          Nat.sub_self]
        rfl
      have back : (block.set i a).drop (i + 1 + rest.length) =
          block.drop (i + (rest.length + 1)) := by
        rw [List.drop_set_of_lt (by omega)]
        congr 1
        omega
      rw [front, back, List.length_cons, List.append_assoc (block.take i), List.singleton_append]

/-- What stands at the seam is replaced. -/
theorem store_seam (front : List α) (old : α) (rest : List α) (a : α) :
    store (front ++ old :: rest) front.length a = some (front ++ a :: rest) := by
  rw [store_inside (by simp), List.set_append_right _ _ (Nat.le_refl _), Nat.sub_self]
  rfl

end Jspp.Theory
