/-
# Theory.Numeral -- numerals, and their value in bounded arithmetic

The digits of a number stand least first, as a loop from the right meets them;
zero has one digit.

* `digitsOf`: the digits of a number in a base, and what `Nat.toDigits` writes.
* `wrappedSum`: the digits weighted by their places, every term wrapped to a word.
* `wrappedSum_eq_iff`: it is the number if and only if no term leaves the word.
* `lt_of_places_fit`: terms below a bound bound the number.
-/
import Mathlib.Data.Nat.Digits.Lemmas
import Mathlib.Tactic.Linarith

namespace Jspp.Theory

set_option autoImplicit false

/-! ## Digits -/

def digitsOf (b n : Nat) : List Nat := if n = 0 then [0] else Nat.digits b n

variable {b : Nat}

theorem digitsOf_small {n : Nat} (small : n < b) : digitsOf b n = [n] := by
  unfold digitsOf
  split
  case isTrue zero => rw [zero]
  case isFalse more => exact Nat.digits_of_lt b n more small

theorem digitsOf_large {n : Nat} (large : 1 < b) (more : b ≤ n) :
    digitsOf b n = n % b :: digitsOf b (n / b) := by
  have front : n / b ≠ 0 := (Nat.div_pos more (by omega)).ne'
  rw [digitsOf, if_neg (by omega), digitsOf, if_neg front, Nat.digits_def' large (by omega)]

theorem digitsOf_lt (large : 1 < b) (n : Nat) : ∀ d ∈ digitsOf b n, d < b := by
  unfold digitsOf
  split
  · intro d mem
    rw [List.mem_singleton.mp mem]
    omega
  · exact fun d mem => Nat.digits_lt_base large mem

theorem ofDigits_digitsOf (b n : Nat) : Nat.ofDigits b (digitsOf b n) = n := by
  unfold digitsOf
  split
  case isTrue zero => rw [zero]; rfl
  case isFalse => exact Nat.ofDigits_digits b n

theorem getD_digitsOf (large : 1 < b) (n k : Nat) : (digitsOf b n).getD k 0 = n / b ^ k % b := by
  unfold digitsOf
  split
  case isTrue zero =>
    rw [zero, Nat.zero_div, Nat.zero_mod]
    cases k <;> rfl
  case isFalse => exact Nat.getD_digits n k large

theorem length_digitsOf_le {n k : Nat} (large : 1 < b) (more : 0 < k) (small : n < b ^ k) :
    (digitsOf b n).length ≤ k := by
  unfold digitsOf
  split
  · exact more
  · exact (Nat.digits_length_le_iff large n).mpr small

/-- What `Nat.toDigits` writes, from the right. -/
theorem toDigits_eq (large : 1 < b) (n : Nat) :
    Nat.toDigits b n = ((digitsOf b n).map Nat.digitChar).reverse := by
  induction n using Nat.strong_induction_on with
  | _ n ih =>
    by_cases small : n < b
    · rw [Nat.toDigits_of_lt_base small, digitsOf_small small]
      rfl
    · have less : n / b < n := Nat.div_lt_self (by omega) large
      have more : b ≤ n := Nat.le_of_not_lt small
      rw [Nat.toDigits_of_base_le large more, ih _ less, digitsOf_large (n := n) large more]
      simp

/-! ## Places in a word -/

/-- The digits, the first of them at the given place, every term wrapped. -/
def wrappedSum (word b : Nat) : Nat → List Nat → Int
  | _, [] => 0
  | place, d :: ds => Int.bmod (d * place : Nat) word + wrappedSum word b (place * b) ds

variable {half : Nat}

theorem bmod_natCast_le (some : 0 < half) (n : Nat) : Int.bmod n (2 * half) ≤ n := by
  have rest : n % (2 * half) ≤ n := Nat.mod_le n _
  rw [Int.bmod_eq_emod]
  split <;> omega

theorem bmod_natCast_eq_iff (some : 0 < half) (n : Nat) :
    Int.bmod n (2 * half) = n ↔ n < half := by
  constructor
  · intro same
    have := Int.bmod_lt (x := n) (m := 2 * half) (by omega)
    omega
  · intro small
    exact Int.bmod_eq_of_le (by omega) (by omega)

theorem place_ofDigits_cons (place d : Nat) (ds : List Nat) :
    place * Nat.ofDigits b (d :: ds) = d * place + place * b * Nat.ofDigits b ds := by
  rw [Nat.ofDigits_cons]
  ring

theorem wrappedSum_le (some : 0 < half) (place : Nat) (ds : List Nat) :
    wrappedSum (2 * half) b place ds ≤ (place * Nat.ofDigits b ds : Nat) := by
  induction ds generalizing place with
  | nil => simp [wrappedSum]
  | cons d ds ih =>
      have first := bmod_natCast_le some (d * place)
      have rest := ih (place * b)
      rw [wrappedSum, place_ofDigits_cons]
      omega

theorem wrappedSum_eq_iff (some : 0 < half) (place : Nat) (ds : List Nat) :
    wrappedSum (2 * half) b place ds = (place * Nat.ofDigits b ds : Nat) ↔
      ∀ k, ds.getD k 0 * (place * b ^ k) < half := by
  induction ds generalizing place with
  | nil => simp [wrappedSum, some]
  | cons d ds ih =>
      have first := bmod_natCast_le some (d * place)
      have rest := wrappedSum_le (b := b) some (place * b) ds
      rw [wrappedSum, place_ofDigits_cons]
      have parts : Int.bmod (d * place : Nat) (2 * half) + wrappedSum (2 * half) b (place * b) ds =
          ((d * place + place * b * Nat.ofDigits b ds : Nat) : Int) ↔
          Int.bmod (d * place : Nat) (2 * half) = (d * place : Nat) ∧
            wrappedSum (2 * half) b (place * b) ds = (place * b * Nat.ofDigits b ds : Nat) := by
        omega
      rw [parts, bmod_natCast_eq_iff some, ih]
      have shift : ∀ k, place * b * b ^ k = place * b ^ (k + 1) := fun k => by
        rw [Nat.pow_succ', Nat.mul_assoc]
      constructor
      · rintro ⟨here, behind⟩ k
        cases k with
        | zero => simpa using here
        | succ k =>
            rw [← shift]
            exact behind k
      · intro fits
        refine ⟨by simpa using fits 0, fun k => ?_⟩
        rw [shift]
        exact fits (k + 1)

theorem wrappedSum_bounds (some : 0 < half) (place : Nat) (ds : List Nat) :
    -(ds.length * half : Int) ≤ wrappedSum (2 * half) b place ds ∧
      wrappedSum (2 * half) b place ds ≤ ds.length * half := by
  induction ds generalizing place with
  | nil => simp [wrappedSum]
  | cons d ds ih =>
      have low := Int.le_bmod (x := (d * place : Nat)) (m := 2 * half) (by omega)
      have high := Int.bmod_lt (x := (d * place : Nat)) (m := 2 * half) (by omega)
      have rest := ih (place * b)
      have size : ((ds.length + 1 : Nat) * half : Int) = ds.length * half + half := by
        push_cast
        ring
      rw [wrappedSum, List.length_cons, size]
      omega

/-- The terms of a number fit below a bound only when the places do that it has. -/
theorem lt_of_places_fit {n bound : Nat} (large : 1 < b)
    (fit : ∀ k, n / b ^ k % b * b ^ k < bound) {k : Nat} (high : bound ≤ b ^ k) : n < b ^ k := by
  by_contra more
  have some : n ≠ 0 := by
    rintro rfl
    exact more (Nat.pow_pos (by omega))
  have top : b ^ Nat.log b n ≤ n := Nat.pow_log_le_self b some
  have next : n < b ^ (Nat.log b n + 1) := Nat.lt_pow_succ_log_self large n
  have lead : n / b ^ Nat.log b n < b :=
    (Nat.div_lt_iff_lt_mul (Nat.pow_pos (by omega))).mpr (by rwa [← Nat.pow_succ'])
  have one : 1 ≤ n / b ^ Nat.log b n := Nat.div_pos top (Nat.pow_pos (by omega))
  have term := fit (Nat.log b n)
  rw [Nat.mod_eq_of_lt lead] at term
  have below : k ≤ Nat.log b n := (Nat.le_log_iff_pow_le large some).mpr (by omega)
  have place : b ^ k ≤ b ^ Nat.log b n := Nat.pow_le_pow_right (by omega) below
  have : b ^ Nat.log b n ≤ n / b ^ Nat.log b n * b ^ Nat.log b n := Nat.le_mul_of_pos_left _ one
  omega

end Jspp.Theory
