/-
# Splc.Scaled -- numbers with a scale

`_psWriteColInt64` takes the digits of a number from the right, puts zeros where
there are none left, the point behind as many as the scale says and the sign
last, and reverses what it has.  A number shorter than its scale has no digit in
front of the point.

* `_psWriteColInt64`: the attribute.
* `padLoop_eq`: the digits behind the point.
* `Writes`: a decimal numeral, the digits behind its point, and what it denotes.
* `_psWriteColInt64_writes`: the value of the attribute, where strings are copied exactly.
-/
import Jspp.Splc.Copies
import Jspp.Splc.Integers
import Jspp.Splc.Lexing
import Mathlib.Algebra.Order.Field.Rat
import Mathlib.Data.Rat.Cast.Defs
import Mathlib.Tactic.Ring

namespace Jspp.Splc

open Jspp.Theory

set_option autoImplicit false

/-! ## preparedstatement.c -/

/-- The first loop, on the characters of `buf` from the right: what it appends, and what is left. -/
def padLoop : Nat → Bytes → Bytes × Bytes
  | 0, left => ([], left)
  | scale + 1, [] => (48 :: (padLoop scale []).1, (padLoop scale []).2)
  | scale + 1, c :: left =>
      if c = 45 then (48 :: (padLoop scale (c :: left)).1, (padLoop scale (c :: left)).2)
      else (c :: (padLoop scale left).1, (padLoop scale left).2)

section Write

variable [Copying]

/-- What is in `sbuf`: the numeral from the right. -/
def scaledReverse (data : Int) (scale : Nat) : Bytes :=
  let (sbuf, left) := padLoop scale (Srv.intText data).reverse
  let sbuf := sbuf ++ lit "." ++ left.takeWhile (· ≠ 45)
  if data < 0 then sbuf ++ [45] else sbuf

/-- `_psWriteColInt64` on the contents of the buffer. -/
def _psWriteColInt64 (xml cname : Bytes) (data : Int) (scale : Nat) : Bytes :=
  let xml := xml ++ cname ++ lit "='"
  let xml :=
    if scale = 0 then xml ++ Srv.intText data
    else
      let str := Packet.stringbufferToString (scaledReverse data scale)
      xml ++ cstr (stringReverse str).m_cstr
  xml ++ lit "' "

end Write

/-! ## Decimal numerals -/

/-- The text is a decimal numeral with `s` digits behind the point, and denotes `q`. -/
def Writes (text : Bytes) (s : Nat) (q : ℚ) : Prop :=
  ∃ (negative : Bool) (whole part : Bytes), whole ++ part ≠ [] ∧
    (∀ c ∈ whole ++ part, isdigit c = true) ∧ part.length = s ∧
    text = (if negative then [45] else []) ++ whole ++ (if s = 0 then [] else 46 :: part) ∧
    q = (if negative then -1 else 1) * (digitsValue (whole ++ part) / 10 ^ s)

/-! ## The loops -/

theorem padLoop_eq {r tail : Bytes} (plain : 45 ∉ r) (sign : tail = [] ∨ tail = [45]) (s : Nat) :
    padLoop s (r ++ tail) = (r.take s ++ List.replicate (s - r.length) 48, r.drop s ++ tail) := by
  induction s generalizing r with
  | zero => simp [padLoop]
  | succ s ih =>
      cases r with
      | nil =>
          have rest := ih (r := []) List.not_mem_nil
          rw [List.nil_append] at rest
          rcases sign with rfl | rfl <;> simp [padLoop, List.replicate_succ, rest]
      | cons c r =>
          have other : c ≠ 45 := fun same => plain (same ▸ List.mem_cons_self)
          have rest := ih fun mem => plain (List.mem_cons_of_mem c mem)
          simp [padLoop, other, rest]

/-- The digits that the scale leaves, with zeros for those that are missing. -/
theorem take_zeros_drop (r : Bytes) (s : Nat) :
    r.take s ++ List.replicate (s - r.length) 48 ++ r.drop s =
      r ++ List.replicate (s - r.length) 48 := by
  by_cases short : r.length ≤ s
  · rw [List.take_of_length_le short, List.drop_eq_nil_of_le short, List.append_nil]
  · rw [Nat.sub_eq_zero_of_le (by omega), List.replicate_zero, List.append_nil, List.append_nil,
      List.take_append_drop]

theorem numeral_plain {n : Nat} {c : UInt8} (mem : c ∈ numeral 10 n) : c ≠ 0 ∧ c ≠ 45 := by
  have digit := isdigit_numeral mem
  constructor <;> rintro rfl <;> exact absurd digit (by decide)

/-- The numeral from the right: the digits of the part, the point, the other digits, the sign. -/
theorem scaledReverse_eq [Copying] (v : Int) (s : Nat) :
    scaledReverse v s =
      (numeral 10 v.natAbs).reverse.take s ++
        List.replicate (s - (numeral 10 v.natAbs).length) 48 ++ lit "." ++
        (numeral 10 v.natAbs).reverse.drop s ++ signText v := by
  have plain : 45 ∉ (numeral 10 v.natAbs).reverse := fun mem =>
    (numeral_plain (List.mem_reverse.mp mem)).2 rfl
  have sign : signText v = [] ∨ signText v = [45] := by
    unfold signText
    split
    · exact .inr rfl
    · exact .inl rfl
  have back : (Srv.intText v).reverse = (numeral 10 v.natAbs).reverse ++ signText v := by
    rw [Srv.intText_eq, List.reverse_append]
    rcases sign with none | minus
    · rw [none]; rfl
    · rw [minus]; rfl
  have left : ((numeral 10 v.natAbs).reverse.drop s ++ signText v).takeWhile (· ≠ 45) =
      (numeral 10 v.natAbs).reverse.drop s := by
    have digits : ∀ c ∈ (numeral 10 v.natAbs).reverse.drop s, decide (c ≠ 45) = true :=
      fun c mem => decide_eq_true (numeral_plain (List.mem_reverse.mp (List.mem_of_mem_drop mem))).2
    rw [List.takeWhile_append_of_pos digits]
    rcases sign with none | minus
    · rw [none, List.takeWhile_nil, List.append_nil]
    · rw [minus, List.takeWhile_cons_of_neg (by decide), List.append_nil]
  unfold scaledReverse
  rw [back, padLoop_eq plain sign]
  dsimp only
  rw [left, List.length_reverse]
  unfold signText
  split
  · rfl
  · rw [List.append_nil]

/-- The whole digits and those behind the point, and the number they write. -/
theorem digits_scaled (n s : Nat) :
    ((numeral 10 n).reverse.drop s).reverse ++
        ((numeral 10 n).reverse.take s ++ List.replicate (s - (numeral 10 n).length) 48).reverse =
      ((digitsOf 10 n ++ List.replicate (s - (numeral 10 n).length) 0).map digitByte).reverse := by
  have zeros : List.replicate (s - (numeral 10 n).length) (48 : UInt8) =
      (List.replicate (s - (numeral 10 n).length) 0).map digitByte := by
    rw [List.map_replicate]
    rfl
  have digits : (numeral 10 n).reverse = (digitsOf 10 n).map digitByte := List.reverse_reverse _
  have whole := take_zeros_drop (numeral 10 n).reverse s
  rw [List.length_reverse] at whole
  rw [← List.reverse_append, whole, List.map_append, ← zeros, digits]

/-- A number is its absolute value with its sign. -/
theorem signed_natAbs (v : Int) :
    (v : ℚ) = (if decide (v < 0) = true then -1 else 1) * (v.natAbs : ℚ) := by
  by_cases negative : v < 0
  · have int : v = -(v.natAbs : Int) := by omega
    rw [decide_eq_true negative, if_pos rfl, neg_one_mul, ← Int.cast_natCast, ← Int.cast_neg, ← int]
  · have int : v = (v.natAbs : Int) := by omega
    rw [decide_eq_false negative, if_neg Bool.false_ne_true, one_mul, ← Int.cast_natCast, ← int]

/-- Without a scale it is the number. -/
theorem plain_writes (v : Int) : Writes (Srv.intText v) 0 v := by
  refine ⟨decide (v < 0), numeral 10 v.natAbs, [], ?_, ?_, rfl, ?_, ?_⟩
  · rw [List.append_nil]
    exact numeral_ne_nil 10 v.natAbs
  · rw [List.append_nil]
    exact fun c mem => isdigit_numeral mem
  · rw [Srv.intText_eq, signText, if_pos rfl, List.append_nil]
    by_cases negative : v < 0 <;> simp [negative]
  · have value : digitsValue (numeral 10 v.natAbs ++ []) = v.natAbs := by
      rw [List.append_nil]
      exact (digitsValue_digits (digitsOf_lt (by decide) _)).trans (ofDigits_digitsOf 10 _)
    rw [value, pow_zero, div_one]
    exact signed_natAbs v

variable [Copying]

/-- Reversed, it is a numeral. -/
theorem scaled_writes (v : Int) {s : Nat} (some : s ≠ 0) :
    Writes (scaledReverse v s).reverse s (v / 10 ^ s) := by
  have digits := digits_scaled v.natAbs s
  have small : ∀ d ∈ digitsOf 10 v.natAbs ++ List.replicate (s - (numeral 10 v.natAbs).length) 0,
      d < 10 := by
    intro d mem
    rcases List.mem_append.mp mem with digit | zero
    · exact digitsOf_lt (by decide) _ d digit
    · rw [(List.mem_replicate.mp zero).2]
      decide
  have value : Nat.ofDigits 10
      (digitsOf 10 v.natAbs ++ List.replicate (s - (numeral 10 v.natAbs).length) 0) = v.natAbs := by
    rw [Nat.ofDigits_append_replicate_zero, ofDigits_digitsOf]
  refine ⟨decide (v < 0), ((numeral 10 v.natAbs).reverse.drop s).reverse,
    ((numeral 10 v.natAbs).reverse.take s ++
      List.replicate (s - (numeral 10 v.natAbs).length) 48).reverse, ?_, ?_, ?_, ?_, ?_⟩
  · rw [digits]
    intro none
    have empty : digitsOf 10 v.natAbs = [] :=
      (List.append_eq_nil_iff.mp (List.map_eq_nil_iff.mp (List.reverse_eq_nil_iff.mp none))).1
    exact numeral_ne_nil 10 v.natAbs (by rw [numeral, empty]; rfl)
  · rw [digits]
    intro c mem
    obtain ⟨d, inside, rfl⟩ := List.mem_map.mp (List.mem_reverse.mp mem)
    have less := small d inside
    interval_cases d <;> rfl
  · rw [List.length_reverse, List.length_append, List.length_take, List.length_reverse,
      List.length_replicate]
    omega
  · rw [scaledReverse_eq, if_neg some]
    by_cases negative : v < 0
    · simp [negative, signText, lit]
    · simp [negative, signText, lit]
  · rw [digits, digitsValue_digits small, value]
    rw [signed_natAbs v, mul_div_assoc]

theorem scaledReverse_plain (v : Int) (s : Nat) : 0 ∉ scaledReverse v s := by
  have digit : ∀ c ∈ (numeral 10 v.natAbs).reverse, c ≠ 0 := fun c mem =>
    (numeral_plain (List.mem_reverse.mp mem)).1
  rw [scaledReverse_eq]
  simp only [List.mem_append, not_or]
  refine ⟨⟨⟨⟨fun mem => digit 0 (List.mem_of_mem_take mem) rfl, fun mem => ?_⟩, by decide⟩,
    fun mem => digit 0 (List.mem_of_mem_drop mem) rfl⟩, ?_⟩
  · exact absurd (List.mem_replicate.mp mem).2 (by decide)
  · unfold signText
    split <;> decide

/-- The value of the attribute is a decimal numeral with as many digits behind the point as the
scale says, and denotes the number divided by that power of ten. -/
theorem _psWriteColInt64_writes (exact : Copying.Exact) (xml cname : Bytes) (d : Int64) (s : Nat) :
    ∃ text, _psWriteColInt64 xml cname d.toInt s = xml ++ cname ++ lit "='" ++ text ++ lit "' " ∧
      Writes text s (d.toInt / 10 ^ s) := by
  unfold _psWriteColInt64
  by_cases none : s = 0
  · subst none
    refine ⟨Srv.intText d.toInt, by dsimp only; rw [if_pos rfl], ?_⟩
    rw [pow_zero, div_one]
    exact plain_writes d.toInt
  · have whole := scaledReverse_plain d.toInt s
    have made : (stringReverse (Packet.stringbufferToString (scaledReverse d.toInt s))).m_cstr =
        (scaledReverse d.toInt s).reverse := by
      rw [Packet.stringbufferToString, cstr_whole whole, stringReverse, stringDup,
        stringNew_exact exact, stringNew_exact exact]
      rfl
    refine ⟨(scaledReverse d.toInt s).reverse, ?_, scaled_writes d.toInt none⟩
    dsimp only
    rw [if_neg none, made, cstr_whole fun mem => whole (List.mem_reverse.mp mem)]

omit [Copying] in
/-- Five hundredths, with nothing in front of the point. -/
theorem _psWriteColInt64_hundredths :
    ∃ text, @_psWriteColInt64 copyingAll [] [] (-5) 2 = [] ++ [] ++ lit "='" ++ text ++ lit "' " ∧
      Writes text 2 ((-5 : Int) / 10 ^ 2) :=
  @_psWriteColInt64_writes copyingAll copyingAll_exact [] [] (-5) 2

end Jspp.Splc
