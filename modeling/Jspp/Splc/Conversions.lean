/-
# Splc.Conversions -- the number of a request item

A string item is classified by its characters before a parser is chosen for it:
digits only, or digits with one point.  Neither allows a sign, and the digits go
to `atoi`, for an `int64` as well.

* `requestItemToInt`, `requestItemToLong`: the conversions.
* `requestItemToInt_iff`, `requestItemToLong_iff`: the numbers whose numerals are read right.

`atoi` and the conversions of `double`s are parameters.
-/
import Jspp.Splc.Integers
import Jspp.Splc.Matching
import Jspp.Splc.Procedures

namespace Jspp.Splc

open Jspp.Theory

set_option autoImplicit false

/-! ## request.c -/

/-- What is used of the C library: `atoi`, and a `double` read from a text and cut to an integer. -/
structure Numbers where
  atoi : Bytes → Int32
  realInt : Bytes → Int32
  realLong : Bytes → Int64

/-- `atoi` reads what `printf` writes of an `int`. -/
def Numbers.Exact (lib : Numbers) : Prop := ∀ n : Int32, lib.atoi (Srv.intText n.toInt) = n

/-- `(int32)` of an `int64`. -/
def int32Of (n : Int) : Int := Int.bmod n (2 ^ 32)

def requestItemToInt (lib : Numbers) (item : RequestItem) : Int :=
  match item.m_data with
  | .str s =>
      if stringIsInt s then (lib.atoi s.m_cstr).toInt
      else if stringIsFloat s then (lib.realInt s.m_cstr).toInt
      else 0
  | .real text => (lib.realInt text).toInt
  | .int n => n
  | .long n => int32Of n

/-- `requestItemToLong` calls `int32Parse`, too. -/
def requestItemToLong (lib : Numbers) (item : RequestItem) : Int :=
  match item.m_data with
  | .str s =>
      if stringIsInt s then (lib.atoi s.m_cstr).toInt
      else if stringIsFloat s then (lib.realLong s.m_cstr).toInt
      else 0
  | .real text => (lib.realLong text).toInt
  | .int n => n
  | .long n => n

/-! ## Numerals -/

/-- The item of a text. -/
def textItem (name : Option Str) (text : Bytes) : RequestItem where
  m_name := name
  m_data := .str (stringTakeOwnership text)

theorem stringIsInt_nonneg {v : Int} (nonneg : 0 ≤ v) :
    stringIsInt (stringTakeOwnership (Srv.intText v)) = true := by
  rw [Srv.intText_eq, signText, if_neg (by omega), List.nil_append]
  rw [stringIsInt, own_array, List.all_eq_true]
  exact fun c mem => isdigit_numeral mem

/-- A sign is no part of an integer, nor of a real number. -/
theorem neither_negative {v : Int} (negative : v < 0) :
    stringIsInt (stringTakeOwnership (Srv.intText v)) = false ∧
      stringIsFloat (stringTakeOwnership (Srv.intText v)) = false := by
  rw [Srv.intText_eq, signText, if_pos negative]
  constructor
  · rw [stringIsInt, own_array]
    rfl
  · rw [stringIsFloat, own_array]
    rfl

variable {lib : Numbers} (name : Option Str)

theorem requestItemToInt_nonneg {v : Int} (nonneg : 0 ≤ v) :
    requestItemToInt lib (textItem name (Srv.intText v)) = (lib.atoi (Srv.intText v)).toInt := by
  simp only [requestItemToInt, textItem, if_pos (stringIsInt_nonneg nonneg)]
  rfl

theorem requestItemToLong_nonneg {v : Int} (nonneg : 0 ≤ v) :
    requestItemToLong lib (textItem name (Srv.intText v)) = (lib.atoi (Srv.intText v)).toInt := by
  simp only [requestItemToLong, textItem, if_pos (stringIsInt_nonneg nonneg)]
  rfl

theorem requestItem_negative {v : Int} (negative : v < 0) :
    requestItemToInt lib (textItem name (Srv.intText v)) = 0 ∧
      requestItemToLong lib (textItem name (Srv.intText v)) = 0 := by
  obtain ⟨int, float⟩ := neither_negative negative
  simp only [requestItemToInt, requestItemToLong, textItem, int, float]
  exact ⟨rfl, rfl⟩

theorem requestItemToInt_iff (exact : lib.Exact) (v : Int32) :
    requestItemToInt lib (textItem name (Srv.intText v.toInt)) = v.toInt ↔ 0 ≤ v.toInt := by
  by_cases nonneg : 0 ≤ v.toInt
  · rw [requestItemToInt_nonneg name nonneg, exact v]
    exact iff_of_true rfl nonneg
  · rw [(requestItem_negative name (by omega)).1]
    omega

theorem requestItemToLong_iff (exact : lib.Exact) (v : Int64) :
    requestItemToLong lib (textItem name (Srv.intText v.toInt)) = v.toInt ↔
      0 ≤ v.toInt ∧ v.toInt < 2 ^ 31 := by
  by_cases nonneg : 0 ≤ v.toInt
  · have most := Int32.toInt_lt (lib.atoi (Srv.intText v.toInt))
    rw [requestItemToLong_nonneg name nonneg]
    constructor
    · intro same
      omega
    · rintro ⟨-, small⟩
      have int : (Int32.ofInt v.toInt).toInt = v.toInt :=
        Int32.toInt_ofInt_of_le (by omega) small
      have read := exact (Int32.ofInt v.toInt)
      rw [int] at read
      rw [read, int]
  · rw [(requestItem_negative name (by omega)).2]
    omega

/-- A string item that holds a numeral converts to its number if and only if the number is not
negative and an `int32`. -/
theorem requestItem_iff (exact : lib.Exact) :
    (∀ v : Int64, requestItemToLong lib (textItem name (Srv.intText v.toInt)) = v.toInt ↔
      0 ≤ v.toInt ∧ v.toInt < 2 ^ 31) ∧
    ∀ v : Int32, requestItemToInt lib (textItem name (Srv.intText v.toInt)) = v.toInt ↔
      0 ≤ v.toInt :=
  ⟨requestItemToLong_iff name exact, requestItemToInt_iff name exact⟩

/-! ## A library that converts -/

theorem atoiText_numeral (n : Nat) : atoiText (numeral 10 n) = Int.bmod n (2 ^ 32) := by
  have digits : (numeral 10 n).takeWhile isdigit = numeral 10 n :=
    List.takeWhile_eq_self_iff.mpr fun _ mem => isdigit_numeral mem
  have value : digitsValue (numeral 10 n) = n :=
    (digitsValue_digits (digitsOf_lt (by decide) n)).trans (ofDigits_digitsOf 10 n)
  unfold digitsValue at value
  unfold atoiText
  rw [digits, value]

theorem int32Parse_intText (v : Int) : int32Parse (Srv.intText v) = Int.bmod v (2 ^ 32) := by
  rw [Srv.intText_eq]
  unfold int32Parse
  by_cases negative : v < 0
  · have start : (45 :: numeral 10 v.natAbs).dropWhile isspace = 45 :: numeral 10 v.natAbs := rfl
    rw [signText, if_pos negative, List.singleton_append, start]
    split
    case h_1 same =>
      rw [← (List.cons.inj same).2, atoiText_numeral, Int.bmod_neg_bmod,
        show (-(v.natAbs : Int)) = v by omega]
    case h_2 same => exact absurd (List.cons.inj same).1 (by decide)
    case h_3 other _ => exact absurd rfl (other _)
  · obtain ⟨c, rest, front⟩ := List.exists_cons_of_ne_nil (numeral_ne_nil 10 v.natAbs)
    have digit := isdigit_numeral (front ▸ List.mem_cons_self : c ∈ numeral 10 v.natAbs)
    have other : isspace c = false ∧ c ≠ 45 ∧ c ≠ 43 := by
      obtain ⟨d, small, rfl⟩ := mem_numeral (b := 10) (n := v.natAbs) (by decide)
        (front ▸ List.mem_cons_self)
      interval_cases d <;> decide
    have start : (c :: rest).dropWhile isspace = c :: rest :=
      List.dropWhile_cons_of_neg (by simp [other.1])
    rw [signText, if_neg negative, List.nil_append, front, start]
    split
    case h_1 same => exact absurd (List.cons.inj same).1 other.2.1
    case h_2 same => exact absurd (List.cons.inj same).1 other.2.2
    case h_3 =>
      rw [← front, atoiText_numeral, show (v.natAbs : Int) = v by omega]

/-- The library of the server's other parsers; its `double`s are all 0. -/
def plainNumbers : Numbers where
  atoi text := Int32.ofInt (int32Parse text)
  realInt _ := 0
  realLong _ := 0

theorem plainNumbers_exact : plainNumbers.Exact := by
  intro n
  show Int32.ofInt (int32Parse (Srv.intText n.toInt)) = n
  have same : Int.bmod n.toInt (2 ^ 32) = n.toInt := Int32.toInt_bmod n
  rw [int32Parse_intText, same, Int32.ofInt_toInt]

theorem requestItem_plain :
    requestItemToLong plainNumbers (textItem none (Srv.intText (7 : Int64).toInt)) =
      (7 : Int64).toInt :=
  ((requestItem_iff none plainNumbers_exact).1 7).mpr (by decide)

/-- The item "-1" converts to 0. -/
theorem minus_one_lost : ¬ ∀ lib : Numbers, lib.Exact → ∀ v : Int64,
    requestItemToLong lib (textItem none (Srv.intText v.toInt)) = v.toInt := by
  intro converts
  have lost := (@requestItem_negative plainNumbers none (-1 : Int64).toInt (by decide)).2
  rw [converts plainNumbers plainNumbers_exact (-1)] at lost
  exact absurd lost (by decide)

end Jspp.Splc
