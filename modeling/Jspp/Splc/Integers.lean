/-
# Splc.Integers -- numbers from numerals

`_baseToInt` goes through a numeral from the right and keeps the value of the
place in an `int`, next to a sum of 64 bits.  Products that leave the `int` are
taken to wrap.  The letters of hexadecimal digits are looked up in a table by
their distance from `A`, lower-case letters as well, since `A` comes before `a`.

* `int64Parse`: undefined where an access leaves the table.
* `numeral`, `Srv.intText_eq`: the numerals, and that `printf` writes them.
* `int64Parse_signed`: a parsed numeral is the sum of its wrapped terms.
* `int64Parse_iff`: when that is the number.
-/
import Jspp.Splc.Host
import Jspp.Theory.Numeral

namespace Jspp.Splc

open Jspp.Theory

set_option autoImplicit false

/-! ## integer.c -/

def isalpha (c : UInt8) : Bool := (65 ≤ c && c ≤ 90) || (97 ≤ c && c ≤ 122)

/-- A `char` as an `int`; it is signed. -/
def schar (c : UInt8) : Int := Int.bmod c.toNat (2 ^ 8)

def _iHexaNumeric : List Int := [10, 11, 12, 13, 14, 15]

/-- `_iHexaNumeric[ i ]`. -/
def hexaNumeric (i : Int) : Option Int := if 0 ≤ i then _iHexaNumeric[i.toNat]? else none

/-- `b` in the loop of `_baseToInt`. -/
def digitAt (numbase : Int) (ch : UInt8) : Option Int :=
  if 10 < numbase ∧ isalpha ch then
    if 65 ≤ ch then hexaNumeric (schar ch - 65) else hexaNumeric (schar ch - 97)
  else some (schar ch - 48)

/-- The loop, over the characters from the right. -/
def baseLoop (numbase : Int) : Bytes → Int → Int → Option Int
  | [], _, dec => some dec
  | ch :: rest, iProduct, dec =>
      match digitAt numbase ch with
      | none => none
      | some b =>
          baseLoop numbase rest (Int.bmod (iProduct * numbase) (2 ^ 32))
            ((dec + Int.bmod (b * iProduct) (2 ^ 32)) % 2 ^ 64)

/-- `_baseToInt`; the result is a `uint64`. -/
def _baseToInt (sbase : Bytes) (numbase : Int) : Option Int :=
  let stopAt := if sbase.getD 0 0 = 48 ∧ (sbase.getD 1 0 = 120 ∨ sbase.getD 1 0 = 88) then 2 else 0
  baseLoop numbase (sbase.drop stopAt).reverse 1 0

def int64Parse (cp : Bytes) (radix : Int) : Option Int :=
  if cp.getD 0 0 = 45 then
    (_baseToInt (cp.drop 1) radix).map fun dec => Int.bmod (-Int.bmod dec (2 ^ 64)) (2 ^ 64)
  else (_baseToInt cp radix).map fun dec => Int.bmod dec (2 ^ 64)

/-! ## Numerals -/

/-- The character of a digit; letters are capitals. -/
def digitByte (d : Nat) : UInt8 := if d < 10 then (48 + d).toUInt8 else (55 + d).toUInt8

def numeral (b n : Nat) : Bytes := ((digitsOf b n).map digitByte).reverse

/-- The sign of a number, as it is written. -/
def signText (v : Int) : Bytes := if v < 0 then [45] else []

theorem lit_append (s t : String) : lit (s ++ t) = lit s ++ lit t := by
  simp [lit]

theorem lit_toString (n : Nat) : lit (toString n) = numeral 10 n := by
  have digits : (toString n).toList = Nat.toDigits 10 n := Nat.toList_repr
  have same : ∀ d ∈ digitsOf 10 n, (Nat.digitChar d).toNat.toUInt8 = digitByte d := by
    intro d mem
    have small := digitsOf_lt (by decide) n d mem
    interval_cases d <;> rfl
  rw [lit, digits, toDigits_eq (by decide), List.map_reverse, List.map_map, numeral]
  exact congrArg List.reverse (List.map_congr_left same)

/-- What `%d` and its like write. -/
theorem Srv.intText_eq (v : Int) : Srv.intText v = signText v ++ numeral 10 v.natAbs := by
  unfold Srv.intText signText
  cases v with
  | ofNat n =>
      rw [if_neg (by simp)]
      exact lit_toString n
  | negSucc n =>
      rw [if_pos (Int.negSucc_lt_zero n), ← lit_toString]
      exact lit_append "-" (toString (n + 1))

/-! ## The loop on digits -/

section Loop

variable {numbase : Nat}

/-- The characters have the digits as their values. -/
def DigitsOf (numbase : Int) (cs : Bytes) (ds : List Nat) : Prop :=
  List.Forall₂ (fun c (d : Nat) => digitAt numbase c = some (d : Int)) cs ds

theorem baseLoop_digits {cs : Bytes} {ds : List Nat} (digits : DigitsOf numbase cs ds) (place : Nat)
    {dec : Int} (word : dec % 2 ^ 64 = dec) :
    baseLoop numbase cs (Int.bmod place (2 ^ 32)) dec =
      some ((dec + wrappedSum (2 * 2 ^ 31) numbase place ds) % 2 ^ 64) := by
  induction digits generalizing place dec with
  | nil => rw [wrappedSum, Int.add_zero, word, baseLoop]
  | @cons c d cs ds first _ ih =>
      have product : Int.bmod (Int.bmod place (2 ^ 32) * numbase) (2 ^ 32) =
          Int.bmod (place * numbase : Nat) (2 ^ 32) := by
        rw [Int.bmod_mul_bmod, Nat.cast_mul]
      have term : Int.bmod (d * Int.bmod place (2 ^ 32)) (2 ^ 32) =
          Int.bmod (d * place : Nat) (2 * 2 ^ 31) := by
        rw [Int.mul_comm, Int.bmod_mul_bmod, Int.mul_comm, Nat.cast_mul,
          show 2 * 2 ^ 31 = 2 ^ 32 from rfl]
      rw [baseLoop, first]
      dsimp only
      rw [product, term, ih _ (Int.emod_emod_of_dvd _ (Int.dvd_refl _)), wrappedSum,
        Int.emod_add_emod, Int.add_assoc]

theorem baseLoop_none {cs : Bytes} (numbase iProduct dec : Int)
    (bad : ∃ c ∈ cs, digitAt numbase c = none) : baseLoop numbase cs iProduct dec = none := by
  induction cs generalizing iProduct dec with
  | nil => simp at bad
  | cons c cs ih =>
      unfold baseLoop
      cases value : digitAt numbase c with
      | none => rfl
      | some b =>
          refine ih _ _ ?_
          obtain ⟨other, mem, none⟩ := bad
          rcases List.mem_cons.mp mem with rfl | behind
          · rw [none] at value
            cases value
          · exact ⟨other, behind, none⟩

end Loop

/-! ## Whole numerals -/

/-- What may stand before the digits. -/
def marks : List Bytes := [[], lit "0x", lit "0X"]

/-- The loop stops behind the mark. -/
theorem _baseToInt_marked {mark cs : Bytes} (numbase : Int) (known : mark ∈ marks)
    (plain : ∀ c ∈ cs, c ≠ 120 ∧ c ≠ 88) :
    _baseToInt (mark ++ cs) numbase = baseLoop numbase cs.reverse 1 0 := by
  have second : cs.getD 1 0 ≠ 120 ∧ cs.getD 1 0 ≠ 88 := by
    rw [List.getD_eq_getElem?_getD]
    cases found : cs[1]? with
    | none => decide
    | some c => exact plain c (List.mem_of_getElem? found)
  simp only [marks, List.mem_cons, List.not_mem_nil, or_false] at known
  rcases known with rfl | rfl | rfl
  · rw [List.nil_append, _baseToInt, if_neg fun marked => marked.2.elim second.1 second.2]
    rfl
  · rfl
  · rfl

/-- The characters of a numeral are digits or capital letters of them. -/
theorem digitByte_value {b d : Nat} (small : d < b) (most : b ≤ 16) :
    digitAt b (digitByte d) = some (d : Int) ∧ digitByte d ≠ 120 ∧ digitByte d ≠ 88 ∧
      digitByte d ≠ 45 := by
  have table : ∀ base < 17, ∀ d < base, digitAt (base : Nat) (digitByte d) = some (d : Int) ∧
      digitByte d ≠ 120 ∧ digitByte d ≠ 88 ∧ digitByte d ≠ 45 := by decide
  exact table b (by omega) d small

theorem mem_numeral {b n : Nat} (large : 1 < b) {c : UInt8} (mem : c ∈ numeral b n) :
    ∃ d, d < b ∧ c = digitByte d := by
  obtain ⟨d, inside, rfl⟩ := List.mem_map.mp (List.mem_reverse.mp mem)
  exact ⟨d, digitsOf_lt large n d inside, rfl⟩

theorem isdigit_numeral {n : Nat} {c : UInt8} (mem : c ∈ numeral 10 n) : isdigit c = true := by
  obtain ⟨d, small, rfl⟩ := mem_numeral (b := 10) (by decide) mem
  interval_cases d <;> rfl

/-- The number that digits write. -/
def digitsValue (cs : Bytes) : Nat := cs.foldl (fun n c => n * 10 + (c.toNat - 48)) 0

theorem digitsValue_digits {ds : List Nat} (small : ∀ d ∈ ds, d < 10) :
    digitsValue (ds.map digitByte).reverse = Nat.ofDigits 10 ds := by
  rw [digitsValue, List.foldl_reverse]
  induction ds with
  | nil => rfl
  | cons d ds ih =>
      have digit : (digitByte d).toNat - 48 = d := by
        have less := small d List.mem_cons_self
        interval_cases d <;> rfl
      rw [List.map_cons, List.foldr_cons, ih fun d mem => small d (List.mem_cons_of_mem _ mem),
        digit, Nat.ofDigits_cons, Nat.add_comm, Nat.mul_comm]

theorem numeral_ne_nil (b n : Nat) : numeral b n ≠ [] := by
  intro empty
  have none : digitsOf b n = [] := by simpa [numeral] using empty
  have value := ofDigits_digitsOf b n
  rw [none] at value
  subst value
  cases none

theorem numeral_digits {b : Nat} (large : 1 < b) (most : b ≤ 16) (n : Nat) :
    DigitsOf b (numeral b n).reverse (digitsOf b n) := by
  rw [numeral, List.reverse_reverse, DigitsOf, List.forall₂_map_left_iff, List.forall₂_same]
  exact fun d mem => (digitByte_value (digitsOf_lt large n d mem) most).1

/-- The sign is taken off before the digits are read. -/
theorem int64Parse_sign {mark cs : Bytes} (base v : Int) (known : mark ∈ marks) (some : cs ≠ [])
    (plain : ∀ c ∈ cs, c ≠ 45) :
    int64Parse (signText v ++ (mark ++ cs)) base =
      (_baseToInt (mark ++ cs) base).map fun dec =>
        if v < 0 then Int.bmod (-Int.bmod dec (2 ^ 64)) (2 ^ 64) else Int.bmod dec (2 ^ 64) := by
  by_cases negative : v < 0
  · simp only [signText, if_pos negative, List.singleton_append, int64Parse,
      if_pos List.getD_cons_zero, List.drop_succ_cons, List.drop_zero]
  · have first : (mark ++ cs).getD 0 0 ≠ 45 := by
      have zero : (48 : UInt8) ≠ 45 := by decide
      simp only [marks, List.mem_cons, List.not_mem_nil, or_false] at known
      rcases known with rfl | rfl | rfl
      · obtain ⟨c, rest, rfl⟩ := List.exists_cons_of_ne_nil some
        exact plain c List.mem_cons_self
      · exact zero
      · exact zero
    simp only [signText, if_neg negative, List.nil_append, int64Parse, if_neg first]

/-- A numeral is read as the sum of its wrapped terms, and its sign is kept. -/
theorem int64Parse_signed {base : Nat} {mark cs : Bytes} {ds : List Nat} (v : Int)
    (known : mark ∈ marks) (some : cs ≠ [])
    (plain : ∀ c ∈ cs, c ≠ 120 ∧ c ≠ 88 ∧ c ≠ 45) (digits : DigitsOf base cs.reverse ds)
    (short : ds.length ≤ 64) :
    int64Parse (signText v ++ (mark ++ cs)) base =
      .some (if v < 0 then -wrappedSum (2 * 2 ^ 31) base 1 ds
        else wrappedSum (2 * 2 ^ 31) base 1 ds) := by
  have bounds := @wrappedSum_bounds base (2 ^ 31) (by decide) 1 ds
  have read : _baseToInt (mark ++ cs) base =
      .some (wrappedSum (2 * 2 ^ 31) base 1 ds % 2 ^ 64) := by
    have loop := baseLoop_digits digits 1 (Int.zero_emod _)
    rw [_baseToInt_marked _ known fun c mem => ⟨(plain c mem).1, (plain c mem).2.1⟩]
    rwa [Int.zero_add] at loop
  have value : Int.bmod (wrappedSum (2 * 2 ^ 31) base 1 ds % 2 ^ 64) (2 ^ 64) =
      wrappedSum (2 * 2 ^ 31) base 1 ds :=
    (Int.emod_bmod _ (2 ^ 64)).trans (Int.bmod_eq_of_le (by omega) (by omega))
  rw [int64Parse_sign base v known some fun c mem => (plain c mem).2.2, read, Option.map_some,
    value, Int.bmod_eq_of_le (by omega) (by omega)]

/-- A numeral is read right if and only if every digit fits the `int` at its place. -/
theorem int64Parse_places {base : Nat} {mark : Bytes} (large : 1 < base) (most : base ≤ 16)
    (v : Int64) (known : mark ∈ marks) :
    int64Parse (signText v.toInt ++ (mark ++ numeral base v.toInt.natAbs)) base = some v.toInt ↔
      ∀ k, v.toInt.natAbs / base ^ k % base * base ^ k < 2 ^ 31 := by
  have low := Int64.le_toInt v
  have high := Int64.toInt_lt v
  have short : (digitsOf base v.toInt.natAbs).length ≤ 64 := by
    have bits : 2 ^ 64 ≤ base ^ 64 := Nat.pow_le_pow_left large 64
    exact length_digitsOf_le large (by decide) (by omega)
  have plain : ∀ c ∈ numeral base v.toInt.natAbs, c ≠ 120 ∧ c ≠ 88 ∧ c ≠ 45 := by
    intro c mem
    obtain ⟨d, small, rfl⟩ := mem_numeral large mem
    exact (digitByte_value small most).2
  have terms := @wrappedSum_eq_iff base (2 ^ 31) (by decide) 1 (digitsOf base v.toInt.natAbs)
  rw [ofDigits_digitsOf, Nat.one_mul] at terms
  have places : (∀ k, (digitsOf base v.toInt.natAbs).getD k 0 * (1 * base ^ k) < 2 ^ 31) ↔
      ∀ k, v.toInt.natAbs / base ^ k % base * base ^ k < 2 ^ 31 :=
    forall_congr' fun k => by rw [getD_digitsOf large, Nat.one_mul]
  rw [int64Parse_signed v.toInt known (numeral_ne_nil _ _) plain (numeral_digits large most _)
    short, Option.some.injEq, ← places, ← terms]
  split <;> omega

theorem decimal_places_iff (n : Nat) :
    (∀ k, n / 10 ^ k % 10 * 10 ^ k < 2 ^ 31) ↔ n < 3 * 10 ^ 9 := by
  constructor
  · intro fit
    have below : n < 10 ^ 10 := lt_of_places_fit (by decide) fit (by decide)
    have lead := fit 9
    omega
  · intro small k
    by_cases high : 10 ≤ k
    · have place : 10 ^ 10 ≤ 10 ^ k := Nat.pow_le_pow_right (by decide) high
      rw [Nat.div_eq_of_lt (by omega), Nat.zero_mod, Nat.zero_mul]
      exact Nat.two_pow_pos 31
    · interval_cases k <;> omega

theorem hexa_places_iff (n : Nat) : (∀ k, n / 16 ^ k % 16 * 16 ^ k < 2 ^ 31) ↔ n < 2 ^ 31 := by
  constructor
  · intro fit
    have below : n < 16 ^ 8 := lt_of_places_fit (by decide) fit (by decide)
    have lead := fit 7
    omega
  · intro small k
    have part : n / 16 ^ k % 16 * 16 ^ k ≤ n :=
      (Nat.mul_le_mul_right _ (Nat.mod_le _ _)).trans (Nat.div_mul_le_self n _)
    omega

/-! ## Letters -/

def IsLower (c : UInt8) : Prop := 97 ≤ c ∧ c ≤ 122

instance (c : UInt8) : Decidable (IsLower c) := inferInstanceAs (Decidable (_ ∧ _))

theorem toupper_eq {c : UInt8} (upper : ¬ IsLower c) : toupper c = c := by
  unfold toupper
  rw [if_neg]
  rw [Bool.and_eq_true, decide_eq_true_eq, decide_eq_true_eq]
  exact upper

/-- The distance of a lower-case letter from `A` is outside of the table. -/
theorem digitAt_lower {c : UInt8} (lower : IsLower c) : digitAt 16 c = none := by
  have low : 97 ≤ c.toNat := lower.1
  have high : c.toNat ≤ 122 := lower.2
  have letter : isalpha c = true := by
    simp only [isalpha, Bool.or_eq_true, Bool.and_eq_true, decide_eq_true_eq]
    exact .inr lower
  have above : 65 ≤ c := by
    show 65 ≤ c.toNat
    omega
  have value : schar c = c.toNat := Int.bmod_eq_of_le (by omega) (by omega)
  have behind : 6 ≤ (schar c - 65).toNat := by omega
  rw [digitAt, if_pos ⟨by decide, letter⟩, if_pos above, hexaNumeric]
  split
  · exact List.getElem?_eq_none behind
  · rfl

/-- Capitals, and small letters for some of them. -/
theorem hexa_chars {cs : Bytes} {n : Nat} (spelt : cs.map toupper = numeral 16 n) :
    cs ≠ [] ∧ ∀ c ∈ cs, c ≠ 120 ∧ c ≠ 88 ∧ c ≠ 45 := by
  constructor
  · rintro rfl
    exact numeral_ne_nil 16 n spelt.symm
  · intro c mem
    obtain ⟨d, small, same⟩ := mem_numeral (b := 16) (n := n) (by decide)
      (spelt ▸ List.mem_map_of_mem mem)
    have others := (digitByte_value small (Nat.le_refl 16)).2
    rw [← same] at others
    refine ⟨?_, ?_, ?_⟩ <;> rintro rfl
    · exact others.2.1 rfl
    · exact others.2.1 rfl
    · exact others.2.2 rfl

/-- A small letter among the digits is an access outside of the table. -/
theorem int64Parse_lower {mark cs : Bytes} (v : Int) (known : mark ∈ marks)
    (plain : ∀ c ∈ cs, c ≠ 120 ∧ c ≠ 88 ∧ c ≠ 45) (lower : ∃ c ∈ cs, IsLower c) :
    int64Parse (signText v ++ (mark ++ cs)) 16 = none := by
  obtain ⟨c, mem, small⟩ := lower
  rw [int64Parse_sign 16 v known (List.ne_nil_of_mem mem) fun c mem => (plain c mem).2.2,
    _baseToInt_marked _ known fun c mem => ⟨(plain c mem).1, (plain c mem).2.1⟩,
    baseLoop_none 16 1 0 ⟨c, List.mem_reverse.mpr mem, digitAt_lower small⟩, Option.map_none]

theorem int64Parse_decimal (v : Int64) :
    int64Parse (Srv.intText v.toInt) 10 = some v.toInt ↔ v.toInt.natAbs < 3 * 10 ^ 9 := by
  rw [Srv.intText_eq, ← decimal_places_iff]
  exact @int64Parse_places 10 [] (by decide) (by decide) v (by decide)

theorem int64Parse_hexa (v : Int64) {mark cs : Bytes} (known : mark ∈ marks)
    (spelt : cs.map toupper = numeral 16 v.toInt.natAbs) :
    int64Parse (signText v.toInt ++ (mark ++ cs)) 16 = some v.toInt ↔
      v.toInt.natAbs < 2 ^ 31 ∧ ∀ c ∈ cs, ¬ IsLower c := by
  by_cases lower : ∃ c ∈ cs, IsLower c
  · rw [int64Parse_lower _ known (hexa_chars spelt).2 lower]
    obtain ⟨c, mem, small⟩ := lower
    exact iff_of_false (by simp) fun fits => fits.2 c mem small
  · have upper : ∀ c ∈ cs, ¬ IsLower c := fun c mem small => lower ⟨c, mem, small⟩
    have whole : cs = numeral 16 v.toInt.natAbs := by
      calc cs = cs.map id := (List.map_id cs).symm
        _ = cs.map toupper := List.map_congr_left fun c mem => (toupper_eq (upper c mem)).symm
        _ = numeral 16 v.toInt.natAbs := spelt
    rw [and_iff_left upper, whole, ← hexa_places_iff]
    exact @int64Parse_places 16 mark (by decide) (by decide) v known

/-- A decimal numeral is read as its number below 3 000 000 000, a hexadecimal one below 2^31
when its letters are capitals. -/
theorem int64Parse_iff (v : Int64) :
    (int64Parse (Srv.intText v.toInt) 10 = some v.toInt ↔ v.toInt.natAbs < 3 * 10 ^ 9) ∧
      ∀ mark ∈ marks, ∀ cs : Bytes, cs.map toupper = numeral 16 v.toInt.natAbs →
        (int64Parse (signText v.toInt ++ (mark ++ cs)) 16 = some v.toInt ↔
          v.toInt.natAbs < 2 ^ 31 ∧ ∀ c ∈ cs, ¬ IsLower c) :=
  ⟨int64Parse_decimal v, fun _ known _ spelt => int64Parse_hexa v known spelt⟩

theorem int64Parse_31 :
    int64Parse (signText (-31) ++ (lit "0x" ++ lit "1F")) 16 = some (-31) :=
  ((int64Parse_iff (-31)).2 (lit "0x") (by decide) (lit "1F") (by decide)).mpr
    ⟨by decide, fun c mem => of_decide_eq_true (List.all_eq_true.mp
      (show (lit "1F").all (fun c => decide (¬ IsLower c)) = true by decide) c mem)⟩

/-- The place of the digit 3 in 3 000 000 000 is cut to 32 bits. -/
theorem three_billion_lost : ¬ ∀ v : Int64, int64Parse (Srv.intText v.toInt) 10 = some v.toInt := by
  intro reads
  exact absurd ((int64Parse_decimal 3000000000).mp (reads 3000000000)) (by decide)

end Jspp.Splc
