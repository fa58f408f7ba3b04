/-
# Splc.Copies -- what the operations on strings make of a text

`stringNew` cuts the text it copies, and all other operations but `stringCat` go
through it, `stringSubstring` after a cut of its own.  A string `IsOf` a text
when it has its characters and its length.

* `Making`: the operations, with the text each of them is to make.
* `Making.make_isOf`: which of them do, on which texts.
* `Making.chain_isOf`: strings made one from another.
-/
import Jspp.Splc.Text

namespace Jspp.Splc

set_option autoImplicit false

/-- The string has the text and its length. -/
structure Str.IsOf (s : Str) (text : Bytes) : Prop where
  chars : s.m_cstr = text
  len : s.m_len = text.length
  strlen : s.m_cstr.length = s.m_len

theorem isOf_takeOwnership (text : Bytes) : (stringTakeOwnership text).IsOf text := ⟨rfl, rfl, rfl⟩

theorem Str.IsOf.eq {s : Str} {text : Bytes} (isOf : s.IsOf text) :
    s = stringTakeOwnership text := by
  obtain ⟨cstr, len⟩ := s
  obtain ⟨chars, size, -⟩ := isOf
  dsimp only at chars size
  rw [chars, size]
  rfl

/-! ## The operations -/

section Operations

variable [Copying]

/-- The loop of `stringToUpperCh` runs to the NUL. -/
def stringToUpper (str : Str) : Str :=
  let s2 := stringNew str.m_cstr
  { s2 with m_cstr := s2.m_cstr.map toupper }

/-- A character that is not the NUL. -/
abbrev Ch := { c : UInt8 // c ≠ 0 }

/-- The loop of `StrReplaceCh` runs over the length field; the NUL is not replaced. -/
def stringReplaceCh (str : Str) (frm dest : Ch) : Str :=
  let ret := stringNew str.m_cstr
  { ret with m_cstr := ret.m_cstr.map fun c => if c = frm.1 then dest.1 else c }

/-- The characters from 0 to `strlen( s ) - 1` change places. -/
def stringReverse (str : Str) : Str :=
  let ret := stringDup str
  { ret with m_cstr := ret.m_cstr.reverse }

/-- The operations of the library that make a string. -/
inductive Making where
  | new (c : Bytes)
  | dup
  | toUpper
  | replaceCh (frm dest : Ch)
  | reverse
  | substring (i n : Nat)
  | cat (cp : Bytes)

namespace Making

/-- What the operation makes of a string. -/
def make (s : Str) : Making → Str
  | new c => stringNew c
  | dup => stringDup s
  | toUpper => stringToUpper s
  | replaceCh frm dest => stringReplaceCh s frm dest
  | reverse => stringReverse s
  | substring i n => stringSubstring s i n
  | cat cp => stringCat s cp cp.length

omit [Copying] in
/-- The text it is to make. -/
def text (c : Bytes) : Making → Bytes
  | new c => c
  | dup => c
  | toUpper => c.map toupper
  | replaceCh frm dest => c.map fun x => if x = frm.1 then dest.1 else x
  | reverse => c.reverse
  | substring i n => (c.drop i).take n
  | cat cp => c ++ cp

/-- There is nothing to copy, or the copy is that of `stringCat`. -/
def Whole (c : Bytes) : Making → Prop
  | new c => c = []
  | substring i n => n = 0 ∨ c.length ≤ i
  | cat _ => True
  | dup | toUpper | replaceCh _ _ | reverse => c = []

end Making

end Operations

/-! ## What is copied whole -/

theorem stringNew_isOf {text : Bytes} : (stringNew text).IsOf text ↔ text = [] :=
  ⟨fun isOf => (stringNew_whole text).mp isOf.chars, by rintro rfl; exact ⟨rfl, rfl, rfl⟩⟩

/-- An operation on the copy keeps its length, so it is short of the text, too. -/
theorem mapped_isOf {text : Bytes} (f : Bytes → Bytes) (size : ∀ t, (f t).length = t.length) :
    ({ stringNew text with m_cstr := f (stringNew text).m_cstr } : Str).IsOf (f text) ↔
      text = [] := by
  constructor
  · intro isOf
    have strlen : (f (stringNew text).m_cstr).length = text.length := isOf.strlen
    rw [size, stringNew_cstr, List.length_dropLast] at strlen
    exact List.length_eq_zero_iff.mp (by omega)
  · rintro rfl
    exact ⟨rfl, (size []).symm, size []⟩

/-- The characters from the start on, at most as many as are asked for and as there are. -/
theorem stringSubstring_piece [Copying] (str : Str) (i : Nat) {n : Nat} (more : n ≠ 0) :
    stringSubstring str i n =
      stringNew (Copying.copy (str.m_cstr.drop (min i str.m_len))
        (min n (str.m_len - min i str.m_len))) := by
  have size : (if min i str.m_len + n > str.m_len then str.m_len - min i str.m_len else n) =
      min n (str.m_len - min i str.m_len) := by
    split <;> omega
  simp only [stringSubstring, if_neg more, size]

/-- The piece of the text is cut before it is copied. -/
theorem stringSubstring_isOf (text : Bytes) (i n : Nat) :
    (stringSubstring (stringTakeOwnership text) i n).IsOf ((text.drop i).take n) ↔
      n = 0 ∨ text.length ≤ i := by
  constructor
  · intro isOf
    by_contra more
    rw [not_or] at more
    have len := isOf.len
    rw [stringSubstring_piece _ _ more.1, stringNew_len, copy_cut] at len
    simp only [stringTakeOwnership, List.length_take, List.length_drop] at len
    omega
  · intro none
    have empty : (text.drop i).take n = [] := by
      rcases none with rfl | short
      · rfl
      · rw [List.drop_eq_nil_of_le short, List.take_nil]
    rw [empty]
    by_cases zero : n = 0
    · rw [zero]
      exact stringNew_isOf.mpr rfl
    · have drops : text.drop (min i text.length) = [] := List.drop_eq_nil_of_le (by omega)
      rw [stringSubstring_piece _ _ zero, copy_cut]
      simp only [stringTakeOwnership, drops, List.take_nil]
      exact stringNew_isOf.mpr rfl

/-- The length that `stringCat` computes leaves room for the NUL. -/
theorem stringCat_isOf (text cp : Bytes) :
    (stringCat (stringTakeOwnership text) cp cp.length).IsOf (text ++ cp) := by
  have front : text.take (text.length + cp.length + 1 - 1) = text :=
    List.take_of_length_le (by omega)
  have all : (text ++ cp).take (text.length + cp.length + 1 - 1) = text ++ cp :=
    List.take_of_length_le (by rw [List.length_append]; omega)
  simp only [stringCat, stringTakeOwnership, StrCatLen, copy_cut, front, all]
  exact isOf_takeOwnership _

namespace Making

/-- One operation on a string of the text `c`. -/
theorem make_isOf (c : Bytes) (m : Making) :
    (m.make (stringTakeOwnership c)).IsOf (m.text c) ↔ m.Whole c := by
  cases m with
  | new c => exact stringNew_isOf
  | dup => exact stringNew_isOf
  | toUpper => exact mapped_isOf (List.map toupper) fun _ => List.length_map _
  | replaceCh frm dest =>
      exact mapped_isOf (List.map fun x => if x = frm.1 then dest.1 else x)
        fun _ => List.length_map _
  | reverse => exact mapped_isOf List.reverse fun _ => List.length_reverse
  | substring i n => exact stringSubstring_isOf c i n
  | cat cp => exact iff_of_true (stringCat_isOf c cp) trivial

/-- Every operation of a chain finds nothing to copy, or is `stringCat`. -/
def AllWhole : Bytes → List Making → Prop
  | _, [] => True
  | c, m :: ms => m.Whole c ∧ AllWhole (m.text c) ms

theorem chain_isOf {c : Bytes} {ms : List Making} (whole : AllWhole c ms) :
    (ms.foldl (fun s m => m.make s) (stringTakeOwnership c)).IsOf
      (ms.foldl (fun c m => m.text c) c) := by
  induction ms generalizing c with
  | nil => exact isOf_takeOwnership c
  | cons m ms ih =>
      rw [List.foldl_cons, List.foldl_cons, ((make_isOf c m).mpr whole.1).eq]
      exact ih whole.2

/-- An operation on a string of the text `c` makes what it is to make if and only if there is
nothing to copy or it is `stringCat`; so do operations that follow one another. -/
theorem whole_iff (c : Bytes) :
    (∀ m : Making, (m.make (stringTakeOwnership c)).IsOf (m.text c) ↔ m.Whole c) ∧
      ∀ ms : List Making, AllWhole c ms →
        (ms.foldl (fun s m => m.make s) (stringTakeOwnership c)).IsOf
          (ms.foldl (fun c m => m.text c) c) :=
  ⟨make_isOf c, fun _ whole => chain_isOf whole⟩

/-- What `stringCat` joins to an empty string. -/
theorem whole_joined :
    ([Making.cat (lit "ab"), .cat (lit "c")].foldl (fun s m => m.make s)
      (stringTakeOwnership [])).IsOf (lit "abc") :=
  (whole_iff []).2 [.cat (lit "ab"), .cat (lit "c")] ⟨trivial, trivial, trivial⟩

/-- A text of one character is not copied. -/
theorem not_whole : ¬ ∀ (c : Bytes) (m : Making), 0 ∉ m.text c →
    (m.make (stringTakeOwnership c)).IsOf (m.text c) := by
  intro whole
  have letter : (stringNew [97]).IsOf [97] := whole [] (.new [97]) (by decide)
  exact absurd (stringNew_isOf.mp letter) (by decide)

end Making

end Jspp.Splc
