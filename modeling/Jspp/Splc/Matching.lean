/-
# Splc.Matching -- a text at the beginning, at the end and inside of a string

With case ignored, characters are compared after `toupper`: two texts are the
same when they are equal `folded`.  The searches are compared here with the
notions of lists.

* `stringEndsWith`, `stringIndexOf`: the loops.
* `Occurs`: the text stands at a position.
* `startsText_iff`: the loop of `stringStartsWith` finds prefixes.
* `stringEndsWith_iff`: a string does not end with itself.
* `stringIndexOf_iff`: the first character is compared as it stands.
* `testsAgree_iff`: when the three agree with the notions of lists.
-/
import Jspp.Splc.Sqllex

namespace Jspp.Splc

set_option autoImplicit false

/-- `stringEndsWith`: no position is left when the two are of one length. -/
def stringEndsWith (str : Str) (cp : Bytes) (ignoreCase : Bool) : Bool :=
  let pos : Int := str.m_len - cp.length
  if pos ≤ 0 then false
  else startsText ignoreCase ((str.array.take str.m_len).drop pos.toNat) cp

/-- The loop of `stringIndexOf` from position `pos` on, for a text that begins with `first`. -/
def indexFrom (ignoreCase : Bool) (first : UInt8) (more : Bytes) : Bytes → Nat → Option Nat
  | [], _ => none
  | c :: rest, pos =>
      if c == first && startsText ignoreCase rest more then some pos
      else indexFrom ignoreCase first more rest (pos + 1)

/-- `stringIndexOf`; `none` is -1. -/
def stringIndexOf (str : Str) (cp : Bytes) (start : Nat) (ignoreCase : Bool) : Option Nat :=
  match cp with
  | [] => none
  | first :: more =>
      indexFrom ignoreCase first more ((str.array.take str.m_len).drop start) start

@[simp] theorem own_array (text : Bytes) :
    (stringTakeOwnership text).array.take (stringTakeOwnership text).m_len = text := by
  simp [Str.array, stringTakeOwnership]

/-! ## The notions of lists -/

/-- The text as it is compared. -/
def folded (ignoreCase : Bool) (text : Bytes) : Bytes :=
  if ignoreCase then text.map toupper else text

@[simp] theorem folded_nil (ignoreCase : Bool) : folded ignoreCase [] = [] := by
  cases ignoreCase <;> rfl

@[simp] theorem length_folded (ignoreCase : Bool) (text : Bytes) :
    (folded ignoreCase text).length = text.length := by
  cases ignoreCase <;> simp [folded]

theorem folded_drop (ignoreCase : Bool) (text : Bytes) (n : Nat) :
    folded ignoreCase (text.drop n) = (folded ignoreCase text).drop n := by
  cases ignoreCase <;> simp [folded, List.map_drop]

theorem folded_cons (ignoreCase : Bool) (c : UInt8) (text : Bytes) :
    folded ignoreCase (c :: text) =
      (if ignoreCase then toupper c else c) :: folded ignoreCase text := by
  cases ignoreCase <;> rfl

theorem sameCh_iff (ignoreCase : Bool) (a b : UInt8) :
    sameCh ignoreCase a b = true ↔
      (if ignoreCase then toupper a else a) = if ignoreCase then toupper b else b := by
  cases ignoreCase <;> simp [sameCh]

theorem startsText_iff (ignoreCase : Bool) (s t : Bytes) :
    startsText ignoreCase s t = true ↔ folded ignoreCase t <+: folded ignoreCase s := by
  induction t generalizing s with
  | nil => simp [startsText]
  | cons b t ih =>
      cases s with
      | nil => simp [startsText, folded_cons]
      | cons a s =>
          rw [startsText, Bool.and_eq_true, sameCh_iff, ih, folded_cons, folded_cons,
            List.cons_prefix_cons]
          exact and_congr_left fun _ => eq_comm

/-- The text stands in the string at the position. -/
def Occurs (ignoreCase : Bool) (s t : Bytes) (p : Nat) : Prop :=
  folded ignoreCase t <+: (folded ignoreCase s).drop p

theorem startsText_drop (ignoreCase : Bool) (s t : Bytes) (p : Nat) :
    startsText ignoreCase (s.drop p) t = true ↔ Occurs ignoreCase s t p := by
  rw [startsText_iff, folded_drop]
  rfl

theorem Occurs.room {ignoreCase : Bool} {s t : Bytes} {p : Nat} (occurs : Occurs ignoreCase s t p)
    (some : t ≠ []) : p + t.length ≤ s.length := by
  have size := occurs.length_le
  rw [List.length_drop, length_folded, length_folded] at size
  have more := List.length_pos_iff.mpr some
  omega

/-- The least position from `i` on with the property; -1 when there is none. -/
def LeastFrom (i : Nat) (P : Nat → Prop) : Option Nat → Prop
  | none => ∀ p, i ≤ p → ¬ P p
  | some p => i ≤ p ∧ P p ∧ ∀ q, i ≤ q → q < p → ¬ P q

theorem LeastFrom.unique {i : Nat} {P : Nat → Prop} {a b : Option Nat} (left : LeastFrom i P a)
    (right : LeastFrom i P b) : a = b := by
  cases a with
  | none =>
      cases b with
      | none => rfl
      | some q => exact absurd right.2.1 (left q right.1)
  | some p =>
      cases b with
      | none => exact absurd left.2.1 (right p left.1)
      | some q =>
          rcases Nat.lt_trichotomy p q with less | rfl | less
          · exact absurd left.2.1 (right.2.2 p left.1 less)
          · rfl
          · exact absurd right.2.1 (left.2.2 q right.1 less)

/-- The least position with a property is one with a stronger one when that comes first. -/
theorem LeastFrom.weaker {i : Nat} {P Q : Nat → Prop} (stronger : ∀ p, P p → Q p) {a : Option Nat}
    (least : LeastFrom i P a) :
    LeastFrom i Q a ↔ ∀ p, i ≤ p → Q p → ∃ q, i ≤ q ∧ q ≤ p ∧ P q := by
  cases a with
  | none =>
      constructor
      · intro none p le holds
        exact absurd holds (none p le)
      · intro first p le holds
        obtain ⟨q, leq, -, found⟩ := first p le holds
        exact least q leq found
  | some a =>
      obtain ⟨le, found, before⟩ := least
      constructor
      · rintro ⟨-, -, none⟩ p lep holds
        refine ⟨a, le, ?_, found⟩
        by_contra less
        exact none p lep (by omega) holds
      · intro first
        refine ⟨le, stronger a found, fun q leq less holds => ?_⟩
        obtain ⟨r, ler, leq', found'⟩ := first q leq holds
        exact before r ler (by omega) found'

/-! ## The loops -/

variable {ignoreCase : Bool}

theorem stringStartsWith_iff (s t : Bytes) :
    stringStartsWith (stringTakeOwnership s) t ignoreCase = true ↔
      folded ignoreCase t <+: folded ignoreCase s := by
  unfold stringStartsWith
  split
  case isTrue short =>
    refine iff_of_false Bool.false_ne_true fun starts => ?_
    have size := starts.length_le
    rw [length_folded, length_folded] at size
    exact absurd short (by simp only [stringTakeOwnership]; omega)
  case isFalse => exact startsText_iff ignoreCase s t

/-- The test of the length leaves out the string itself. -/
theorem stringEndsWith_iff (s t : Bytes) :
    stringEndsWith (stringTakeOwnership s) t ignoreCase = true ↔
      folded ignoreCase t <:+ folded ignoreCase s ∧ s.length ≠ t.length := by
  have suffix : t.length ≤ s.length →
      (folded ignoreCase t <+: (folded ignoreCase s).drop (s.length - t.length) ↔
        folded ignoreCase t <:+ folded ignoreCase s) := by
    intro room
    have size : ((folded ignoreCase s).drop (s.length - t.length)).length =
        (folded ignoreCase t).length := by
      rw [List.length_drop, length_folded, length_folded]
      omega
    constructor
    · intro starts
      rw [starts.eq_of_length size.symm]
      exact List.drop_suffix _ _
    · intro ends
      have same := List.suffix_iff_eq_drop.mp ends
      rw [length_folded, length_folded] at same
      exact ⟨[], by rw [List.append_nil]; exact same⟩
  unfold stringEndsWith
  rw [own_array, show (stringTakeOwnership s).m_len = s.length from rfl]
  dsimp only
  split
  case isTrue short =>
    refine iff_of_false Bool.false_ne_true fun ⟨ends, other⟩ => ?_
    have size := ends.length_le
    rw [length_folded, length_folded] at size
    omega
  case isFalse more =>
    have position : ((s.length : Int) - t.length).toNat = s.length - t.length := by omega
    rw [position, startsText_drop]
    unfold Occurs
    rw [suffix (by omega)]
    exact (and_iff_left (by omega)).symm

/-- The loop finds the text where its first character stands as it is. -/
theorem indexFrom_least (first : UInt8) (more : Bytes) (front rest : Bytes) :
    LeastFrom front.length
      (fun p => (front ++ rest)[p]? = some first ∧
        Occurs ignoreCase (front ++ rest) (first :: more) p)
      (indexFrom ignoreCase first more rest front.length) := by
  induction rest generalizing front with
  | nil =>
      intro p le here
      have inside : p < (front ++ []).length := (List.getElem?_eq_some_iff.mp here.1).1
      rw [List.append_nil] at inside
      omega
  | cons c rest ih =>
      have next := ih (front ++ [c])
      rw [List.length_append, List.length_singleton, List.append_assoc,
        List.singleton_append] at next
      have here : ((front ++ c :: rest)[front.length]? = some first ∧
          Occurs ignoreCase (front ++ c :: rest) (first :: more) front.length) ↔
          (c == first && startsText ignoreCase rest more) = true := by
        rw [← startsText_drop, List.drop_left, startsText, Bool.and_eq_true, Bool.and_eq_true,
          List.getElem?_append_right (Nat.le_refl _), Nat.sub_self, List.getElem?_cons_zero,
          Option.some.injEq, beq_iff_eq]
        constructor
        · rintro ⟨rfl, -, starts⟩
          exact ⟨rfl, starts⟩
        · rintro ⟨rfl, starts⟩
          exact ⟨rfl, by simp [sameCh], starts⟩
      unfold indexFrom
      split
      case isTrue found => exact ⟨Nat.le_refl _, here.mpr found, fun q le less => by omega⟩
      case isFalse missed =>
        have behind : ∀ p, front.length ≤ p →
            ((front ++ c :: rest)[p]? = some first ∧
              Occurs ignoreCase (front ++ c :: rest) (first :: more) p) → front.length + 1 ≤ p := by
          intro p le found
          rcases Nat.eq_or_lt_of_le le with rfl | less
          · exact absurd (here.mp found) missed
          · exact less
        cases result : indexFrom ignoreCase first more rest (front.length + 1) with
        | none =>
            rw [result] at next
            exact fun p le found => next p (behind p le found) found
        | some a =>
            rw [result] at next
            exact ⟨by have := next.1; omega, next.2.1,
              fun q le less found => next.2.2 q (behind q le found) less found⟩

theorem stringIndexOf_least (s : Bytes) (first : UInt8) (more : Bytes) (i : Nat) :
    LeastFrom i (fun p => s[p]? = some first ∧ Occurs ignoreCase s (first :: more) p)
      (stringIndexOf (stringTakeOwnership s) (first :: more) i ignoreCase) := by
  rw [stringIndexOf, own_array]
  by_cases inside : i ≤ s.length
  · have size : (s.take i).length = i := by
      rw [List.length_take]
      omega
    have least := @indexFrom_least ignoreCase first more (s.take i) (s.drop i)
    rwa [List.take_append_drop, size] at least
  · rw [List.drop_eq_nil_of_le (by omega)]
    intro p le found
    have := (List.getElem?_eq_some_iff.mp found.1).1
    omega

/-- The search finds the least position at which the text stands if and only if no other
spelling of its first character comes first. -/
theorem stringIndexOf_iff (s : Bytes) (first : UInt8) (more : Bytes) (i : Nat) :
    LeastFrom i (Occurs ignoreCase s (first :: more))
        (stringIndexOf (stringTakeOwnership s) (first :: more) i ignoreCase) ↔
      ∀ p, i ≤ p → Occurs ignoreCase s (first :: more) p →
        ∃ q, i ≤ q ∧ q ≤ p ∧ s[q]? = some first ∧ Occurs ignoreCase s (first :: more) q :=
  LeastFrom.weaker (fun _ found => found.2) (stringIndexOf_least s first more i)

/-- The tests agree with the notions of lists. -/
structure TestsAgree (ignoreCase : Bool) (s t : Bytes) (i : Nat) : Prop where
  starts : stringStartsWith (stringTakeOwnership s) t ignoreCase = true ↔
    folded ignoreCase t <+: folded ignoreCase s
  ends : stringEndsWith (stringTakeOwnership s) t ignoreCase = true ↔
    folded ignoreCase t <:+ folded ignoreCase s
  index : LeastFrom i (Occurs ignoreCase s t)
    (stringIndexOf (stringTakeOwnership s) t i ignoreCase)

theorem ends_right (s t : Bytes) :
    (stringEndsWith (stringTakeOwnership s) t ignoreCase = true ↔
        folded ignoreCase t <:+ folded ignoreCase s) ↔
      folded ignoreCase s ≠ folded ignoreCase t := by
  rw [stringEndsWith_iff]
  constructor
  · intro right same
    have size := congrArg List.length same
    rw [length_folded, length_folded] at size
    exact (right.mpr (same ▸ List.suffix_refl _)).2 size
  · intro other
    refine and_iff_left_of_imp fun ends size => other ?_
    exact (ends.eq_of_length (by rw [length_folded, length_folded, size])).symm

/-- The tests agree with the notions of lists if and only if the two texts are not the same, and
the text is found with another spelling of its first character only behind one with its own. -/
theorem testsAgree_iff (s : Bytes) (first : UInt8) (more : Bytes) (i : Nat) :
    TestsAgree ignoreCase s (first :: more) i ↔
      folded ignoreCase s ≠ folded ignoreCase (first :: more) ∧
        ∀ p, i ≤ p → Occurs ignoreCase s (first :: more) p →
          ∃ q, i ≤ q ∧ q ≤ p ∧ s[q]? = some first ∧ Occurs ignoreCase s (first :: more) q := by
  rw [← stringIndexOf_iff, ← ends_right]
  exact ⟨fun agree => ⟨agree.ends, agree.index⟩,
    fun ⟨ends, index⟩ => ⟨stringStartsWith_iff s _, ends, index⟩⟩

/-- A string of one character does not end with itself. -/
theorem ends_not_itself : ¬ ∀ (ignoreCase : Bool) (s t : Bytes) (i : Nat), 0 ∉ s → 0 ∉ t → t ≠ [] →
    TestsAgree ignoreCase s t i := by
  intro agree
  have letter := (agree false [97] [97] 0 (by decide) (by decide) (by decide)).ends
  exact absurd (letter.mpr (List.suffix_refl _)) (by decide)

end Jspp.Splc
