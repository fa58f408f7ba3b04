/-
# Splc.Splitting -- the spans between delimiters

`stringSplit` cuts a span in front of every position at which the delimiter
stands.  The next span begins behind the delimiter, but the next search begins
one character behind its first, and what is left at the end is a span only when
it is not empty.

* `Piece`: an element of the vector, with the ends it was cut at.
* `splitLoop`, `stringSplit`.
* `splitLoop_induction`: from one occurrence of the delimiter to the next.
* `splitLoop_joined`: what is left of the string, joined.
* `stringSplit_splits`: the elements of the vector.
* `stringSplit_names`: at hyphens, the split that makes the name of a parameter.
-/
import Mathlib.Data.List.Chain
import Jspp.Splc.Copies
import Jspp.Splc.Matching
import Jspp.Splc.Lexing
import Jspp.Splc.Procbody

namespace Jspp.Splc.Spans

set_option autoImplicit false

/-! ## string.c -/

/-- What is found is a position of the string, and not before the start. -/
theorem stringIndexOf_bounds {str : Str} {cp : Bytes} {start p : Nat} {ignoreCase : Bool}
    (found : stringIndexOf str cp start ignoreCase = some p) : start ≤ p ∧ p < str.m_len := by
  have bounds : ∀ (first : UInt8) (more rest : Bytes) (pos : Nat),
      indexFrom ignoreCase first more rest pos = some p → pos ≤ p ∧ p < pos + rest.length := by
    intro first more rest
    induction rest with
    | nil => intro pos found; cases found
    | cons c rest ih =>
        intro pos found
        rw [indexFrom] at found
        split at found
        · obtain rfl := Option.some.inj found
          exact ⟨Nat.le_refl _, by rw [List.length_cons]; omega⟩
        · have := ih (pos + 1) found
          rw [List.length_cons]
          omega
  cases cp with
  | nil => cases found
  | cons first more =>
      have inside := bounds first more _ start found
      rw [List.length_drop, List.length_take] at inside
      omega

section Source

variable [Copying]

/-- `stringMid`; in the release build a negative length is cut to 0. -/
def stringMid (str : Str) (start stop : Nat) : Str := stringSubstring str start (stop - start)

def stringRight (str : Str) (len : Nat) : Str :=
  let len := if str.m_len < len then str.m_len else len
  stringSubstringFrom str (str.m_len - len)

/-- A string of the vector, and the ends it was cut at. -/
structure Piece where
  start : Nat
  stop : Nat
  span : Str

/-- What follows the loop: the rest of the string. -/
def lastPiece (str : Str) (pos : Nat) : List Piece :=
  if 0 < str.m_len - pos then [⟨pos, str.m_len, stringRight str (str.m_len - pos)⟩] else []

/-- The loop of `stringSplit`. -/
def splitLoop (str : Str) (cp : Bytes) (pos delimpos : Nat) : List Piece :=
  if pos < str.m_len then
    ⟨pos, delimpos, stringMid str pos delimpos⟩ ::
      match _next : stringIndexOf str cp (delimpos + 1) false with
      | none => lastPiece str (delimpos + cp.length)
      | some delimpos' => splitLoop str cp (delimpos + cp.length) delimpos'
  else lastPiece str pos
termination_by str.m_len - delimpos
decreasing_by
  have bounds := stringIndexOf_bounds _next
  omega

/-- `stringSplit`; a string without the delimiter is one span. -/
def stringSplit (str : Str) (cp : Bytes) : List Piece :=
  match stringIndexOf str cp 0 false with
  | none => [⟨0, str.m_len, stringDup str⟩]
  | some delimpos => splitLoop str cp 0 delimpos

end Source

/-! ## Pieces of a text -/

section Exact

variable [Copying]

theorem stringSubstring_exact (exact : Copying.Exact) (s : Bytes) (i n : Nat) :
    stringSubstring (stringTakeOwnership s) i n = stringTakeOwnership ((s.drop i).take n) := by
  by_cases zero : n = 0
  · rw [zero, stringSubstring, if_pos rfl, stringNew_exact exact, List.take_zero]
  · rw [stringSubstring_piece _ _ zero, exact, stringNew_exact exact]
    congr 1
    show ((s.drop (min i s.length)).take (min n (s.length - min i s.length))) = (s.drop i).take n
    by_cases inside : i ≤ s.length
    · rw [Nat.min_eq_left inside, ← List.length_drop, List.take_eq_take_min]
      simp
    · rw [List.drop_eq_nil_of_le (by omega), List.drop_eq_nil_of_le (by omega), List.take_nil,
        List.take_nil]

theorem stringMid_exact (exact : Copying.Exact) (s : Bytes) (start stop : Nat) :
    stringMid (stringTakeOwnership s) start stop =
      stringTakeOwnership ((s.drop start).take (stop - start)) :=
  stringSubstring_exact exact s start (stop - start)

theorem stringRight_exact (exact : Copying.Exact) (s : Bytes) {pos : Nat}
    (inside : pos ≤ s.length) :
    stringRight (stringTakeOwnership s) (s.length - pos) = stringTakeOwnership (s.drop pos) := by
  have len : (stringTakeOwnership s).m_len = s.length := rfl
  have start : s.length - (s.length - pos) = pos := by omega
  rw [stringRight, len, if_neg (by omega), stringSubstringFrom, len, start,
    stringSubstring_exact exact, ← List.length_drop, List.take_length]

end Exact

/-! ## Occurrences -/

theorem occurs_false {s t : Bytes} {p : Nat} : Occurs false s t p ↔ t <+: s.drop p := Iff.rfl

/-- With case kept, the first character is the one that is looked for. -/
theorem index_least {s d : Bytes} (more : d ≠ []) (i : Nat) :
    LeastFrom i (Occurs false s d) (stringIndexOf (stringTakeOwnership s) d i false) := by
  cases d with
  | nil => exact absurd rfl more
  | cons first rest =>
      refine (stringIndexOf_iff s first rest i).mpr fun p le occurs =>
        ⟨p, le, Nat.le_refl p, ?_, occurs⟩
      obtain ⟨behind, whole⟩ := occurs_false.mp occurs
      have front : (s.drop p)[0]? = some first := by rw [← whole]; rfl
      rwa [List.getElem?_drop, Nat.add_zero] at front

variable {s d : Bytes}

/-- The text from a position on, up to an occurrence and behind it. -/
theorem text_cut {pos p : Nat} (occurs : Occurs false s d p) (le : pos ≤ p) :
    (s.drop pos).take (p - pos) ++ d ++ s.drop (p + d.length) = s.drop pos := by
  obtain ⟨rest, whole⟩ := occurs_false.mp occurs
  have behind : s.drop (p + d.length) = rest := by rw [← List.drop_drop, ← whole, List.drop_left]
  have here : (s.drop pos).drop (p - pos) = s.drop p := by rw [List.drop_drop]; congr 1; omega
  rw [behind, List.append_assoc, whole, ← here, List.take_append_drop]

/-- What stands in a piece stands in the string. -/
theorem occurs_of_infix {pos n : Nat} (more : d ≠ []) (inside : d <:+: (s.drop pos).take n) :
    ∃ p, pos ≤ p ∧ p + d.length ≤ pos + n ∧ Occurs false s d p := by
  obtain ⟨front, back, whole⟩ := inside
  have size := congrArg List.length whole
  rw [List.length_append, List.length_append, List.length_take] at size
  have room := List.length_pos_iff.mpr more
  refine ⟨pos + front.length, by omega, by omega,
    occurs_false.mpr ⟨back ++ (s.drop pos).drop n, ?_⟩⟩
  calc d ++ (back ++ (s.drop pos).drop n)
      = (front ++ d ++ back ++ (s.drop pos).drop n).drop front.length := by
        rw [List.append_assoc, List.append_assoc, List.drop_left]
    _ = s.drop (pos + front.length) := by
        rw [whole, List.take_append_drop, List.drop_drop]

/-- A string ends with what stands at its end. -/
theorem suffix_iff_occurs :
    d <:+ s ↔ d.length ≤ s.length ∧ Occurs false s d (s.length - d.length) := by
  constructor
  · intro ends
    refine ⟨ends.length_le, occurs_false.mpr ⟨[], ?_⟩⟩
    rw [List.append_nil]
    exact List.suffix_iff_eq_drop.mp ends
  · rintro ⟨room, occurs⟩
    have size : (s.drop (s.length - d.length)).length = d.length := by rw [List.length_drop]; omega
    rw [(occurs_false.mp occurs).eq_of_length size.symm]
    exact List.drop_suffix _ _

/-! ## The loop -/

section Loop

variable [Copying]

/-- The elements of a vector. -/
def texts (pieces : List Piece) : List Bytes := pieces.map fun piece => piece.span.m_cstr

/-- The ends of the spans, from the first span on. -/
def ends (pieces : List Piece) : List Nat := pieces.flatMap fun piece => [piece.start, piece.stop]

/-- The rest behind the last occurrence. -/
theorem splitLoop_last {pos delimpos : Nat} (inside : pos < s.length)
    (last : stringIndexOf (stringTakeOwnership s) d (delimpos + 1) false = none) :
    splitLoop (stringTakeOwnership s) d pos delimpos =
      ⟨pos, delimpos, stringMid (stringTakeOwnership s) pos delimpos⟩ ::
        lastPiece (stringTakeOwnership s) (delimpos + d.length) := by
  rw [splitLoop, if_pos (show pos < (stringTakeOwnership s).m_len from inside)]
  split
  case h_1 => rfl
  case h_2 found => rw [last] at found; cases found

theorem splitLoop_next {pos delimpos delimpos' : Nat} (inside : pos < s.length)
    (next : stringIndexOf (stringTakeOwnership s) d (delimpos + 1) false = some delimpos') :
    splitLoop (stringTakeOwnership s) d pos delimpos =
      ⟨pos, delimpos, stringMid (stringTakeOwnership s) pos delimpos⟩ ::
        splitLoop (stringTakeOwnership s) d (delimpos + d.length) delimpos' := by
  rw [splitLoop, if_pos (show pos < (stringTakeOwnership s).m_len from inside)]
  split
  case h_1 missed => rw [next] at missed; cases missed
  case h_2 found => rw [next] at found; cases found; rfl

theorem splitLoop_ne {pos p : Nat} (inside : pos < s.length) :
    splitLoop (stringTakeOwnership s) d pos p ≠ [] := by
  rw [splitLoop, if_pos (show pos < (stringTakeOwnership s).m_len from inside)]
  exact List.cons_ne_nil _ _

/-- The loop goes from one occurrence to the next. -/
theorem splitLoop_induction {motive : Nat → Nat → List Piece → Prop} (more : d ≠ [])
    (last : ∀ {pos p}, Occurs false s d p → (∀ q, p + 1 ≤ q → ¬ Occurs false s d q) →
      motive pos p (⟨pos, p, stringMid (stringTakeOwnership s) pos p⟩ ::
        lastPiece (stringTakeOwnership s) (p + d.length)))
    (next : ∀ {pos p p'}, Occurs false s d p → Occurs false s d p' → p + 1 ≤ p' →
      (∀ q, p + 1 ≤ q → q < p' → ¬ Occurs false s d q) →
      motive (p + d.length) p' (splitLoop (stringTakeOwnership s) d (p + d.length) p') →
      motive pos p (⟨pos, p, stringMid (stringTakeOwnership s) pos p⟩ ::
        splitLoop (stringTakeOwnership s) d (p + d.length) p'))
    {pos p : Nat} (occurs : Occurs false s d p) (inside : pos < s.length) :
    motive pos p (splitLoop (stringTakeOwnership s) d pos p) := by
  have least := @index_least s d more (p + 1)
  cases found : stringIndexOf (stringTakeOwnership s) d (p + 1) false with
  | none =>
      rw [found] at least
      rw [splitLoop_last inside found]
      exact last occurs least
  | some p' =>
      rw [found] at least
      obtain ⟨later, occurs', between⟩ := least
      have room := occurs.room more
      have room' := occurs'.room more
      rw [splitLoop_next inside found]
      exact next occurs occurs' later between
        (splitLoop_induction more last next occurs' (by omega))
termination_by s.length - p

/-- The string of a piece is cut where the piece says, and the delimiter is not in it. -/
structure Piece.Cut (s d : Bytes) (piece : Piece) : Prop where
  span : piece.span = stringTakeOwnership ((s.drop piece.start).take (piece.stop - piece.start))
  free : ¬ d <:+: piece.span.m_cstr

omit [Copying] in
theorem cut_of_free {start stop : Nat} {span : Str} (more : d ≠ [])
    (cut : span = stringTakeOwnership ((s.drop start).take (stop - start)))
    (free : ∀ q, start ≤ q → q + d.length ≤ stop → ¬ Occurs false s d q) :
    Piece.Cut s d ⟨start, stop, span⟩ := by
  refine ⟨cut, fun inside => ?_⟩
  rw [show span.m_cstr = (s.drop start).take (stop - start) by rw [cut]; rfl] at inside
  obtain ⟨q, le, room, occurs⟩ := occurs_of_infix more inside
  have size := List.length_pos_iff.mpr more
  exact free q le (by omega) occurs

variable (exact : Copying.Exact)

include exact

theorem lastPiece_cut {pos : Nat} (more : d ≠ []) (free : ∀ q, pos ≤ q → ¬ Occurs false s d q) :
    ∀ piece ∈ lastPiece (stringTakeOwnership s) pos, piece.Cut s d := by
  intro piece inside
  unfold lastPiece at inside
  rw [show (stringTakeOwnership s).m_len = s.length from rfl] at inside
  split at inside
  case isFalse => cases inside
  case isTrue left =>
    obtain rfl := List.mem_singleton.mp inside
    refine cut_of_free more ?_ fun q le _ => free q le
    rw [stringRight_exact exact s (by omega), ← List.length_drop, List.take_length]

/-- No search has passed an occurrence by. -/
theorem splitLoop_cut {pos p : Nat} (more : d ≠ []) (occurs : Occurs false s d p)
    (inside : pos < s.length) (free : ∀ q, pos ≤ q → q < p → ¬ Occurs false s d q) :
    ∀ piece ∈ splitLoop (stringTakeOwnership s) d pos p, piece.Cut s d := by
  have size := List.length_pos_iff.mpr more
  have first : ∀ {pos p : Nat}, (∀ q, pos ≤ q → q < p → ¬ Occurs false s d q) →
      Piece.Cut s d ⟨pos, p, stringMid (stringTakeOwnership s) pos p⟩ := fun free =>
    cut_of_free more (stringMid_exact exact s _ _) fun q le room => free q le (by omega)
  revert free
  refine splitLoop_induction
    (motive := fun pos p pieces => (∀ q, pos ≤ q → q < p → ¬ Occurs false s d q) →
      ∀ piece ∈ pieces, piece.Cut s d) more ?_ ?_ occurs inside
  · intro pos p _ last free
    exact List.forall_mem_cons.mpr
      ⟨first free, lastPiece_cut exact more fun q le => last q (by omega)⟩
  · intro pos p p' _ _ _ between rest free
    exact List.forall_mem_cons.mpr
      ⟨first free, rest fun q le less => between q (by omega) less⟩

omit exact

/-- No two occurrences of the delimiter have a character in common. -/
def NoOverlap (s d : Bytes) (start : Nat) : Prop :=
  ∀ p q, start ≤ p → p < q → Occurs false s d p → Occurs false s d q → p + d.length ≤ q

/-- The spans follow one another. -/
def Apart (pieces : List Piece) : Prop := (ends pieces).IsChain (· ≤ ·)

theorem lastPiece_eq (exact : Copying.Exact) {pos : Nat} (inside : pos ≤ s.length) :
    lastPiece (stringTakeOwnership s) pos =
      if pos < s.length then [⟨pos, s.length, stringTakeOwnership (s.drop pos)⟩] else [] := by
  rw [lastPiece, show (stringTakeOwnership s).m_len = s.length from rfl,
    stringRight_exact exact s inside]
  exact ite_congr (propext (by omega)) (fun _ => rfl) fun _ => rfl

/-- The first span begins behind the occurrence in front of it. -/
theorem splitLoop_apart {pos p : Nat} (more : d ≠ []) (occurs : Occurs false s d p)
    (inside : pos < s.length) (before : pos ≤ p) (apart : NoOverlap s d p) :
    Apart (splitLoop (stringTakeOwnership s) d pos p) ∧
      (ends (splitLoop (stringTakeOwnership s) d pos p)).head? = some pos := by
  revert before apart
  refine splitLoop_induction
    (motive := fun pos p pieces => pos ≤ p → NoOverlap s d p →
      Apart pieces ∧ (ends pieces).head? = some pos) more ?_ ?_ occurs inside
  · intro pos p occurs _ before _
    have room := occurs.room more
    refine ⟨List.isChain_cons_cons.mpr ⟨before, ?_⟩, rfl⟩
    unfold lastPiece
    split
    case isTrue =>
      exact List.isChain_cons_cons.mpr ⟨Nat.le_add_right _ _,
        List.isChain_cons_cons.mpr ⟨room, List.IsChain.singleton _⟩⟩
    case isFalse => exact List.IsChain.singleton _
  · intro pos p p' occurs occurs' later _ rest before apart
    obtain ⟨chain, first⟩ := rest (apart p p' (Nat.le_refl p) later occurs occurs')
      fun q r le => apart q r (by omega)
    refine ⟨List.isChain_cons_cons.mpr ⟨before, List.isChain_cons.mpr ⟨?_, chain⟩⟩, rfl⟩
    intro start found
    obtain rfl := Option.some.inj (first.symm.trans found)
    exact Nat.le_add_right _ _

/-- What is left of the string, less the delimiter at its end. -/
theorem splitLoop_joined (exact : Copying.Exact) {pos p : Nat} (more : d ≠ [])
    (occurs : Occurs false s d p) (inside : pos < s.length) (before : pos ≤ p)
    (apart : NoOverlap s d p) :
    d.intercalate (texts (splitLoop (stringTakeOwnership s) d pos p)) ++
      (if d <:+ s then d else []) = s.drop pos := by
  have text : ∀ pos p, (stringMid (stringTakeOwnership s) pos p).m_cstr =
      (s.drop pos).take (p - pos) := fun pos p => by rw [stringMid_exact exact]; rfl
  revert before apart
  refine splitLoop_induction
    (motive := fun pos p pieces => pos ≤ p → NoOverlap s d p →
      d.intercalate (texts pieces) ++ (if d <:+ s then d else []) = s.drop pos)
    more ?_ ?_ occurs inside
  · intro pos p occurs last before _
    have room := occurs.room more
    rw [lastPiece_eq exact room]
    by_cases left : p + d.length < s.length
    · have other : ¬ d <:+ s := fun behind =>
        last _ (by omega) (suffix_iff_occurs.mp behind).2
      rw [if_pos left, if_neg other, List.append_nil]
      rw [texts, List.map_cons, List.map_singleton, text, List.intercalate_cons_of_ne_nil (by simp),
        List.intercalate_singleton]
      exact text_cut occurs before
    · have here : s.length - d.length = p := by omega
      have behind : d <:+ s := suffix_iff_occurs.mpr ⟨by omega, here ▸ occurs⟩
      rw [if_neg left, if_pos behind, texts, List.map_singleton, text,
        List.intercalate_singleton]
      have whole := text_cut occurs before
      rwa [List.drop_eq_nil_of_le (show s.length ≤ p + d.length by omega), List.append_nil] at whole
  · intro pos p p' occurs occurs' later _ rest before apart
    have joined := rest (apart p p' (Nat.le_refl p) later occurs occurs')
      fun q r le => apart q r (by omega)
    rw [texts, List.map_cons, text, List.intercalate_cons_of_ne_nil ?_, List.append_assoc]
    · exact (congrArg _ joined).trans (text_cut occurs before)
    · have room := occurs'.room more
      exact mt List.map_eq_nil_iff.mp (splitLoop_ne (by omega))

/-! ## The vector -/

/-- The elements are cut out of the string, and the delimiter is in none of them. -/
theorem stringSplit_cut (exact : Copying.Exact) (s : Bytes) (more : d ≠ []) :
    ∀ piece ∈ stringSplit (stringTakeOwnership s) d, piece.Cut s d := by
  have least := @index_least s d more 0
  unfold stringSplit
  split
  case h_1 missed =>
    rw [missed] at least
    refine List.forall_mem_singleton.mpr (cut_of_free more ?_ fun q le _ => least q le)
    exact (stringNew_exact exact s).trans (congrArg _ (List.take_length).symm)
  case h_2 p found =>
    rw [found] at least
    have room := least.2.1.room more
    have size := List.length_pos_iff.mpr more
    exact splitLoop_cut exact more least.2.1 (by omega) least.2.2

/-- Without overlaps the spans follow one another, and the elements, joined, are the string up to
a delimiter at its end. -/
theorem stringSplit_joined (exact : Copying.Exact) (s : Bytes) (more : d ≠ [])
    (apart : NoOverlap s d 0) :
    Apart (stringSplit (stringTakeOwnership s) d) ∧
      d.intercalate (texts (stringSplit (stringTakeOwnership s) d)) ++
        (if d <:+ s then d else []) = s := by
  have least := @index_least s d more 0
  unfold stringSplit
  split
  case h_1 missed =>
    rw [missed] at least
    have other : ¬ d <:+ s := fun behind =>
      least _ (Nat.zero_le _) (suffix_iff_occurs.mp behind).2
    refine ⟨List.isChain_cons_cons.mpr ⟨Nat.zero_le _, List.IsChain.singleton _⟩, ?_⟩
    rw [if_neg other, List.append_nil, texts, List.map_singleton, List.intercalate_singleton]
    exact congrArg Str.m_cstr (stringNew_exact exact s)
  case h_2 p found =>
    rw [found] at least
    have room := least.2.1.room more
    have size := List.length_pos_iff.mpr more
    have later : NoOverlap s d p := fun q r _ => apart q r (Nat.zero_le q)
    exact ⟨(splitLoop_apart more least.2.1 (by omega) (Nat.zero_le p) later).1,
      splitLoop_joined exact more least.2.1 (by omega) (Nat.zero_le p) later⟩

/-- No element contains the delimiter; where no two delimiters overlap, the spans do not, and the
elements joined are the string, less the delimiter it ends with. -/
theorem stringSplit_splits (exact : Copying.Exact) (s : Bytes) (more : d ≠ []) :
    (∀ piece ∈ stringSplit (stringTakeOwnership s) d, piece.Cut s d) ∧
      (NoOverlap s d 0 →
        Apart (stringSplit (stringTakeOwnership s) d) ∧
          d.intercalate (texts (stringSplit (stringTakeOwnership s) d)) ++
            (if d <:+ s then d else []) = s) :=
  ⟨stringSplit_cut exact s more, stringSplit_joined exact s more⟩

end Loop

/-! ## Names -/

/-- A character is found where a text of one character is. -/
theorem stringIndexOf_char (s : Bytes) (c : UInt8) (start : Nat) :
    stringIndexOfCh (stringTakeOwnership s) c start =
      stringIndexOf (stringTakeOwnership s) [c] start false := by
  have loop : ∀ (rest : Bytes) (pos : Nat), indexFrom false c [] rest pos =
      (rest.findIdx? (· == c)).map (· + pos) := by
    intro rest
    induction rest with
    | nil => exact fun _ => rfl
    | cons d rest ih =>
        intro pos
        rw [indexFrom, startsText, Bool.and_true, List.findIdx?_cons]
        cases d == c with
        | true => simp
        | false =>
            rw [if_neg Bool.false_ne_true, ih, if_neg Bool.false_ne_true, Option.map_map]
            congr 1
            funext i
            simp only [Function.comp_apply]
            omega
  rw [stringIndexOf, own_array, loop]
  rfl

theorem splitSpans_names [Copying] {s : Bytes} {pos p n : Nat} (occurs : Occurs false s [45] p)
    (inside : pos < s.length) (rounds : s.length - p < n) :
    splitSpans (stringTakeOwnership s) n pos p =
      (splitLoop (stringTakeOwnership s) [45] pos p).map Piece.span := by
  have more : [(45 : UInt8)] ≠ [] := by decide
  revert n
  refine splitLoop_induction
    (motive := fun pos p pieces => ∀ {n}, s.length - p < n →
      splitSpans (stringTakeOwnership s) n pos p = pieces.map Piece.span) more ?_ ?_ occurs inside
  · intro pos p occurs last n rounds
    have room := occurs.room more
    have missed := (@index_least s [45] more (p + 1)).unique (b := none) last
    obtain ⟨n, rfl⟩ : ∃ m, n = m + 1 := ⟨n - 1, by omega⟩
    rw [splitSpans, stringIndexOf_char, missed, List.map_cons]
    dsimp only
    refine congrArg (List.cons _) ?_
    rw [List.length_singleton] at room ⊢
    rw [lastPiece, show (stringTakeOwnership s).m_len = s.length from rfl]
    by_cases left : s.length - (p + 1) = 0
    · rw [if_pos left, if_neg (by omega), List.map_nil]
    · have start : s.length - (s.length - (p + 1)) = p + 1 := by omega
      rw [if_neg left, if_pos (by omega), List.map_singleton, stringRight,
        show (stringTakeOwnership s).m_len = s.length from rfl, if_neg (by omega), start]
  · intro pos p p' occurs occurs' later between rest n rounds
    have room := occurs'.room more
    have found := (@index_least s [45] more (p + 1)).unique (b := some p')
      ⟨later, occurs', between⟩
    obtain ⟨n, rfl⟩ : ∃ m, n = m + 1 := ⟨n - 1, by omega⟩
    rw [splitSpans, stringIndexOf_char, found, List.map_cons]
    exact congrArg _ (rest (by omega))

/-- The split at hyphens that makes the name of a parameter is this one. -/
theorem stringSplit_names [Copying] (s : Bytes) :
    Splc.stringSplit (stringTakeOwnership s) =
      (stringSplit (stringTakeOwnership s) [45]).map Piece.span := by
  have least := @index_least s [45] (by decide) 0
  rw [Splc.stringSplit, stringSplit, stringIndexOf_char]
  cases found : stringIndexOf (stringTakeOwnership s) [45] 0 false with
  | none => rfl
  | some p =>
      rw [found] at least
      have room := least.2.1.room (by decide)
      exact splitSpans_names least.2.1 (by rw [List.length_singleton] at room; omega)
        (by show s.length - p < s.length + 1; omega)

theorem letter_noOverlap (s : Bytes) (c : UInt8) : NoOverlap s [c] 0 := fun _ _ _ less _ _ => less

/-- A name with hyphens, one of them in front: the split that makes the name of a parameter. -/
theorem stringSplit_hyphens :
    Apart (@stringSplit copyingAll (stringTakeOwnership (lit "-a-bc")) (lit "-")) ∧
      (lit "-").intercalate (texts (@stringSplit copyingAll
        (stringTakeOwnership (lit "-a-bc")) (lit "-"))) = lit "-a-bc" ∧
      @Splc.stringSplit copyingAll (stringTakeOwnership (lit "-a-bc")) =
        (@stringSplit copyingAll (stringTakeOwnership (lit "-a-bc")) (lit "-")).map Piece.span := by
  have splits := (@stringSplit_splits (lit "-") copyingAll copyingAll_exact (lit "-a-bc")
    (by decide)).2 (letter_noOverlap _ 45)
  rw [if_neg (by decide), List.append_nil] at splits
  exact ⟨splits.1, splits.2, @stringSplit_names copyingAll _⟩

/-- A delimiter at the end is lost. -/
theorem last_hyphen_lost : ¬ ∀ s d : Bytes, 0 ∉ s → 0 ∉ d → d ≠ [] →
    d.intercalate (texts (@stringSplit copyingAll (stringTakeOwnership s) d)) = s := by
  intro joined
  have whole := joined [97, 45] [45] (by decide) (by decide) (by decide)
  have less := (@stringSplit_joined [45] copyingAll copyingAll_exact [97, 45] (by decide)
    (letter_noOverlap _ 45)).2
  rw [whole, if_pos (by decide)] at less
  exact absurd less (by decide)

end Jspp.Splc.Spans
