/-
# Compiler.Prefix -- what stands before a mark is read the same

The lexer looks one character past a token.  Where a token ends no later than a
comment mark or a blank begins, that character is the mark or the blank, and both
end every token: the text before them is read as if it stood alone.

* `Split`: what stands behind the text at hand.
* `scan_prefix`: a token that is read before a comment is read before a blank.
* `calls_prefix`: the same for repeated calls of `jsppLex`.
-/
import Jspp.Compiler.Spell

namespace Jspp.Compiler

set_option autoImplicit false

/-- A comment mark or a blank, and what follows it. -/
def Split (z : List Char) : Prop := ∃ r, z = '/' :: r ∨ z = ' ' :: r

theorem Split.peek_eq {z : List Char} (split : Split z) : peek z = 47 ∨ peek z = 32 := by
  have slash : chOf '/' = 47 := by decide
  have blank : chOf ' ' = 32 := by decide
  obtain ⟨r, rfl | rfl⟩ := split
  · exact .inl slash
  · exact .inr blank

theorem Split.ne {z : List Char} (split : Split z) {c : Int} (ne : c ≠ 47) (ne' : c ≠ 32) :
    peek z ≠ c := by
  rcases split.peek_eq with eq | eq <;> rw [eq]
  · exact ne.symm
  · exact ne'.symm

theorem Split.stops {z : List Char} (split : Split z) {p : Int → Bool} (slash : p 47 = false)
    (blank : p 32 = false) : p (peek z) = false := by
  rcases split.peek_eq with eq | eq <;> rw [eq]
  · exact slash
  · exact blank

theorem Split.length_pos {z : List Char} (split : Split z) : 0 < z.length := by
  obtain ⟨r, rfl | rfl⟩ := split <;> exact Nat.succ_pos _

/-- The rest of a piece, with a text behind it. -/
def Piece.append (s : Piece) (z : List Char) : Piece := { s with rest := s.rest ++ z }

/-! ## Loops that stop before the mark -/

section

variable {z : List Char} (split : Split z)
include split

theorem left_split {p : Int → Bool} (slash : p 47 = false) (blank : p 32 = false)
    (u : List Char) : left p (u ++ z) = left p u ++ z := by
  induction u with
  | nil =>
      have stops := split.stops slash blank
      obtain ⟨c, r, rfl⟩ := List.exists_cons_of_length_pos split.length_pos
      change p (chOf c) = false at stops
      rw [List.nil_append, Jspplex.left_cons, if_neg (by simp [stops])]
      rfl
  | cons c u ih =>
      rw [List.cons_append, Jspplex.left_cons, Jspplex.left_cons]
      split_ifs
      · exact ih
      · rfl

theorem taken_split {p : Int → Bool} (slash : p 47 = false) (blank : p 32 = false)
    (u : List Char) : taken p (u ++ z) = taken p u := by
  induction u with
  | nil =>
      have stops := split.stops slash blank
      obtain ⟨c, r, rfl⟩ := List.exists_cons_of_length_pos split.length_pos
      change p (chOf c) = false at stops
      rw [List.nil_append, Jspplex.taken_cons, if_neg (by simp [stops])]
      rfl
  | cons c u ih =>
      rw [List.cons_append, Jspplex.taken_cons, Jspplex.taken_cons, ih]

theorem back_split (u : List Char) : back (u ++ z) = back u ++ z := by
  cases u with
  | nil =>
      have stops := split.ne (c := -1) (by decide) (by decide)
      obtain ⟨c, r, rfl⟩ := List.exists_cons_of_length_pos split.length_pos
      change chOf c ≠ -1 at stops
      show (if chOf c = -1 then r else c :: r) = c :: r
      rw [if_neg stops]
  | cons c u =>
      show (if chOf c = -1 then u ++ z else c :: (u ++ z)) = (if chOf c = -1 then u else c :: u) ++ z
      split_ifs <;> rfl

/-- At the mark, no test on a character holds that does not hold at the end of the text. -/
theorem peek_split {c : Int} (u : List Char) (ne : c ≠ 47) (ne' : c ≠ 32) (ne'' : c ≠ -1) :
    peek (u ++ z) = c ↔ peek u = c := by
  cases u with
  | nil =>
      refine ⟨fun eq => absurd eq (split.ne ne ne'), fun eq => ?_⟩
      exact absurd eq.symm ne''
  | cons d u => exact Iff.rfl

theorem test_split {p : Int → Bool} (slash : p 47 = false) (blank : p 32 = false)
    (ended : p (-1) = false) (u : List Char) : p (peek (u ++ z)) = p (peek u) := by
  cases u with
  | nil => exact (split.stops slash blank).trans ended.symm
  | cons c u => rfl

omit split in
theorem peek_cons {u : List Char} (some : u ≠ []) (z : List Char) : peek (u ++ z) = peek u := by
  obtain ⟨c, r, rfl⟩ := List.exists_cons_of_ne_nil some
  rfl

omit split in
theorem tail_cons {u : List Char} (some : u ≠ []) (z : List Char) :
    (u ++ z).tail = u.tail ++ z := by
  obtain ⟨c, r, rfl⟩ := List.exists_cons_of_ne_nil some
  rfl

omit split in
theorem ne_nil_of_peek {u : List Char} {c : Int} (here : peek u = c) (ne : c ≠ -1) : u ≠ [] := by
  rintro rfl
  exact ne here.symm

/-! ## Words, numbers and operators -/

theorem scanWord_split (u : List Char) : scanWord (u ++ z) = (scanWord u).append z := by
  rw [scanWord, scanWord, taken_split split rfl rfl, left_split split rfl rfl, back_split split]
  rfl

theorem scanExponent_split (u : List Char) :
    scanExponent (u ++ z) = ((scanExponent u).1, (scanExponent u).2 ++ z) := by
  have plus := peek_split split (c := ch '+') u (by decide) (by decide) (by decide)
  have minus := peek_split split (c := ch '-') u (by decide) (by decide) (by decide)
  unfold scanExponent
  simp only [plus, minus]
  split_ifs with sign
  · have some : u ≠ [] := by
      rcases sign with eq | eq
      · exact ne_nil_of_peek eq (by decide)
      · exact ne_nil_of_peek eq (by decide)
    rw [peek_cons some, tail_cons some, taken_split split rfl rfl, left_split split rfl rfl]
  · rw [taken_split split rfl rfl, left_split split rfl rfl]

theorem scanFraction_split (toke : Token) (acc u : List Char) :
    scanFraction toke acc (u ++ z) = (scanFraction toke acc u).append z := by
  have point := peek_split split (c := ch '.') u (by decide) (by decide) (by decide)
  unfold scanFraction
  simp only [point]
  split_ifs with here
  · have some := ne_nil_of_peek here (by decide)
    rw [peek_cons some, tail_cons some, taken_split split rfl rfl, left_split split rfl rfl]
    rfl
  · rfl

theorem scanReal_split (s : Piece) : scanReal (s.append z) = (scanReal s).append z := by
  have small := peek_split split (c := ch 'e') s.rest (by decide) (by decide) (by decide)
  have big := peek_split split (c := ch 'E') s.rest (by decide) (by decide) (by decide)
  show scanReal ⟨s.token, s.lex, s.rest ++ z⟩ = _
  unfold scanReal
  simp only [small, big]
  split_ifs with mark
  · have some : s.rest ≠ [] := by
      rcases mark with eq | eq
      · exact ne_nil_of_peek eq (by decide)
      · exact ne_nil_of_peek eq (by decide)
    rw [peek_cons some, tail_cons some, scanExponent_split split, back_split split]
    rfl
  · rw [back_split split]
    rfl

theorem scanNumber_split (toke : Token) (u : List Char) :
    scanNumber toke (u ++ z) = (scanNumber toke u).append z := by
  have digits := left_split split (p := isdigit) rfl rfl
  have read := taken_split split (p := isdigit) rfl rfl
  have hex := peek_split split (c := ch 'x') (left isdigit u) (by decide) (by decide) (by decide)
  unfold scanNumber
  simp only [digits u, read u, hex]
  split_ifs with here bad
  · rw [tail_cons (ne_nil_of_peek here (by decide))]
    rfl
  · have some := ne_nil_of_peek here (by decide)
    rw [peek_cons some, tail_cons some, digits, read, back_split split]
    rfl
  · rw [scanFraction_split split, scanReal_split split]

theorem scanOperator_split {single : Token} {follow : List (Char × Token)}
    (second : ∀ f ∈ follow, ch f.1 ≠ 47 ∧ ch f.1 ≠ 32 ∧ ch f.1 ≠ -1) (lex u : List Char) :
    scanOperator single follow lex (u ++ z) = (scanOperator single follow lex u).append z := by
  have none {x : List Char} (other : ∀ f ∈ follow, ch f.1 ≠ peek x) :
      follow.find? (fun f => ch f.1 = peek x) = none :=
    List.find?_eq_none.mpr fun f mem => by simpa using other f mem
  have same : follow.find? (fun f => ch f.1 = peek (u ++ z)) =
      follow.find? (fun f => ch f.1 = peek u) := by
    cases u with
    | nil =>
        have ended := none (x := []) fun f mem => (second f mem).2.2
        rw [ended, List.nil_append]
        exact none fun f mem eq => split.ne (second f mem).1 (second f mem).2.1 eq.symm
    | cons c u => rfl
  rw [scanOperator, scanOperator, same]
  cases found : follow.find? (fun f => ch f.1 = peek u) with
  | none =>
      show (⟨single, lex, back (u ++ z)⟩ : Piece) = ⟨single, lex, back u ++ z⟩
      rw [back_split split]
  | some f =>
      have here : ch f.1 = peek u := by simpa using List.find?_some found
      have some := ne_nil_of_peek here.symm (second f (List.mem_of_find?_eq_some found)).2.2
      show (⟨f.2, lex, (u ++ z).tail⟩ : Piece) = ⟨f.2, lex, u.tail ++ z⟩
      rw [tail_cons some]

omit split in
theorem append_ite {p : Prop} [Decidable p] {s t s' t' : Piece} (yes : s = s'.append z)
    (no : t = t'.append z) : (if p then s else t) = (if p then s' else t').append z := by
  split_ifs
  · exact yes
  · exact no

theorem scanPunct_split (c : Int) (lex u : List Char) :
    scanPunct c lex (u ++ z) = (scanPunct c lex u).append z := by
  have op {single : Token} {follow : List (Char × Token)}
      (second : ∀ f ∈ follow, ch f.1 ≠ 47 ∧ ch f.1 ≠ 32 ∧ ch f.1 ≠ -1) :
      scanOperator single follow lex (u ++ z) = (scanOperator single follow lex u).append z :=
    scanOperator_split split second lex u
  unfold scanPunct
  iterate 2 refine append_ite (op (by decide)) ?_
  iterate 6 refine append_ite rfl ?_
  iterate 10 refine append_ite (op (by decide)) ?_
  iterate 2 refine append_ite rfl ?_
  iterate 2 refine append_ite (op (by decide)) ?_
  rfl

end

/-! ## Literals -/

theorem scanString_lt (acc : List Char) {x : List Char} (pos : 0 < x.length) :
    (scanString acc x).rest.length < x.length := by
  obtain ⟨c, r, rfl⟩ := List.exists_cons_of_length_pos pos
  have behind := fun acc => length_scanString acc r
  rw [scanString_cons, List.length_cons]
  apply Nat.lt_succ_of_le
  split_ifs
  · exact Nat.le_refl _
  · exact Nat.le_refl _
  · exact Nat.le_refl _
  · cases r with
    | nil => exact Nat.le_refl _
    | cons e r =>
        have rest := fun acc => length_scanString acc r
        simp only
        split_ifs
        · exact Nat.le_succ _
        · exact Nat.le_succ_of_le (rest _)
  · exact behind _
  · exact Nat.le_refl _

/-- A string literal that ends before the text behind it does not depend on that text. -/
theorem scanString_prefix {x : List Char} (pos : 0 < x.length) {acc u : List Char}
    (inside : x.length ≤ (scanString acc (u ++ x)).rest.length) (z : List Char) :
    scanString acc (u ++ z) = (scanString acc u).append z := by
  induction hn : u.length using Nat.strongRecOn generalizing acc u with
  | ind n ih =>
      subst hn
      cases u with
      | nil => exact absurd inside (Nat.not_le_of_lt (scanString_lt acc pos))
      | cons c u =>
          have again : ∀ acc, x.length ≤ (scanString acc (u ++ x)).rest.length →
              scanString acc (u ++ z) = (scanString acc u).append z :=
            fun acc inside => ih u.length (Nat.lt_succ_self _) inside rfl
          rw [List.cons_append, scanString_cons] at inside ⊢
          rw [scanString_cons]
          split_ifs at inside ⊢
          · rfl
          · rfl
          · rfl
          · cases u with
            | nil =>
                exfalso
                obtain ⟨e, r, rfl⟩ := List.exists_cons_of_length_pos pos
                have behind := fun acc => length_scanString acc r
                simp only [List.nil_append] at inside
                split_ifs at inside
                · exact absurd inside (Nat.not_succ_le_self _)
                · exact absurd (Nat.le_trans inside (behind _)) (Nat.not_succ_le_self _)
            | cons e u =>
                simp only [List.cons_append] at inside ⊢
                split_ifs at inside ⊢
                · rfl
                · exact ih u.length (by simp only [List.length_cons]; omega) inside rfl
          · exact again _ inside
          · rfl

theorem scanQuote_prefix {x u : List Char} {c : Int} (pos : 0 < x.length)
    (inside : x.length ≤ (scanQuote c (u ++ x)).rest.length) (z : List Char) :
    scanQuote c (u ++ z) = (scanQuote c u).append z := by
  cases u with
  | nil =>
      have shorter : (scanQuote c x).rest.length < x.length := by
        have tail := length_tail x
        unfold scanQuote
        split_ifs
        · show x.tail.length < _
          omega
        · show x.tail.length < _
          omega
        · show x.tail.length < _
          omega
      exact absurd inside (Nat.not_le_of_lt shorter)
  | cons d u =>
      unfold scanQuote
      rw [peek_cons (List.cons_ne_nil d u), tail_cons (List.cons_ne_nil d u)]
      split_ifs <;> rfl

theorem scanChar_prefix {x u : List Char} (pos : 0 < x.length)
    (inside : x.length ≤ (scanChar (u ++ x)).rest.length) (z : List Char) :
    scanChar (u ++ z) = (scanChar u).append z := by
  have quote := fun c r => length_scanQuote c r
  cases u with
  | nil =>
      have shorter : (scanChar x).rest.length < x.length := by
        have one := length_tail x
        have two := length_tail x.tail
        unfold scanChar
        split_ifs
        · show x.tail.tail.length < _
          omega
        · exact Nat.lt_of_le_of_lt (quote _ _) (by omega)
        · exact Nat.lt_of_le_of_lt (quote _ _) (by omega)
      exact absurd inside (Nat.not_le_of_lt shorter)
  | cons c u =>
      have first (y : List Char) : peek (c :: u ++ y) = chOf c ∧ (c :: u ++ y).tail = u ++ y :=
        ⟨rfl, rfl⟩
      have own : peek (c :: u) = chOf c ∧ (c :: u).tail = u := ⟨rfl, rfl⟩
      unfold scanChar at inside ⊢
      rw [(first x).1, (first x).2] at inside
      rw [(first z).1, (first z).2, own.1, own.2]
      by_cases slash : chOf c = ch '\\'
      · rw [if_pos slash] at inside
        rw [if_pos slash, if_pos slash]
        cases u with
        | nil =>
            have one := length_tail x
            have behind := quote (escape (peek x)) x.tail
            rw [List.nil_append] at inside
            split_ifs at inside
            · change x.length ≤ x.tail.length at inside
              omega
            · omega
        | cons d u =>
            have second (y : List Char) :
                peek (d :: u ++ y) = chOf d ∧ (d :: u ++ y).tail = u ++ y := ⟨rfl, rfl⟩
            have own' : peek (d :: u) = chOf d ∧ (d :: u).tail = u := ⟨rfl, rfl⟩
            rw [(second x).1, (second x).2] at inside
            rw [(second z).1, (second z).2, own'.1, own'.2]
            split_ifs at inside ⊢
            · rfl
            · exact scanQuote_prefix pos inside z
      · rw [if_neg slash] at inside
        rw [if_neg slash, if_neg slash]
        exact scanQuote_prefix pos inside z

/-! ## One token -/

/-- A token that is read before a mark is read the same before any other. -/
theorem scanToken_prefix {x u lex : List Char} (split : Split x) (some : u ≠ [])
    (inside : x.length ≤ (scanToken lex (u ++ x)).rest.length) {z : List Char} (split' : Split z) :
    scanToken lex (u ++ z) = (scanToken lex u).append z := by
  have pos := split.length_pos
  have tails := fun y => tail_cons some y
  have digit {y : List Char} (split : Split y) :
      isdigit (peek (u.tail ++ y)) = isdigit (peek u.tail) :=
    test_split split rfl rfl rfl u.tail
  unfold scanToken at inside ⊢
  rw [peek_cons some, tails, digit split] at inside
  rw [peek_cons some, tails, digit split']
  by_cases ended : peek u ≤ 0
  · rw [if_pos ended, if_pos ended]
    rfl
  rw [if_neg ended] at inside ⊢
  rw [if_neg ended]
  by_cases number : isdigit (peek u)
  · rw [if_pos number, if_pos number]
    exact scanNumber_split split' _ u
  rw [if_neg number] at inside ⊢
  rw [if_neg number]
  by_cases point : peek u = ch '.'
  · rw [if_pos point, if_pos point]
    refine append_ite ?_ (scanNumber_split split' _ u)
    rw [back_split split']
    rfl
  rw [if_neg point] at inside ⊢
  rw [if_neg point]
  by_cases word : isalpha (peek u) ∨ peek u = ch '_'
  · rw [if_pos word, if_pos word]
    exact scanWord_split split' u
  rw [if_neg word] at inside ⊢
  rw [if_neg word]
  by_cases quote : peek u = ch '\''
  · rw [if_pos quote] at inside ⊢
    rw [if_pos quote]
    exact scanChar_prefix pos inside z
  rw [if_neg quote] at inside ⊢
  rw [if_neg quote]
  by_cases double : peek u = ch '"'
  · rw [if_pos double] at inside ⊢
    rw [if_pos double]
    exact scanString_prefix pos inside z
  rw [if_neg double, if_neg double]
  exact scanPunct_split split' _ _ _

/-! ## Comments and white space -/

theorem left_kept {p : Int → Bool} {u : List Char} (some : left p u ≠ []) (z : List Char) :
    left p (u ++ z) = left p u ++ z := by
  induction u with
  | nil => exact absurd rfl some
  | cons c u ih =>
      rw [Jspplex.left_cons] at some
      rw [List.cons_append, Jspplex.left_cons, Jspplex.left_cons]
      split_ifs at some ⊢
      · exact ih some
      · rfl

theorem left_through {p : Int → Bool} {u : List Char} (all : left p u = []) (z : List Char) :
    left p (u ++ z) = left p z := by
  induction u with
  | nil => rfl
  | cons c u ih =>
      rw [Jspplex.left_cons] at all
      rw [List.cons_append, Jspplex.left_cons]
      split_ifs at all ⊢
      exact ih all

theorem eolRest_kept {x u : List Char} (pos : 0 < x.length)
    (inside : x.length ≤ (eolRest (u ++ x)).length) (z : List Char) :
    eolRest (u ++ z) = eolRest u ++ z := by
  unfold eolRest at inside ⊢
  by_cases all : left (fun c => c ≠ ch '\n' ∧ c > 0) u = []
  · have short := length_left (fun c => c ≠ ch '\n' ∧ c > 0) x
    rw [left_through all, length_tail] at inside
    omega
  · rw [left_kept all, tail_cons all]

/-- A star of a comment, and what decides about it, stand before the mark. -/
theorem star_prefix {x m : List Char} (some : m ≠ []) (opencount : Nat) :
    (star opencount (m ++ x)).2.length ≤ x.length ∨
      ∃ s : Nat × List Char, s.2 ≠ [] ∧ ∀ z, star opencount (m ++ z) = (s.1, s.2 ++ z) := by
  unfold star
  rw [peek_cons some, tail_cons some]
  by_cases here : peek m = ch '*'
  · rw [if_pos here]
    by_cases last : m.tail = []
    · rw [last]
      exact .inl (Nat.le_refl _)
    · refine .inr ⟨(if peek m.tail = ch '/' then opencount - 1 else opencount, m.tail), last, ?_⟩
      intro z
      rw [peek_cons some, if_pos here, tail_cons some, peek_cons last]
  · rw [if_neg here]
    refine .inr ⟨(opencount, m), some, fun z => ?_⟩
    rw [peek_cons some, if_neg here]

theorem slash_prefix {s : Nat × List Char} (some : s.2 ≠ []) :
    ∃ s' : Nat × List Char, ∀ z, Split z → slash (s.1, s.2 ++ z) = (s'.1, s'.2 ++ z) := by
  by_cases here : peek s.2 = ch '/'
  · refine ⟨(if peek s.2.tail = ch '*' then s.1 + 1 else s.1, s.2.tail), fun z split => ?_⟩
    have next := peek_split split (c := ch '*') s.2.tail (by decide) (by decide) (by decide)
    unfold slash
    simp only [peek_cons some, here, tail_cons some, next, if_true]
  · refine ⟨s, fun z _ => ?_⟩
    unfold slash
    simp only [peek_cons some, here, if_false]

theorem commentRest_prefix {x : List Char} (split : Split x) {n opencount : Nat} {u : List Char}
    (inside : x.length ≤ (commentRest n opencount (u ++ x)).length) :
    ∃ v, ∀ z, Split z → commentRest n opencount (u ++ z) = v ++ z := by
  have pos := split.length_pos
  have shrinks := length_commentRest n opencount
  induction n generalizing opencount u with
  | zero =>
      cases u with
      | nil =>
          have short := shrinks ([] ++ x)
          rw [List.nil_append] at inside short
          omega
      | cons c u => exact ⟨u, fun z _ => rfl⟩
  | succ n ih =>
      by_cases some : u = []
      · have short := shrinks (u ++ x)
        rw [some, List.nil_append] at inside short
        omega
      rw [commentRest, peek_cons some] at inside
      by_cases loops : opencount > 0 ∧ peek u > 0
      · rw [if_pos loops] at inside
        have small {t : List Char} (short : t.length ≤ x.length) (opens : Nat) :
            ¬ x.length ≤ (commentRest n opens t).length := by
          have less := length_commentRest n opens t
          omega
        by_cases all : mark u = []
        · have through : mark (u ++ x) = mark x := left_through all x
          refine absurd inside (small ?_ _)
          have one := length_left (fun c => c ≠ ch '*' ∧ c ≠ ch '/' ∧ c > 0) x
          rw [through]
          exact Nat.le_trans (length_slash _) (Nat.le_trans (length_star _ _) one)
        · have marks : ∀ z, mark (u ++ z) = mark u ++ z := left_kept all
          rcases star_prefix (x := x) all opencount with short | ⟨s, more, stars⟩
          · refine absurd inside (small ?_ _)
            rw [marks]
            exact Nat.le_trans (length_slash _) short
          · obtain ⟨s', slashes⟩ := slash_prefix more
            rw [marks, stars, slashes x split] at inside
            obtain ⟨v, rest⟩ := ih inside (length_commentRest n s'.1)
            refine ⟨v, fun z split' => ?_⟩
            rw [commentRest, peek_cons some, if_pos loops]
            simp only
            rw [marks, stars, slashes z split']
            exact rest z split'
      · refine ⟨u.tail, fun z _ => ?_⟩
        rw [commentRest, peek_cons some, if_neg loops, tail_cons some]

/-! ## Up to the mark -/

/-- The text behind is a comment; it is compared with another one. -/
structure Behind (x y : List Char) : Prop where
  left : Split x
  right : Split y
  slash : peek x = ch '/'
  begins : comment? x ≠ none

section

variable {x y : List Char} (behind : Behind x y)
include behind

theorem comment?_prefix {u : List Char} (some : u ≠ []) :
    comment? (u ++ x) = none ∧ comment? (u ++ y) = none ∨
      ∃ t, comment? (u ++ x) = .some t ∧
        (x.length ≤ t.length → ∃ v, t = v ++ x ∧ comment? (u ++ y) = .some (v ++ y)) := by
  have pos := behind.left.length_pos
  unfold comment?
  rw [peek_cons some, peek_cons some, tail_cons some, tail_cons some]
  by_cases slash : peek u = ch '/'
  · rw [if_pos slash, if_pos slash]
    by_cases last : u.tail = []
    · rw [last, List.nil_append, List.nil_append, if_pos behind.slash]
      refine .inr ⟨_, rfl, fun inside => ?_⟩
      have short := length_left (fun c => c ≠ ch '\n' ∧ c > 0) x
      rw [eolRest, length_tail] at inside
      omega
    · rw [peek_cons last, peek_cons last]
      by_cases line : peek u.tail = ch '/'
      · rw [if_pos line, if_pos line]
        refine .inr ⟨_, rfl, fun inside => ⟨eolRest u.tail, ?_, ?_⟩⟩
        · exact eolRest_kept pos inside x
        · rw [eolRest_kept pos inside y]
      rw [if_neg line, if_neg line]
      by_cases nested : peek u.tail = ch '*'
      · rw [if_pos nested, if_pos nested]
        refine .inr ⟨_, rfl, fun inside => ?_⟩
        have rounds : ∀ z n m, (u ++ z).length < n → (u ++ z).length < m →
            commentRest n 1 (u.tail ++ z) = commentRest m 1 (u.tail ++ z) := by
          intro z n m enough enough'
          have less := length_tail u
          rw [List.length_append] at enough enough'
          apply commentRest_rounds <;> rw [List.length_append] <;> omega
        have many : (u ++ x).length < (u ++ x).length + (u ++ y).length + 1 ∧
            (u ++ y).length < (u ++ x).length + (u ++ y).length + 1 := by omega
        rw [rounds x _ _ (Nat.lt_succ_self _) many.1] at inside ⊢
        obtain ⟨v, rest⟩ := commentRest_prefix behind.left inside
        refine ⟨v, rest x behind.left, ?_⟩
        rw [rounds y _ _ (Nat.lt_succ_self _) many.2, rest y behind.right]
      · rw [if_neg nested, if_neg nested]
        exact .inl ⟨rfl, rfl⟩
  · rw [if_neg slash, if_neg slash]
    exact .inl ⟨rfl, rfl⟩

theorem strip_prefix (u : List Char) :
    strip (u ++ x) = x ∨ ∃ v, v ≠ [] ∧ strip (u ++ x) = v ++ x ∧ strip (u ++ y) = v ++ y := by
  unfold strip
  by_cases all : left isws u = []
  · refine .inl ?_
    have stops : left isws x = x := by
      have black : isws (ch '/') = false := by decide
      obtain ⟨c, r, rfl⟩ := List.exists_cons_of_length_pos behind.left.length_pos
      have first : chOf c = ch '/' := behind.slash
      rw [Jspplex.left_cons, first, black]
      rfl
    have kept := back_split behind.left []
    rw [left_through all, stops]
    exact kept
  · rw [left_kept all, left_kept all, back_split behind.left, back_split behind.right]
    by_cases none : back (left isws u) = []
    · rw [none]
      exact .inl rfl
    · exact .inr ⟨_, none, rfl, rfl⟩

theorem skip_prefix {u : List Char} (inside : x.length ≤ (skip (u ++ x)).length) :
    ∃ v, v ≠ [] ∧ skip (u ++ x) = v ++ x ∧ skip (u ++ y) = v ++ y := by
  induction hn : u.length using Nat.strongRecOn generalizing u with
  | ind n ih =>
      subst hn
      rcases strip_prefix behind u with here | ⟨v, some, stripped, stripped'⟩
      · exfalso
        obtain ⟨t, begins⟩ := Option.ne_none_iff_exists'.mp behind.begins
        have shorter := length_comment? begins
        have rest := length_skip t
        rw [skip, here, begins] at inside
        simp only at inside
        omega
      · rw [skip, stripped] at inside
        rw [skip, stripped, skip, stripped']
        rcases comment?_prefix behind some with ⟨none, none'⟩ | ⟨t, begins, within⟩
        · rw [none, none']
          exact ⟨v, some, rfl, rfl⟩
        · rw [begins] at inside
          simp only at inside
          obtain ⟨w, rfl, begins'⟩ := within (Nat.le_trans inside (length_skip t))
          rw [begins, begins']
          simp only
          have short := length_comment? begins
          have short' := length_strip (u ++ x)
          rw [stripped] at short'
          simp only [List.length_append] at short short'
          exact ih w.length (by omega) inside rfl

/-- A call of the lexer that ends before the comment is the same before a blank. -/
theorem scan_prefix {lex u : List Char} (inside : x.length ≤ (scan lex (u ++ x)).rest.length) :
    ∃ s : Piece, scan lex (u ++ x) = s.append x ∧ scan lex (u ++ y) = s.append y := by
  unfold scan at inside ⊢
  obtain ⟨v, some, skipped, skipped'⟩ :=
    skip_prefix behind (Nat.le_trans inside (length_scanToken_le lex _))
  rw [skipped] at inside ⊢
  rw [skipped']
  exact ⟨scanToken lex v, scanToken_prefix behind.left some inside behind.left,
    scanToken_prefix behind.left some inside behind.right⟩

end

/-! ## Repeated calls -/

/-- Some calls of `jsppLex`. -/
def calls : Nat → Jspplex → Jspplex
  | 0, l => l
  | k + 1, l => calls k (jsppLex l)

theorem length_calls (k : Nat) (l : Jspplex) : (calls k l).rest.length ≤ l.rest.length := by
  induction k generalizing l with
  | zero => exact Nat.le_refl _
  | succ k ih =>
      have reads := jsppLex_scan l
      have one := length_scan l.lex l.rest
      rw [← reads.rest] at one
      exact Nat.le_trans (ih (jsppLex l)) one

/-- A token with the lexeme buffer behind it. -/
def Jspplex.pair (l : Jspplex) : Token × List Char := (l.token, l.lex)

/-- Two lexers on the same text, the one before a comment and the other before a blank,
as long as the first has not come to the comment. -/
theorem calls_prefix {x y : List Char} (behind : Behind x y) (k : Nat) {u : List Char}
    {l l' : Jspplex} (here : l.rest = u ++ x) (here' : l'.rest = u ++ y) (same : l.lex = l'.lex)
    (inside : x.length ≤ (calls k l).rest.length) :
    tokens Jspplex.pair k l = tokens Jspplex.pair k l' ∧
      (calls k l).lex = (calls k l').lex ∧
      ∃ v, (calls k l).rest = v ++ x ∧ (calls k l').rest = v ++ y := by
  induction k generalizing u l l' with
  | zero => exact ⟨rfl, same, u, here, here'⟩
  | succ k ih =>
      have reads := jsppLex_scan l
      have reads' := jsppLex_scan l'
      have first := Nat.le_trans inside (length_calls k (jsppLex l))
      rw [reads.rest, here] at first
      rw [here] at reads
      rw [here', ← same] at reads'
      obtain ⟨s, scanned, scanned'⟩ := scan_prefix behind first
      rw [scanned] at reads
      rw [scanned'] at reads'
      have lex : (jsppLex l).lex = (jsppLex l').lex := reads.lex.trans reads'.lex.symm
      have token : (jsppLex l).token = (jsppLex l').token := reads.token.trans reads'.token.symm
      obtain ⟨rest, ends⟩ := ih reads.rest reads'.rest lex inside
      refine ⟨?_, ends⟩
      rw [tokens, tokens, rest, Jspplex.pair, Jspplex.pair, lex, token]

end Jspp.Compiler
