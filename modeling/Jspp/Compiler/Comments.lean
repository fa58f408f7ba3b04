/-
# Compiler.Comments -- comments as white space

A comment of the language (`Comment`) is one to the end of its line, or one whose
marks are properly nested when they are read from left to right (`Nested`).  The
lexer looks at the marks of a nested comment differently: the character behind a
mark is looked at again, and the one behind the last mark is taken away.  Where
that makes no difference (`Clean`), a comment is read like a blank.

* `commentRest_nested`: the loop over a nested comment.
* `comment_blank`: the tokens with the comment, and with a blank in its place.
-/
import Jspp.Compiler.Prefix

namespace Jspp.Compiler

set_option autoImplicit false

/-! ## Comments -/

/-- The two marks of a nested comment. -/
def Mark (t : List Char) : Prop := ∃ r, t = '*' :: '/' :: r ∨ t = '/' :: '*' :: r

/-- With so many comments open, the last of them is closed at the end of the text. -/
inductive Nested : Nat → List Char → Prop where
  | close : Nested 1 ['*', '/']
  | inner {d : Nat} {r : List Char} (rest : Nested (d + 1) r) : Nested (d + 2) ('*' :: '/' :: r)
  | opened {d : Nat} {r : List Char} (rest : Nested (d + 1) r) : Nested d ('/' :: '*' :: r)
  | char {d : Nat} {c : Char} {r : List Char} (plain : ¬ Mark (c :: r)) (rest : Nested d r) :
      Nested d (c :: r)

/-- The comments, before the text `b`. -/
inductive Comment (b : List Char) : List Char → Prop where
  | line (t : List Char) (single : '\n' ∉ t) (ends : b = [] ∨ ∃ r, b = '\n' :: r) :
      Comment b ('/' :: '/' :: t)
  | closed (t : List Char) (single : '\n' ∉ t) : Comment b ('/' :: '/' :: (t ++ ['\n']))
  | nested (t : List Char) (closes : Nested 1 t) : Comment b ('/' :: '*' :: t)

/-- No mark shares a character with the one before it. -/
def Apart (t : List Char) : Prop :=
  ¬ ['/', '*', '/'] <:+: t ∧ ¬ ['*', '/', '*'] <:+: t

def Ascii (t : List Char) : Prop := ∀ c ∈ t, 0 < c.toNat ∧ c.toNat < 128

/-- The lexer finds the end of the comment `c`, and what it takes behind it is white. -/
structure Clean (c b : List Char) : Prop where
  ascii : Ascii c
  apart : ∀ t, c = '/' :: '*' :: t → Apart c
  blank : ∀ t, c = '/' :: '*' :: t → b = [] ∨ isws (peek b) = true

/-- `a` ends at a token boundary before `x`: repeated calls come to `x`, or to white
space before it. -/
def Boundary (a x : List Char) : Prop :=
  ∃ k v, (∀ d ∈ v, isws (chOf d)) ∧ (calls k (jspplexConstructChar (a ++ x))).rest = v ++ x

/-! ## The characters of a comment -/

theorem toChar_ch {c : Char} (byte : c.toNat < 128) : toChar (ch c) = c := by
  rw [← chOf_ascii byte]
  exact toChar_chOf (by omega)

/-- An ASCII character is read as another one only if it is that one. -/
theorem eq_of_chOf {c d : Char} (ascii : c.toNat < 128) (other : d.toNat < 128)
    (same : chOf c = ch d) : c = d := by
  rw [← toChar_chOf (c := c) (by omega), same, toChar_ch other]

theorem Ascii.tail {c : Char} {t : List Char} (ascii : Ascii (c :: t)) : Ascii t :=
  fun d mem => ascii d (List.mem_cons_of_mem c mem)

theorem Ascii.pos {c : Char} {t : List Char} (ascii : Ascii (c :: t)) : chOf c > 0 := by
  have range := ascii c (List.mem_cons_self ..)
  rw [chOf_ascii range.2]
  unfold ch
  omega

/-- The first character of an ASCII text is no mark that it is not. -/
theorem Ascii.peek_ne {t x : List Char} {d : Char} (ascii : Ascii t) (some : t ≠ [])
    (other : d.toNat < 128) (ne : ∀ r, t ≠ d :: r) : peek (t ++ x) ≠ ch d := by
  obtain ⟨c, r, rfl⟩ := List.exists_cons_of_ne_nil some
  intro same
  have eq := eq_of_chOf (ascii c (List.mem_cons_self ..)).2 other same
  exact ne r (by rw [eq])

theorem Apart.tail {c : Char} {t : List Char} (apart : Apart (c :: t)) : Apart t :=
  ⟨fun inside => apart.1 (List.infix_cons inside), fun inside => apart.2 (List.infix_cons inside)⟩

theorem Nested.some {d : Nat} {t : List Char} (nested : Nested d t) : t ≠ [] := by
  cases nested <;> exact List.cons_ne_nil _ _

/-! ## The loop over a nested comment -/

/-- A star that closes nothing is passed. -/
theorem commentRest_star {n d : Nat} {x : List Char} (pos : 0 < d) (noSlash : peek x ≠ ch '/') :
    commentRest (n + 1) d ('*' :: x) = commentRest n d x := by
  have char : chOf '*' = ch '*' ∧ chOf '*' > 0 := by decide
  have marked : mark ('*' :: x) = '*' :: x := by
    rw [mark, Jspplex.left_cons, if_neg (by simp [char.1])]
  rw [commentRest, peek, if_pos ⟨pos, char.2⟩, marked, star, peek, if_pos char.1, List.tail_cons,
    if_neg noSlash, slash, if_neg noSlash]

theorem commentRest_slash {n d : Nat} {x : List Char} (pos : 0 < d) :
    commentRest (n + 1) d ('/' :: x) =
      commentRest n (if peek x = ch '*' then d + 1 else d) x := by
  have char : chOf '/' = ch '/' ∧ chOf '/' > 0 ∧ chOf '/' ≠ ch '*' := by decide
  have marked : mark ('/' :: x) = '/' :: x := by
    rw [mark, Jspplex.left_cons, if_neg (by simp [char.1])]
  rw [commentRest, peek, if_pos ⟨pos, char.2.1⟩, marked, star, peek, if_neg char.2.2, slash, peek,
    if_pos char.1, List.tail_cons]

/-- A closing mark, and the character behind it. -/
theorem commentRest_close {n d : Nat} {x : List Char} (pos : 0 < d) (noStar : peek x ≠ ch '*') :
    commentRest (n + 1) d ('*' :: '/' :: x) = commentRest n (d - 1) x := by
  have star' : chOf '*' = ch '*' ∧ chOf '*' > 0 := by decide
  have slash' : chOf '/' = ch '/' := by decide
  have marked : mark ('*' :: '/' :: x) = '*' :: '/' :: x := by
    rw [mark, Jspplex.left_cons, if_neg (by simp [star'.1])]
  rw [commentRest, peek, if_pos ⟨pos, star'.2⟩, marked, star, peek, if_pos star'.1, List.tail_cons,
    peek, if_pos slash', slash, peek, if_pos slash', List.tail_cons, if_neg noStar]

theorem commentRest_char {n d : Nat} {c : Char} {x : List Char} (pos : 0 < d)
    (plain : chOf c ≠ ch '*' ∧ chOf c ≠ ch '/' ∧ chOf c > 0) (more : peek x > 0) :
    commentRest (n + 1) d (c :: x) = commentRest (n + 1) d x := by
  have marked : mark (c :: x) = mark x := by
    rw [mark, Jspplex.left_cons, if_pos (by simpa using plain)]
    rfl
  rw [commentRest, commentRest, peek, if_pos ⟨pos, plain.2.2⟩, if_pos ⟨pos, more⟩, marked]

theorem commentRest_zero (n : Nat) (x : List Char) : commentRest n 0 x = x.tail := by
  cases n with
  | zero => rfl
  | succ n => rw [commentRest, if_neg (by omega)]

/-- The loop ends behind the last mark, and takes the character there. -/
theorem commentRest_nested {b : List Char} (behind : peek b ≠ ch '*') {n d : Nat} {t : List Char}
    (pos : 0 < d) (nested : Nested d t) (ascii : Ascii t) (apart : Apart t)
    (enough : (t ++ b).length < n) : commentRest n d (t ++ b) = b.tail := by
  induction nested generalizing n with
  | close =>
      obtain ⟨n, rfl⟩ : ∃ m, n = m + 1 := ⟨n - 1, by omega⟩
      show commentRest (n + 1) 1 ('*' :: '/' :: b) = _
      rw [commentRest_close pos behind, commentRest_zero]
  | @inner d r rest ih =>
      obtain ⟨n, rfl⟩ : ∃ m, n = m + 1 := ⟨n - 1, by omega⟩
      have noStar : peek (r ++ b) ≠ ch '*' := by
        refine ascii.tail.tail.peek_ne rest.some (by decide) ?_
        rintro r' rfl
        exact apart.2 ⟨[], r', rfl⟩
      show commentRest (n + 1) (d + 2) ('*' :: '/' :: (r ++ b)) = _
      rw [commentRest_close pos noStar]
      refine ih (Nat.succ_pos d) ascii.tail.tail apart.tail.tail ?_
      simp only [List.cons_append, List.length_cons] at enough
      omega
  | @opened d r rest ih =>
      obtain ⟨n, rfl⟩ : ∃ m, n = m + 1 + 1 :=
        ⟨n - 2, by simp only [List.cons_append, List.length_cons] at enough; omega⟩
      have noSlash : peek (r ++ b) ≠ ch '/' := by
        refine ascii.tail.tail.peek_ne rest.some (by decide) ?_
        rintro r' rfl
        exact apart.1 ⟨[], r', rfl⟩
      have star' : chOf '*' = ch '*' := by decide
      show commentRest (n + 1 + 1) d ('/' :: '*' :: (r ++ b)) = _
      rw [commentRest_slash pos, peek, if_pos star', commentRest_star (Nat.succ_pos d) noSlash]
      refine ih (Nat.succ_pos d) ascii.tail.tail apart.tail.tail ?_
      simp only [List.cons_append, List.length_cons] at enough
      omega
  | @char d c r plain rest ih =>
      obtain ⟨n, rfl⟩ : ∃ m, n = m + 1 := ⟨n - 1, by omega⟩
      simp only [List.cons_append, List.length_cons] at enough
      have again {m : Nat} (enough : (r ++ b).length < m) : commentRest m d (r ++ b) = b.tail :=
        ih pos ascii.tail apart.tail enough
      show commentRest (n + 1) d (c :: (r ++ b)) = _
      by_cases star' : c = '*'
      · subst star'
        have noSlash : peek (r ++ b) ≠ ch '/' := by
          refine ascii.tail.peek_ne rest.some (by decide) ?_
          rintro r' rfl
          exact plain ⟨r', .inl rfl⟩
        rw [commentRest_star pos noSlash]
        exact again (by omega)
      by_cases slash' : c = '/'
      · subst slash'
        have noStar : peek (r ++ b) ≠ ch '*' := by
          refine ascii.tail.peek_ne rest.some (by decide) ?_
          rintro r' rfl
          exact plain ⟨r', .inr rfl⟩
        rw [commentRest_slash pos, if_neg noStar]
        exact again (by omega)
      · have range := (ascii c (List.mem_cons_self ..)).2
        have other : chOf c ≠ ch '*' ∧ chOf c ≠ ch '/' ∧ chOf c > 0 :=
          ⟨fun same => star' (eq_of_chOf range (by decide) same),
            fun same => slash' (eq_of_chOf range (by decide) same), ascii.pos⟩
        have more : peek (r ++ b) > 0 := by
          obtain ⟨e, r', rfl⟩ := List.exists_cons_of_ne_nil rest.some
          exact ascii.tail.pos
        rw [commentRest_char pos other more]
        exact again (by omega)

/-! ## Behind a comment -/

/-- The rest of a line is left with its line feed. -/
theorem eolRest_line {t y : List Char} (ascii : Ascii t) (single : '\n' ∉ t) :
    eolRest (t ++ y) = eolRest y := by
  have inside : ∀ c ∈ t, (fun c : Int => decide (c ≠ ch '\n' ∧ c > 0)) (chOf c) = true := by
    intro c mem
    have range := ascii c mem
    have positive : chOf c > 0 := by
      rw [chOf_ascii range.2]
      unfold ch
      omega
    have other : chOf c ≠ ch '\n' := by
      intro same
      rw [eq_of_chOf range.2 (by decide) same] at mem
      exact single mem
    simpa using And.intro other positive
  have all := left_append (p := fun c => decide (c ≠ ch '\n' ∧ c > 0)) (r := []) inside
    (by simp [peek])
  rw [List.append_nil] at all
  rw [eolRest, eolRest, left_through all]

theorem eolRest_feed (y : List Char) : eolRest ('\n' :: y) = y := by
  have feed : chOf '\n' = ch '\n' := by decide
  rw [eolRest, Jspplex.left_cons, if_neg (by simp [feed])]
  rfl

/-- The slash that makes a line comment is passed with the line. -/
theorem comment?_line (y : List Char) : comment? ('/' :: '/' :: y) = some (eolRest y) := by
  have char : chOf '/' = ch '/' := by decide
  have passed : eolRest ('/' :: y) = eolRest y := by
    have plain : chOf '/' ≠ ch '\n' ∧ chOf '/' > 0 := by decide
    rw [eolRest, Jspplex.left_cons, if_pos (by simpa using plain)]
    rfl
  rw [comment?, peek, if_pos char, List.tail_cons, peek, if_pos char, passed]

theorem comment?_nested {t b : List Char} (clean : Clean ('/' :: '*' :: t) b)
    (nested : Nested 1 t) : comment? ('/' :: '*' :: (t ++ b)) = some b.tail := by
  have slash' : chOf '/' = ch '/' := by decide
  have star' : chOf '*' = ch '*' ∧ chOf '*' ≠ ch '/' := by decide
  have ascii := clean.ascii.tail.tail
  have noSlash : peek (t ++ b) ≠ ch '/' := by
    refine ascii.peek_ne nested.some (by decide) ?_
    rintro r rfl
    exact (clean.apart _ rfl).1 ⟨[], r, rfl⟩
  have noStar : peek b ≠ ch '*' := by
    rcases clean.blank t rfl with rfl | white
    · decide
    · intro same
      rw [same] at white
      exact absurd white (by decide)
  rw [comment?, peek, if_pos slash', List.tail_cons, peek, if_neg star'.2, if_pos star'.1,
    commentRest_star Nat.one_pos noSlash]
  refine congrArg some (commentRest_nested noStar Nat.one_pos nested ascii ?_ ?_)
  · exact (clean.apart t rfl).tail.tail
  · simp only [List.length_cons]
    omega

/-- What is read behind a comment is what stands there. -/
theorem comment?_clean {b c : List Char} (comment : Comment b c) (clean : Clean c b) :
    ∃ t, comment? (c ++ b) = some t ∧ skip t = skip b := by
  have feed : isws (chOf '\n') = true := by decide
  have nil : skip [] = [] := by
    rw [skip]
    rfl
  cases comment with
  | line t single ends =>
      have ascii := clean.ascii.tail.tail
      refine ⟨_, comment?_line (t ++ b), ?_⟩
      rw [eolRest_line ascii single]
      rcases ends with rfl | ⟨r, rfl⟩
      · rfl
      · rw [eolRest_feed, skip_white feed]
  | closed t single =>
      have ascii : Ascii t := fun d mem => clean.ascii.tail.tail d (List.mem_append_left _ mem)
      refine ⟨_, comment?_line (t ++ ['\n'] ++ b), ?_⟩
      rw [List.append_assoc, eolRest_line ascii single, List.singleton_append, eolRest_feed]
  | nested t closes =>
      refine ⟨_, comment?_nested clean closes, ?_⟩
      rcases clean.blank t rfl with rfl | white
      · rfl
      · cases b with
        | nil => rfl
        | cons w r => exact (skip_white white r).symm

/-! ## Texts with a comment -/

theorem skip_whites {v : List Char} (white : ∀ d ∈ v, isws (chOf d)) (x : List Char) :
    skip (v ++ x) = skip x := by
  induction v with
  | nil => rfl
  | cons d v ih =>
      rw [List.cons_append, skip_white (white d (List.mem_cons_self ..))]
      exact ih fun e mem => white e (List.mem_cons_of_mem d mem)

theorem skip_comment {c b t : List Char} (comment : Comment b c) (begins : comment? (c ++ b) = some t) :
    skip (c ++ b) = skip t := by
  have slash : isws (chOf '/') = false ∧ chOf '/' ≠ -1 := by decide
  have stripped : strip (c ++ b) = c ++ b := by
    obtain ⟨r, eq⟩ : ∃ r, c ++ b = '/' :: r := by
      cases comment <;> exact ⟨_, rfl⟩
    rw [eq, strip, Jspplex.left_cons, slash.1, if_neg Bool.false_ne_true, back, if_neg slash.2]
  rw [skip, stripped, begins]

/-- The lexer goes by the text it has left and by its lexeme buffer. -/
theorem tokens_same {l l' : Jspplex} (rest : skip l.rest = skip l'.rest) (lex : l.lex = l'.lex)
    (n : Nat) : tokens Jspplex.pair n l = tokens Jspplex.pair n l' := by
  induction n generalizing l l' with
  | zero => rfl
  | succ n ih =>
      have reads := jsppLex_scan l
      have reads' := jsppLex_scan l'
      rw [scan, rest, lex] at reads
      rw [scan] at reads'
      have token' : (jsppLex l).token = (jsppLex l').token := reads.token.trans reads'.token.symm
      have lex' : (jsppLex l).lex = (jsppLex l').lex := reads.lex.trans reads'.lex.symm
      have rest' : (jsppLex l).rest = (jsppLex l').rest := reads.rest.trans reads'.rest.symm
      rw [tokens, tokens, ih (by rw [rest']) lex', Jspplex.pair, Jspplex.pair, token', lex']

theorem tokens_add {α : Type} (f : Jspplex → α) (k n : Nat) (l : Jspplex) :
    tokens f (k + n) l = tokens f k l ++ tokens f n (calls k l) := by
  induction k generalizing l with
  | zero => rw [Nat.zero_add]; rfl
  | succ k ih =>
      rw [Nat.succ_add, tokens, tokens, calls, ih]
      rfl

theorem tokens_take {α : Type} (f : Jspplex → α) (k n : Nat) (l : Jspplex) :
    (tokens f (n + k) l).take n = tokens f n l := by
  induction n generalizing l with
  | zero => rfl
  | succ n ih =>
      rw [Nat.succ_add, tokens, tokens, List.take_succ_cons, ih]

/-- A comment whose end the lexer finds is read like a blank in its place. -/
theorem comment_blank {a b c : List Char} (text : Nonzero (a ++ (c ++ b))) (comment : Comment b c)
    (clean : Clean c b) (boundary : Boundary a (c ++ b)) (n : Nat) :
    tokens Jspplex.pair n (jspplexConstructChar (a ++ (c ++ b))) =
      tokens Jspplex.pair n (jspplexConstructChar (a ++ ' ' :: b)) := by
  obtain ⟨k, v, white, there⟩ := boundary
  obtain ⟨t, begins, same⟩ := comment?_clean comment clean
  have slash : chOf '/' = ch '/' := by decide
  obtain ⟨r, first⟩ : ∃ r, c ++ b = '/' :: r := by
    cases comment <;> exact ⟨_, rfl⟩
  have behind : Behind (c ++ b) (' ' :: b) :=
    { left := ⟨r, .inl first⟩
      right := ⟨b, .inr rfl⟩
      slash := by rw [first]; exact slash
      begins := by rw [begins]; exact nofun }
  have text' : Nonzero (a ++ ' ' :: b) := by
    refine Nonzero.append (fun d mem => text d (List.mem_append_left _ mem))
      (Nonzero.cons (by decide) fun d mem => text d ?_)
    exact List.mem_append_right _ (List.mem_append_right _ mem)
  obtain ⟨before, lex, w, rest, rest'⟩ := calls_prefix behind k (rest_construct text)
    (rest_construct text') rfl (by rw [there]; simp only [List.length_append]; omega)
  rw [there] at rest
  obtain rfl : v = w := List.append_cancel_right rest
  have after := tokens_same (l := calls k (jspplexConstructChar (a ++ (c ++ b))))
    (by rw [there, rest', skip_whites white, skip_whites white, skip_comment comment begins, same,
      skip_blank]) lex n
  have whole : tokens Jspplex.pair (k + n) (jspplexConstructChar (a ++ (c ++ b))) =
      tokens Jspplex.pair (k + n) (jspplexConstructChar (a ++ ' ' :: b)) := by
    rw [tokens_add, tokens_add, before, after]
  rw [← tokens_take Jspplex.pair k n, ← tokens_take Jspplex.pair k n, Nat.add_comm n k, whole]

theorem comment_blank_between :
    tokens Jspplex.pair 2 (jspplexConstructChar
      ([] ++ (['/', '*', ' ', '/', '*', '*', '/', ' ', '*', '/'] ++ [' ', 'x']))) =
      tokens Jspplex.pair 2 (jspplexConstructChar ([] ++ ' ' :: [' ', 'x'])) := by
  have comment : Comment [' ', 'x'] ['/', '*', ' ', '/', '*', '*', '/', ' ', '*', '/'] := by
    refine .nested _ (.char ?_ (.opened (.inner (.char ?_ .close))))
    · rintro ⟨r, eq | eq⟩ <;> cases eq
    · rintro ⟨r, eq | eq⟩ <;> cases eq
  have clean : Clean ['/', '*', ' ', '/', '*', '*', '/', ' ', '*', '/'] [' ', 'x'] :=
    { ascii := by simp [Ascii]
      apart := fun _ _ => by unfold Apart; decide +kernel
      blank := fun _ _ => .inr (by decide) }
  have text : Nonzero
      ([] ++ (['/', '*', ' ', '/', '*', '*', '/', ' ', '*', '/'] ++ [' ', 'x'])) := by
    simp [Nonzero]
  exact comment_blank text comment clean ⟨0, [], nofun, rest_construct text⟩ 2

/-- The character behind a nested comment is lost. -/
theorem comment_takes : ¬ ∀ (a b c : List Char), Nonzero (a ++ (c ++ b)) → Comment b c →
    Boundary a (c ++ b) → ∀ n, tokens Jspplex.pair n (jspplexConstructChar (a ++ (c ++ b))) =
      tokens Jspplex.pair n (jspplexConstructChar (a ++ ' ' :: b)) := by
  intro blank
  have text : Nonzero ([] ++ (['/', '*', '*', '/'] ++ ['x'])) := by
    simp [Nonzero]
  have same := blank [] ['x'] ['/', '*', '*', '/'] text (.nested _ .close)
    ⟨0, [], nofun, rest_construct text⟩ 1
  revert same
  decide +kernel

end Jspp.Compiler
