/-
# Splc.Reach -- how far the SQL lexer reads

The text of a lexer is a copy that lacks the last character, so its NUL stands inside
`m_len`.  The loops take the NUL for a blank and read what is behind it, and a call that
finds nothing but the NUL returns false.  Only an empty text has no NUL to pass.

* `lastRead`: the last character that a call reads.
* `going_step`: a call in front of the NUL leaves the lexer in front of it, reads behind
  it, or does not return.
* `contained_iff`: the lexer stays in its text exactly if the text is empty.
* `Piece`, `Written`: lists of tokens and how they are written.
* `recognised_iff`: so are the tokens recognised.
-/
import Jspp.Splc.Lexing

namespace Jspp.Splc

set_option autoImplicit false

namespace Sqllex

/-! ## In front of the NUL -/

/-- The index of the last character that `_sqllexRead` reads: the loops read the character behind
the last one they take, a literal is read to its closing quote.  Without one the loop reads on
behind the text. -/
def lastRead (lex : Sqllex) : Option Nat :=
  match lex._sqllexRead with
  | .runsOff => none
  | .read _ pos literal => some (if literal then pos - 1 else pos)

/-- The lexer has not come to its end, and the NUL is the last of what it has before it. -/
structure Going (lex : Sqllex) : Prop where
  token : lex.m_token ≠ .eof
  ends : ∃ front, lex.rest = front ++ [0]

theorem tail_ends {front tail text : Bytes} {c : UInt8} (whole : front ++ c :: tail = text ++ [0])
    (other : c ≠ 0) : ∃ text', tail = text' ++ [0] := by
  rcases List.eq_nil_or_concat tail with rfl | ⟨text', last, rfl⟩
  · exact absurd (List.append_inj_right' whole rfl) (by simpa using other)
  · rw [List.concat_eq_append, ← List.cons_append, ← List.append_assoc] at whole
    have same : last = 0 := by simpa using List.append_inj_right' whole rfl
    exact ⟨text', by rw [same, List.concat_eq_append]⟩

theorem punctRun_spec (text : Bytes) : (∀ c ∈ punctRun text, ispunct c = true) ∧
    text = punctRun text ++ text.drop (punctRun text).length := by
  induction text with
  | nil => simp [punctRun]
  | cons c rest ih =>
      by_cases punct : ispunct c = true
      · cases rest with
        | nil => simp [punctRun, punct]
        | cons next rest =>
            by_cases closing : next = 41
            · simp [punctRun, closing, punct]
            · have run : punctRun (c :: next :: rest) = c :: punctRun (next :: rest) := by
                simp [punctRun, punct, closing]
              rw [run]
              refine ⟨?_, ?_⟩
              · intro c' mem
                rcases List.mem_cons.mp mem with rfl | mem
                · exact punct
                · exact ih.1 c' mem
              · rw [List.length_cons, List.drop_succ_cons, List.cons_append, ← ih.2]
      · have none_ : punctRun (c :: rest) = [] := by simp [punctRun, punct]
        rw [none_]
        exact ⟨fun _ mem => absurd mem List.not_mem_nil, rfl⟩

theorem ispunct_ne_zero {c : UInt8} (punct : ispunct c = true) : c ≠ 0 := by
  rintro rfl
  exact absurd punct (by decide)

theorem wordCh_ne_zero {c : UInt8} (word : wordCh c = true) : c ≠ 0 := by
  rintro rfl
  exact absurd word (by decide)

/-- What is behind characters other than the NUL has it at its end. -/
theorem behind_ends {before run tail text : Bytes} (whole : before ++ (run ++ tail) = text ++ [0])
    (some : run ≠ []) (others : ∀ c ∈ run, c ≠ 0) : ∃ text', tail = text' ++ [0] := by
  obtain ⟨run, c, rfl⟩ := List.eq_nil_or_concat run |>.resolve_left some
  rw [List.concat_eq_append, List.append_assoc, ← List.append_assoc] at whole
  exact tail_ends whole (others c (by simp))

theorem Nexts.going {lex : Sqllex} {ok : Bool} {token : SqlToken} {lexum : Option Str}
    {left : Bytes} (next : lex.Nexts ok token lexum left) (going : token ≠ .eof)
    (ends : ∃ front, left = front ++ [0]) (less : left.length < lex.rest.length) :
    ∃ ok lex', lex.sqllexNext = some (ok, lex') ∧ lex'.Going ∧
      lex'.rest.length < lex.rest.length := by
  obtain ⟨lex', called, rfl, -, rfl⟩ := next
  exact ⟨ok, lex', called, ⟨going, ends⟩, less⟩

/-- A call in front of the NUL stays in front of it, or finds nothing else and reads on behind it,
or does not return. -/
theorem going_step {lex : Sqllex} (going : lex.Going) :
    (lex.lastRead = some lex.m_text.m_len ∧
        ∃ lex', lex.sqllexNext = some (false, lex') ∧ lex'.m_token = .unknown ∧
          lex'.m_lexum = none) ∨
      lex.sqllexNext = none ∨
      ∃ ok lex', lex.sqllexNext = some (ok, lex') ∧ lex'.Going ∧
        lex'.rest.length < lex.rest.length := by
  obtain ⟨front, ends⟩ := going.ends
  have more : lex.rest ≠ [] := by
    rw [ends]
    simp
  have further : ¬ lex.m_text.m_len ≤ lex.m_pos := fun ended => more ((rest_nil_iff lex).mpr ended)
  have split' := List.takeWhile_append_dropWhile (p := isBlank) (l := lex.rest)
  have blank : ∀ b ∈ lex.rest.takeWhile isBlank, isBlank b = true := fun b mem =>
    List.mem_takeWhile_imp mem
  cases dropped : lex.rest.dropWhile isBlank with
  | nil =>
      rw [dropped, List.append_nil] at split'
      rw [split'] at blank
      left
      refine ⟨?_, ?_⟩
      · have none_ : lex.rest.dropWhile (fun c => !(isalnum c || ispunct c)) = [] := dropped
        have all : lex.rest.takeWhile (fun c => !(isalnum c || ispunct c)) = lex.rest := split'
        simp only [lastRead, _sqllexRead, none_, all, rest_length]
        simp only [Bool.false_eq_true, if_false, Option.some.injEq]
        omega
      · obtain ⟨lex', called, token, lexum, -⟩ := nexts_blank going.token more blank rfl
        exact ⟨lex', called, token, lexum⟩
  | cons c tail =>
      right
      rw [dropped] at split'
      have seen : isBlank c = false := by
        have first := List.head_dropWhile_not isBlank (w := by rw [dropped]; simp)
        simpa [dropped] using first
      have text := split'.symm
      have whole : lex.rest.takeWhile isBlank ++ c :: tail = front ++ [0] := split'.trans ends
      generalize lex.rest.takeWhile isBlank = blanks at blank split' text whole
      have size := congrArg List.length text
      simp only [List.length_append, List.length_cons] at size
      by_cases quote : c = 39 ∨ c = 34
      · by_cases closed : c ∈ tail
        · right
          obtain ⟨content, behind, rfl, free⟩ := List.eq_append_cons_of_mem closed
          have nonzero : c ≠ 0 := by rcases quote with rfl | rfl <;> decide
          have rest' := nexts_string going.token blank quote free text
          have left : ∃ text', behind = text' ++ [0] := by
            rw [← List.cons_append, ← List.append_assoc] at whole
            exact tail_ends whole nonzero
          simp only [List.length_append, List.length_cons] at size
          split at rest'
          · exact rest'.going (by decide) left (by omega)
          · exact rest'.going (by decide) left (by omega)
        · left
          have open_ : tail.takeWhile (· ≠ c) = tail :=
            List.takeWhile_eq_self_iff.mpr fun c' mem => by
              simpa using fun same : c' = c => closed (same ▸ mem)
          obtain ⟨taken, dropped'⟩ := skip_blanks tail blank seen
          have reads : lex._sqllexRead = .runsOff := by
            simp only [_sqllexRead, text, dropped', quote, if_true, open_]
          rw [sqllexNext, if_neg going.token, if_neg further, reads]
      · right
        by_cases word : wordCh c = true
        · have inside : ∀ c' ∈ (c :: tail).takeWhile wordCh, wordCh c' = true := fun c' mem =>
            List.mem_takeWhile_imp mem
          have outside : ∀ c' ∈ ((c :: tail).dropWhile wordCh).head?, wordCh c' = false := by
            intro c' mem
            have stop := List.head?_dropWhile_not wordCh (c :: tail)
            rw [mem] at stop
            exact stop
          have first : (c :: tail).takeWhile wordCh ≠ [] := by simp [word]
          have parts := List.takeWhile_append_dropWhile (p := wordCh) (l := c :: tail)
          generalize (c :: tail).takeWhile wordCh = run at inside first parts
          generalize (c :: tail).dropWhile wordCh = behind at outside parts
          rw [← parts] at text whole
          have left := behind_ends whole first fun c' mem => wordCh_ne_zero (inside c' mem)
          have taken := List.length_pos_iff.mpr first
          have sizes := congrArg List.length parts
          simp only [List.length_append, List.length_cons] at sizes
          have next := nexts_word going.token blank first inside outside text
          exact next.going (sqlToken_ne_eof _) left (by omega)
        · have punct : ispunct c = true := by
            have other : isalnum c = false := by
              simp only [wordCh, Bool.or_eq_true, not_or] at word
              simpa using word.1
            simpa [isBlank, other] using seen
          obtain ⟨inside, parts⟩ := punctRun_spec (c :: tail)
          have first : punctRun (c :: tail) ≠ [] := by simp [punctRun, punct]
          have nonzero : ∀ c' ∈ punctRun (c :: tail), c' ≠ 0 := fun c' mem =>
            ispunct_ne_zero (inside c' mem)
          have left := behind_ends (parts ▸ whole) first nonzero
          have taken := List.length_pos_iff.mpr first
          have next := nexts_punct going.token blank punct (fun same => quote (.inl same))
            (fun same => quote (.inr same)) (by simpa using word) text
          refine next.going (sqlToken_ne_eof _) left ?_
          rw [List.length_drop, List.length_cons]
          omega

/-! ## Runs of the lexer -/

/-- The lexer that `sqllexNew` makes, in front of its first call of `sqllexNext`. -/
def fresh (sql : Str) : Sqllex where
  m_token := .bof
  m_lexum := none
  m_pos := 0
  m_text := stringDup sql

theorem sqllexNew_eq (sql : Str) : sqllexNew sql = (fresh sql).sqllexNext.map (·.2) := rfl

theorem fresh_going {sql : Str} (more : sql.m_cstr ≠ []) : (fresh sql).Going where
  token := show SqlToken.bof ≠ .eof by decide
  ends := ⟨sql.m_cstr.dropLast, array_stringDup more⟩

/-- A lexer of the text, behind calls of `sqllexNext` of which `n` returned true. -/
inductive Ran (sql : Str) : Nat → Sqllex → Prop where
  | new {lex : Sqllex} (made : sqllexNew sql = some lex) : Ran sql 0 lex
  | next {n : Nat} {lex lex' : Sqllex} {ok : Bool} (ran : Ran sql n lex)
      (called : lex.sqllexNext = some (ok, lex')) : Ran sql (if ok then n + 1 else n) lex'

theorem Ran.text {sql : Str} {n : Nat} {lex : Sqllex} (ran : Ran sql n lex) :
    lex.m_text = stringDup sql := by
  have kept : ∀ {lex lex' : Sqllex} {ok : Bool}, lex.sqllexNext = some (ok, lex') →
      lex'.m_text = lex.m_text := by
    intro lex lex' ok called
    rw [sqllexNext] at called
    split at called
    · cases called
      rfl
    · split at called
      · cases called
        rfl
      · split at called
        · cases called
        · split at called <;> cases called <;> rfl
  induction ran with
  | new made =>
      obtain ⟨⟨ok, lex'⟩, called, rfl⟩ := Option.map_eq_some_iff.mp (sqllexNew_eq sql ▸ made)
      exact kept called
  | next _ called ih => exact (kept called).trans ih

/-- A call reads no further than the NUL of the text. -/
def Within (lex : Sqllex) : Prop :=
  lex.m_token ≠ .eof → lex.m_pos < lex.m_text.m_len →
    ∃ n, lex.lastRead = some n ∧ n ≤ lex.m_text.m_cstr.length

/-- What is next is a literal without its closing quote. -/
def Unclosed (lex : Sqllex) : Prop :=
  lex.m_token ≠ .eof ∧ lex.m_pos < lex.m_text.m_len ∧ lex._sqllexRead = .runsOff

/-- The lexer of a text stays in it and ends. -/
structure Contained (sql : Str) : Prop where
  made : ∃ lex, sqllexNew sql = some lex
  returns : ∀ n lex, Ran sql n lex → ∃ ok lex', lex.sqllexNext = some (ok, lex')
  inside : ∀ n lex, Ran sql n lex → lex.m_pos ≤ lex.m_text.m_len
  first : (fresh sql).Within
  within : ∀ n lex, Ran sql n lex → lex.Within
  ends : ∀ n lex, Ran sql n lex → lex.m_text.m_len + 1 ≤ n → lex.m_token = .eof
  reported : ∀ n lex, Ran sql n lex → lex.Unclosed → ∃ lex', lex.sqllexNext = some (false, lex')

theorem nul_inside {sql : Str} (more : sql.m_cstr ≠ []) :
    (stringDup sql).m_cstr.length < (stringDup sql).m_len := by
  rw [stringDup, stringNew_cstr, stringNew_len, List.length_dropLast]
  exact Nat.sub_lt (List.length_pos_iff.mpr more) Nat.one_pos

/-- From a lexer in front of the NUL some call reads behind it, or does not return. -/
theorem leaves {sql : Str} (more : sql.m_cstr ≠ []) {n : Nat} {lex : Sqllex} (ran : Ran sql n lex)
    (going : lex.Going) :
    ∃ n lex, Ran sql n lex ∧ (lex.sqllexNext = none ∨ ¬ lex.Within) := by
  induction size : lex.rest.length using Nat.strong_induction_on generalizing n lex with
  | h size' ih =>
      rcases going_step going with ⟨last, -⟩ | crash | ⟨ok, lex', called, going', less⟩
      · refine ⟨n, lex, ran, .inr fun within => ?_⟩
        have inside : lex.m_pos < lex.m_text.m_len := by
          obtain ⟨front, ends⟩ := going.ends
          by_contra ended
          have nothing := (rest_nil_iff lex).mpr (Nat.le_of_not_lt ended)
          rw [nothing] at ends
          exact absurd ends (by simp)
        obtain ⟨m, same, le⟩ := within going.token inside
        have room := nul_inside more
        rw [last] at same
        cases same
        rw [ran.text] at le
        exact Nat.not_le_of_lt room le
      · exact ⟨n, lex, ran, .inl crash⟩
      · exact ih _ (size ▸ less) (ran.next called) going' rfl

theorem empty_dup {sql : Str} (empty : sql.m_cstr = []) :
    sqllexNew sql = some { fresh sql with m_token := .eof } := by
  have none_ : (fresh sql).m_text.m_len ≤ (fresh sql).m_pos := by
    show (stringNew sql.m_cstr).m_len ≤ 0
    rw [empty]
    exact Nat.le_refl 0
  have begun : (fresh sql).m_token ≠ .eof := show SqlToken.bof ≠ .eof by decide
  rw [sqllexNew_eq, sqllexNext, if_neg begun, if_pos none_]
  rfl

/-- The lexer stays in its text and ends exactly if the text is empty. -/
theorem contained_iff (sql : Str) : Contained sql ↔ sql.m_cstr = [] := by
  constructor
  · intro contained
    by_contra more
    have start := fresh_going more
    obtain ⟨lex, made⟩ := contained.made
    rcases going_step start with ⟨last, -⟩ | crash | ⟨ok, lex', called, going, -⟩
    · have room := nul_inside more
      obtain ⟨m, same, le⟩ := contained.first start.token (Nat.lt_of_le_of_lt (Nat.zero_le _) room)
      rw [last] at same
      cases same
      exact Nat.not_le_of_lt room le
    · rw [sqllexNew_eq, crash] at made
      cases made
    · have ran : Ran sql 0 lex' := .new (by rw [sqllexNew_eq, called]; rfl)
      obtain ⟨n, lex, ran, crash | further⟩ := leaves more ran going
      · obtain ⟨ok, lex', called⟩ := contained.returns n lex ran
        rw [crash] at called
        cases called
      · exact further (contained.within n lex ran)
  · intro empty
    have made := empty_dup empty
    have all : ∀ n lex, Ran sql n lex → n = 0 ∧ lex = { fresh sql with m_token := .eof } := by
      intro n lex ran
      induction ran with
      | new made' =>
          cases made.symm.trans made'
          exact ⟨rfl, rfl⟩
      | next _ called ih =>
          obtain ⟨rfl, rfl⟩ := ih
          rw [sqllexNext, if_pos rfl] at called
          cases called
          exact ⟨rfl, rfl⟩
    have nothing : ¬ (fresh sql).m_pos < (fresh sql).m_text.m_len := by
      show ¬ 0 < (stringNew sql.m_cstr).m_len
      rw [empty]
      exact Nat.lt_irrefl 0
    refine ⟨⟨_, made⟩, ?_, ?_, fun _ further => absurd further nothing, ?_, ?_, ?_⟩
    · intro n lex ran
      obtain ⟨-, rfl⟩ := all n lex ran
      exact ⟨false, _, if_pos rfl⟩
    · intro n lex ran
      obtain ⟨-, rfl⟩ := all n lex ran
      exact Nat.zero_le _
    · intro n lex ran token
      obtain ⟨-, rfl⟩ := all n lex ran
      exact absurd rfl token
    · intro n lex ran count
      obtain ⟨rfl, rfl⟩ := all n lex ran
      rfl
    · intro n lex ran unclosed
      obtain ⟨-, rfl⟩ := all n lex ran
      exact absurd rfl unclosed.1

/-- One letter: its copy is the NUL alone, and the first call reads the character behind it. -/
theorem letter_not_contained : (fresh (stringTakeOwnership [65])).m_text.m_cstr = [] ∧
    (fresh (stringTakeOwnership [65])).lastRead = some 1 ∧
    ¬ Contained (stringTakeOwnership [65]) :=
  ⟨rfl, by decide, fun contained => absurd ((contained_iff _).mp contained) (by decide)⟩

/-! ## Lists of tokens -/

/-- The punctuation tokens. -/
def listed : List Bytes :=
  ["(", ")", ",", ".", ":", "?", ";", "*", "=", ">", ">=", "<", "<=", "<>"].map lit

/-- A token as it is written. -/
inductive Piece where
  | word (text : Bytes) (some : text ≠ []) (inside : ∀ c ∈ text, wordCh c = true)
      (first : ∀ c ∈ text.head?, isdigit c = false)
  | numeral (text : Bytes) (some : text ≠ []) (inside : ∀ c ∈ text, isdigit c = true)
  | quoted (quote : UInt8) (content : Bytes) (mark : quote = 39 ∨ quote = 34)
      (free : quote ∉ content) (whole : 0 ∉ content)
  | punct (text : Bytes) (mem : text ∈ listed)

namespace Piece

def spell : Piece → Bytes
  | word text _ _ _ => text
  | numeral text _ _ => text
  | quoted quote content _ _ _ => quote :: (content ++ [quote])
  | punct text _ => text

/-- The token, and its lexeme. -/
def token : Piece → SqlToken × Bytes
  | word text _ _ _ => (sqlToken (stringTakeOwnership text), text)
  | numeral text _ _ => (sqlToken (stringTakeOwnership text), text)
  | quoted _ content _ _ _ => (.strlit, content)
  | punct text _ => (sqlToken (stringTakeOwnership text), text)

/-- The two may be written with nothing between them. -/
def Beside : Piece → Piece → Prop
  | punct text _, punct text' _ => text ++ text' ∉ listed
  | punct _ _, _ => True
  | _, punct _ _ => True
  | _, _ => False

theorem spell_ne (piece : Piece) : piece.spell ≠ [] := by
  cases piece with
  | word text some => exact some
  | numeral text some => exact some
  | quoted => exact List.cons_ne_nil _ _
  | punct text mem =>
      rintro (rfl : text = [])
      exact absurd mem (by decide)

end Piece

/-- White space. -/
def White (gap : Bytes) : Prop := ∀ c ∈ gap, c = 32 ∨ c = 9 ∨ c = 13 ∨ c = 10

/-- The pieces as they are written behind the piece before, and white space at the end. -/
inductive Written : Option Piece → List Piece → Bytes → Prop where
  | done {before : Option Piece} {gap : Bytes} (white : White gap) : Written before [] gap
  | next {before : Option Piece} {piece : Piece} {pieces : List Piece} {gap text : Bytes}
      (white : White gap) (room : gap ≠ [] ∨ ∀ b ∈ before, b.Beside piece)
      (rest : Written (some piece) pieces text) :
      Written before (piece :: pieces) (gap ++ (piece.spell ++ text))

/-- From this lexer on the calls return the tokens, and then the end. -/
def Yields : Sqllex → List (SqlToken × Bytes) → Prop
  | lex, [] => lex.m_token = .eof
  | lex, (token, lexum) :: rest => lex.m_token = token ∧
      (∃ s, lex.m_lexum = some s ∧ s.m_cstr = lexum) ∧
      ∃ lex', lex.sqllexNext = some (true, lex') ∧ Yields lex' rest

/-- The calls return exactly the tokens of the pieces. -/
def Recognised (pieces : List Piece) (sql : Str) : Prop :=
  ∃ lex, sqllexNew sql = some lex ∧ lex.Yields (pieces.map Piece.token)

/-- In front of the NUL no calls return tokens and then the end. -/
theorem going_yields {lex : Sqllex} (going : lex.Going) (tokens : List (SqlToken × Bytes)) :
    ¬ lex.Yields tokens := by
  induction tokens generalizing lex with
  | nil => exact going.token
  | cons token rest ih =>
      rintro ⟨-, -, lex', called, yields⟩
      rcases going_step going with ⟨-, lex'', failed, -⟩ | crash | ⟨ok, lex'', called', going', -⟩
      · rw [failed] at called
        cases called
      · rw [crash] at called
        cases called
      · rw [called'] at called
        cases called
        exact ih going' yields

/-- A list of tokens is recognised exactly if nothing is written at all. -/
theorem recognised_iff {pieces : List Piece} {sql : Str}
    (written : Written none pieces sql.m_cstr) : Recognised pieces sql ↔ sql.m_cstr = [] := by
  constructor
  · rintro ⟨lex, made, yields⟩
    by_contra more
    rw [sqllexNew_eq] at made
    rcases going_step (fresh_going more) with
      ⟨-, lex', failed, token, lexum⟩ | crash | ⟨ok, lex', called, going, -⟩
    · rw [failed] at made
      cases made
      cases pieces with
      | nil => exact absurd (token.symm.trans yields) (by decide)
      | cons piece pieces =>
          obtain ⟨-, ⟨s, found, -⟩, -⟩ := yields
          cases lexum.symm.trans found
    · rw [crash] at made
      cases made
    · rw [called] at made
      cases made
      exact going_yields going _ yields
  · intro empty
    have none_ : pieces = [] := by
      rw [empty] at written
      generalize whole : ([] : Bytes) = text at written
      cases written with
      | done => rfl
      | @next _ piece _ gap text white room rest =>
          have parts := List.append_eq_nil_iff.mp whole.symm
          exact absurd (List.append_eq_nil_iff.mp parts.2).1 piece.spell_ne
    rw [none_]
    exact ⟨_, empty_dup empty, rfl⟩

/-- A word of two letters. -/
def twoLetters : Piece :=
  .word [65, 66] (by decide) (List.all_eq_true.mp (show [65, 66].all wordCh = true by decide))
    (fun _ mem => by cases mem; decide)

/-- Nothing is recognised in an empty text, and two words are not in theirs. -/
theorem recognised_iff_words :
    Recognised [] (stringTakeOwnership []) ∧
      Written none [twoLetters, twoLetters] (stringTakeOwnership [65, 66, 32, 65, 66]).m_cstr ∧
        ¬ Recognised [twoLetters, twoLetters] (stringTakeOwnership [65, 66, 32, 65, 66]) := by
  have white : White [] := fun _ mem => nomatch mem
  have blank : White [32] := fun c mem => by
    obtain rfl := List.mem_singleton.mp mem
    decide
  have nothing : Written none [] (stringTakeOwnership []).m_cstr := .done white
  have written : Written none [twoLetters, twoLetters]
      (stringTakeOwnership [65, 66, 32, 65, 66]).m_cstr :=
    .next white (.inr fun _ mem => nomatch mem) (.next blank (.inl (by decide)) (.done white))
  exact ⟨(recognised_iff nothing).mpr rfl, written,
    fun all => absurd ((recognised_iff written).mp all) (by decide)⟩

/-- It is written alone, and its lexeme is the empty text. -/
theorem word_not_recognised : Written none [twoLetters] (stringTakeOwnership [65, 66]).m_cstr ∧
    ¬ Recognised [twoLetters] (stringTakeOwnership [65, 66]) := by
  have white : White [] := fun _ mem => nomatch mem
  have written : Written none [twoLetters] (stringTakeOwnership [65, 66]).m_cstr :=
    .next white (.inr fun _ mem => nomatch mem) (.done white)
  exact ⟨written, fun all => absurd ((recognised_iff written).mp all) (by decide)⟩

end Sqllex

end Jspp.Splc
