/-
# Compiler.Lexeme -- where the lexeme buffer is written

`lexp->lex` is an array of `LEX_TOKE_BUF` bytes.  Each copying loop of `jsppLex`
stores the next character at `lexpos` and counts it, so the characters that the
model collects are written at their own places, and a NUL behind them; `sprintf`
writes the number of an error over them.  Only the loop over a string looks at
the size of the buffer.

* `lexWrites`: every index that a call writes.
* `room`: the bytes that the token at the start of a text needs.
* `lexWrites_iff`: a call writes inside the buffer, and reports what does not fit,
  exactly when there is room for the token.
-/
import Jspp.Compiler.Scan

namespace Jspp.Compiler

set_option autoImplicit false

namespace Jspplex

/-! ## The indices -/

/-- `sprintf( lexp->lex, "%d", code )` writes the number and a NUL. -/
def errorWrites (code : Int) : List Nat := List.range ((toString code).toList.length + 1)

/-- The number branch: the digits before an `x` that may not stand there, and the error
over them, or else the numeral and its NUL. -/
def numberWrites (toke : Token) (c : Int) (lexp : Jspplex) : List Nat :=
  let (_, digits, _) := collect isdigit lexp.rounds c [] lexp
  let read := number toke c lexp
  if read.token = .lexerror then
    List.range digits.length ++ errorWrites LEX_INVALID_NUMBER_FORMAT
  else List.range (read.lex.length + 1)

def identifierWrites (c : Int) (lexp : Jspplex) : List Nat :=
  List.range ((identifier c lexp).lex.length + 1)

/-- The character and its NUL, and the error over them. -/
def charWrites (lexp : Jspplex) : List Nat :=
  let (c, lexp) := lexp.getch
  let (bad, lexp) :=
    if c = ch '\\' then
      let (e, lexp) := lexp.getescape
      (e == -1, lexp)
    else (false, lexp)
  if bad then errorWrites LEX_UNEXPECTED_ESCAPE
  else
    let (c, _) := lexp.getch
    [0, 1] ++ if c ≠ ch '\'' then errorWrites LEX_UNTERMINATED_CHAR else []

/-- The string branch, with the characters of `stringLiteral` so far. -/
def stringWrites : Nat → List Char → Jspplex → List Nat
  | 0, acc, _ => List.range acc.length ++ errorWrites LEX_UNTERMINATED_STRING
  | n + 1, acc, lexp =>
      let (c, lexp) := lexp.getch
      if c = -1 then List.range acc.length ++ errorWrites LEX_UNTERMINATED_STRING
      else if c = ch '"' then
        if acc.length = LEX_TOKE_BUF then
          List.range acc.length ++ errorWrites LEX_UNTERMINATED_STRING
        else List.range (acc.length + 1)
      else if acc.length < LEX_TOKE_BUF then
        if c = ch '\\' then
          let (e, lexp) := lexp.getescape
          if e = -1 then List.range acc.length ++ errorWrites LEX_UNEXPECTED_ESCAPE
          else stringWrites n (acc ++ [toChar e]) lexp
        else stringWrites n (acc ++ [toChar c]) lexp
      else List.range acc.length ++ errorWrites LEX_UNTERMINATED_STRING

/-- The characters that begin an operator, which writes no lexeme. -/
def operators : List Char := "|&{}()[]!=+-*/%^~:;,<>".toList

/-- A call behind white space, where no comment begins. -/
def tokenWrites (lexp : Jspplex) : List Nat :=
  let (c, lexp) := lexp.getch
  if c ≤ 0 then []
  else if isdigit c then numberWrites .int c lexp
  else if c = ch '.' then
    let (c, lexp) := lexp.getch
    if ¬ isdigit c then []
    else let (c, lexp) := lexp.ungetch c; numberWrites .real c lexp
  else if isalpha c ∨ c = ch '_' then identifierWrites c lexp
  else if c = ch '\'' then charWrites lexp
  else if c = ch '"' then stringWrites lexp.rounds [] lexp
  else if operators.any fun op => c = ch op then []
  else errorWrites LEX_ERROR

/-- `jsppLex`, with the recursion after a comment. -/
def jsppLexW : Nat → Jspplex → List Nat
  | 0, _ => []
  | n + 1, lexp =>
      let lexp := stripWS lexp
      let (c, after) := lexp.getch
      let (d, behind) := after.getch
      if c = ch '/' ∧ d = ch '/' then jsppLexW n (eolComment after.rounds d behind)
      else if c = ch '/' ∧ d = ch '*' then jsppLexW n (comment after.rounds 1 d behind)
      else tokenWrites lexp

end Jspplex

/-- Every index of the lexeme buffer that a call of `jsppLex` writes. -/
def lexWrites (l : Jspplex) : List Nat := Jspplex.jsppLexW l.rounds l

/-! ## The room for a token -/

def digits (r : List Char) : Nat := (taken isdigit r).length

/-- The bytes of an exponent, when there is one. -/
def exponentRoom (r : List Char) : Nat :=
  if peek r = ch 'e' ∨ peek r = ch 'E' then
    if peek r.tail = ch '+' ∨ peek r.tail = ch '-' then 2 + digits r.tail.tail
    else 1 + digits r.tail
  else 0

/-- The bytes of a numeral and its NUL; an `x` behind anything but a single 0 is an error
behind the digits. -/
def numeralRoom (r : List Char) : Nat :=
  let t := left isdigit r
  if peek t = ch 'x' then
    if (taken isdigit r).length ≠ 1 ∨ (taken isdigit r).head? ≠ some '0' then digits r
    else digits r + 1 + digits t.tail + 1
  else if peek t = ch '.' then
    digits r + 1 + digits t.tail + exponentRoom (left isdigit t.tail) + 1
  else digits r + exponentRoom t + 1

/-- The bytes of the buffer that a numeral or an identifier at the start of the text needs. -/
def room (r : List Char) : Nat :=
  if isdigit (peek r) ∨ peek r = ch '.' ∧ isdigit (peek r.tail) then numeralRoom r
  else if isalpha (peek r) ∨ peek r = ch '_' then (taken isword r).length + 1
  else 0

/-- The indices are inside the buffer, and a lexeme that does not fit is an error. -/
structure Fits (writes : List Nat) (s : Piece) : Prop where
  inside : ∀ i ∈ writes, i < LEX_TOKE_BUF
  reported : writes ≠ [] → LEX_TOKE_BUF ≤ s.lex.length → s.token = .lexerror

theorem range_lt_iff (n k : Nat) : (∀ i ∈ List.range n, i < k) ↔ n ≤ k := by
  constructor
  · intro all
    by_contra more
    exact absurd (all k (List.mem_range.mpr (by omega))) (Nat.lt_irrefl k)
  · intro le i mem
    exact Nat.lt_of_lt_of_le (List.mem_range.mp mem) le

/-- The errors of the lexer have short numbers. -/
theorem errorWrites_lt {code : Int} (lexical : -5 ≤ code ∧ code < 0) :
    ∀ i ∈ Jspplex.errorWrites code, i < LEX_TOKE_BUF := by
  obtain rfl | rfl | rfl | rfl | rfl :
      code = -1 ∨ code = -2 ∨ code = -3 ∨ code = -4 ∨ code = -5 := by omega
  all_goals decide

theorem fits_nil (s : Piece) : Fits [] s := ⟨nofun, fun some => absurd rfl some⟩

theorem fits_error {writes : List Nat} (inside : ∀ i ∈ writes, i < LEX_TOKE_BUF) (code : Int)
    (r : List Char) : Fits writes (scanError code r) :=
  ⟨inside, fun _ _ => rfl⟩

theorem fits_append {n : Nat} (le : n ≤ LEX_TOKE_BUF) {code : Int}
    (lexical : -5 ≤ code ∧ code < 0) :
    ∀ i ∈ List.range n ++ Jspplex.errorWrites code, i < LEX_TOKE_BUF := by
  intro i mem
  rcases List.mem_append.mp mem with own | error
  · exact (range_lt_iff n _).mpr le i own
  · exact errorWrites_lt lexical i error

/-- The lexeme and its NUL. -/
theorem fits_lexeme_iff (s : Piece) :
    Fits (List.range (s.lex.length + 1)) s ↔ s.lex.length + 1 ≤ LEX_TOKE_BUF := by
  constructor
  · intro fits
    exact (range_lt_iff _ _).mp fits.inside
  · intro le
    exact ⟨(range_lt_iff _ _).mpr le, fun _ more => absurd more (by omega)⟩

/-! ## Numerals -/

theorem room_exponent (s : Piece) :
    (scanReal s).lex.length = s.lex.length + exponentRoom s.rest ∧
      ((scanReal s).token = .lexerror → s.token = .lexerror) := by
  unfold scanReal exponentRoom
  split
  · refine ⟨?_, fun error => nomatch error⟩
    unfold scanExponent digits
    split <;>
      · simp only [List.length_append, List.length_cons, List.length_nil]
        omega
  · exact ⟨rfl, id⟩

theorem room_fraction (toke : Token) (acc r : List Char) :
    (scanReal (scanFraction toke acc r)).lex.length =
      (if peek r = ch '.' then
        acc.length + 1 + digits r.tail + exponentRoom (left isdigit r.tail)
      else acc.length + exponentRoom r) ∧
      ((scanReal (scanFraction toke acc r)).token = .lexerror → toke = .lexerror) := by
  obtain ⟨length, error⟩ := room_exponent (scanFraction toke acc r)
  rw [length]
  unfold scanFraction at error ⊢
  split at error
  · rename_i point
    rw [if_pos point, if_pos point]
    refine ⟨?_, fun bad => nomatch error bad⟩
    simp only [digits, List.length_append, List.length_cons, List.length_nil, Nat.zero_add]
  · rename_i point
    rw [if_neg point, if_neg point]
    exact ⟨rfl, error⟩

/-- The room for a numeral is that of its lexeme, unless it is an error. -/
theorem scanNumber_room {toke : Token} (ne : toke ≠ .lexerror) (r : List Char) :
    if (scanNumber toke r).token = .lexerror then numeralRoom r = digits r
    else numeralRoom r = (scanNumber toke r).lex.length + 1 := by
  unfold scanNumber numeralRoom
  by_cases hex : peek (left isdigit r) = ch 'x'
  · simp only [if_pos hex]
    split
    · rfl
    · show _ = _ + 1
      simp only [digits, List.length_append, List.length_cons, List.length_nil, Nat.zero_add]
  · simp only [if_neg hex]
    obtain ⟨length, error⟩ := room_fraction toke (taken isdigit r) (left isdigit r)
    rw [if_neg fun bad => ne (error bad), length]
    split <;> rfl

namespace Jspplex

theorem numberWrites_iff {toke : Token} (ne : toke ≠ .lexerror) (l : Jspplex) :
    Fits (numberWrites toke l.getch.1 l.getch.2) (scanNumber toke l.rest) ↔
      numeralRoom l.rest ≤ LEX_TOKE_BUF := by
  have stop : isdigit (-1) = false := rfl
  obtain ⟨m, same, rest, run⟩ := collect_spec stop (length_rest_same (getch_same l)) []
  have reads := number_spec toke l
  have needs := scanNumber_room ne l.rest
  rw [numberWrites, run, List.nil_append]
  simp only
  rw [reads.token, reads.lex]
  split at needs
  · rename_i error
    rw [if_pos error, needs]
    constructor
    · intro fits
      refine (range_lt_iff _ _).mp fun i mem => ?_
      exact fits.inside i (List.mem_append_left _ mem)
    · intro le
      exact ⟨fits_append le (by decide), fun _ _ => error⟩
  · rename_i good
    rw [if_neg good, needs]
    exact fits_lexeme_iff _

theorem identifierWrites_iff (l : Jspplex) :
    Fits (identifierWrites l.getch.1 l.getch.2) (scanWord l.rest) ↔
      (taken isword l.rest).length + 1 ≤ LEX_TOKE_BUF := by
  rw [identifierWrites, (identifier_spec l).lex]
  exact fits_lexeme_iff (scanWord l.rest)

/-! ## Characters and strings -/

theorem charWrites_fits (l : Jspplex) : Fits (charWrites l) (scanChar l.rest) := by
  have short : (scanChar l.rest).lex.length < LEX_TOKE_BUF ∨
      (scanChar l.rest).token = .lexerror := by
    have quote (c : Int) (r : List Char) : (scanQuote c r).lex.length < LEX_TOKE_BUF ∨
        (scanQuote c r).token = .lexerror := by
      unfold scanQuote
      split
      · exact .inr rfl
      · refine .inl ?_
        show (if toChar c = '\x00' then [] else [toChar c]).length < _
        split
        · decide
        · exact (by decide : 1 < LEX_TOKE_BUF)
    unfold scanChar
    split
    · split
      · exact .inr rfl
      · exact quote _ _
    · exact quote _ _
  have two (tail : List Nat) (inside : ∀ i ∈ tail, i < LEX_TOKE_BUF) :
      ∀ i ∈ [0, 1] ++ tail, i < LEX_TOKE_BUF := by
    intro i mem
    rcases List.mem_append.mp mem with own | error
    · rcases List.mem_pair.mp own with rfl | rfl <;> decide
    · exact inside i error
  refine ⟨?_, fun _ more => short.elim (fun less => absurd less (by omega)) id⟩
  have ends (m : Jspplex) : ∀ i ∈ [0, 1] ++
      (if m.getch.1 ≠ ch '\'' then errorWrites LEX_UNTERMINATED_CHAR else []),
      i < LEX_TOKE_BUF := by
    refine two _ ?_
    split
    · exact errorWrites_lt (by decide)
    · exact nofun
  simp only [charWrites]
  by_cases slash : l.getch.1 = ch '\\'
  · simp only [if_pos slash]
    split
    · exact errorWrites_lt (by decide)
    · exact ends _
  · simp only [if_neg slash]
    exact ends _

/-- The loop over a string stops when the buffer is full. -/
theorem stringWrites_lt (n : Nat) {acc : List Char} (l : Jspplex)
    (fits : acc.length ≤ LEX_TOKE_BUF) :
    ∀ i ∈ stringWrites n acc l, i < LEX_TOKE_BUF := by
  induction n generalizing acc l with
  | zero => exact fits_append fits (by decide)
  | succ n ih =>
      have longer (c : Char) (less : acc.length < LEX_TOKE_BUF) :
          (acc ++ [c]).length ≤ LEX_TOKE_BUF := by
        rw [List.length_append]
        exact less
      simp only [stringWrites]
      split
      · exact fits_append fits (by decide)
      split
      · split
        · exact fits_append fits (by decide)
        · exact (range_lt_iff _ _).mpr (by omega)
      split
      · rename_i less
        split
        · split
          · exact fits_append fits (by decide)
          · exact ih _ (longer _ less)
        · exact ih _ (longer _ less)
      · exact fits_append fits (by decide)

theorem scanString_reported (acc r : List Char) (fits : acc.length ≤ LEX_TOKE_BUF) :
    LEX_TOKE_BUF ≤ (scanString acc r).lex.length → (scanString acc r).token = .lexerror := by
  induction hn : r.length using Nat.strongRecOn generalizing acc r with
  | ind n ih =>
      subst hn
      cases r with
      | nil => exact fun _ => rfl
      | cons c r =>
          have longer (d : Char) (less : acc.length < LEX_TOKE_BUF) :
              (acc ++ [d]).length ≤ LEX_TOKE_BUF := by
            rw [List.length_append]
            exact less
          rw [scanString_cons]
          split
          · exact fun _ => rfl
          split
          · split
            · exact fun _ => rfl
            · exact fun more => absurd (Nat.le_antisymm fits more) (by assumption)
          split
          · rename_i less
            split
            · cases r with
              | nil => exact fun _ => rfl
              | cons e r =>
                  simp only
                  split
                  · exact fun _ => rfl
                  · exact ih r.length (by simp only [List.length_cons]; omega) _ r
                      (longer _ less) rfl
            · exact ih r.length (Nat.lt_succ_self _) _ r (longer _ less) rfl
          · exact fun _ => rfl

theorem stringWrites_fits (n : Nat) (l : Jspplex) :
    Fits (stringWrites n [] l) (scanString [] l.rest) :=
  ⟨stringWrites_lt n l (Nat.zero_le _), fun _ => scanString_reported [] l.rest (Nat.zero_le _)⟩

/-! ## One call -/

/-- What begins with no character of an operator is an error. -/
theorem scanPunct_none {c : Int} (none : (operators.any fun op => c = ch op) = false)
    (lex r : List Char) : scanPunct c lex r = scanError LEX_ERROR r := by
  have ne (op : Char) (mem : op ∈ operators) : ¬ c = ch op := by
    intro same
    rw [List.any_eq_false] at none
    exact none op mem (decide_eq_true same)
  rw [scanPunct, if_neg (ne '|' (by decide)), if_neg (ne '&' (by decide)),
    if_neg (ne '{' (by decide)), if_neg (ne '}' (by decide)), if_neg (ne '(' (by decide)),
    if_neg (ne ')' (by decide)), if_neg (ne '[' (by decide)), if_neg (ne ']' (by decide)),
    if_neg (ne '!' (by decide)), if_neg (ne '=' (by decide)), if_neg (ne '+' (by decide)),
    if_neg (ne '-' (by decide)), if_neg (ne '*' (by decide)), if_neg (ne '/' (by decide)),
    if_neg (ne '%' (by decide)), if_neg (ne '^' (by decide)), if_neg (ne '~' (by decide)),
    if_neg (ne ':' (by decide)), if_neg (ne ';' (by decide)), if_neg (ne ',' (by decide)),
    if_neg (ne '<' (by decide)), if_neg (ne '>' (by decide))]

theorem fits_zero {writes : List Nat} {s : Piece} (fits : Fits writes s) :
    Fits writes s ↔ 0 ≤ LEX_TOKE_BUF :=
  iff_of_true fits (Nat.zero_le _)

/-- A call behind white space fits exactly when there is room for its token. -/
theorem tokenWrites_iff (m : Jspplex) (lex : List Char) :
    Fits (tokenWrites m) (scanToken lex m.rest) ↔ room m.rest ≤ LEX_TOKE_BUF := by
  simp only [tokenWrites]
  rw [getch_char m, getch_char m.getch.2, getch_rest, scanToken, room]
  by_cases ended : peek m.rest ≤ 0
  · have plain : ¬ (isdigit (peek m.rest) ∨ peek m.rest = ch '.' ∧ isdigit (peek m.rest.tail)) ∧
        ¬ (isalpha (peek m.rest) ∨ peek m.rest = ch '_') := by
      have marks : ch '.' = 46 ∧ ch '_' = 95 := by decide
      rw [marks.1, marks.2]
      simp only [isdigit, isalpha, Bool.and_eq_true, Bool.or_eq_true, decide_eq_true_eq]
      exact ⟨by rintro (h | ⟨h, -⟩) <;> omega, by omega⟩
    rw [if_pos ended, if_pos ended, if_neg plain.1, if_neg plain.2]
    exact fits_zero (fits_nil _)
  rw [if_neg ended, if_neg ended]
  by_cases digit : isdigit (peek m.rest)
  · rw [if_pos digit, if_pos digit, if_pos (.inl digit), ← getch_char]
    exact numberWrites_iff (by decide) m
  rw [if_neg digit, if_neg digit]
  by_cases point : peek m.rest = ch '.'
  · rw [if_pos point, if_pos point]
    by_cases fraction : isdigit (peek m.rest.tail)
    · obtain ⟨m', same, rest, run⟩ := ungetch_point point fraction
      rw [getch_char m.getch.2, getch_rest] at run
      rw [if_neg (not_not.mpr fraction), if_neg (not_not.mpr fraction),
        if_pos (.inr ⟨point, fraction⟩), run, ← rest]
      exact numberWrites_iff (by decide) m'
    · have plain : ¬ (isalpha (peek m.rest) ∨ peek m.rest = ch '_') := by
        rw [point]
        decide
      rw [if_pos fraction, if_pos fraction,
        if_neg (fun h => h.elim digit fun h => fraction h.2), if_neg plain]
      exact fits_zero (fits_nil _)
  have noNumeral : ¬ (isdigit (peek m.rest) ∨ peek m.rest = ch '.' ∧ isdigit (peek m.rest.tail)) :=
    fun h => h.elim digit fun h => point h.1
  rw [if_neg point, if_neg point, if_neg noNumeral]
  by_cases word : isalpha (peek m.rest) ∨ peek m.rest = ch '_'
  · rw [if_pos word, if_pos word, if_pos word, ← getch_char]
    exact identifierWrites_iff m
  rw [if_neg word, if_neg word, if_neg word]
  refine fits_zero ?_
  by_cases quote : peek m.rest = ch '\''
  · rw [if_pos quote, if_pos quote, ← getch_rest]
    exact charWrites_fits m.getch.2
  rw [if_neg quote, if_neg quote]
  by_cases string : peek m.rest = ch '"'
  · rw [if_pos string, if_pos string, ← getch_rest]
    exact stringWrites_fits _ m.getch.2
  rw [if_neg string, if_neg string]
  cases none : operators.any fun op => decide (peek m.rest = ch op) with
  | true => exact fits_nil _
  | false =>
      rw [if_neg Bool.false_ne_true, scanPunct_none none]
      exact fits_error (errorWrites_lt (by decide)) _ _

/-- What a call writes, it writes for the token behind white space and comments. -/
theorem jsppLexW_token {n : Nat} {l : Jspplex} (enough : l.rest.length < n) :
    ∃ m : Jspplex, m.rest = skip l.rest ∧ jsppLexW n l = tokenWrites m := by
  induction n generalizing l with
  | zero => omega
  | succ n ih =>
      obtain ⟨same, rest⟩ := stripWS_spec l
      have stripped := length_strip l.rest
      rw [skip]
      simp only [jsppLexW]
      rw [getch_char, getch_char, getch_rest, rest]
      cases begins : comment? (strip l.rest) with
      | none =>
          refine ⟨stripWS l, rest, ?_⟩
          unfold comment? at begins
          split_ifs at begins with slash line nested
          · rw [if_neg (fun h => line h.2), if_neg (fun h => nested h.2)]
          · rw [if_neg (fun h => slash h.1), if_neg (fun h => slash h.1)]
      | some t =>
          have shorter := length_comment? begins
          have inner : (stripWS l).getch.2.rest = (strip l.rest).tail := by rw [getch_rest, rest]
          unfold comment? at begins
          split_ifs at begins with slash line nested
          · obtain ⟨-, left⟩ := eolComment_spec (length_rest (stripWS l).getch.2)
            rw [getch_char, inner, Option.some.inj begins] at left
            rw [if_pos ⟨slash, line⟩]
            obtain ⟨m, here, run⟩ := ih (by rw [left]; omega)
            exact ⟨m, by rw [here, left], run⟩
          · obtain ⟨-, left⟩ := comment_spec (stripWS l).getch.2.rounds 1 (stripWS l).getch.2
            have short := length_rest (stripWS l).getch.2
            rw [inner] at short
            rw [getch_char, inner, commentRest_rounds short
              (by rw [length_tail]; omega : _ < (strip l.rest).length + 1),
              Option.some.inj begins] at left
            rw [if_neg (fun h => line h.2), if_pos ⟨slash, nested⟩]
            obtain ⟨m, here, run⟩ := ih (by rw [left]; omega)
            exact ⟨m, by rw [here, left], run⟩

end Jspplex

theorem lexWrites_fits (l : Jspplex) :
    Fits (lexWrites l) ⟨(jsppLex l).token, (jsppLex l).lex, (jsppLex l).rest⟩ ↔
      room (skip l.rest) ≤ LEX_TOKE_BUF := by
  obtain ⟨m, rest, run⟩ := Jspplex.jsppLexW_token (Jspplex.length_rest l)
  have reads := jsppLex_scan l
  have fits := Jspplex.tokenWrites_iff m l.lex
  rw [rest] at fits
  rw [← fits, reads.token, reads.lex, reads.rest, lexWrites, run]
  rfl

/-- Every index that a call of `jsppLex` writes is inside the lexeme buffer, and a lexeme that
does not fit is an error, if and only if there is room for the numeral or the identifier that
follows white space and comments. -/
theorem lexWrites_iff (l : Jspplex) :
    ((∀ i ∈ lexWrites l, i < LEX_TOKE_BUF) ∧
      (lexWrites l ≠ [] → LEX_TOKE_BUF ≤ (jsppLex l).lex.length →
        (jsppLex l).token = .lexerror)) ↔
      room (skip l.rest) ≤ LEX_TOKE_BUF :=
  ⟨fun h => (lexWrites_fits l).mp ⟨h.1, h.2⟩,
    fun le => ⟨((lexWrites_fits l).mpr le).inside, ((lexWrites_fits l).mpr le).reported⟩⟩

/-- What is decided by the first letter. -/
theorem letter_read : isws (chOf 'a') = false ∧ chOf 'a' ≠ -1 ∧ isword (chOf 'a') = true ∧
    chOf 'a' ≠ ch '/' ∧ isdigit (chOf 'a') = false ∧ chOf 'a' ≠ ch '.' ∧
    isalpha (chOf 'a') = true := by decide

theorem skip_letters (n : Nat) :
    skip (List.replicate (n + 1) 'a') = List.replicate (n + 1) 'a' := by
  have stripped : strip (List.replicate (n + 1) 'a') = List.replicate (n + 1) 'a' := by
    rw [List.replicate_succ, strip, Jspplex.left_cons, letter_read.1, if_neg Bool.false_ne_true,
      back, if_neg letter_read.2.1]
  have noComment : comment? (List.replicate (n + 1) 'a') = none := by
    rw [List.replicate_succ, comment?, peek, if_neg letter_read.2.2.2.1]
  rw [skip, stripped, noComment]

theorem length_word_letters (n : Nat) : (taken isword (List.replicate n 'a')).length = n := by
  induction n with
  | zero => rfl
  | succ n ih =>
      rw [List.replicate_succ, Jspplex.taken_cons, if_pos letter_read.2.2.1, List.length_cons, ih]

theorem numeral_letters (n : Nat) : ¬ (isdigit (peek (List.replicate (n + 1) 'a')) ∨
    peek (List.replicate (n + 1) 'a') = ch '.' ∧
      isdigit (peek (List.replicate (n + 1) 'a').tail)) := by
  rintro (digit | ⟨point, -⟩)
  · exact absurd digit (by
      rw [List.replicate_succ, peek, letter_read.2.2.2.2.1]
      exact Bool.false_ne_true)
  · exact letter_read.2.2.2.2.2.1 point

/-- The text of `n` letters is one identifier. -/
theorem room_letters (n : Nat) : room (skip (List.replicate (n + 1) 'a')) = n + 2 := by
  rw [skip_letters, room, if_neg (numeral_letters n),
    if_pos (.inl (show isalpha (chOf 'a') = true from letter_read.2.2.2.2.2.2)),
    length_word_letters]

theorem rest_letters (n : Nat) :
    (jspplexConstructChar (List.replicate n 'a')).rest = List.replicate n 'a' := by
  have plain : decide ('a' ≠ '\x00') = true := by decide
  show ((List.replicate n 'a').takeWhile fun c => decide (c ≠ '\x00')).drop 0 = _
  rw [List.takeWhile_replicate, if_pos plain, List.drop_zero]

theorem letters_fit {n : Nat} {l : Jspplex}
    (text : l = jspplexConstructChar (List.replicate (n + 1) 'a'))
    (inside : ∀ i ∈ lexWrites l, i < LEX_TOKE_BUF)
    (reported : lexWrites l ≠ [] → LEX_TOKE_BUF ≤ (jsppLex l).lex.length →
      (jsppLex l).token = .lexerror) : n + 2 ≤ LEX_TOKE_BUF := by
  have needs := (lexWrites_fits l).mp ⟨inside, reported⟩
  rwa [text, rest_letters, room_letters] at needs

/-- An identifier of 512 letters is written behind the buffer. -/
theorem identifier_outside :
    let l := jspplexConstructChar (List.replicate 512 'a')
    ¬ ((∀ i ∈ lexWrites l, i < LEX_TOKE_BUF) ∧
      (lexWrites l ≠ [] → LEX_TOKE_BUF ≤ (jsppLex l).lex.length →
        (jsppLex l).token = .lexerror)) := by
  generalize text : jspplexConstructChar (List.replicate 512 'a') = l
  rintro m ⟨inside, reported⟩
  have fits : 511 + 2 ≤ LEX_TOKE_BUF := letters_fit text.symm inside reported
  exact absurd fits (by decide)

end Jspp.Compiler
