/-
# Compiler.Messages -- the messages of `setupError`, their buffer, and the end of parsing

`setupError` prints its message into a buffer of 512 characters.  A lexeme may
fill a buffer of that size itself, and the message has the line number and a text
of its own around it.  Where the message goes on behind the buffer, the parser
does not come back, though none of its loops goes on for ever.

* `Piece.Named`: the lexemes of lexical errors are short.
* `Printed`: the message fits.
* `setupError_iff`: on which lines the messages about a lexeme fit.
* `parseChar_returns`: `parseChar` comes back exactly if every token it reads and
  every message it prints fits.
-/
import Mathlib.Data.List.TakeWhile
import Jspp.Compiler.Lexeme
import Jspp.Compiler.Recorded

namespace Jspp.Compiler

open Jspp.Kernel

set_option autoImplicit false

/-! ## The lexemes of lexical errors -/

/-- The lexeme of an error token is the number of one of the lexical errors. -/
def Piece.Named (s : Piece) : Prop :=
  s.token = .lexerror → ∃ code : Int, -5 ≤ code ∧ code < 0 ∧ s.lex = (toString code).toList

namespace Piece

theorem named_of_ne {s : Piece} (ne : s.token ≠ .lexerror) : s.Named := fun bad => absurd bad ne

theorem named_error {code : Int} (low : -5 ≤ code) (high : code < 0) (r : List Char) :
    (scanError code r).Named := fun _ => ⟨code, low, high, rfl⟩

theorem named_ite {p : Prop} [Decidable p] {a b : Piece} (one : a.Named) (two : b.Named) :
    (if p then a else b).Named := by
  split
  · exact one
  · exact two

end Piece

open Piece

theorem named_number {toke : Token} (ne : toke ≠ .lexerror) (r : List Char) :
    (scanNumber toke r).Named := by
  unfold scanNumber
  split
  · exact named_ite (named_error (by decide) (by decide) _) (named_of_ne (by simp))
  · exact named_of_ne fun bad => ne ((room_fraction toke _ _).2 bad)

theorem named_quote (c : Int) (r : List Char) : (scanQuote c r).Named :=
  named_ite (named_error (by decide) (by decide) _) (named_of_ne (by simp))

theorem named_char (r : List Char) : (scanChar r).Named :=
  named_ite (named_ite (named_error (by decide) (by decide) _) (named_quote _ _)) (named_quote _ _)

theorem named_string (acc r : List Char) : (scanString acc r).Named := by
  have low : -5 ≤ LEX_UNTERMINATED_STRING ∧ LEX_UNTERMINATED_STRING < 0 := by decide
  have low' : -5 ≤ LEX_UNEXPECTED_ESCAPE ∧ LEX_UNEXPECTED_ESCAPE < 0 := by decide
  induction hn : r.length using Nat.strongRecOn generalizing acc r with
  | ind n ih =>
      subst hn
      cases r with
      | nil => exact named_error low.1 low.2 _
      | cons c r =>
          rw [scanString_cons]
          refine named_ite (named_error low.1 low.2 _) (named_ite
            (named_ite (named_error low.1 low.2 _) (named_of_ne (by simp)))
            (named_ite (named_ite ?_ (ih r.length (Nat.lt_succ_self _) _ r rfl))
              (named_error low.1 low.2 _)))
          cases r with
          | nil => exact named_error low'.1 low'.2 _
          | cons e r =>
              exact named_ite (named_error low'.1 low'.2 _)
                (ih r.length (by simp only [List.length_cons]; omega) _ r rfl)

theorem named_operator {single : Token} {follow : List (Char × Token)} (ne : single ≠ .lexerror)
    (nes : ∀ f ∈ follow, f.2 ≠ .lexerror) (lex r : List Char) :
    (scanOperator single follow lex r).Named := by
  unfold scanOperator
  split
  case h_1 f found => exact named_of_ne (nes _ (List.mem_of_find?_eq_some found))
  case h_2 => exact named_of_ne ne

theorem named_punct (c : Int) (lex r : List Char) : (scanPunct c lex r).Named := by
  unfold scanPunct
  iterate 22 refine named_ite (by first
    | exact named_operator (by simp) (by simp) _ _
    | exact named_of_ne (by simp)) ?_
  exact named_error (by decide) (by decide) _

theorem named_token (lex r : List Char) : (scanToken lex r).Named := by
  unfold scanToken
  refine named_ite (named_of_ne (by simp)) (named_ite (named_number (by simp) _) (named_ite
    (named_ite (named_of_ne (by simp)) (named_number (by simp) _)) (named_ite
    (named_of_ne (Jspplex.keyword_ne _)) (named_ite (named_char _) (named_ite (named_string _ _)
    (named_punct _ _ _))))))

/-- The lexeme of a lexical error has two characters. -/
theorem length_lexical {l : Jspplex} (bad : (jsppLex l).token = .lexerror) :
    (jsppLex l).lex.length = 2 := by
  have reads := jsppLex_scan l
  rw [reads.token] at bad
  obtain ⟨code, low, high, named⟩ := named_token _ _ bad
  rw [reads.lex, scan, named]
  obtain rfl | rfl | rfl | rfl | rfl :
      code = -1 ∨ code = -2 ∨ code = -3 ∨ code = -4 ∨ code = -5 := by omega
  all_goals rfl

/-! ## The buffer -/

/-- The size of `buf` in `setupError`. -/
def ERROR_BUF : Nat := 512

/-- The message and its NUL are inside the buffer. -/
def Printed (lex : Jspplex) (parseerror : Int) : Prop :=
  (errorOf lex parseerror).2.2.length + 1 ≤ ERROR_BUF

theorem length_lexMessage (e : Int) : (lexMessage e).toList.length ≤ 26 := by
  unfold lexMessage
  split <;> (rw [String.toList_ofList]; decide)

theorem length_parseMessage (e : Int) : (parseMessage e).toList.length ≤ 51 := by
  unfold parseMessage
  split <;> (rw [String.toList_ofList]; decide)

theorem length_lineno_pos {n : Int} (line : 0 < n) : 0 < (toString n).toList.length := by
  obtain ⟨m, rfl⟩ := Int.eq_ofNat_of_zero_le (Int.le_of_lt line)
  exact Nat.length_repr_pos

/-- The characters of the line number. -/
theorem length_lineno {n : Int} (line : 0 < n) {k : Nat} (more : 0 < k) :
    (toString n).toList.length ≤ k ↔ n < 10 ^ k := by
  obtain ⟨m, rfl⟩ := Int.eq_ofNat_of_zero_le (Int.le_of_lt line)
  have digits : (toString (m : Int)).toList.length = (Nat.repr m).length := rfl
  rw [digits, Nat.length_repr_le_iff more]
  norm_cast

theorem printed_lexical {lex : Jspplex} (bad : lex.token = .lexerror) (e : Int) :
    Printed lex e ↔ lex.lex.length + (toString lex.lineno).toList.length +
      (lexMessage (atoi lex.lex)).toList.length ≤ 469 := by
  have front : "ERROR in lexical analysis of '".toList.length = 30 := by decide
  have middle : "' on line ".toList.length = 10 := by decide
  have feed : "\n".toList.length = 1 := by decide
  have buf : ERROR_BUF = 512 := rfl
  rw [Printed, errorOf, if_pos bad]
  simp only [List.length_append, front, middle, feed, buf]
  omega

theorem printed_other {lex : Jspplex} (other : lex.token ≠ .lexerror) (e : Int) :
    Printed lex e ↔ lex.lex.length + (toString lex.lineno).toList.length +
      (parseMessage e).toList.length ≤ 481 := by
  have front : "ERROR parsing of '".toList.length = 18 := by decide
  have middle : "' on line ".toList.length = 10 := by decide
  have feed : "\n".toList.length = 1 := by decide
  have buf : ERROR_BUF = 512 := rfl
  rw [Printed, errorOf, if_neg other]
  simp only [List.length_append, front, middle, feed, buf]
  omega

/-- The number of a line, an `int`. -/
def LineNumber (n : Int) : Prop := 0 < n ∧ n < 2 ^ 31

theorem LineNumber.length_le {n : Int} (line : LineNumber n) : (toString n).toList.length ≤ 10 :=
  (length_lineno line.1 (by decide)).mpr (Int.lt_trans line.2 (by decide))

/-- The messages about a token fit if and only if its line number has no more characters than the
longest of them leaves behind the lexeme. -/
theorem printed_iff (l : Jspplex) (line : LineNumber (jsppLex l).lineno) :
    (∀ e, Printed (jsppLex l) e) ↔
      (jsppLex l).lineno < 10 ^ (430 - (jsppLex l).lex.length) := by
  have digits := line.length_le
  have some := length_lineno_pos line.1
  by_cases bad : (jsppLex l).token = .lexerror
  · have lexeme := length_lexical bad
    have text := length_lexMessage (atoi (jsppLex l).lex)
    refine iff_of_true (fun e => (printed_lexical bad e).mpr (by omega)) ?_
    exact (length_lineno line.1 (by omega)).mp (by omega)
  · have longest : (parseMessage YYER_INST_REF_IN_STATIC).toList.length = 51 := by decide
    constructor
    · intro fits
      have most := (printed_other bad _).mp (fits YYER_INST_REF_IN_STATIC)
      exact (length_lineno line.1 (by omega)).mp (by omega)
    · intro short e
      have text := length_parseMessage e
      refine (printed_other bad e).mpr ?_
      by_cases room : (jsppLex l).lex.length < 430
      · have := (length_lineno line.1 (k := 430 - (jsppLex l).lex.length) (by omega)).mpr short
        omega
      · rw [Nat.sub_eq_zero_of_le (by omega)] at short
        exact absurd line.1 (by omega)

/-! ## Errors stay recorded -/

/-- No function of the parser takes an error back, and a program that has a message has an error
when `parseChar` returns. -/
structure StaysRecorded (intrinsics : Intrinsics) (text : List Char) : Prop where
  functions : Recording (parsers (parseFuel text))
  declarations : Program.Recorded (declaration (parsers (parseFuel text)))
  file : Program.Recorded (file (parsers (parseFuel text)))
  returned : (parseChar intrinsics text).comp.errmsg.isSome →
    (parseChar intrinsics text).errornum ≠ 0

theorem staysRecorded (intrinsics : Intrinsics) (text : List Char) :
    StaysRecorded intrinsics text where
  functions := parsers_recording _
  declarations := declaration_records (parsers_recording _)
  file := file_records (parsers_recording _)
  returned := by
    intro told
    refine (parseChar_records intrinsics text).told fun none => ?_
    rw [show (parseChar intrinsics text).comp.errmsg = Option.none from none] at told
    exact absurd told (by simp)

/-- A text of letters is read as one identifier. -/
theorem letters_read (n : Nat) :
    (jsppLex (jspplexConstructChar (List.replicate (n + 1) 'a'))).lex.length = n + 1 ∧
      (jsppLex (jspplexConstructChar (List.replicate (n + 1) 'a'))).token ≠ .lexerror := by
  have reads := jsppLex_scan (jspplexConstructChar (List.replicate (n + 1) 'a'))
  have word : ∀ lex, scan lex (List.replicate (n + 1) 'a') =
      scanWord (List.replicate (n + 1) 'a') := by
    intro lex
    have positive : ¬ peek (List.replicate (n + 1) 'a') ≤ 0 := by
      rw [List.replicate_succ, peek]
      decide
    rw [scan, skip_letters, scanToken, if_neg positive,
      if_neg fun digit => numeral_letters n (.inl digit),
      if_neg (show ¬ peek (List.replicate (n + 1) 'a') = ch '.' from letter_read.2.2.2.2.2.1),
      if_pos (.inl (show isalpha (chOf 'a') = true from letter_read.2.2.2.2.2.2))]
  rw [reads.lex, reads.token, rest_letters, word]
  exact ⟨length_word_letters (n + 1),
    Jspplex.keyword_ne (taken isword (List.replicate (n + 1) 'a'))⟩

/-- Errors stay recorded in every text, and the messages about a token fit their buffer if and
only if the lexeme leaves the room for the line number. -/
theorem setupError_iff (intrinsics : Intrinsics) (text : List Char) {l : Jspplex}
    (line : LineNumber (jsppLex l).lineno) :
    (StaysRecorded intrinsics text ∧ ∀ e, Printed (jsppLex l) e) ↔
      (jsppLex l).lineno < 10 ^ (430 - (jsppLex l).lex.length) := by
  rw [← printed_iff l line]
  exact and_iff_right (staysRecorded intrinsics text)

theorem setupError_letter :
    StaysRecorded ⟨[], []⟩ ['a'] ∧ ∀ e, Printed (jsppLex (jspplexConstructChar ['a'])) e := by
  have length : (jsppLex (jspplexConstructChar ['a'])).lex.length = 1 := (letters_read 0).1
  have line : (jsppLex (jspplexConstructChar ['a'])).lineno = 1 := by decide
  refine (setupError_iff ⟨[], []⟩ ['a'] ⟨by decide, by decide⟩).mpr ?_
  rw [length, line]
  exact (length_lineno (by decide) (by decide)).mp (by decide)

/-- The message about a name of 500 letters that stands in the place of a block. -/
theorem name_outside : ¬ ∀ (l : Jspplex) (e : Int), Printed (jsppLex l) e := by
  intro fits
  obtain ⟨length, other⟩ := letters_read 499
  have printed := (printed_other other _).mp (fits _ YYER_EXPECTED_LBRACE)
  rw [length] at printed
  omega

/-! ## The end of parsing -/

/-- What `jsppLex` writes in that state is inside its buffer, and what does not fit is an error. -/
def Inside (l : Jspplex) : Prop :=
  Fits (lexWrites l) ⟨(jsppLex l).token, (jsppLex l).lex, (jsppLex l).rest⟩

/-- The token at `k` of a text, that in front of the first one included. -/
def tokenAt (text : List Char) (k : Nat) : Jspplex := jsppLex^[k] (jspplexConstructChar text)

theorem tokenAt_succ (text : List Char) (k : Nat) :
    tokenAt text (k + 1) = jsppLex (tokenAt text k) :=
  Function.iterate_succ_apply' jsppLex k _

/-- The calls of `jsppLex` that brought the lexer to `last`.  Calls at the end of the text, which
write nothing, leave it where it is. -/
def Read (text : List Char) (last l : Jspplex) : Prop :=
  ∃ k, l = tokenAt text k ∧ ∀ j ≤ k, tokenAt text j ≠ last

/-- `parseChar` comes back: no loop and no recursion goes on for ever, and neither a token nor a
message is written behind its buffer. -/
structure ComesBack (intrinsics : Intrinsics) (text : List Char) : Prop where
  ends : (parseChar intrinsics text).comp.fuelOut = false
  tokens : ∀ l, Read text (parseChar intrinsics text).comp.lex l → Inside l
  messages : ∀ call ∈ (parseChar intrinsics text).comp.printed, Printed call.1 call.2

/-- There is room for the numeral or the identifier that comes next. -/
def Narrow (l : Jspplex) : Prop := room (skip l.rest) ≤ LEX_TOKE_BUF

/-- The lexeme and the line number leave room for the text of the error. -/
def Brief (l : Jspplex) (e : Int) : Prop :=
  if l.token = .lexerror then
    l.lex.length + (toString l.lineno).toList.length +
      (lexMessage (atoi l.lex)).toList.length ≤ 469
  else l.lex.length + (toString l.lineno).toList.length + (parseMessage e).toList.length ≤ 481

/-- The lexeme and the line number leave room for the text of any error. -/
def Short (l : Jspplex) : Prop := l.lex.length + (toString l.lineno).toList.length ≤ 430

theorem printed_brief (l : Jspplex) (e : Int) : Printed l e ↔ Brief l e := by
  unfold Brief
  split
  case isTrue bad => exact printed_lexical bad e
  case isFalse other => exact printed_other other e

theorem Short.brief {l : Jspplex} (short : Short l) (e : Int) : Brief l e := by
  have lexical := length_lexMessage (atoi l.lex)
  have other := length_parseMessage e
  unfold Short at short
  unfold Brief
  split <;> omega

theorem comesBack_iff (intrinsics : Intrinsics) (text : List Char) :
    ComesBack intrinsics text ↔
      (∀ l, Read text (parseChar intrinsics text).comp.lex l → Narrow l) ∧
        ∀ call ∈ (parseChar intrinsics text).comp.printed, Brief call.1 call.2 := by
  constructor
  · rintro ⟨-, tokens, messages⟩
    exact ⟨fun l read => (lexWrites_fits l).mp (tokens l read),
      fun call mem => (printed_brief _ _).mp (messages call mem)⟩
  · rintro ⟨narrow, brief⟩
    exact ⟨parseChar_bounded intrinsics text, fun l read => (lexWrites_fits l).mpr (narrow l read),
      fun call mem => (printed_brief _ _).mpr (brief call mem)⟩

/-- A text whose tokens all leave room is parsed to its end. -/
theorem comesBack_of_short (intrinsics : Intrinsics) {text : List Char}
    (short : ∀ k, Narrow (tokenAt text k) ∧ Short (tokenAt text k)) :
    ComesBack intrinsics text := by
  refine (comesBack_iff intrinsics text).mpr ⟨?_, fun call mem => ?_⟩
  · rintro l ⟨k, rfl, -⟩
    exact (short k).1
  · rcases (parseChar_records intrinsics text).printed call mem with none | ⟨k, at'⟩
    · cases none
    · rw [show call.1 = tokenAt text k from at']
      exact (short k).2.brief _

/-- `parseChar` comes back exactly if there is room for every token it reads and in every message
it prints, and so it does on every text of short words; neither its own loops and recursion
nor those of the lexer are stopped by the model's bounds, since every round makes progress. -/
theorem parseChar_returns (intrinsics : Intrinsics) (text : List Char) :
    (ComesBack intrinsics text ↔
      (∀ l, Read text (parseChar intrinsics text).comp.lex l → Narrow l) ∧
        ∀ call ∈ (parseChar intrinsics text).comp.printed, Brief call.1 call.2) ∧
      ((∀ k, Narrow (tokenAt text k) ∧ Short (tokenAt text k)) → ComesBack intrinsics text) ∧
      Advancing (parsers (parseFuel text)) text.length ∧ ∀ l : Jspplex, l.Settled :=
  ⟨comesBack_iff intrinsics text, comesBack_of_short intrinsics,
    parsers_advancing (by rw [parseFuel]; omega), settled⟩

/-! ### The message about an unknown class -/

/-- A text without a NUL is read as a whole. -/
theorem rest_plain {text : List Char} (plain : ∀ c ∈ text, c ≠ '\x00') :
    (jspplexConstructChar text).rest = text :=
  List.takeWhile_eq_self_iff.mpr fun c mem => decide_eq_true (plain c mem)

/-- A letter is neither white space nor the beginning of a comment. -/
theorem skip_word {c : Char} (r : List Char) (blank : isws (chOf c) = false) (some : chOf c ≠ -1)
    (slash : chOf c ≠ ch '/') : skip (c :: r) = c :: r := by
  have stripped : strip (c :: r) = c :: r := by
    rw [strip, Jspplex.left_cons, blank, if_neg Bool.false_ne_true, back, if_neg some]
  have noComment : comment? (c :: r) = none := by
    rw [comment?, peek, if_neg slash]
  rw [skip, stripped, noComment]

theorem skip_space (r : List Char) : skip (' ' :: r) = skip r := by
  have stripped : strip (' ' :: r) = strip r := by
    rw [strip, Jspplex.left_cons, if_pos (by decide)]
    rfl
  rw [skip, skip, stripped]

/-- `public` and a name of `n` letters. -/
def publicText (n : Nat) : List Char :=
  'p' :: 'u' :: 'b' :: 'l' :: 'i' :: 'c' :: ' ' :: List.replicate n 'a'

theorem public_read (n : Nat) (lex : List Char) :
    scan lex (publicText n) =
      ⟨.accPublic, ['p', 'u', 'b', 'l', 'i', 'c'], ' ' :: List.replicate n 'a'⟩ := by
  have word : taken isword (publicText n) = ['p', 'u', 'b', 'l', 'i', 'c'] := by
    unfold publicText
    iterate 6 rw [Jspplex.taken_cons, if_pos (by decide)]
    rw [Jspplex.taken_cons, if_neg (by decide)]
    decide
  have behind : left isword (publicText n) = ' ' :: List.replicate n 'a' := by
    unfold publicText
    iterate 6 rw [Jspplex.left_cons, if_pos (by decide)]
    rw [Jspplex.left_cons, if_neg (by decide)]
  have letter : peek (publicText n) = chOf 'p' := rfl
  rw [scan, show skip (publicText n) = publicText n from
    skip_word _ (by decide) (by decide) (by decide), scanToken, letter, if_neg (by decide),
    if_neg (by decide), if_neg (by decide), if_pos (by decide), scanWord, word, behind, back,
    if_neg (by decide), show Jspplex.keyword ['p', 'u', 'b', 'l', 'i', 'c'] = .accPublic by decide]

theorem letters_word (n : Nat) (lex : List Char) :
    scan lex (' ' :: List.replicate (n + 1) 'a') = scanWord (List.replicate (n + 1) 'a') := by
  have positive : ¬ peek (List.replicate (n + 1) 'a') ≤ 0 := by
    rw [List.replicate_succ, peek]
    decide
  rw [scan, skip_space, skip_letters, scanToken, if_neg positive,
    if_neg fun digit => numeral_letters n (.inl digit),
    if_neg (show ¬ peek (List.replicate (n + 1) 'a') = ch '.' from letter_read.2.2.2.2.2.1),
    if_pos (.inl (show isalpha (chOf 'a') = true from letter_read.2.2.2.2.2.2))]

/-- No keyword has more than nine letters. -/
theorem keyword_long {word : List Char} (long : word.length > 9) : Jspplex.keyword word = .id := by
  have short : ∀ entry ∈ Jspplex.keywords, entry.1.toList.length ≤ 9 := by decide
  unfold Jspplex.keyword
  split
  case h_1 entry found =>
    have same := List.find?_some found
    have := short entry (List.mem_of_find?_eq_some found)
    simp only [decide_eq_true_eq] at same
    rw [same] at this
    omega
  case h_2 => rfl

/-- The tokens of the text: the access, and a name of so many letters. -/
theorem public_tokens (n : Nat) :
    (tokenAt (publicText (n + 1)) 1).token = .accPublic ∧
      (tokenAt (publicText (n + 1)) 2).lex.length = n + 1 ∧
      (n + 1 > 9 → (tokenAt (publicText (n + 1)) 2).token = .id) := by
  have plain : ∀ c ∈ publicText (n + 1), c ≠ '\x00' := by
    simp [publicText]
  have first := jsppLex_scan (jspplexConstructChar (publicText (n + 1)))
  rw [rest_plain plain, public_read] at first
  have second := jsppLex_scan (jsppLex (jspplexConstructChar (publicText (n + 1))))
  rw [first.rest, letters_word] at second
  have at₁ : tokenAt (publicText (n + 1)) 1 =
      jsppLex (jspplexConstructChar (publicText (n + 1))) := tokenAt_succ _ 0
  have at₂ : tokenAt (publicText (n + 1)) 2 =
      jsppLex (jsppLex (jspplexConstructChar (publicText (n + 1)))) := by
    rw [tokenAt_succ, at₁]
  rw [at₁, at₂, first.token, second.lex, second.token]
  have size := length_word_letters (n + 1)
  have word : (scanWord (List.replicate (n + 1) 'a')).token =
      Jspplex.keyword (taken isword (List.replicate (n + 1) 'a')) := rfl
  exact ⟨rfl, size, fun long => word.trans (keyword_long (size.symm ▸ long))⟩

/-- Behind the access the name is looked up, and the error about it is printed. -/
theorem public_printed {n : Nat} (long : n + 1 > 9) :
    (tokenAt (publicText (n + 1)) 2, YYER_UNKNOWN_CLASS) ∈
      (parseChar ⟨[], []⟩ (publicText (n + 1))).comp.printed := by
  obtain ⟨access, -, name⟩ := public_tokens n
  have name := name long
  generalize start : programConstruct (.start (publicText (n + 1))) ⟨[], []⟩ = pp
  have lex₁ : pp.next.comp.lex = tokenAt (publicText (n + 1)) 1 := by
    subst start
    exact Scanned.lex_next _
  have lex₂ : pp.next.next.comp.lex = tokenAt (publicText (n + 1)) 2 := by
    rw [tokenAt_succ, ← lex₁]
    exact Scanned.lex_next _
  have token₁ : pp.next.token = .accPublic := (congrArg Jspplex.token lex₁).trans access
  have token₂ : pp.next.next.token = .id := (congrArg Jspplex.token lex₂).trans name
  have clean : pp.next.errornum = 0 := by
    subst start
    rfl
  have unknown (name : List Char) : pp.next.next.findClassNum name = none := by
    subst start
    rfl
  have declared (P : Parsers) :
      declaration P pp.next = pp.next.next.setupError YYER_UNKNOWN_CLASS := by
    rw [declaration, if_neg (by rw [token₁]; decide), token₁]
    show declareMethod P .accPublic pp.next = _
    have skip : pp.next.next.skip .static = pp.next.next := by
      rw [Program.skip, if_neg (by rw [token₂]; decide)]
    simp only [declareMethod, skip, unknown]
    rw [if_neg (by rw [token₂]; simp)]
  have error : (pp.next.next.setupError YYER_UNKNOWN_CLASS).errornum ≠ 0 :=
    Comp.setupError_ne _ (by decide)
  obtain ⟨m, rounds⟩ : ∃ m, (parsers (parseFuel (publicText (n + 1)))).rounds = m + 2 :=
    ⟨4 * (publicText (n + 1)).length + 13, rfl⟩
  rw [parseChar, start, file, rounds, fileLoop, if_pos ⟨by rw [token₁]; decide, clean⟩,
    if_neg (by rw [token₁]; decide), declared, fileLoop, if_neg fun more => error more.2]
  show _ ∈ pp.next.next.comp.printed ++ [(pp.next.next.comp.lex, YYER_UNKNOWN_CLASS)]
  rw [lex₂]
  exact List.mem_append_right _ (List.mem_singleton_self _)

/-- The message about a name of so many letters does not fit. -/
theorem public_outside {n : Nat} (long : 481 ≤ n) :
    ¬ ComesBack ⟨[], []⟩ (publicText (n + 1)) := by
  intro back
  obtain ⟨-, length, name⟩ := public_tokens n
  have printed := back.messages (tokenAt (publicText (n + 1)) 2, YYER_UNKNOWN_CLASS)
    (public_printed (by omega))
  have other : (tokenAt (publicText (n + 1)) 2).token ≠ .lexerror := by
    rw [name (by omega)]
    nofun
  dsimp only at printed
  generalize tokenAt (publicText (n + 1)) 2 = l at printed other length
  have fits := (printed_other other _).mp printed
  omega

/-- `public` and a class name of 500 letters. -/
theorem unknown_outside : ¬ ∀ intrinsics text, ComesBack intrinsics text := fun back =>
  public_outside (n := 499) (by decide) (back _ _)

end Jspp.Compiler
