/-
# Compiler.Spell -- what the lexer makes of written tokens

`Tok` are the tokens of the language with the lexeme each of them carries, and
`Tok.spell` is how a program writes them.  A text of written tokens with a blank
between them is read back as these tokens.

* `scan_spell`: one token, whatever comes behind the blank.
* `lex_print`: the tokens `jsppLex` returns for a whole text.
-/
import Jspp.Compiler.Scan

namespace Jspp.Compiler

set_option autoImplicit false

/-! ## Tokens and their spelling -/

/-- The exponent of a REAL: its mark, a sign and digits. -/
structure Exponent where
  mark : Char
  sign : Option Char
  digits : List Char

def Exponent.spell (e : Exponent) : List Char := e.mark :: (e.sign.toList ++ e.digits)

/-- The tokens of the language but HEX and the two that stand for no text. -/
inductive Tok where
  | id (name : List Char)
  | keyword (word : List Char)
  | int (digits : List Char)
  | real (whole : List Char) (fraction : Option (List Char)) (exponent : Option Exponent)
  | char (c : Char)
  | string (text : List Char)
  | op (t : Token)

/-- How a program writes the operators. -/
def operatorText : Token → Option String
  | .pipe => some "|" | .or => some "||" | .oreq => some "|="
  | .ampr => some "&" | .and => some "&&" | .andeq => some "&="
  | .lbrace => some "\x7b" | .rbrace => some "\x7d" | .lpar => some "(" | .rpar => some ")"
  | .lbrac => some "[" | .rbrac => some "]"
  | .bang => some "!" | .isneq => some "!=" | .assign => some "=" | .isequal => some "=="
  | .plus => some "+" | .pluseq => some "+=" | .inc => some "++"
  | .minus => some "-" | .minuseq => some "-=" | .dec => some "--"
  | .star => some "*" | .timeseq => some "*=" | .slash => some "/" | .diveq => some "/="
  | .mod => some "%" | .modeq => some "%=" | .xor => some "^" | .xoreq => some "^="
  | .comp => some "~" | .compeq => some "~=" | .colon => some ":" | .scope => some "::"
  | .semi => some ";" | .comma => some "," | .dot => some "."
  | .lt => some "<" | .lteq => some "<=" | .lshift => some "<<"
  | .gt => some ">" | .gteq => some ">=" | .rshift => some ">>"
  | _ => none

/-- A character of a literal, with the escape that stands for it. -/
def escaped (c : Char) : List Char :=
  if c = '\n' then ['\\', 'n']
  else if c = '\r' then ['\\', 'r']
  else if c = '\t' then ['\\', 't']
  else if c = '\x0b' then ['\\', 'v']
  else if c = '\'' then ['\\', '\'']
  else if c = '\\' then ['\\', '\\']
  else [c]

/-- The digits and the marks of a REAL. -/
def spellReal (whole : List Char) (fraction : Option (List Char)) (exponent : Option Exponent) :
    List Char :=
  whole ++ ((fraction.map fun ds => '.' :: ds).getD [] ++ (exponent.map Exponent.spell).getD [])

namespace Tok

def spell : Tok → List Char
  | .id name => name
  | .keyword word => word
  | .int digits => digits
  | .real whole fraction exponent => spellReal whole fraction exponent
  | .char c => '\'' :: (escaped c ++ ['\''])
  | .string text => '"' :: (text.flatMap escaped ++ ['"'])
  | .op t => ((operatorText t).map String.toList).getD []

/-- The kind of a token; that of a keyword is its row of the table. -/
def token : Tok → Token
  | .id _ => .id
  | .keyword word => Jspplex.keyword word
  | .int _ => .int
  | .real _ _ _ => .real
  | .char _ => .char
  | .string _ => .string
  | .op t => t

/-- The lexeme a token carries; an operator carries none. -/
def lexeme : Tok → Option (List Char)
  | .op _ => none
  | .char c => some [c]
  | .string text => some text
  | t => some t.spell

end Tok

def Digits (ds : List Char) : Prop := ∀ c ∈ ds, isdigit (ch c)

/-- The shape of a word: a letter or an underscore, then digits as well. -/
def Word (text : List Char) : Prop :=
  (∃ c r, text = c :: r ∧ (isalpha (ch c) ∨ c = '_')) ∧ ∀ c ∈ text, isword (ch c)

/-- A character that a literal can denote; -1 is the end of the text to the loop
of a string literal. -/
def Expressible (c : Char) : Prop := c.toNat < 256 ∧ c ≠ '\x00'

def Exponent.Legal (e : Exponent) : Prop :=
  (e.mark = 'e' ∨ e.mark = 'E') ∧ (∀ c ∈ e.sign, c = '+' ∨ c = '-') ∧ Digits e.digits

/-- A REAL begins with a digit, or with a point and a digit, and it has a
fraction or an exponent. -/
structure RealLegal (whole : List Char) (fraction : Option (List Char))
    (exponent : Option Exponent) : Prop where
  digits : Digits whole
  behind : ∀ ds ∈ fraction, Digits ds
  scaled : ∀ e ∈ exponent, e.Legal
  begins : whole ≠ [] ∨ ∃ d ds, fraction = some (d :: ds)
  isreal : fraction ≠ none ∨ exponent ≠ none

namespace Tok

/-- The token can be written in a program. -/
def Legal : Tok → Prop
  | .id name => Word name ∧ ∀ entry ∈ Jspplex.keywords, entry.1.toList ≠ name
  | .keyword word => ∃ entry ∈ Jspplex.keywords, entry.1.toList = word
  | .int digits => digits ≠ [] ∧ Digits digits
  | .real whole fraction exponent => RealLegal whole fraction exponent
  | .char c => Expressible c
  | .string text => ∀ c ∈ text, Expressible c ∧ chOf c ≠ -1 ∧ c ≠ '"'
  | .op t => operatorText t ≠ none

/-- The lexeme fits into the lexer's buffer. -/
def Fits (t : Tok) : Prop := ∀ text ∈ t.lexeme, text.length < LEX_TOKE_BUF

end Tok

/-- A token as a program can write it. -/
structure Written where
  tok : Tok
  legal : tok.Legal
  fits : tok.Fits

/-- The tokens in their spelling, with one blank between them. -/
def print : List Written → List Char
  | [] => []
  | [t] => t.tok.spell
  | t :: ts => t.tok.spell ++ ' ' :: print ts

/-- What the parser sees of a token: its kind, and its lexeme if it has one. -/
def carries : Token → Bool
  | .id | .int | .real | .char | .string => true
  | t => Jspplex.keywords.any fun entry => entry.2 = t

def Jspplex.told (l : Jspplex) : Token × Option (List Char) :=
  (l.token, if carries l.token then some l.lex else none)

def Tok.told (t : Tok) : Token × Option (List Char) := (t.token, t.lexeme)

/-- The first `n` tokens of repeated calls of `jsppLex`. -/
def tokens {α : Type} (f : Jspplex → α) : Nat → Jspplex → List α
  | 0, _ => []
  | n + 1, l => f (jsppLex l) :: tokens f n (jsppLex l)

/-! ## Characters -/

theorem chOf_ascii {c : Char} (ascii : c.toNat < 128) : chOf c = ch c := by
  unfold chOf ch
  rw [Int.bmod_def]
  split <;> omega

theorem toChar_chOf {c : Char} (byte : c.toNat < 256) : toChar (chOf c) = c := by
  have range : (chOf c % 256).toNat = c.toNat := by
    unfold chOf
    rw [Int.bmod_def]
    split <;> omega
  unfold toChar
  rw [range, Char.ofNat_toNat]

theorem ascii_isword {c : Char} (word : isword (ch c)) : c.toNat < 128 := by
  have score : ch '_' = 95 := by decide
  simp only [isword, isalnum, isalpha, isdigit, score, Bool.or_eq_true, Bool.and_eq_true,
    decide_eq_true_eq, beq_iff_eq] at word
  unfold ch at word
  omega

theorem isword_isdigit {c : Int} (digit : isdigit c) : isword c := by
  rw [isword, isalnum, digit]
  simp

/-- Nothing follows, or a blank. -/
def Gap (r : List Char) : Prop := r = [] ∨ ∃ r', r = ' ' :: r'

theorem Gap.peek_eq {r : List Char} (gap : Gap r) : peek r = -1 ∨ peek r = 32 := by
  have blank : chOf ' ' = 32 := by decide
  rcases gap with rfl | ⟨r', rfl⟩
  · exact .inl rfl
  · exact .inr blank

theorem Gap.back_eq {r : List Char} (gap : Gap r) : back r = r := by
  have blank : chOf ' ' ≠ -1 := by decide
  rcases gap with rfl | ⟨r', rfl⟩
  · rfl
  · rw [back, if_neg blank]

/-- A loop over characters takes those of a token and stops before what follows. -/
theorem left_append {p : Int → Bool} {w r : List Char} (holds : ∀ c ∈ w, p (chOf c))
    (stops : p (peek r) = false) : left p (w ++ r) = r := by
  induction w with
  | nil =>
      cases r with
      | nil => rfl
      | cons c r =>
          rw [List.nil_append, Jspplex.left_cons, if_neg (by simpa [peek] using stops)]
  | cons c w ih =>
      rw [List.cons_append, Jspplex.left_cons, if_pos (holds c (List.mem_cons_self ..))]
      exact ih fun d mem => holds d (List.mem_cons_of_mem c mem)

theorem taken_append {p : Int → Bool} {w r : List Char} (holds : ∀ c ∈ w, p (chOf c))
    (ascii : ∀ c ∈ w, c.toNat < 256) (stops : p (peek r) = false) : taken p (w ++ r) = w := by
  induction w with
  | nil =>
      cases r with
      | nil => rfl
      | cons c r =>
          rw [List.nil_append, Jspplex.taken_cons, if_neg (by simpa [peek] using stops)]
  | cons c w ih =>
      have own := List.mem_cons_self (a := c) (l := w)
      rw [List.cons_append, Jspplex.taken_cons, if_pos (holds c own), toChar_chOf (ascii c own)]
      rw [ih (fun d mem => holds d (List.mem_cons_of_mem c mem))
        (fun d mem => ascii d (List.mem_cons_of_mem c mem))]

/-- The characters of a class of ASCII characters, as the lexer reads them. -/
theorem ascii_class {p : Int → Bool} (words : ∀ c, p c → isword c) {w : List Char}
    (holds : ∀ c ∈ w, p (ch c)) :
    (∀ c ∈ w, p (chOf c)) ∧ ∀ c ∈ w, c.toNat < 256 := by
  refine ⟨fun c mem => ?_, fun c mem => ?_⟩
  · rw [chOf_ascii (ascii_isword (words _ (holds c mem)))]
    exact holds c mem
  · have small := ascii_isword (words _ (holds c mem))
    omega

theorem left_digits {w r : List Char} (digits : Digits w) (stops : isdigit (peek r) = false) :
    left isdigit (w ++ r) = r :=
  left_append (ascii_class (fun _ => isword_isdigit) digits).1 stops

theorem taken_digits {w r : List Char} (digits : Digits w) (stops : isdigit (peek r) = false) :
    taken isdigit (w ++ r) = w := by
  obtain ⟨holds, ascii⟩ := ascii_class (fun _ => isword_isdigit) digits
  exact taken_append holds ascii stops

/-! ## Words and numbers -/

theorem Gap.not_digit {r : List Char} (gap : Gap r) : isdigit (peek r) = false := by
  rcases gap.peek_eq with eq | eq <;> rw [eq] <;> rfl

theorem Gap.not_word {r : List Char} (gap : Gap r) : isword (peek r) = false := by
  rcases gap.peek_eq with eq | eq <;> rw [eq] <;> rfl

theorem scanWord_append {text r : List Char} (word : ∀ c ∈ text, isword (ch c)) (gap : Gap r) :
    scanWord (text ++ r) = ⟨Jspplex.keyword text, text, r⟩ := by
  obtain ⟨holds, ascii⟩ := ascii_class (fun _ => id) word
  rw [scanWord, taken_append holds ascii gap.not_word, left_append holds gap.not_word, gap.back_eq]

/-- What stands behind the digits of a number: nothing that its loop would take. -/
theorem Gap.ne {r : List Char} (gap : Gap r) {c : Int} (ne : c ≠ -1) (ne' : c ≠ 32) :
    peek r ≠ c := by
  rcases gap.peek_eq with eq | eq <;> rw [eq]
  · exact ne.symm
  · exact ne'.symm

theorem digits_ne {w r : List Char} (digits : Digits w) (gap : Gap r) {c : Int}
    (other : isdigit c = false) (ne : c ≠ -1) (ne' : c ≠ 32) : peek (w ++ r) ≠ c := by
  cases w with
  | nil => exact gap.ne ne ne'
  | cons d w =>
      have digit := (ascii_class (fun _ => isword_isdigit) digits).1 d (List.mem_cons_self ..)
      rintro rfl
      change isdigit (chOf d) = false at other
      rw [digit] at other
      cases other

theorem scanExponent_append {e : Exponent} (legal : e.Legal) {r : List Char} (gap : Gap r) :
    scanExponent (e.sign.toList ++ e.digits ++ r) = (e.sign.toList ++ e.digits, r) := by
  obtain ⟨-, signs, digits⟩ := legal
  cases sign : e.sign with
  | none =>
      have plus := digits_ne digits gap (c := ch '+') (by decide) (by decide) (by decide)
      have minus := digits_ne digits gap (c := ch '-') (by decide) (by decide) (by decide)
      show scanExponent (e.digits ++ r) = _
      rw [scanExponent, if_neg (by simp [plus, minus]), taken_digits digits gap.not_digit,
        left_digits digits gap.not_digit]
      rfl
  | some c =>
      have ascii : chOf c = ch c ∧ toChar (chOf c) = c := by
        rcases signs c sign with rfl | rfl <;> exact ⟨by decide, by decide⟩
      have signed : peek (c :: (e.digits ++ r)) = ch '+' ∨ peek (c :: (e.digits ++ r)) = ch '-' := by
        rw [peek, ascii.1]
        rcases signs c sign with rfl | rfl
        · exact .inl rfl
        · exact .inr rfl
      show scanExponent (c :: (e.digits ++ r)) = _
      rw [scanExponent, if_pos signed, peek, ascii.2, List.tail_cons,
        taken_digits digits gap.not_digit, left_digits digits gap.not_digit]
      rfl

/-- The exponent of a REAL in its spelling, empty when there is none. -/
def exponentText (exponent : Option Exponent) : List Char :=
  (exponent.map Exponent.spell).getD []

def fractionText (fraction : Option (List Char)) : List Char :=
  (fraction.map fun ds => '.' :: ds).getD []

theorem peek_exponent {exponent : Option Exponent} (legal : ∀ e ∈ exponent, e.Legal) {r : List Char}
    (gap : Gap r) {c : Int} (notMark : c ≠ ch 'e' ∧ c ≠ ch 'E') (ne : c ≠ -1) (ne' : c ≠ 32) :
    peek (exponentText exponent ++ r) ≠ c := by
  cases exponent with
  | none => exact gap.ne ne ne'
  | some e =>
      have small : chOf 'e' = ch 'e' := by decide
      have big : chOf 'E' = ch 'E' := by decide
      show chOf e.mark ≠ c
      rcases (legal e rfl).1 with mark | mark <;> rw [mark]
      · rw [small]
        exact notMark.1.symm
      · rw [big]
        exact notMark.2.symm

theorem exponent_not_digit {exponent : Option Exponent} (legal : ∀ e ∈ exponent, e.Legal)
    {r : List Char} (gap : Gap r) : isdigit (peek (exponentText exponent ++ r)) = false := by
  by_contra digit
  have range : isdigit (peek (exponentText exponent ++ r)) = true := by simpa using digit
  refine peek_exponent legal gap ⟨?_, ?_⟩ ?_ ?_ rfl <;>
    exact fun eq => absurd range (by rw [eq]; decide)

theorem scanReal_append {exponent : Option Exponent} (legal : ∀ e ∈ exponent, e.Legal)
    {r : List Char} (gap : Gap r) (toke : Token) (acc : List Char) :
    scanReal ⟨toke, acc, exponentText exponent ++ r⟩ =
      ⟨if exponent.isSome then .real else toke, acc ++ exponentText exponent, r⟩ := by
  cases exponent with
  | none =>
      have small := gap.ne (c := ch 'e') (by decide) (by decide)
      have big := gap.ne (c := ch 'E') (by decide) (by decide)
      show scanReal ⟨toke, acc, r⟩ = ⟨toke, acc ++ [], r⟩
      rw [scanReal, if_neg (by simp [small, big]), gap.back_eq, List.append_nil]
  | some e =>
      have exponent := scanExponent_append (legal e rfl) gap
      have mark : (chOf e.mark = ch 'e' ∨ chOf e.mark = ch 'E') ∧
          toChar (chOf e.mark) = e.mark := by
        rcases (legal e rfl).1 with mark | mark <;> rw [mark]
        · exact ⟨.inl (by decide), by decide⟩
        · exact ⟨.inr (by decide), by decide⟩
      show scanReal ⟨toke, acc, e.mark :: (e.sign.toList ++ e.digits ++ r)⟩ = _
      rw [scanReal, peek, if_pos mark.1, List.tail_cons, exponent, mark.2, gap.back_eq]
      simp [exponentText, Exponent.spell]

/-- A number as it is written: digits, a fraction, an exponent. -/
theorem scanNumber_append {whole : List Char} {fraction : Option (List Char)}
    {exponent : Option Exponent} (digits : Digits whole) (behind : ∀ ds ∈ fraction, Digits ds)
    (scaled : ∀ e ∈ exponent, e.Legal) {r : List Char} (gap : Gap r) (toke : Token) :
    scanNumber toke (spellReal whole fraction exponent ++ r) =
      ⟨if exponent.isSome then .real else if fraction.isSome then .real else toke,
        spellReal whole fraction exponent, r⟩ := by
  have noDigit := exponent_not_digit scaled gap
  have spelled : spellReal whole fraction exponent ++ r =
      whole ++ (fractionText fraction ++ (exponentText exponent ++ r)) := by
    simp [spellReal, fractionText, exponentText]
  have text : spellReal whole fraction exponent =
      whole ++ (fractionText fraction ++ exponentText exponent) := rfl
  have stops : isdigit (peek (fractionText fraction ++ (exponentText exponent ++ r))) = false ∧
      peek (fractionText fraction ++ (exponentText exponent ++ r)) ≠ ch 'x' := by
    cases fraction with
    | none =>
        exact ⟨noDigit, peek_exponent scaled gap (by decide) (by decide) (by decide)⟩
    | some ds =>
        have point : isdigit (chOf '.') = false ∧ chOf '.' ≠ ch 'x' := by decide
        exact point
  rw [spelled, scanNumber, left_digits digits stops.1, if_neg stops.2,
    taken_digits digits stops.1, text]
  cases fraction with
  | none =>
      have noPoint : peek (exponentText exponent ++ r) ≠ ch '.' :=
        peek_exponent scaled gap (by decide) (by decide) (by decide)
      show scanReal (scanFraction toke whole (exponentText exponent ++ r)) = _
      rw [scanFraction, if_neg noPoint, scanReal_append scaled gap]
      rfl
  | some ds =>
      have point : chOf '.' = ch '.' ∧ toChar (chOf '.') = '.' := by decide
      show scanReal (scanFraction toke whole ('.' :: (ds ++ (exponentText exponent ++ r)))) = _
      rw [scanFraction, peek, if_pos point.1, point.2, List.tail_cons,
        taken_digits (behind ds rfl) noDigit, left_digits (behind ds rfl) noDigit,
        scanReal_append scaled gap]
      simp [fractionText]

/-! ## Literals -/

theorem escaped_spec {c : Char} (plain : c.toNat < 256) :
    (escaped c = [c] ∧ chOf c ≠ ch '\\' ∧ c ≠ '\'') ∨
      ∃ e, escaped c = ['\\', e] ∧ escape (chOf e) = chOf c ∧ escape (chOf e) ≠ -1 := by
  unfold escaped
  split_ifs with line ret tab vert quote back
  · subst line; exact .inr ⟨'n', rfl, by decide, by decide⟩
  · subst ret; exact .inr ⟨'r', rfl, by decide, by decide⟩
  · subst tab; exact .inr ⟨'t', rfl, by decide, by decide⟩
  · subst vert; exact .inr ⟨'v', rfl, by decide, by decide⟩
  · subst quote; exact .inr ⟨'\'', rfl, by decide, by decide⟩
  · subst back; exact .inr ⟨'\\', rfl, by decide, by decide⟩
  · refine .inl ⟨rfl, fun same => back ?_, quote⟩
    have slash : chOf '\\' = ch '\\' := by decide
    rw [← toChar_chOf plain, same, ← slash]
    exact toChar_chOf (by decide)

theorem scanQuote_append {c : Char} (legal : Expressible c) (r : List Char) :
    scanQuote (chOf c) ('\'' :: r) = ⟨.char, [c], r⟩ := by
  have quote : chOf '\'' = ch '\'' := by decide
  rw [scanQuote, peek, if_neg (not_not.mpr quote), toChar_chOf legal.1, if_neg legal.2,
    List.tail_cons]

theorem scanChar_append {c : Char} (legal : Expressible c) (r : List Char) :
    scanChar (escaped c ++ '\'' :: r) = ⟨.char, [c], r⟩ := by
  have slash : chOf '\\' = ch '\\' := by decide
  rcases escaped_spec legal.1 with ⟨raw, plain, -⟩ | ⟨e, pair, denotes, some⟩
  · rw [raw]
    show scanChar (c :: '\'' :: r) = _
    rw [scanChar, peek, if_neg plain, List.tail_cons, scanQuote_append legal]
  · rw [pair]
    show scanChar ('\\' :: e :: '\'' :: r) = _
    rw [scanChar, peek, if_pos slash, List.tail_cons, peek, if_neg some, List.tail_cons, denotes,
      scanQuote_append legal]

theorem scanString_append {text : List Char}
    (legal : ∀ c ∈ text, Expressible c ∧ chOf c ≠ -1 ∧ c ≠ '"') (r : List Char)
    (acc : List Char) (fits : (acc ++ text).length < LEX_TOKE_BUF) :
    scanString acc (text.flatMap escaped ++ '"' :: r) = ⟨.string, acc ++ text, r⟩ := by
  have quote : chOf '"' = ch '"' ∧ chOf '"' ≠ -1 := by decide
  have slash : chOf '\\' = ch '\\' ∧ chOf '\\' ≠ -1 ∧ chOf '\\' ≠ ch '"' := by decide
  induction text generalizing acc with
  | nil =>
      rw [List.append_nil] at fits ⊢
      show scanString acc ('"' :: r) = _
      rw [scanString_cons, if_neg quote.2, if_pos quote.1, if_neg (Nat.ne_of_lt fits)]
  | cons c text ih =>
      obtain ⟨own, notEnd, notQuote⟩ := legal c (List.mem_cons_self ..)
      have next := ih (fun d mem => legal d (List.mem_cons_of_mem c mem)) (acc ++ [c])
        (by simpa using fits)
      have room : acc.length < LEX_TOKE_BUF := by
        rw [List.length_append] at fits
        omega
      have read : toChar (chOf c) = c := toChar_chOf own.1
      have notMark : chOf c ≠ ch '"' := by
        intro same
        rw [← quote.1] at same
        have back := congrArg toChar same
        rw [read, toChar_chOf (by decide)] at back
        exact notQuote back
      rw [List.append_assoc, List.singleton_append] at next
      rcases escaped_spec own.1 with ⟨raw, plain, -⟩ | ⟨e, pair, denotes, some⟩
      · rw [List.flatMap_cons, raw]
        show scanString acc (c :: (text.flatMap escaped ++ '"' :: r)) = _
        rw [scanString_cons, if_neg notEnd, if_neg notMark, if_pos room, if_neg plain, read, next]
      · rw [List.flatMap_cons, pair]
        show scanString acc ('\\' :: e :: (text.flatMap escaped ++ '"' :: r)) = _
        rw [scanString_cons, if_neg slash.2.1, if_neg slash.2.2, if_pos room, if_pos slash.1]
        simp only
        rw [if_neg some, denotes, read, next]

/-! ## Operators -/

/-- The operators by their first character, as the `switch` of the lexer has them. -/
def rows : List (Char × Token × List (Char × Token)) :=
  [('|', .pipe, [('|', .or), ('=', .oreq)]), ('&', .ampr, [('&', .and), ('=', .andeq)]),
   ('{', .lbrace, []), ('}', .rbrace, []), ('(', .lpar, []), (')', .rpar, []),
   ('[', .lbrac, []), (']', .rbrac, []), ('!', .bang, [('=', .isneq)]),
   ('=', .assign, [('=', .isequal)]), ('+', .plus, [('=', .pluseq), ('+', .inc)]),
   ('-', .minus, [('=', .minuseq), ('-', .dec)]), ('*', .star, [('=', .timeseq)]),
   ('/', .slash, [('=', .diveq)]), ('%', .mod, [('=', .modeq)]), ('^', .xor, [('=', .xoreq)]),
   ('~', .comp, [('=', .compeq)]), (':', .colon, [(':', .scope)]), (';', .semi, []),
   (',', .comma, []), ('<', .lt, [('=', .lteq), ('<', .lshift)]),
   ('>', .gt, [('=', .gteq), ('>', .rshift)])]

theorem scanPunct_row : ∀ row ∈ rows, ∀ lex x : List Char,
    scanPunct (ch row.1) lex x =
      if row.2.2 = [] then ⟨row.2.1, lex, x⟩ else scanOperator row.2.1 row.2.2 lex x := by
  rw [rows]
  repeat' refine List.forall_mem_cons.mpr ⟨fun _ _ => by simp [scanPunct, ch], ?_⟩
  exact fun _ mem => absurd mem List.not_mem_nil

/-- The first character of an operator begins no other token. -/
theorem rows_first : ∀ row ∈ rows, chOf row.1 = ch row.1 ∧ ¬ ch row.1 ≤ 0 ∧
    isdigit (ch row.1) = false ∧ ch row.1 ≠ ch '.' ∧
    ¬ (isalpha (ch row.1) ∨ ch row.1 = ch '_') ∧ ch row.1 ≠ ch '\'' ∧ ch row.1 ≠ ch '"' ∧
    isws (ch row.1) = false ∧ row.1 ≠ '\x00' := by
  decide

theorem rows_second : ∀ row ∈ rows, ∀ f ∈ row.2.2,
    row.2.2.find? (fun d => ch d.1 = ch f.1) = some f ∧ chOf f.1 = ch f.1 ∧ ch f.1 ≠ -1 ∧
      ch f.1 ≠ 32 ∧ f.1 ≠ '\x00' ∧ ch f.1 ≠ ch '/' := by
  decide

/-- A slash is no comment mark before the second character of its operator. -/
theorem rows_slash : ∀ row ∈ rows, ch row.1 = ch '/' → ∀ f ∈ row.2.2, ch f.1 ≠ ch '*' := by
  decide

theorem operator_row {t : Token} {text : String} (written : operatorText t = some text) :
    t = .dot ∧ text.toList = ['.'] ∨ ∃ row ∈ rows, (t = row.2.1 ∧ text.toList = [row.1]) ∨
      ∃ f ∈ row.2.2, t = f.2 ∧ text.toList = [row.1, f.1] := by
  unfold operatorText at written
  split at written <;> first
    | rw [← Option.some.inj written]
      decide
    | cases written

theorem scanToken_row {row : Char × Token × List (Char × Token)} (mem : row ∈ rows)
    (lex x : List Char) : scanToken lex (row.1 :: x) = scanPunct (ch row.1) lex x := by
  obtain ⟨char, more, digit, point, letter, quote, double, -, -⟩ := rows_first row mem
  rw [scanToken, peek, char, if_neg more, digit, if_neg Bool.false_ne_true, if_neg point,
    if_neg letter, if_neg quote, if_neg double, List.tail_cons]

theorem scanOperator_gap {single : Token} {follow : List (Char × Token)}
    (second : ∀ f ∈ follow, ch f.1 ≠ -1 ∧ ch f.1 ≠ 32) {r : List Char} (gap : Gap r)
    (lex : List Char) : scanOperator single follow lex r = ⟨single, lex, r⟩ := by
  have none : follow.find? (fun f => ch f.1 = peek r) = none := by
    refine List.find?_eq_none.mpr fun f mem => ?_
    have other := gap.ne (second f mem).1 (second f mem).2
    simpa using other.symm
  rw [scanOperator, none]
  show (⟨single, lex, back r⟩ : Piece) = _
  rw [gap.back_eq]

theorem scan_operator {t : Token} {text : String} (written : operatorText t = some text)
    {r : List Char} (gap : Gap r) (lex : List Char) :
    scanToken lex (text.toList ++ r) = ⟨t, lex, r⟩ := by
  rcases operator_row written with ⟨rfl, eq⟩ | ⟨row, mem, ⟨rfl, eq⟩ | ⟨f, mem', rfl, eq⟩⟩
  · have point : ¬ chOf '.' ≤ 0 ∧ ¬ isdigit (chOf '.') ∧ chOf '.' = ch '.' := by decide
    rw [eq]
    show scanToken lex ('.' :: r) = _
    rw [scanToken, peek, if_neg point.1, if_neg point.2.1, if_pos point.2.2, List.tail_cons,
      gap.not_digit, if_pos Bool.false_ne_true, gap.back_eq]
  · rw [eq]
    show scanToken lex (row.1 :: r) = _
    rw [scanToken_row mem, scanPunct_row row mem]
    split
    · rfl
    · exact scanOperator_gap (fun f mem' => ⟨(rows_second row mem f mem').2.2.1,
        (rows_second row mem f mem').2.2.2.1⟩) gap lex
  · obtain ⟨found, char, -⟩ := rows_second row mem f mem'
    rw [eq]
    show scanToken lex (row.1 :: f.1 :: r) = _
    rw [scanToken_row mem, scanPunct_row row mem, if_neg (List.ne_nil_of_mem mem'), scanOperator,
      peek, char, found]
    rfl

/-! ## Any token -/

theorem keywords_kind : ∀ entry ∈ Jspplex.keywords,
    Jspplex.keyword entry.1.toList = entry.2 ∧ carries entry.2 = true := by
  decide

theorem keywords_letters : ∀ entry ∈ Jspplex.keywords,
    entry.1.toList ≠ [] ∧ entry.1.toList.all fun c => isalpha (ch c) := by
  decide

theorem Tok.keyword_word {word : List Char} (legal : (Tok.keyword word).Legal) : Word word := by
  obtain ⟨entry, mem, rfl⟩ := legal
  obtain ⟨some, letters⟩ := keywords_letters entry mem
  have all := List.all_eq_true.mp letters
  obtain ⟨c, r, eq⟩ := List.exists_cons_of_ne_nil some
  refine ⟨⟨c, r, eq, .inl (all c (by rw [eq]; exact List.mem_cons_self ..))⟩, fun d mem => ?_⟩
  rw [isword, isalnum, all d mem]
  rfl

/-- A word is read as a word, whatever its row in the table of the keywords. -/
theorem scanToken_word {text : List Char} (word : Word text) {r : List Char} (gap : Gap r)
    (lex : List Char) : scanToken lex (text ++ r) = ⟨Jspplex.keyword text, text, r⟩ := by
  obtain ⟨⟨c, w, rfl, first⟩, all⟩ := word
  have char := chOf_ascii (ascii_isword (all c (List.mem_cons_self ..)))
  have range : ¬ ch c ≤ 0 ∧ isdigit (ch c) = false ∧ ch c ≠ ch '.' ∧
      (isalpha (ch c) ∨ ch c = ch '_') := by
    rcases first with letter | rfl
    · have bounds := letter
      simp only [isalpha, Bool.or_eq_true, Bool.and_eq_true, decide_eq_true_eq] at bounds
      have point : ch '.' = 46 := by decide
      refine ⟨by omega, ?_, by omega, .inl letter⟩
      simp only [isdigit, Bool.and_eq_false_iff, decide_eq_false_iff_not]
      omega
    · exact ⟨by decide, by decide, by decide, .inr rfl⟩
  have read := scanWord_append all gap
  show scanToken lex (c :: (w ++ r)) = _
  rw [scanToken, peek, char, if_neg range.1, range.2.1, if_neg Bool.false_ne_true,
    if_neg range.2.2.1, if_pos range.2.2.2]
  exact read

theorem digit_range {c : Int} (digit : isdigit c) :
    ¬ c ≤ 0 ∧ c ≠ ch '.' ∧ c ≠ ch '/' ∧ isws c = false := by
  have word := isword_isdigit digit
  have bounds := digit
  have point : ch '.' = 46 := by decide
  have slash : ch '/' = 47 := by decide
  simp only [isdigit, Bool.and_eq_true, decide_eq_true_eq] at bounds
  refine ⟨by omega, by omega, by omega, ?_⟩
  rw [isws, isalnum, digit]
  simp

/-- A number that begins with a digit. -/
theorem scanToken_digit {lex x : List Char} (digit : isdigit (peek x)) :
    scanToken lex x = scanNumber .int x := by
  rw [scanToken, if_neg (digit_range digit).1, if_pos digit]

/-- A number that begins with its point. -/
theorem scanToken_point {lex x : List Char} (digit : isdigit (peek x)) :
    scanToken lex ('.' :: x) = scanNumber .real ('.' :: x) := by
  have point : ¬ chOf '.' ≤ 0 ∧ ¬ isdigit (chOf '.') ∧ chOf '.' = ch '.' := by decide
  rw [scanToken, peek, if_neg point.1, if_neg point.2.1, if_pos point.2.2, List.tail_cons,
    if_neg (not_not.mpr digit)]

/-- The first character of a numeral, read as the lexer reads it. -/
theorem peek_digits {d : Char} {ds x : List Char} (digits : Digits (d :: ds)) :
    isdigit (peek (d :: ds ++ x)) :=
  (ascii_class (fun _ => isword_isdigit) digits).1 d (List.mem_cons_self ..)

theorem scanToken_real {whole : List Char} {fraction : Option (List Char)}
    {exponent : Option Exponent} (legal : RealLegal whole fraction exponent) {r : List Char}
    (gap : Gap r) (lex : List Char) :
    scanToken lex (spellReal whole fraction exponent ++ r) =
      ⟨.real, spellReal whole fraction exponent, r⟩ := by
  have number := scanNumber_append legal.digits legal.behind legal.scaled gap
  cases whole with
  | nil =>
      obtain ⟨d, ds, rfl⟩ := legal.begins.resolve_left (fun some => some rfl)
      have digit : isdigit (peek (d :: ds ++ (exponentText exponent ++ r))) :=
        peek_digits (legal.behind _ rfl)
      have spelled : spellReal [] (some (d :: ds)) exponent ++ r =
          '.' :: (d :: ds ++ (exponentText exponent ++ r)) := by
        simp [spellReal, exponentText]
      have read := number .real
      rw [spelled] at read ⊢
      rw [scanToken_point digit, read]
      cases exponent <;> rfl
  | cons d ds =>
      have digit : isdigit (peek (spellReal (d :: ds) fraction exponent ++ r)) :=
        peek_digits (x := []) legal.digits
      rw [scanToken_digit digit, number]
      rcases legal.isreal with some | some
      · obtain ⟨f, rfl⟩ := Option.ne_none_iff_exists'.mp some
        cases exponent <;> rfl
      · obtain ⟨e, rfl⟩ := Option.ne_none_iff_exists'.mp some
        rfl

theorem scanToken_int {digits : List Char} (some : digits ≠ []) (legal : Digits digits)
    {r : List Char} (gap : Gap r) (lex : List Char) :
    scanToken lex (digits ++ r) = ⟨.int, digits, r⟩ := by
  obtain ⟨d, ds, rfl⟩ := List.exists_cons_of_ne_nil some
  have number := @scanNumber_append _ none none legal nofun nofun _ gap .int
  have spelled : spellReal (d :: ds) none none = d :: ds := by simp [spellReal]
  rw [spelled] at number
  rw [scanToken_digit (peek_digits legal), number]
  rfl

theorem scanToken_spell {t : Tok} (legal : t.Legal) (fits : t.Fits) {r : List Char} (gap : Gap r)
    (lex : List Char) :
    scanToken lex (t.spell ++ r) = ⟨t.token, t.lexeme.getD lex, r⟩ := by
  cases t with
  | id name =>
      have none : Jspplex.keyword name = .id := by
        unfold Jspplex.keyword
        rw [List.find?_eq_none.mpr fun entry mem => by simpa using legal.2 entry mem]
      show scanToken lex (name ++ r) = _
      rw [scanToken_word legal.1 gap, none]
      rfl
  | keyword word => exact scanToken_word (Tok.keyword_word legal) gap lex
  | int digits => exact scanToken_int legal.1 legal.2 gap lex
  | real whole fraction exponent => exact scanToken_real legal gap lex
  | char c =>
      have quote : ¬ chOf '\'' ≤ 0 ∧ ¬ isdigit (chOf '\'') ∧ chOf '\'' ≠ ch '.' ∧
          ¬ (isalpha (chOf '\'') ∨ chOf '\'' = ch '_') ∧ chOf '\'' = ch '\'' := by decide
      have spelled : (Tok.char c).spell ++ r = '\'' :: (escaped c ++ '\'' :: r) := by
        simp [Tok.spell]
      rw [spelled, scanToken, peek, if_neg quote.1, if_neg quote.2.1, if_neg quote.2.2.1,
        if_neg quote.2.2.2.1, if_pos quote.2.2.2.2, List.tail_cons, scanChar_append legal]
      rfl
  | string text =>
      have quote : ¬ chOf '"' ≤ 0 ∧ ¬ isdigit (chOf '"') ∧ chOf '"' ≠ ch '.' ∧
          ¬ (isalpha (chOf '"') ∨ chOf '"' = ch '_') ∧ chOf '"' ≠ ch '\'' ∧
          chOf '"' = ch '"' := by decide
      have spelled : (Tok.string text).spell ++ r = '"' :: (text.flatMap escaped ++ '"' :: r) := by
        simp [Tok.spell]
      rw [spelled, scanToken, peek, if_neg quote.1, if_neg quote.2.1, if_neg quote.2.2.1,
        if_neg quote.2.2.2.1, if_neg quote.2.2.2.2.1, if_pos quote.2.2.2.2.2, List.tail_cons,
        scanString_append legal r [] (fits text rfl)]
      rfl
  | op t =>
      obtain ⟨text, written⟩ := Option.ne_none_iff_exists'.mp legal
      have spelled : (Tok.op t).spell = text.toList := by
        rw [Tok.spell, written]
        rfl
      rw [spelled]
      exact scan_operator written gap lex

/-! ## White space before a token -/

/-- A token stands at the front: neither white space nor a comment. -/
structure Begins (x : List Char) : Prop where
  black : isws (peek x) = false
  more : peek x ≠ -1
  plain : comment? x = none

theorem Begins.of_ne {x : List Char} (black : isws (peek x) = false) (more : peek x ≠ -1)
    (noSlash : peek x ≠ ch '/') : Begins x where
  black := black
  more := more
  plain := if_neg noSlash

theorem strip_begins {x : List Char} (begins : Begins x) : strip x = x := by
  cases x with
  | nil => exact absurd rfl begins.more
  | cons c r =>
      have black : ¬ isws (chOf c) = true := Bool.not_eq_true _ ▸ begins.black
      have more : chOf c ≠ -1 := begins.more
      rw [strip, Jspplex.left_cons, if_neg black, back, if_neg more]

theorem skip_begins {x : List Char} (begins : Begins x) : skip x = x := by
  rw [skip, strip_begins begins, begins.plain]

theorem strip_white {c : Char} (white : isws (chOf c)) (x : List Char) :
    strip (c :: x) = strip x := by
  rw [strip, Jspplex.left_cons, if_pos white]
  rfl

theorem skip_white {c : Char} (white : isws (chOf c)) (x : List Char) :
    skip (c :: x) = skip x := by
  rw [skip, strip_white white, ← skip]

theorem skip_blank (x : List Char) : skip (' ' :: x) = skip x := skip_white (by decide) x

theorem isws_isword {c : Int} (word : isword c) : isws c = false := by
  simp only [isword, Bool.or_eq_true, beq_iff_eq] at word
  rcases word with alnum | rfl
  · rw [isws, alnum]
    simp
  · decide

theorem begins_word {text : List Char} (word : ∀ c ∈ text, isword (ch c)) (some : text ≠ [])
    (x : List Char) : Begins (text ++ x) := by
  obtain ⟨c, w, rfl⟩ := List.exists_cons_of_ne_nil some
  have first := word c (List.mem_cons_self ..)
  have char : peek (c :: w ++ x) = ch c := chOf_ascii (ascii_isword first)
  have ne {d : Int} (other : isword d = false) : ch c ≠ d := by
    rintro eq
    rw [eq, other] at first
    cases first
  refine Begins.of_ne ?_ ?_ ?_ <;> rw [char]
  · exact isws_isword first
  · exact ne (by decide)
  · exact ne (by decide)

theorem begins_operator {t : Token} {text : String} (written : operatorText t = some text)
    {r : List Char} (gap : Gap r) : Begins (text.toList ++ r) := by
  rcases operator_row written with ⟨-, eq⟩ | ⟨row, mem, second⟩
  · rw [eq]
    have point : isws (chOf '.') = false ∧ chOf '.' ≠ -1 ∧ chOf '.' ≠ ch '/' := by decide
    exact Begins.of_ne point.1 point.2.1 point.2.2
  · obtain ⟨char, more, -, -, -, -, -, black, -⟩ := rows_first row mem
    obtain ⟨x, eq, next⟩ : ∃ x, text.toList ++ r = row.1 :: x ∧
        (ch row.1 = ch '/' → peek x ≠ ch '/' ∧ peek x ≠ ch '*') := by
      rcases second with ⟨-, eq⟩ | ⟨f, mem', -, eq⟩
      · refine ⟨r, by rw [eq]; rfl, fun _ => ?_⟩
        exact ⟨gap.ne (by decide) (by decide), gap.ne (by decide) (by decide)⟩
      · obtain ⟨-, char', -, -, -, noSlash⟩ := rows_second row mem f mem'
        refine ⟨f.1 :: r, by rw [eq]; rfl, fun slash => ?_⟩
        rw [peek, char']
        exact ⟨noSlash, rows_slash row mem slash f mem'⟩
    rw [eq]
    refine ⟨?_, ?_, ?_⟩
    · rw [peek, char]
      exact black
    · rw [peek, char]
      omega
    · unfold comment?
      rw [peek, char, List.tail_cons]
      split
      · rename_i slash
        rw [if_neg (next slash).1, if_neg (next slash).2]
      · rfl

theorem begins_spell {t : Tok} (legal : t.Legal) {r : List Char} (gap : Gap r) :
    Begins (t.spell ++ r) := by
  have digits {ds : List Char} (all : Digits ds) : ∀ c ∈ ds, isword (ch c) :=
    fun c mem => isword_isdigit (all c mem)
  cases t with
  | id name =>
      obtain ⟨⟨c, w, rfl, -⟩, all⟩ := legal.1
      exact begins_word all nofun r
  | keyword word =>
      obtain ⟨⟨c, w, rfl, -⟩, all⟩ := Tok.keyword_word legal
      exact begins_word all nofun r
  | int ds => exact begins_word (digits legal.2) legal.1 r
  | real whole fraction exponent =>
      show Begins (spellReal whole fraction exponent ++ r)
      rw [spellReal, List.append_assoc]
      cases whole with
      | nil =>
          obtain ⟨d, ds, rfl⟩ := legal.begins.resolve_left (fun some => some rfl)
          have point : isws (chOf '.') = false ∧ chOf '.' ≠ -1 ∧ chOf '.' ≠ ch '/' := by decide
          exact Begins.of_ne point.1 point.2.1 point.2.2
      | cons d ds => exact begins_word (digits legal.digits) nofun _
  | char c =>
      have quote : isws (chOf '\'') = false ∧ chOf '\'' ≠ -1 ∧ chOf '\'' ≠ ch '/' := by decide
      exact Begins.of_ne quote.1 quote.2.1 quote.2.2
  | string text =>
      have quote : isws (chOf '"') = false ∧ chOf '"' ≠ -1 ∧ chOf '"' ≠ ch '/' := by decide
      exact Begins.of_ne quote.1 quote.2.1 quote.2.2
  | op t =>
      obtain ⟨text, written⟩ := Option.ne_none_iff_exists'.mp legal
      have spelled : (Tok.op t).spell = text.toList := by
        rw [Tok.spell, written]
        rfl
      rw [spelled]
      exact begins_operator written gap

/-! ## A list of tokens -/

theorem rows_carry : ∀ row ∈ rows, carries row.2.1 = false ∧
    ∀ f ∈ row.2.2, carries f.2 = false := by
  decide

theorem operator_carries {t : Token} (legal : operatorText t ≠ none) : carries t = false := by
  obtain ⟨text, written⟩ := Option.ne_none_iff_exists'.mp legal
  rcases operator_row written with ⟨rfl, -⟩ | ⟨row, mem, ⟨rfl, -⟩ | ⟨f, mem', rfl, -⟩⟩
  · decide
  · exact (rows_carry row mem).1
  · exact (rows_carry row mem).2 f mem'

theorem Tok.carries_token {t : Tok} (legal : t.Legal) : carries t.token = t.lexeme.isSome := by
  cases t with
  | keyword word =>
      obtain ⟨entry, mem, rfl⟩ := legal
      obtain ⟨kind, kept⟩ := keywords_kind entry mem
      show carries (Jspplex.keyword entry.1.toList) = true
      rw [kind, kept]
  | op t => exact operator_carries legal
  | id | int | real | char | string => rfl

/-- One token is read off the front of a text, behind what the lexer skips. -/
theorem read_spell (t : Written) {l : Jspplex} {r : List Char} (gap : Gap r)
    (here : l.rest = t.tok.spell ++ r ∨ l.rest = ' ' :: (t.tok.spell ++ r)) :
    (jsppLex l).told = t.tok.told ∧ (jsppLex l).rest = r := by
  have skipped : skip l.rest = t.tok.spell ++ r := by
    rcases here with eq | eq
    · rw [eq, skip_begins (begins_spell t.legal gap)]
    · rw [eq, skip_blank, skip_begins (begins_spell t.legal gap)]
  have reads := jsppLex_scan l
  rw [scan, skipped, scanToken_spell t.legal t.fits gap] at reads
  refine ⟨?_, reads.rest⟩
  have kept := Tok.carries_token t.legal
  rw [Jspplex.told, Tok.told, reads.token, reads.lex, kept]
  cases t.tok.lexeme <;> rfl

/-- Behind the last token there is the end of the text, as often as it is asked for. -/
theorem read_end {l : Jspplex} (ended : l.rest = []) :
    (jsppLex l).told = (.jeof, none) ∧ (jsppLex l).rest = [] := by
  have skipped : skip [] = [] := by
    rw [skip]
    rfl
  have reads := jsppLex_scan l
  rw [ended, scan, skipped] at reads
  refine ⟨?_, reads.rest⟩
  have token : (jsppLex l).token = .jeof := reads.token
  rw [Jspplex.told, token]
  rfl

theorem print_cons (t : Written) (ts : List Written) :
    ∃ r, print (t :: ts) = t.tok.spell ++ r ∧ Gap r ∧
      (r = print ts ∨ ts ≠ [] ∧ r = ' ' :: print ts) := by
  cases ts with
  | nil => exact ⟨[], (List.append_nil _).symm, .inl rfl, .inl rfl⟩
  | cons u us => exact ⟨' ' :: print (u :: us), rfl, .inr ⟨_, rfl⟩, .inr ⟨nofun, rfl⟩⟩

theorem tokens_end (n : Nat) {l : Jspplex} (ended : l.rest = []) :
    tokens Jspplex.told n l = List.replicate n (.jeof, none) := by
  induction n generalizing l with
  | zero => rfl
  | succ n ih =>
      obtain ⟨told, rest⟩ := read_end ended
      rw [tokens, told, ih rest, List.replicate_succ]

/-- What the lexer returns for written tokens, and then for ever. -/
def answers (ts : List Written) (n : Nat) : List (Token × Option (List Char)) :=
  ((ts.map fun (t : Written) => t.tok.told) ++ List.replicate n (Token.jeof, none)).take n

theorem tokens_print (ts : List Written) (n : Nat) {l : Jspplex}
    (here : l.rest = print ts ∨ ts ≠ [] ∧ l.rest = ' ' :: print ts) :
    tokens Jspplex.told n l = answers ts n := by
  induction ts generalizing n l with
  | nil =>
      rw [tokens_end n (here.resolve_right fun blank => blank.1 rfl), answers, List.map_nil,
        List.nil_append, List.take_replicate, Nat.min_self]
  | cons t ts ih =>
      obtain ⟨r, text, gap, next⟩ := print_cons t ts
      rw [text] at here
      cases n with
      | zero => rfl
      | succ n =>
          obtain ⟨told, rest⟩ := read_spell t gap (here.imp_right And.right)
          rw [tokens, told, ih n (by rw [rest]; exact next), answers, answers, List.map_cons,
            List.cons_append, List.take_succ_cons, List.take_append, List.take_append,
            List.take_replicate, List.take_replicate, Nat.min_eq_left (Nat.sub_le n _),
            Nat.min_eq_left (Nat.le_succ_of_le (Nat.sub_le n _))]

/-! ## The text of a program holds no NUL -/

def Nonzero (text : List Char) : Prop := ∀ c ∈ text, c ≠ '\x00'

theorem Nonzero.append {a b : List Char} (one : Nonzero a) (two : Nonzero b) :
    Nonzero (a ++ b) := by
  intro c mem
  rcases List.mem_append.mp mem with left | right
  · exact one c left
  · exact two c right

theorem Nonzero.cons {c : Char} {a : List Char} (first : c ≠ '\x00') (rest : Nonzero a) :
    Nonzero (c :: a) :=
  List.forall_mem_cons.mpr ⟨first, rest⟩

theorem nonzero_nil : Nonzero [] := fun _ mem => absurd mem List.not_mem_nil

theorem nonzero_word {text : List Char} (word : ∀ c ∈ text, isword (ch c)) : Nonzero text := by
  rintro c mem rfl
  exact absurd (word _ mem) (by decide)

theorem nonzero_digits {ds : List Char} (digits : Digits ds) : Nonzero ds :=
  nonzero_word fun c mem => isword_isdigit (digits c mem)

theorem nonzero_escaped {c : Char} (legal : Expressible c) : Nonzero (escaped c) := by
  have pair {d : Char} (other : d ≠ '\x00') : Nonzero ['\\', d] :=
    Nonzero.cons (by decide) (Nonzero.cons other nonzero_nil)
  unfold escaped
  split_ifs
  · exact pair (by decide)
  · exact pair (by decide)
  · exact pair (by decide)
  · exact pair (by decide)
  · exact pair (by decide)
  · exact pair (by decide)
  · exact Nonzero.cons legal.2 nonzero_nil

theorem nonzero_exponent {exponent : Option Exponent} (legal : ∀ e ∈ exponent, e.Legal) :
    Nonzero (exponentText exponent) := by
  cases exponent with
  | none => exact nonzero_nil
  | some e =>
      obtain ⟨mark, signs, digits⟩ := legal e rfl
      refine Nonzero.cons ?_ (Nonzero.append ?_ (nonzero_digits digits))
      · rcases mark with mark | mark <;> rw [mark] <;> decide
      · intro c mem
        rcases signs c (Option.mem_toList.mp mem) with rfl | rfl <;> decide

theorem nonzero_spell {t : Tok} (legal : t.Legal) : Nonzero t.spell := by
  cases t with
  | id name => exact nonzero_word legal.1.2
  | keyword word => exact nonzero_word (Tok.keyword_word legal).2
  | int ds => exact nonzero_digits legal.2
  | real whole fraction exponent =>
      refine (nonzero_digits legal.digits).append
        (Nonzero.append ?_ (nonzero_exponent legal.scaled))
      cases fraction with
      | none => exact nonzero_nil
      | some ds => exact Nonzero.cons (by decide) (nonzero_digits (legal.behind ds rfl))
  | char c =>
      exact Nonzero.cons (by decide)
        ((nonzero_escaped legal).append (Nonzero.cons (by decide) nonzero_nil))
  | string text =>
      refine Nonzero.cons (by decide) (Nonzero.append ?_ (Nonzero.cons (by decide) nonzero_nil))
      intro c mem
      obtain ⟨d, mem', here⟩ := List.mem_flatMap.mp mem
      exact nonzero_escaped (legal d mem').1 c here
  | op t =>
      obtain ⟨text, written⟩ := Option.ne_none_iff_exists'.mp legal
      have spelled : (Tok.op t).spell = text.toList := by
        rw [Tok.spell, written]
        rfl
      rw [spelled]
      rcases operator_row written with ⟨-, eq⟩ | ⟨row, mem, ⟨-, eq⟩ | ⟨f, mem', -, eq⟩⟩ <;> rw [eq]
      · exact Nonzero.cons (by decide) nonzero_nil
      · exact Nonzero.cons (rows_first row mem).2.2.2.2.2.2.2.2 nonzero_nil
      · exact Nonzero.cons (rows_first row mem).2.2.2.2.2.2.2.2
          (Nonzero.cons (rows_second row mem f mem').2.2.2.2.1 nonzero_nil)

theorem nonzero_print (ts : List Written) : Nonzero (print ts) := by
  induction ts with
  | nil => exact nonzero_nil
  | cons t ts ih =>
      obtain ⟨r, text, -, rest⟩ := print_cons t ts
      rw [text]
      refine (nonzero_spell t.legal).append ?_
      rcases rest with rfl | ⟨-, rfl⟩
      · exact ih
      · exact Nonzero.cons (by decide) ih

/-- The lexer starts with all of a text that holds no NUL. -/
theorem rest_construct {text : List Char} (nonzero : Nonzero text) :
    (jspplexConstructChar text).rest = text := by
  show (text.takeWhile (· ≠ '\x00')).drop 0 = text
  have all : ∀ c ∈ text, decide (c ≠ '\x00') = true := fun c mem => by simpa using nonzero c mem
  have whole : (text ++ []).takeWhile (fun c => decide (c ≠ '\x00')) = text ++ [] :=
    List.takeWhile_append_of_pos all
  rwa [List.append_nil] at whole

/-- Written tokens are read back: repeated calls of `jsppLex` return their kinds and
lexemes in order, and the end of the text for ever behind them. -/
theorem lex_print (ts : List Written) (n : Nat) :
    tokens Jspplex.told n (jspplexConstructChar (print ts)) = answers ts n :=
  tokens_print ts n (.inl (rest_construct (nonzero_print ts)))

end Jspp.Compiler
