/-
# Compiler.Lex -- the tokens of a source text

`jsppLex` reads one token from a NUL-terminated buffer of bytes.  A character is
a signed `char` (`chOf`), -1 stands for the end of the buffer, and the lexeme
buffer keeps its old text when a token writes none (operators, keywords aside),
as in the C code.  The lexeme is a list: writes past `LEX_TOKE_BUF` that the C
code does not check for are not told apart from writes inside it.

* `jsppLex`: the token function, with its loops over `getch` and `ungetch`.
* `atoi` / `atof`: the numbers the parser takes from a lexeme.
* `coded_jsppLexN`: the lexeme of an error token is the number of an error, never 0.
-/
import Mathlib.Algebra.Group.Nat.Defs
import Mathlib.Data.List.Basic

namespace Jspp.Compiler

set_option autoImplicit false

/-- The tokens of `y.tab.h`; `jeof` is JEOF, `jnull` JNULL, `yytrue` YYTRUE. -/
inductive Token where
  | lexerror
  | if | while | for | var | return | «class»
  | accPublic | accPrivate | accProtected
  | lbrace | rbrace | lpar | rpar | lbrac | rbrac
  | id | char | string | int | real
  | isneq | bang | isequal | pluseq | minuseq | timeseq | diveq | modeq | xoreq | assign
  | inc | dec | plus | minus | star | slash | and | ampr | or | pipe | xor | mod
  | scope | colon | semi | dot | comma | jeof | static | else | break
  | lt | gt | lteq | gteq | comp | compeq | do | continue | oreq | andeq | hex
  | switch | case | new | delete | const | jnull | try | catch | finally
  | yyfalse | yytrue | default | throw | lshift | rshift
  deriving DecidableEq, Repr

/-! The lexical errors of `parseerrors.h`. -/

def LEX_INVALID_NUMBER_FORMAT : Int := -1
def LEX_UNEXPECTED_ESCAPE : Int := -2
def LEX_UNTERMINATED_CHAR : Int := -3
def LEX_UNTERMINATED_STRING : Int := -4
def LEX_ERROR : Int := -5

def LEX_TOKE_BUF : Nat := 512

structure Jspplex where
  buffer : List Char
  pos : Nat
  lineno : Int
  token : Token
  lex : List Char
  deriving DecidableEq

/-- `jspplexConstructChar`: the text ends at its first NUL byte. -/
def jspplexConstructChar (buffer : List Char) : Jspplex where
  buffer := buffer.takeWhile (· ≠ '\x00')
  pos := 0
  lineno := 1
  token := .jeof
  lex := []

/-- A byte as a signed `char`, converted to `int`. -/
def chOf (c : Char) : Int := Int.bmod c.toNat 256

def isdigit (ch : Int) : Bool := 48 ≤ ch && ch ≤ 57

def isalpha (ch : Int) : Bool := (65 ≤ ch && ch ≤ 90) || (97 ≤ ch && ch ≤ 122)

def isalnum (ch : Int) : Bool := isalpha ch || isdigit ch

def ispunct (ch : Int) : Bool := 33 ≤ ch && ch ≤ 126 && !isalnum ch

def isws (ch : Int) : Bool := !(isalnum ch || ispunct ch || ch == -1)

/-- `(char)ch`, as it is stored in the lexeme buffer. -/
def toChar (ch : Int) : Char := Char.ofNat (ch % 256).toNat

/-- The character a literal denotes, as `getch` returns it. -/
def ch (c : Char) : Int := c.toNat

namespace Jspplex

def getch (lexp : Jspplex) : Int × Jspplex :=
  match lexp.buffer[lexp.pos]? with
  | none => (-1, lexp)
  | some c =>
      (chOf c, { lexp with
        pos := lexp.pos + 1
        lineno := if c = '\n' then lexp.lineno + 1 else lexp.lineno })

/-- `ungetch`, with the character before the new position as its result. -/
def ungetch (lexp : Jspplex) (c : Int) : Int × Jspplex :=
  if lexp.buffer.length = 0 ∨ c = -1 then (-1, lexp)
  else
    let pos := lexp.pos - 1
    (((lexp.buffer[pos - 1]?).map chOf).getD (-1), { lexp with
      pos := pos
      lineno := if c = ch '\n' then lexp.lineno - 1 else lexp.lineno })

def unread (lexp : Jspplex) (c : Int) : Jspplex := (lexp.ungetch c).2

def getescape (lexp : Jspplex) : Int × Jspplex :=
  let (c, lexp) := lexp.getch
  let e :=
    if c = ch 'n' then 10
    else if c = ch 'r' then 13
    else if c = ch 't' then 9
    else if c = ch 'v' then 11
    else if c = ch '\'' then 39
    else if c = ch '\\' then 92
    else -1
  (e, lexp)

/-- Every character read is one of the buffer, so this many rounds are enough
for each loop of the lexer. -/
def rounds (lexp : Jspplex) : Nat := lexp.buffer.length + 1

/-- The loop of `stripWS`: the first character that is not white space. -/
def skipWS : Nat → Int → Jspplex → Int × Jspplex
  | 0, c, lexp => (c, lexp)
  | n + 1, c, lexp =>
      if isws c then let (c, lexp) := lexp.getch; skipWS n c lexp else (c, lexp)

def stripWS (lexp : Jspplex) : Jspplex :=
  let (c, lexp) := lexp.getch
  let (c, lexp) := skipWS lexp.rounds c lexp
  lexp.unread c

/-- `while ( p(ch) ) { lex[lexpos++] = ch; ch = getch(); }` -/
def collect (p : Int → Bool) : Nat → Int → List Char → Jspplex → Int × List Char × Jspplex
  | 0, c, acc, lexp => (c, acc, lexp)
  | n + 1, c, acc, lexp =>
      if p c then
        let (c', lexp) := lexp.getch
        collect p n c' (acc ++ [toChar c]) lexp
      else (c, acc, lexp)

def setToken (lexp : Jspplex) (t : Token) : Jspplex := { lexp with token := t }

def setLexeme (lexp : Jspplex) (t : Token) (text : List Char) : Jspplex :=
  { lexp with token := t, lex := text }

/-- `sprintf( lexp->lex, "%d", code )` and LEXERROR. -/
def lexError (lexp : Jspplex) (code : Int) : Jspplex :=
  lexp.setLexeme .lexerror (toString code).toList

/-- The exponent part: the mark, a sign, digits. -/
def exponent (c : Int) (acc : List Char) (lexp : Jspplex) : Int × List Char × Jspplex :=
  let acc := acc ++ [toChar c]
  let (c, lexp) := lexp.getch
  let (c, acc, lexp) :=
    if c = ch '+' ∨ c = ch '-' then
      let (c', lexp) := lexp.getch
      (c', acc ++ [toChar c], lexp)
    else (c, acc, lexp)
  collect isdigit lexp.rounds c acc lexp

/-- The number branch, from its first digit (or its point) on. -/
def number (toke : Token) (c : Int) (lexp : Jspplex) : Jspplex :=
  let (c, acc, lexp) := collect isdigit lexp.rounds c [] lexp
  if c = ch 'x' then
    if acc.length ≠ 1 ∨ acc.head? ≠ some '0' then lexp.lexError LEX_INVALID_NUMBER_FORMAT
    else
      let (c', lexp) := lexp.getch
      let (c', acc, lexp) := collect isdigit lexp.rounds c' (acc ++ [toChar c]) lexp
      (lexp.unread c').setLexeme .hex acc
  else
    let (toke, c, acc, lexp) :=
      if c = ch '.' then
        let (c', lexp) := lexp.getch
        let (c', acc, lexp) := collect isdigit lexp.rounds c' (acc ++ [toChar c]) lexp
        (Token.real, c', acc, lexp)
      else (toke, c, acc, lexp)
    if c = ch 'e' ∨ c = ch 'E' then
      let (c, acc, lexp) := exponent c acc lexp
      (lexp.unread c).setLexeme .real acc
    else (lexp.unread c).setLexeme toke acc

/-- The words of the `strcmp` cascade. -/
def keywords : List (String × Token) :=
  [("var", .var), ("if", .if), ("else", .else), ("return", .return), ("while", .while),
   ("do", .do), ("for", .for), ("break", .break), ("static", .static), ("class", .class),
   ("public", .accPublic), ("private", .accPrivate), ("protected", .accProtected),
   ("continue", .continue), ("switch", .switch), ("case", .case), ("default", .default),
   ("new", .new), ("delete", .delete), ("const", .const), ("null", .jnull), ("try", .try),
   ("catch", .catch), ("finally", .finally), ("throw", .throw), ("true", .yytrue),
   ("false", .yyfalse)]

def keyword (text : List Char) : Token :=
  match keywords.find? fun entry => entry.1.toList = text with
  | some entry => entry.2
  | none => .id

def identifier (c : Int) (lexp : Jspplex) : Jspplex :=
  let (c, acc, lexp) := collect (fun c => isalnum c || c == ch '_') lexp.rounds c [] lexp
  (lexp.unread c).setLexeme (keyword acc) acc

def charLiteral (lexp : Jspplex) : Jspplex :=
  let (c, lexp) := lexp.getch
  let (c, bad, lexp) :=
    if c = ch '\\' then
      let (e, lexp) := lexp.getescape
      (e, e == -1, lexp)
    else (c, false, lexp)
  if bad then lexp.lexError LEX_UNEXPECTED_ESCAPE
  else
    let text := if toChar c = '\x00' then [] else [toChar c]
    let (c, lexp) := lexp.getch
    if c ≠ ch '\'' then lexp.lexError LEX_UNTERMINATED_CHAR
    else lexp.setLexeme .char text

/-- The string branch; the C loop also ends when the buffer is full. -/
def stringLiteral : Nat → List Char → Jspplex → Jspplex
  | 0, _, lexp => lexp.lexError LEX_UNTERMINATED_STRING
  | n + 1, acc, lexp =>
      let (c, lexp) := lexp.getch
      if c = -1 then lexp.lexError LEX_UNTERMINATED_STRING
      else if c = ch '"' then
        if acc.length = LEX_TOKE_BUF then lexp.lexError LEX_UNTERMINATED_STRING
        else lexp.setLexeme .string acc
      else if acc.length < LEX_TOKE_BUF then
        if c = ch '\\' then
          let (e, lexp) := lexp.getescape
          if e = -1 then lexp.lexError LEX_UNEXPECTED_ESCAPE
          else stringLiteral n (acc ++ [toChar e]) lexp
        else stringLiteral n (acc ++ [toChar c]) lexp
      else lexp.lexError LEX_UNTERMINATED_STRING

/-- `while ( ch != '\n' && ch > 0 ) ch = getch();` -/
def eolComment : Nat → Int → Jspplex → Jspplex
  | 0, _, lexp => lexp
  | n + 1, c, lexp =>
      if c ≠ ch '\n' ∧ c > 0 then let (c, lexp) := lexp.getch; eolComment n c lexp else lexp

/-- `while ( ch != '*' && ch != '/' && ch > 0 ) ch = getch();` -/
def seekMark : Nat → Int → Jspplex → Int × Jspplex
  | 0, c, lexp => (c, lexp)
  | n + 1, c, lexp =>
      if c ≠ ch '*' ∧ c ≠ ch '/' ∧ c > 0 then
        let (c, lexp) := lexp.getch
        seekMark n c lexp
      else (c, lexp)

/-- The outer loop of a nested comment, with its count of open comments. -/
def comment : Nat → Nat → Int → Jspplex → Jspplex
  | 0, _, _, lexp => lexp
  | n + 1, opencount, c, lexp =>
      if opencount > 0 ∧ c > 0 then
        let (c, lexp) := seekMark lexp.rounds c lexp
        let (opencount, c, lexp) :=
          if c = ch '*' then
            let (c, lexp) := lexp.getch
            (if c = ch '/' then opencount - 1 else opencount, c, lexp)
          else (opencount, c, lexp)
        let (opencount, c, lexp) :=
          if c = ch '/' then
            let (c, lexp) := lexp.getch
            (if c = ch '*' then opencount + 1 else opencount, c, lexp)
          else (opencount, c, lexp)
        comment n opencount c lexp
      else lexp

/-- An operator of one or two characters: `follow` lists what may come second. -/
def operator (single : Token) (follow : List (Char × Token)) (lexp : Jspplex) : Jspplex :=
  let (c, lexp) := lexp.getch
  match follow.find? fun f => ch f.1 = c with
  | some f => lexp.setToken f.2
  | none => (lexp.unread c).setToken single

end Jspplex

open Jspplex in
/-- `jsppLex`, its `switch` and the recursion after a comment. -/
def jsppLexN : Nat → Jspplex → Jspplex
  | 0, lexp => lexp.setToken .jeof
  | n + 1, lexp =>
      let (c, lexp) := (stripWS lexp).getch
      if c ≤ 0 then lexp.setToken .jeof
      else if isdigit c then number .int c lexp
      else if c = ch '.' then
        let (c, lexp) := lexp.getch
        if ¬ isdigit c then (lexp.unread c).setToken .dot
        else let (c, lexp) := lexp.ungetch c; number .real c lexp
      else if isalpha c ∨ c = ch '_' then identifier c lexp
      else if c = ch '\'' then charLiteral lexp
      else if c = ch '"' then stringLiteral lexp.rounds [] lexp
      else if c = ch '|' then operator .pipe [('|', .or), ('=', .oreq)] lexp
      else if c = ch '&' then operator .ampr [('&', .and), ('=', .andeq)] lexp
      else if c = ch '{' then lexp.setToken .lbrace
      else if c = ch '}' then lexp.setToken .rbrace
      else if c = ch '(' then lexp.setToken .lpar
      else if c = ch ')' then lexp.setToken .rpar
      else if c = ch '[' then lexp.setToken .lbrac
      else if c = ch ']' then lexp.setToken .rbrac
      else if c = ch '!' then operator .bang [('=', .isneq)] lexp
      else if c = ch '=' then operator .assign [('=', .isequal)] lexp
      else if c = ch '+' then operator .plus [('=', .pluseq), ('+', .inc)] lexp
      else if c = ch '-' then operator .minus [('=', .minuseq), ('-', .dec)] lexp
      else if c = ch '*' then operator .star [('=', .timeseq)] lexp
      else if c = ch '/' then
        let (c, after) := lexp.getch
        if c = ch '/' then jsppLexN n (eolComment lexp.rounds c after)
        else if c = ch '*' then jsppLexN n (comment lexp.rounds 1 c after)
        else operator .slash [('=', .diveq)] lexp
      else if c = ch '%' then operator .mod [('=', .modeq)] lexp
      else if c = ch '^' then operator .xor [('=', .xoreq)] lexp
      else if c = ch '~' then operator .comp [('=', .compeq)] lexp
      else if c = ch ':' then operator .colon [(':', .scope)] lexp
      else if c = ch ';' then lexp.setToken .semi
      else if c = ch ',' then lexp.setToken .comma
      else if c = ch '<' then operator .lt [('=', .lteq), ('<', .lshift)] lexp
      else if c = ch '>' then operator .gt [('=', .gteq), ('>', .rshift)] lexp
      else lexp.lexError LEX_ERROR

def jsppLex (lexp : Jspplex) : Jspplex := jsppLexN lexp.rounds lexp

/-! ## The numbers the parser reads off a lexeme -/

def digitsVal (text : List Char) : Nat :=
  (text.takeWhile fun c => isdigit (ch c)).foldl (fun v c => v * 10 + (c.toNat - 48)) 0

/-- `atoi`: the numeral is read as a `long`, which stops at its largest value,
and cut to 32 bits. -/
def atoi (text : List Char) : Int :=
  match text with
  | '-' :: rest => Int.bmod (-(min (digitsVal rest) (2 ^ 63) : Nat)) (2 ^ 32)
  | _ => Int.bmod (min (digitsVal text) (2 ^ 63 - 1) : Nat) (2 ^ 32)

/-- The decimal exponent behind `e` or `E`, when there is one. -/
def exponentVal : List Char → Int
  | e :: '-' :: rest => if e = 'e' ∨ e = 'E' then -(digitsVal rest : Int) else 0
  | e :: '+' :: rest => if e = 'e' ∨ e = 'E' then digitsVal rest else 0
  | e :: rest => if e = 'e' ∨ e = 'E' then digitsVal rest else 0
  | [] => 0

/-- `(float)atof( text )` for the numerals the lexer passes as REAL. -/
def atof (text : List Char) : UInt32 :=
  let isNum := fun c => isdigit (ch c)
  let whole := text.takeWhile isNum
  let rest := text.dropWhile isNum
  let (frac, rest) :=
    match rest with
    | '.' :: rest => (rest.takeWhile isNum, rest.dropWhile isNum)
    | _ => ([], rest)
  let exp := exponentVal rest - frac.length
  let f := Float.ofScientific (digitsVal (whole ++ frac)) (decide (exp < 0)) exp.natAbs
  f.toFloat32.toBits

/-! ## An error token names its error -/

namespace Jspplex

/-- The lexeme of an error token is the number of a lexical error. -/
def Coded (lexp : Jspplex) : Prop := lexp.token = .lexerror → atoi lexp.lex ≠ 0

theorem coded_of_ne {lexp : Jspplex} (ne : lexp.token ≠ .lexerror) : lexp.Coded :=
  fun h => absurd h ne

theorem coded_setToken (lexp : Jspplex) (t : Token) (ne : t ≠ .lexerror) :
    (lexp.setToken t).Coded :=
  coded_of_ne ne

theorem coded_ite {p : Prop} [Decidable p] {a b : Jspplex} (left : a.Coded) (right : b.Coded) :
    (if p then a else b).Coded := by
  split
  · exact left
  · exact right

theorem coded_lexError (lexp : Jspplex) (code : Int) (ne : atoi (toString code).toList ≠ 0) :
    (lexp.lexError code).Coded :=
  fun _ => ne

theorem coded_number (toke : Token) (c : Int) (lexp : Jspplex) (ne : toke ≠ .lexerror) :
    (number toke c lexp).Coded := by
  simp only [number]
  split
  · split
    · exact coded_lexError _ _ (by decide)
    · exact coded_of_ne (by simp [setLexeme])
  · split <;> split <;> exact coded_of_ne (by simp [setLexeme, ne])

theorem keywords_ne : ∀ entry ∈ keywords, entry.2 ≠ .lexerror := by decide

theorem keyword_ne (text : List Char) : keyword text ≠ .lexerror := by
  unfold keyword
  split
  case h_1 entry found => exact keywords_ne entry (List.mem_of_find?_eq_some found)
  case h_2 => simp

theorem coded_charLiteral (lexp : Jspplex) : (charLiteral lexp).Coded := by
  simp only [charLiteral]
  repeat' split
  all_goals first
    | exact coded_lexError _ _ (by decide)
    | exact coded_of_ne (by simp [setLexeme])

theorem coded_stringLiteral (n : Nat) (acc : List Char) (lexp : Jspplex) :
    (stringLiteral n acc lexp).Coded := by
  induction n generalizing acc lexp with
  | zero => exact coded_lexError _ _ (by decide)
  | succ n ih =>
      simp only [stringLiteral]
      split
      · exact coded_lexError _ _ (by decide)
      · split
        · split
          · exact coded_lexError _ _ (by decide)
          · exact coded_of_ne (by simp [setLexeme])
        · split
          · split
            · split
              · exact coded_lexError _ _ (by decide)
              · exact ih _ _
            · exact ih _ _
          · exact coded_lexError _ _ (by decide)

theorem coded_operator (single : Token) (follow : List (Char × Token)) (lexp : Jspplex)
    (ne : single ≠ .lexerror) (nes : ∀ f ∈ follow, f.2 ≠ .lexerror) :
    (operator single follow lexp).Coded := by
  simp only [operator]
  split
  case h_1 f found => exact coded_of_ne (nes _ (List.mem_of_find?_eq_some found))
  case h_2 => exact coded_of_ne ne

end Jspplex

open Jspplex in
theorem coded_jsppLexN (n : Nat) (lexp : Jspplex) : (jsppLexN n lexp).Coded := by
  induction n generalizing lexp with
  | zero => exact coded_of_ne (by simp [jsppLexN, setToken])
  | succ n ih =>
      simp only [jsppLexN]
      refine coded_ite (coded_setToken _ _ (by simp)) ?_
      refine coded_ite (coded_number _ _ _ (by simp)) ?_
      refine coded_ite (coded_ite (coded_setToken _ _ (by simp)) (coded_number _ _ _ (by simp))) ?_
      refine coded_ite (coded_of_ne (keyword_ne _)) ?_
      refine coded_ite (coded_charLiteral _) (coded_ite (coded_stringLiteral _ _ _) ?_)
      -- two-character operators, then brackets, then the rest in the order of the `switch`
      iterate 2 refine coded_ite (coded_operator _ _ _ (by simp) (by simp)) ?_
      iterate 6 refine coded_ite (coded_setToken _ _ (by simp)) ?_
      iterate 5 refine coded_ite (coded_operator _ _ _ (by simp) (by simp)) ?_
      refine coded_ite (coded_ite (ih _)
        (coded_ite (ih _) (coded_operator _ _ _ (by simp) (by simp)))) ?_
      iterate 4 refine coded_ite (coded_operator _ _ _ (by simp) (by simp)) ?_
      iterate 2 refine coded_ite (coded_setToken _ _ (by simp)) ?_
      iterate 2 refine coded_ite (coded_operator _ _ _ (by simp) (by simp)) ?_
      exact coded_lexError _ _ (by decide)

/-- A lexer state behind a call of `jsppLex` (or before the first one). -/
structure Scanned where
  lex : Jspplex
  coded : lex.Coded

/-- Irreducible, so that comparing two compile states does not run the lexer. -/
@[irreducible] def Scanned.next (s : Scanned) : Scanned where
  lex := jsppLex s.lex
  coded := coded_jsppLexN _ _

/-- `jspplexConstructChar`, before the first token. -/
def Scanned.start (buffer : List Char) : Scanned where
  lex := jspplexConstructChar buffer
  coded := Jspplex.coded_of_ne (by simp [jspplexConstructChar])

end Jspp.Compiler
