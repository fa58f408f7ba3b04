/-
# Compiler.Scan -- the lexer as a function of the text it has left

`jsppLex` walks a position through its buffer, reads a character too many and puts
it back.  `scan` is the same lexer on the list of characters that are left: a
character put back is simply not taken (`back`), white space and comments are
skipped first (`skip`), then one token is read (`scanToken`).

* `jsppLex_scan`: `jsppLex` does to the rest of its buffer what `scan` does.
* `skip_skip`: skipping once is enough.
* `scan_shorter`: every token but the last takes at least one character.
-/
import Jspp.Compiler.Lex

namespace Jspp.Compiler

set_option autoImplicit false

/-! ## Looking at the text -/

/-- The next character, -1 behind the last. -/
def peek : List Char → Int
  | [] => -1
  | c :: _ => chOf c

/-- A character that was read is put back, unless it reads as -1. -/
def back : List Char → List Char
  | [] => []
  | c :: r => if chOf c = -1 then r else c :: r

/-- The characters as long as `p` holds, as they are stored in the lexeme. -/
def taken (p : Int → Bool) (r : List Char) : List Char :=
  (r.takeWhile fun c => p (chOf c)).map fun c => toChar (chOf c)

def left (p : Int → Bool) (r : List Char) : List Char := r.dropWhile fun c => p (chOf c)

/-- A token, the lexeme buffer behind it and the text behind it. -/
structure Piece where
  token : Token
  lex : List Char
  rest : List Char
  deriving DecidableEq

/-! ## White space and comments -/

def eolRest (r : List Char) : List Char :=
  (left (fun c => c ≠ ch '\n' ∧ c > 0) r).tail

/-- To the next star or slash of a comment. -/
def mark (r : List Char) : List Char := left (fun c => c ≠ ch '*' ∧ c ≠ ch '/' ∧ c > 0) r

/-- A star, and the slash that may close a comment behind it. -/
def star (opencount : Nat) (t : List Char) : Nat × List Char :=
  if peek t = ch '*' then
    (if peek t.tail = ch '/' then opencount - 1 else opencount, t.tail)
  else (opencount, t)

/-- A slash, and the star that may open a comment behind it. -/
def slash (s : Nat × List Char) : Nat × List Char :=
  if peek s.2 = ch '/' then
    (if peek s.2.tail = ch '*' then s.1 + 1 else s.1, s.2.tail)
  else s

/-- The loop over a comment; `t` begins with the character last read. -/
def commentRest : Nat → Nat → List Char → List Char
  | 0, _, t => t.tail
  | n + 1, opencount, t =>
      if opencount > 0 ∧ peek t > 0 then
        let s := slash (star opencount (mark t))
        commentRest n s.1 s.2
      else t.tail

/-- White space, as `stripWS` leaves it. -/
def strip (r : List Char) : List Char := back (left isws r)

/-- What follows a comment, when the text begins with one. -/
def comment? (r : List Char) : Option (List Char) :=
  if peek r = ch '/' then
    if peek r.tail = ch '/' then some (eolRest r.tail)
    else if peek r.tail = ch '*' then some (commentRest (r.length + 1) 1 r.tail)
    else none
  else none

theorem length_left (p : Int → Bool) (r : List Char) : (left p r).length ≤ r.length :=
  (List.dropWhile_sublist _).length_le

theorem length_back (r : List Char) : (back r).length ≤ r.length := by
  cases r with
  | nil => exact Nat.le_refl _
  | cons c r =>
      show (if chOf c = -1 then r else c :: r).length ≤ _
      split
      · exact Nat.le_succ r.length
      · exact Nat.le_refl _

theorem length_tail (r : List Char) : r.tail.length = r.length - 1 := List.length_tail

theorem length_star (opencount : Nat) (t : List Char) : (star opencount t).2.length ≤ t.length := by
  unfold star
  split
  · show t.tail.length ≤ _
    rw [length_tail]
    omega
  · exact Nat.le_refl _

theorem length_slash (s : Nat × List Char) : (slash s).2.length ≤ s.2.length := by
  unfold slash
  split
  · show s.2.tail.length ≤ _
    rw [length_tail]
    omega
  · exact Nat.le_refl _

theorem length_commentRest (n opencount : Nat) (t : List Char) :
    (commentRest n opencount t).length ≤ t.length - 1 := by
  induction n generalizing opencount t with
  | zero => exact Nat.le_of_eq (length_tail t)
  | succ n ih =>
      unfold commentRest
      split
      · have step := ih (slash (star opencount (mark t))).1 (slash (star opencount (mark t))).2
        have two := length_slash (star opencount (mark t))
        have one := length_star opencount (mark t)
        have skipped := length_left (fun c => c ≠ ch '*' ∧ c ≠ ch '/' ∧ c > 0) t
        show (commentRest n _ _).length ≤ _
        change (mark t).length ≤ _ at skipped
        omega
      · exact Nat.le_of_eq (length_tail t)

theorem length_strip (r : List Char) : (strip r).length ≤ r.length :=
  Nat.le_trans (length_back _) (length_left _ _)

theorem length_comment? {r t : List Char} (comment : comment? r = some t) :
    t.length < r.length := by
  cases r with
  | nil => cases comment
  | cons c r =>
      unfold comment? at comment
      split_ifs at comment
      · cases comment
        have eol := length_left (fun c => c ≠ ch '\n' ∧ c > 0) r
        rw [eolRest, length_tail, List.tail_cons, List.length_cons]
        omega
      · cases comment
        have := length_commentRest ((c :: r).length + 1) 1 r
        rw [List.tail_cons, List.length_cons]
        rw [List.length_cons] at this
        omega

/-- White space and comments, as often as they come. -/
def skip (r : List Char) : List Char :=
  match _step : comment? (strip r) with
  | some t => skip t
  | none => strip r
termination_by r.length
decreasing_by exact Nat.lt_of_lt_of_le (length_comment? _step) (length_strip r)

/-! ## Tokens -/

/-- The exponent part behind its mark: what is read, and what is left. -/
def scanExponent (r : List Char) : List Char × List Char :=
  if peek r = ch '+' ∨ peek r = ch '-' then
    (toChar (peek r) :: taken isdigit r.tail, left isdigit r.tail)
  else (taken isdigit r, left isdigit r)

/-- The fraction, when there is one. -/
def scanFraction (toke : Token) (acc r : List Char) : Piece :=
  if peek r = ch '.' then
    ⟨.real, acc ++ [toChar (peek r)] ++ taken isdigit r.tail, left isdigit r.tail⟩
  else ⟨toke, acc, r⟩

def scanReal (s : Piece) : Piece :=
  if peek s.rest = ch 'e' ∨ peek s.rest = ch 'E' then
    ⟨.real, s.lex ++ [toChar (peek s.rest)] ++ (scanExponent s.rest.tail).1,
      back (scanExponent s.rest.tail).2⟩
  else ⟨s.token, s.lex, back s.rest⟩

def scanError (code : Int) (r : List Char) : Piece := ⟨.lexerror, (toString code).toList, r⟩

def scanNumber (toke : Token) (r : List Char) : Piece :=
  if peek (left isdigit r) = ch 'x' then
    if (taken isdigit r).length ≠ 1 ∨ (taken isdigit r).head? ≠ some '0' then
      scanError LEX_INVALID_NUMBER_FORMAT (left isdigit r).tail
    else
      ⟨.hex, taken isdigit r ++ [toChar (peek (left isdigit r))] ++
          taken isdigit (left isdigit r).tail,
        back (left isdigit (left isdigit r).tail)⟩
  else scanReal (scanFraction toke (taken isdigit r) (left isdigit r))

def isword (c : Int) : Bool := isalnum c || c == ch '_'

def scanWord (r : List Char) : Piece :=
  ⟨Jspplex.keyword (taken isword r), taken isword r, back (left isword r)⟩

/-- The character an escape stands for, -1 for none. -/
def escape (c : Int) : Int :=
  if c = ch 'n' then 10
  else if c = ch 'r' then 13
  else if c = ch 't' then 9
  else if c = ch 'v' then 11
  else if c = ch '\'' then 39
  else if c = ch '\\' then 92
  else -1

/-- A character literal behind the character it denotes. -/
def scanQuote (c : Int) (r : List Char) : Piece :=
  if peek r ≠ ch '\'' then scanError LEX_UNTERMINATED_CHAR r.tail
  else ⟨.char, if toChar c = '\x00' then [] else [toChar c], r.tail⟩

def scanChar (r : List Char) : Piece :=
  if peek r = ch '\\' then
    if escape (peek r.tail) = -1 then scanError LEX_UNEXPECTED_ESCAPE r.tail.tail
    else scanQuote (escape (peek r.tail)) r.tail.tail
  else scanQuote (peek r) r.tail

def scanString (acc : List Char) : List Char → Piece
  | [] => scanError LEX_UNTERMINATED_STRING []
  | c :: r =>
      if chOf c = -1 then scanError LEX_UNTERMINATED_STRING r
      else if chOf c = ch '"' then
        if acc.length = LEX_TOKE_BUF then scanError LEX_UNTERMINATED_STRING r
        else ⟨.string, acc, r⟩
      else if acc.length < LEX_TOKE_BUF then
        if chOf c = ch '\\' then
          match r with
          | [] => scanError LEX_UNEXPECTED_ESCAPE []
          | e :: r =>
              if escape (chOf e) = -1 then scanError LEX_UNEXPECTED_ESCAPE r
              else scanString (acc ++ [toChar (escape (chOf e))]) r
        else scanString (acc ++ [toChar (chOf c)]) r
      else scanError LEX_UNTERMINATED_STRING r

theorem scanString_cons (acc : List Char) (c : Char) (r : List Char) :
    scanString acc (c :: r) =
      if chOf c = -1 then scanError LEX_UNTERMINATED_STRING r
      else if chOf c = ch '"' then
        if acc.length = LEX_TOKE_BUF then scanError LEX_UNTERMINATED_STRING r
        else ⟨.string, acc, r⟩
      else if acc.length < LEX_TOKE_BUF then
        if chOf c = ch '\\' then
          match r with
          | [] => scanError LEX_UNEXPECTED_ESCAPE []
          | e :: r =>
              if escape (chOf e) = -1 then scanError LEX_UNEXPECTED_ESCAPE r
              else scanString (acc ++ [toChar (escape (chOf e))]) r
        else scanString (acc ++ [toChar (chOf c)]) r
      else scanError LEX_UNTERMINATED_STRING r := by
  cases r <;> rfl

/-- An operator behind its first character. -/
def scanOperator (single : Token) (follow : List (Char × Token)) (lex r : List Char) : Piece :=
  match follow.find? fun f => ch f.1 = peek r with
  | some f => ⟨f.2, lex, r.tail⟩
  | none => ⟨single, lex, back r⟩

/-- The operators, by their first character, with what may come second. -/
def scanPunct (c : Int) (lex r : List Char) : Piece :=
  if c = ch '|' then scanOperator .pipe [('|', .or), ('=', .oreq)] lex r
  else if c = ch '&' then scanOperator .ampr [('&', .and), ('=', .andeq)] lex r
  else if c = ch '{' then ⟨.lbrace, lex, r⟩
  else if c = ch '}' then ⟨.rbrace, lex, r⟩
  else if c = ch '(' then ⟨.lpar, lex, r⟩
  else if c = ch ')' then ⟨.rpar, lex, r⟩
  else if c = ch '[' then ⟨.lbrac, lex, r⟩
  else if c = ch ']' then ⟨.rbrac, lex, r⟩
  else if c = ch '!' then scanOperator .bang [('=', .isneq)] lex r
  else if c = ch '=' then scanOperator .assign [('=', .isequal)] lex r
  else if c = ch '+' then scanOperator .plus [('=', .pluseq), ('+', .inc)] lex r
  else if c = ch '-' then scanOperator .minus [('=', .minuseq), ('-', .dec)] lex r
  else if c = ch '*' then scanOperator .star [('=', .timeseq)] lex r
  else if c = ch '/' then scanOperator .slash [('=', .diveq)] lex r
  else if c = ch '%' then scanOperator .mod [('=', .modeq)] lex r
  else if c = ch '^' then scanOperator .xor [('=', .xoreq)] lex r
  else if c = ch '~' then scanOperator .comp [('=', .compeq)] lex r
  else if c = ch ':' then scanOperator .colon [(':', .scope)] lex r
  else if c = ch ';' then ⟨.semi, lex, r⟩
  else if c = ch ',' then ⟨.comma, lex, r⟩
  else if c = ch '<' then scanOperator .lt [('=', .lteq), ('<', .lshift)] lex r
  else if c = ch '>' then scanOperator .gt [('=', .gteq), ('>', .rshift)] lex r
  else scanError LEX_ERROR r

/-- One token from a text that begins with none of white space and comments. -/
def scanToken (lex r : List Char) : Piece :=
  if peek r ≤ 0 then ⟨.jeof, lex, r.tail⟩
  else if isdigit (peek r) then scanNumber .int r
  else if peek r = ch '.' then
    if ¬ isdigit (peek r.tail) then ⟨.dot, lex, back r.tail⟩ else scanNumber .real r
  else if isalpha (peek r) ∨ peek r = ch '_' then scanWord r
  else if peek r = ch '\'' then scanChar r.tail
  else if peek r = ch '"' then scanString [] r.tail
  else scanPunct (peek r) lex r.tail

def scan (lex r : List Char) : Piece := scanToken lex (skip r)

/-! ## The lexer state and the text it has left -/

namespace Jspplex

def rest (lexp : Jspplex) : List Char := lexp.buffer.drop lexp.pos

/-- What reading and putting back leaves alone. -/
structure Same (l l' : Jspplex) : Prop where
  buffer : l'.buffer = l.buffer
  token : l'.token = l.token
  lex : l'.lex = l.lex

theorem Same.refl (l : Jspplex) : Same l l := ⟨rfl, rfl, rfl⟩

theorem Same.trans {l m k : Jspplex} (one : Same l m) (two : Same m k) : Same l k where
  buffer := two.buffer.trans one.buffer
  token := two.token.trans one.token
  lex := two.lex.trans one.lex

theorem rest_nil {l : Jspplex} (ended : l.rest = []) : l.getch = (-1, l) := by
  have none : l.buffer[l.pos]? = none :=
    List.getElem?_eq_none (List.drop_eq_nil_iff.mp ended)
  simp only [getch, none]

theorem rest_cons {l : Jspplex} {c : Char} {r : List Char} (more : l.rest = c :: r) :
    l.getch.1 = chOf c ∧ l.getch.2.rest = r ∧ Same l l.getch.2 ∧ l.getch.2.pos = l.pos + 1 ∧
      l.buffer[l.pos]? = some c := by
  have some : l.buffer[l.pos]? = some c := by
    have head := congrArg List.head? more
    rwa [rest, List.head?_drop] at head
  have tail : l.buffer.drop (l.pos + 1) = r := by
    rw [← List.tail_drop]
    exact congrArg List.tail more
  simp only [getch, some]
  exact ⟨trivial, tail, ⟨rfl, rfl, rfl⟩, trivial, trivial⟩

theorem getch_char (l : Jspplex) : l.getch.1 = peek l.rest := by
  cases ended : l.rest with
  | nil => rw [rest_nil ended]; rfl
  | cons c r => exact (rest_cons ended).1

theorem getch_rest (l : Jspplex) : l.getch.2.rest = l.rest.tail := by
  cases ended : l.rest with
  | nil => rw [rest_nil ended, ended]; rfl
  | cons c r => exact (rest_cons ended).2.1

theorem getch_same (l : Jspplex) : Same l l.getch.2 := by
  cases ended : l.rest with
  | nil => rw [rest_nil ended]; exact Same.refl l
  | cons c r => exact (rest_cons ended).2.2.1

theorem unread_same (l : Jspplex) (c : Int) : Same l (l.unread c) := by
  unfold unread ungetch
  split <;> exact ⟨rfl, rfl, rfl⟩

theorem unread_rest (l : Jspplex) : (l.getch.2.unread l.getch.1).rest = back l.rest := by
  cases ended : l.rest with
  | nil =>
      rw [rest_nil ended]
      simp [unread, ungetch, ended, back]
  | cons c r =>
      obtain ⟨char, rest, same, pos, -⟩ := rest_cons ended
      rw [char, back]
      by_cases minus : chOf c = -1
      · simp [unread, ungetch, minus, rest]
      · have full : l.getch.2.buffer.length ≠ 0 := by
          rw [same.buffer]
          intro empty
          rw [Jspplex.rest, List.length_eq_zero_iff.mp empty] at ended
          simp at ended
        rw [if_neg minus, unread, ungetch, if_neg (by simp [full, minus])]
        show List.drop (l.getch.2.pos - 1) l.getch.2.buffer = _
        rw [pos, same.buffer, Nat.add_sub_cancel]
        exact ended

/-- A character read and put back. -/
theorem unread_spec (l : Jspplex) :
    Same l (l.getch.2.unread l.getch.1) ∧ (l.getch.2.unread l.getch.1).rest = back l.rest :=
  ⟨(getch_same l).trans (unread_same _ _), unread_rest l⟩

theorem length_rest (l : Jspplex) : l.rest.length < l.rounds := by
  unfold rest rounds
  rw [List.length_drop]
  omega

theorem left_cons (p : Int → Bool) (c : Char) (r : List Char) :
    left p (c :: r) = if p (chOf c) then left p r else c :: r := List.dropWhile_cons

theorem taken_cons (p : Int → Bool) (c : Char) (r : List Char) :
    taken p (c :: r) = if p (chOf c) then toChar (chOf c) :: taken p r else [] := by
  unfold taken
  rw [List.takeWhile_cons]
  split <;> rfl

theorem skipWS_spec {n : Nat} {l : Jspplex} (enough : l.rest.length < n) :
    ∃ l', Same l l' ∧ l'.rest = left isws l.rest ∧ skipWS n l.getch.1 l.getch.2 = l'.getch := by
  induction n generalizing l with
  | zero => omega
  | succ n ih =>
      cases more : l.rest with
      | nil =>
          refine ⟨l, Same.refl l, more, ?_⟩
          rw [rest_nil more]
          rfl
      | cons c r =>
          obtain ⟨char, rest, same, -⟩ := rest_cons more
          rw [more, List.length_cons] at enough
          by_cases white : isws (chOf c)
          · obtain ⟨l', same', rest', run⟩ := ih (l := l.getch.2) (by rw [rest]; omega)
            refine ⟨l', same.trans same', ?_, ?_⟩
            · rw [left_cons, if_pos white, rest', rest]
            · rw [skipWS, char, if_pos white]
              exact run
          · refine ⟨l, Same.refl l, ?_, ?_⟩
            · rw [left_cons, if_neg white, more]
            · rw [skipWS, char, if_neg white, ← char]

theorem stripWS_spec (l : Jspplex) :
    Same l (stripWS l) ∧ (stripWS l).rest = strip l.rest := by
  have enough : l.rest.length < l.getch.2.rounds := by
    have bound := length_rest l
    rwa [rounds, ← (getch_same l).buffer] at bound
  obtain ⟨l', same, rest, run⟩ := skipWS_spec enough
  obtain ⟨back, left⟩ := unread_spec l'
  have strips : stripWS l = l'.getch.2.unread l'.getch.1 := by
    simp only [stripWS, run]
  rw [strips, strip, ← rest]
  exact ⟨same.trans back, left⟩

theorem collect_spec {p : Int → Bool} (stop : p (-1) = false) {n : Nat} {l : Jspplex}
    (enough : l.rest.length < n) (acc : List Char) :
    ∃ l', Same l l' ∧ l'.rest = left p l.rest ∧
      collect p n l.getch.1 acc l.getch.2 = (l'.getch.1, acc ++ taken p l.rest, l'.getch.2) := by
  induction n generalizing l acc with
  | zero => omega
  | succ n ih =>
      cases more : l.rest with
      | nil =>
          refine ⟨l, Same.refl l, more, ?_⟩
          rw [rest_nil more, collect, if_neg (by simp [stop])]
          simp [taken]
      | cons c r =>
          obtain ⟨char, rest, same, -⟩ := rest_cons more
          rw [more, List.length_cons] at enough
          by_cases holds : p (chOf c)
          · obtain ⟨l', same', rest', run⟩ :=
              ih (l := l.getch.2) (by rw [rest]; omega) (acc ++ [toChar (chOf c)])
            refine ⟨l', same.trans same', ?_, ?_⟩
            · rw [left_cons, if_pos holds, rest', rest]
            · rw [collect, char, if_pos holds, taken_cons, if_pos holds]
              show collect p n l.getch.2.getch.1 (acc ++ [toChar (chOf c)]) l.getch.2.getch.2 = _
              rw [run, rest, List.append_assoc]
              rfl
          · refine ⟨l, Same.refl l, ?_, ?_⟩
            · rw [left_cons, if_neg holds, more]
            · rw [collect, char, if_neg holds, taken_cons, if_neg holds, ← char, List.append_nil]

theorem rounds_same {l l' : Jspplex} (same : Same l l') : l'.rounds = l.rounds := by
  rw [rounds, rounds, same.buffer]

theorem length_rest_same {l l' : Jspplex} (same : Same l l') : l.rest.length < l'.rounds := by
  rw [rounds_same same]
  exact length_rest l

/-! ## One token -/

/-- The state behind a token, as `scan` tells it from the text. -/
structure Reads (l l' : Jspplex) (s : Piece) : Prop where
  buffer : l'.buffer = l.buffer
  token : l'.token = s.token
  lex : l'.lex = s.lex
  rest : l'.rest = s.rest

theorem Reads.behind {l m l' : Jspplex} {s : Piece} (same : m.buffer = l.buffer)
    (reads : Reads m l' s) : Reads l l' s :=
  { reads with buffer := reads.buffer.trans same }

theorem reads_setLexeme {l m : Jspplex} {t : Token} {text r : List Char} (same : Same l m)
    (rest : m.rest = r) : Reads l (m.setLexeme t text) ⟨t, text, r⟩ :=
  ⟨same.buffer, rfl, rfl, rest⟩

theorem reads_setToken {l m : Jspplex} {t : Token} {r : List Char} (same : Same l m)
    (rest : m.rest = r) : Reads l (m.setToken t) ⟨t, l.lex, r⟩ :=
  ⟨same.buffer, rfl, same.lex, rest⟩

theorem reads_lexError {l m : Jspplex} {r : List Char} (same : Same l m) (rest : m.rest = r)
    (code : Int) : Reads l (m.lexError code) (scanError code r) :=
  reads_setLexeme same rest

/-- A character put back, and the token set. -/
theorem reads_unread {l m : Jspplex} {t : Token} {text r : List Char} (same : Same l m)
    (rest : m.rest = r) : Reads l ((m.getch.2.unread m.getch.1).setLexeme t text) ⟨t, text, back r⟩ := by
  obtain ⟨same', rest'⟩ := unread_spec m
  exact reads_setLexeme (same.trans same') (by rw [rest', rest])

theorem exponent_spec (l : Jspplex) (acc : List Char) :
    ∃ l', Same l l' ∧ l'.rest = (scanExponent l.rest.tail).2 ∧
      exponent l.getch.1 acc l.getch.2 =
        (l'.getch.1, acc ++ [toChar (peek l.rest)] ++ (scanExponent l.rest.tail).1, l'.getch.2) := by
  have stop : isdigit (-1) = false := rfl
  simp only [exponent]
  rw [getch_char l.getch.2, getch_rest, getch_char l]
  by_cases sign : peek l.rest.tail = ch '+' ∨ peek l.rest.tail = ch '-'
  · rw [if_pos sign, scanExponent, if_pos sign]
    obtain ⟨l', same, rest, run⟩ := collect_spec stop
      (length_rest_same (l := l.getch.2.getch.2) (getch_same _))
      (acc ++ [toChar (peek l.rest)] ++ [toChar (peek l.rest.tail)])
    refine ⟨l', ((getch_same l).trans (getch_same _)).trans same, ?_, ?_⟩
    · rw [rest, getch_rest, getch_rest]
    · rw [run, getch_rest, getch_rest]
      simp
  · rw [if_neg sign, scanExponent, if_neg sign]
    obtain ⟨l', same, rest, run⟩ := collect_spec stop
      (length_rest_same (l := l.getch.2) (getch_same _)) (acc ++ [toChar (peek l.rest)])
    refine ⟨l', (getch_same l).trans same, ?_, ?_⟩
    · rw [rest, getch_rest]
    · rw [← getch_rest, ← getch_char, run]

/-- The end of a number behind its fraction. -/
theorem real_spec (l : Jspplex) (toke : Token) (acc : List Char) :
    Reads l
      (if l.getch.1 = ch 'e' ∨ l.getch.1 = ch 'E' then
        let (c, acc, lexp) := exponent l.getch.1 acc l.getch.2
        (lexp.unread c).setLexeme .real acc
      else (l.getch.2.unread l.getch.1).setLexeme toke acc)
      (scanReal ⟨toke, acc, l.rest⟩) := by
  rw [getch_char, scanReal]
  by_cases mark : peek l.rest = ch 'e' ∨ peek l.rest = ch 'E'
  · rw [if_pos mark, if_pos mark]
    obtain ⟨l', same, rest, run⟩ := exponent_spec l acc
    rw [getch_char l] at run
    simp only [run]
    exact Reads.behind same.buffer (reads_unread (Same.refl l') rest)
  · rw [if_neg mark, if_neg mark, ← getch_char]
    exact reads_unread (Same.refl l) rfl

theorem number_spec (toke : Token) (l : Jspplex) :
    Reads l (number toke l.getch.1 l.getch.2) (scanNumber toke l.rest) := by
  have stop : isdigit (-1) = false := rfl
  obtain ⟨m, same, rest, run⟩ := collect_spec stop (length_rest_same (getch_same l)) []
  simp only [number, run, List.nil_append]
  rw [getch_char m, rest, scanNumber]
  by_cases hex : peek (left isdigit l.rest) = ch 'x'
  · rw [if_pos hex, if_pos hex]
    split
    · exact reads_lexError (same.trans (getch_same m)) (by rw [getch_rest, rest]) _
    · obtain ⟨k, same', rest', run'⟩ := collect_spec stop
        (length_rest_same (getch_same m.getch.2))
        (taken isdigit l.rest ++ [toChar (peek (left isdigit l.rest))])
      rw [run', getch_rest, rest]
      refine Reads.behind same.buffer (Reads.behind (getch_same m).buffer ?_)
      exact Reads.behind same'.buffer
        (reads_unread (Same.refl k) (by rw [rest', getch_rest, rest]))
  · rw [if_neg hex, if_neg hex]
    refine Reads.behind same.buffer ?_
    by_cases point : peek (left isdigit l.rest) = ch '.'
    · rw [if_pos point, scanFraction, if_pos point]
      obtain ⟨k, same', rest', run'⟩ := collect_spec stop
        (length_rest_same (getch_same m.getch.2))
        (taken isdigit l.rest ++ [toChar (peek (left isdigit l.rest))])
      rw [run', getch_rest, rest]
      rw [getch_rest, rest] at rest'
      rw [← rest']
      exact Reads.behind ((getch_same m).trans same').buffer (real_spec k _ _)
    · rw [if_neg point, scanFraction, if_neg point, ← rest, ← getch_char]
      exact real_spec m _ _

theorem identifier_spec (l : Jspplex) :
    Reads l (identifier l.getch.1 l.getch.2) (scanWord l.rest) := by
  have stop : isword (-1) = false := rfl
  obtain ⟨m, same, rest, run⟩ := collect_spec stop (length_rest_same (getch_same l)) []
  change collect (fun c => isalnum c || c == ch '_') _ _ _ _ = _ at run
  simp only [identifier, run, List.nil_append]
  exact reads_unread same rest

theorem getescape_spec (l : Jspplex) : getescape l = (escape (peek l.rest), l.getch.2) := by
  rw [← getch_char]
  rfl

theorem charLiteral_spec (l : Jspplex) : Reads l (charLiteral l) (scanChar l.rest) := by
  have quote (c : Int) {m : Jspplex} (same : Same l m) :
      Reads l (if m.getch.1 ≠ ch '\'' then m.getch.2.lexError LEX_UNTERMINATED_CHAR
        else m.getch.2.setLexeme .char (if toChar c = '\x00' then [] else [toChar c]))
        (scanQuote c m.rest) := by
    rw [getch_char, scanQuote]
    split
    · exact reads_lexError (same.trans (getch_same m)) (getch_rest m) _
    · exact reads_setLexeme (same.trans (getch_same m)) (getch_rest m)
  simp only [charLiteral, getescape_spec]
  rw [getch_char l, scanChar]
  by_cases slash : peek l.rest = ch '\\'
  · simp only [if_pos slash]
    rw [getch_rest]
    have same := (getch_same l).trans (getch_same l.getch.2)
    have rest : l.getch.2.getch.2.rest = l.rest.tail.tail := by rw [getch_rest, getch_rest]
    by_cases bad : escape (peek l.rest.tail) = -1
    · rw [if_pos (by simp [bad]), if_pos bad]
      exact reads_lexError same rest _
    · rw [if_neg (by simp [bad]), if_neg bad, ← rest]
      exact quote _ same
  · simp only [if_neg slash]
    rw [if_neg (by simp), ← getch_rest]
    exact quote _ (getch_same l)

theorem stringLiteral_spec {n : Nat} {l : Jspplex} (enough : l.rest.length < n) (acc : List Char) :
    Reads l (stringLiteral n acc l) (scanString acc l.rest) := by
  induction n generalizing l acc with
  | zero => omega
  | succ n ih =>
      have same := getch_same l
      simp only [stringLiteral, getescape_spec]
      rw [getch_char l]
      cases more : l.rest with
      | nil =>
          have rest : l.getch.2.rest = [] := by rw [getch_rest, more]; rfl
          exact reads_lexError same rest _
      | cons c r =>
          have rest : l.getch.2.rest = r := by rw [getch_rest, more]; rfl
          rw [more, List.length_cons] at enough
          rw [peek, scanString_cons]
          split
          · exact reads_lexError same rest _
          split
          · split
            · exact reads_lexError same rest _
            · exact reads_setLexeme same rest
          split
          · split
            · cases r with
              | nil =>
                  have none : escape (peek l.getch.2.rest) = -1 := by
                    rw [rest]
                    decide
                  rw [if_pos none]
                  refine reads_lexError (same.trans (getch_same _)) ?_ _
                  rw [getch_rest, rest, List.tail_nil]
              | cons e r =>
                  have rest' : l.getch.2.getch.2.rest = r := (rest_cons rest).2.1
                  have same' := same.trans (getch_same l.getch.2)
                  rw [rest, peek]
                  simp only [List.length_cons] at enough
                  by_cases bad : escape (chOf e) = -1
                  · simp only [if_pos bad]
                    exact reads_lexError same' rest' _
                  · have more := ih (l := l.getch.2.getch.2) (by rw [rest']; omega)
                      (acc ++ [toChar (escape (chOf e))])
                    rw [rest'] at more
                    simp only [if_neg bad]
                    exact more.behind same'.buffer
            · have more := ih (l := l.getch.2) (by rw [rest]; omega) (acc ++ [toChar (chOf c)])
              rw [rest] at more
              exact more.behind same.buffer
          · exact reads_lexError same rest _

theorem operator_spec (single : Token) (follow : List (Char × Token)) (l : Jspplex) :
    Reads l (operator single follow l) (scanOperator single follow l.lex l.rest) := by
  simp only [operator]
  rw [getch_char, scanOperator]
  cases found : follow.find? fun f => ch f.1 = peek l.rest with
  | some f => exact reads_setToken (getch_same l) (getch_rest l)
  | none =>
      obtain ⟨same, rest⟩ := unread_spec l
      rw [getch_char] at same rest
      exact reads_setToken same rest

/-! ## Comments -/

theorem eolComment_spec {n : Nat} {l : Jspplex} (enough : l.rest.length < n) :
    Same l (eolComment n l.getch.1 l.getch.2) ∧
      (eolComment n l.getch.1 l.getch.2).rest = eolRest l.rest := by
  induction n generalizing l with
  | zero => omega
  | succ n ih =>
      cases more : l.rest with
      | nil =>
          rw [rest_nil more]
          exact ⟨Same.refl l, more⟩
      | cons c r =>
          obtain ⟨char, rest, same, -⟩ := rest_cons more
          rw [more, List.length_cons] at enough
          rw [eolComment, char, eolRest, left_cons]
          by_cases inside : chOf c ≠ ch '\n' ∧ chOf c > 0
          · obtain ⟨same', rest'⟩ := ih (l := l.getch.2) (by rw [rest]; omega)
            rw [if_pos inside, if_pos (by simpa using inside)]
            refine ⟨same.trans same', ?_⟩
            show (eolComment n l.getch.2.getch.1 l.getch.2.getch.2).rest = _
            rw [rest', rest]
            rfl
          · rw [if_neg inside, if_neg (by simpa using inside)]
            exact ⟨same, rest⟩

theorem seekMark_spec {n : Nat} {l : Jspplex} (enough : l.rest.length < n) :
    ∃ l', Same l l' ∧ l'.rest = mark l.rest ∧ seekMark n l.getch.1 l.getch.2 = l'.getch := by
  induction n generalizing l with
  | zero => omega
  | succ n ih =>
      cases more : l.rest with
      | nil =>
          refine ⟨l, Same.refl l, more, ?_⟩
          rw [rest_nil more]
          rfl
      | cons c r =>
          obtain ⟨char, rest, same, -⟩ := rest_cons more
          rw [more, List.length_cons] at enough
          rw [seekMark, char, mark, left_cons]
          by_cases inside : chOf c ≠ ch '*' ∧ chOf c ≠ ch '/' ∧ chOf c > 0
          · obtain ⟨l', same', rest', run⟩ := ih (l := l.getch.2) (by rw [rest]; omega)
            rw [if_pos inside, if_pos (by simpa using inside)]
            refine ⟨l', same.trans same', ?_, run⟩
            rw [rest', rest]
            rfl
          · rw [if_neg inside, if_neg (by simpa using inside)]
            exact ⟨l, Same.refl l, more, by rw [← char]⟩

theorem star_spec (opencount : Nat) (l : Jspplex) :
    ∃ l', Same l l' ∧ l'.rest = (star opencount l.rest).2 ∧
      (if l.getch.1 = ch '*' then
          (if l.getch.2.getch.1 = ch '/' then opencount - 1 else opencount, l.getch.2.getch.1,
            l.getch.2.getch.2)
        else (opencount, l.getch.1, l.getch.2)) =
        ((star opencount l.rest).1, l'.getch.1, l'.getch.2) := by
  rw [getch_char l, star]
  by_cases here : peek l.rest = ch '*'
  · rw [if_pos here, if_pos here, getch_char, getch_rest]
    exact ⟨l.getch.2, getch_same l, getch_rest l, by rw [getch_char, getch_rest]⟩
  · rw [if_neg here, if_neg here]
    exact ⟨l, Same.refl l, rfl, by rw [getch_char]⟩

theorem slash_spec {opencount : Nat} {l : Jspplex} {s : Nat × List Char}
    (here : s = (opencount, l.rest)) :
    ∃ l', Same l l' ∧ l'.rest = (slash s).2 ∧
      (if l.getch.1 = ch '/' then
          (if l.getch.2.getch.1 = ch '*' then opencount + 1 else opencount, l.getch.2.getch.1,
            l.getch.2.getch.2)
        else (opencount, l.getch.1, l.getch.2)) =
        ((slash s).1, l'.getch.1, l'.getch.2) := by
  subst here
  rw [getch_char l, slash]
  by_cases here : peek l.rest = ch '/'
  · rw [if_pos here, if_pos here, getch_char, getch_rest]
    exact ⟨l.getch.2, getch_same l, getch_rest l, by rw [getch_char, getch_rest]⟩
  · rw [if_neg here, if_neg here]
    exact ⟨l, Same.refl l, rfl, by rw [getch_char]⟩

/-- One round of the loop over a comment. -/
theorem comment_step (opencount : Nat) (l : Jspplex) (inside : opencount > 0 ∧ peek l.rest > 0) :
    ∃ d, Same l d ∧ d.rest = (slash (star opencount (mark l.rest))).2 ∧
      ∀ n, comment (n + 1) opencount l.getch.1 l.getch.2 =
        comment n (slash (star opencount (mark l.rest))).1 d.getch.1 d.getch.2 := by
  obtain ⟨a, same, rest, run⟩ := seekMark_spec (length_rest_same (getch_same l))
  obtain ⟨b, same', rest', run'⟩ := star_spec opencount a
  rw [rest] at rest' run'
  obtain ⟨d, same'', rest'', run''⟩ :=
    slash_spec (s := star opencount (mark l.rest)) (l := b) (by rw [rest'])
  refine ⟨d, (same.trans same').trans same'', rest'', fun n => ?_⟩
  rw [comment, if_pos (by rw [getch_char]; exact inside), run]
  simp only
  rw [run']
  simp only
  rw [run'']

theorem comment_spec (n opencount : Nat) (l : Jspplex) :
    Same l (comment n opencount l.getch.1 l.getch.2) ∧
      (comment n opencount l.getch.1 l.getch.2).rest = commentRest n opencount l.rest := by
  induction n generalizing opencount l with
  | zero => exact ⟨getch_same l, getch_rest l⟩
  | succ n ih =>
      by_cases inside : opencount > 0 ∧ peek l.rest > 0
      · obtain ⟨d, same, rest, run⟩ := comment_step opencount l inside
        obtain ⟨ends, left⟩ := ih (slash (star opencount (mark l.rest))).1 d
        rw [run, commentRest, if_pos inside]
        exact ⟨same.trans ends, by rw [left, rest]⟩
      · rw [comment, commentRest, if_neg inside, getch_char, if_neg inside]
        exact ⟨getch_same l, getch_rest l⟩

end Jspplex

theorem length_slash_star {t : List Char} (inside : peek t > 0) (opencount : Nat) :
    (slash (star opencount (mark t))).2.length < t.length := by
  cases t with
  | nil => exact absurd inside (by decide)
  | cons c r =>
      have two := length_slash (star opencount (mark (c :: r)))
      rw [mark, Jspplex.left_cons] at two ⊢
      rw [List.length_cons]
      split at two
      · rename_i seeks
        rw [if_pos seeks]
        have one := length_star opencount (left (fun c => c ≠ ch '*' ∧ c ≠ ch '/' ∧ c > 0) r)
        have skipped := length_left (fun c => c ≠ ch '*' ∧ c ≠ ch '/' ∧ c > 0) r
        omega
      · rename_i stops
        rw [if_neg stops]
        by_cases here : chOf c = ch '*'
        · rw [star, peek, if_pos here]
          have one := length_slash (if peek r = ch '/' then opencount - 1 else opencount, r)
          exact Nat.lt_succ_of_le one
        · have there : chOf c = ch '/' := by
            by_contra other
            exact stops (by simpa using ⟨here, other, inside⟩)
          rw [star, peek, if_neg here, slash, peek, if_pos there]
          exact Nat.lt_succ_self r.length

/-- Enough rounds for a comment is as good as more. -/
theorem commentRest_rounds {n m : Nat} {t : List Char} (enough : t.length < n)
    (enough' : t.length < m) (opencount : Nat) :
    commentRest n opencount t = commentRest m opencount t := by
  induction n generalizing m opencount t with
  | zero => omega
  | succ n ih =>
      cases m with
      | zero => omega
      | succ m =>
          rw [commentRest, commentRest]
          split
          · rename_i inside
            have shorter := length_slash_star inside.2 opencount
            exact ih (by omega) (by omega) _
          · rfl

/-! ## `jsppLex` is `scan` -/

namespace Jspplex

theorem reads_ite {l x y : Jspplex} {s t : Piece} {p : Prop} [Decidable p]
    (yes : p → Reads l x s) (no : ¬ p → Reads l y t) :
    Reads l (if p then x else y) (if p then s else t) := by
  split
  · rename_i holds
    exact yes holds
  · rename_i fails
    exact no fails

theorem ungetch_twice {k : Jspplex} {p : Nat} {c : Char} {d : Int}
    (here : k.buffer[p]? = some c) (pos : k.pos = p + 1 + 1) (notMinus : d ≠ -1)
    (notLine : d ≠ ch '\n') (newline : c ≠ '\n') :
    k.ungetch d = ({ k with pos := p } : Jspplex).getch := by
  have full : k.buffer.length ≠ 0 := by
    intro empty
    rw [List.length_eq_zero_iff.mp empty] at here
    cases here
  have one : k.pos - 1 = p + 1 := by omega
  have two : k.pos - 1 - 1 = p := by omega
  have read : ({ k with pos := p } : Jspplex).getch = (chOf c, { k with pos := p + 1 }) := by
    unfold getch
    rw [here]
    simp only
    rw [if_neg newline]
  rw [read, ungetch, if_neg (by simp [full, notMinus]), if_neg notLine]
  show (((k.buffer[k.pos - 1 - 1]?).map chOf).getD (-1), { k with pos := k.pos - 1 }) = _
  rw [two, one, here, Option.map_some, Option.getD_some]

/-- The point of a fraction is put back and read again. -/
theorem ungetch_point {l : Jspplex} (point : peek l.rest = ch '.')
    (digit : isdigit (peek l.rest.tail)) :
    ∃ l', Same l l' ∧ l'.rest = l.rest ∧
      l.getch.2.getch.2.ungetch l.getch.2.getch.1 = l'.getch := by
  cases more : l.rest with
  | nil => rw [more] at point; exact absurd point (by decide)
  | cons c r =>
      obtain ⟨-, rest, same, pos, here⟩ := rest_cons more
      cases more' : r with
      | nil =>
          rw [more, more'] at digit
          have none : isdigit (peek ([c] : List Char).tail) = false := rfl
          rw [none] at digit
          exact absurd digit Bool.false_ne_true
      | cons d r' =>
          obtain ⟨char', -, same', pos', -⟩ := rest_cons (rest.trans more')
          rw [more] at point
          rw [more, more'] at digit
          have notMinus : chOf d ≠ -1 := by
            intro minus
            rw [List.tail_cons, peek, minus] at digit
            exact absurd digit (by decide)
          have notLine : chOf d ≠ ch '\n' := by
            intro line
            rw [List.tail_cons, peek, line] at digit
            exact absurd digit (by decide)
          have newline : c ≠ '\n' := by
            rintro rfl
            have line : chOf '\n' = 10 := by decide
            rw [peek, line] at point
            exact absurd point (by decide)
          have back : l.getch.2.getch.2.buffer = l.buffer := same'.buffer.trans same.buffer
          have atPoint : l.getch.2.getch.2.buffer[l.pos]? = some c := by rw [back, here]
          refine ⟨{ l.getch.2.getch.2 with pos := l.pos }, ?_, ?_, ?_⟩
          · exact ⟨back, same'.token.trans same.token, same'.lex.trans same.lex⟩
          · show List.drop l.pos l.getch.2.getch.2.buffer = _
            rw [back, ← more', ← more]
            rfl
          · rw [char']
            exact ungetch_twice atPoint (by rw [pos', pos]) notMinus notLine newline

end Jspplex

open Jspplex in
/-- What `jsppLex` does behind white space, on a text that begins no comment. -/
theorem jsppLexN_token {n : Nat} {l m : Jspplex} (stripped : stripWS l = m) (same : Same l m)
    (plain : comment? m.rest = none) : Reads l (jsppLexN (n + 1) l) (scanToken l.lex m.rest) := by
  have next := same.trans (getch_same m)
  have rest := getch_rest m
  have op (single : Token) (follow : List (Char × Token)) :
      Reads l (operator single follow m.getch.2)
        (scanOperator single follow l.lex m.rest.tail) := by
    have spec := operator_spec single follow m.getch.2
    rw [rest, next.lex] at spec
    exact spec.behind next.buffer
  have one (t : Token) : Reads l (m.getch.2.setToken t) ⟨t, l.lex, m.rest.tail⟩ :=
    reads_setToken next rest
  simp only [jsppLexN, stripped]
  rw [getch_char m, scanToken]
  refine reads_ite (fun _ => one _) fun _ => ?_
  refine reads_ite (fun _ => ?_) fun _ => ?_
  · rw [← getch_char]
    exact (number_spec .int m).behind same.buffer
  refine reads_ite (fun point => ?_) fun _ => ?_
  · rw [getch_char m.getch.2, rest]
    refine reads_ite (fun _ => ?_) fun digit => ?_
    · obtain ⟨same', rest'⟩ := unread_spec m.getch.2
      rw [getch_char, rest] at same' rest'
      exact reads_setToken (next.trans same') rest'
    · obtain ⟨m', same', rest', run⟩ := ungetch_point point (by simpa using digit)
      rw [getch_char m.getch.2, rest] at run
      rw [run, ← rest']
      exact (number_spec .real m').behind (same.trans same').buffer
  refine reads_ite (fun _ => ?_) fun _ => ?_
  · rw [← getch_char]
    exact (identifier_spec m).behind same.buffer
  refine reads_ite (fun _ => ?_) fun _ => ?_
  · rw [← rest]
    exact (charLiteral_spec m.getch.2).behind next.buffer
  refine reads_ite (fun _ => ?_) fun _ => ?_
  · rw [← rest]
    exact (stringLiteral_spec (length_rest _) []).behind next.buffer
  rw [scanPunct]
  iterate 2 refine reads_ite (fun _ => op _ _) fun _ => ?_
  iterate 6 refine reads_ite (fun _ => one _) fun _ => ?_
  iterate 5 refine reads_ite (fun _ => op _ _) fun _ => ?_
  refine reads_ite (fun slash => ?_) fun _ => ?_
  · rw [getch_char m.getch.2, rest]
    unfold comment? at plain
    rw [if_pos slash] at plain
    split_ifs at plain with line nested
    rw [if_neg line, if_neg nested]
    exact op _ _
  iterate 4 refine reads_ite (fun _ => op _ _) fun _ => ?_
  iterate 2 refine reads_ite (fun _ => one _) fun _ => ?_
  iterate 2 refine reads_ite (fun _ => op _ _) fun _ => ?_
  exact reads_lexError next rest _

open Jspplex in
/-- What `jsppLex` does behind white space, on a text that begins a comment. -/
theorem jsppLexN_comment {l m : Jspplex} (stripped : stripWS l = m) (same : Same l m)
    {t : List Char} (begins : comment? m.rest = some t) :
    ∃ k, Same l k ∧ k.rest = t ∧ ∀ n, jsppLexN (n + 1) l = jsppLexN n k := by
  unfold comment? at begins
  split_ifs at begins with slash line nested
  all_goals
    have next := same.trans (getch_same m)
    have rest := getch_rest m
  · obtain ⟨same', rest'⟩ := eolComment_spec (length_rest m.getch.2)
    refine ⟨_, next.trans same', ?_, fun n => ?_⟩
    · rw [rest', rest]
      exact Option.some.inj begins
    · simp only [jsppLexN, stripped]
      rw [getch_char m, slash, getch_char m.getch.2, rest, line]
      rfl
  · obtain ⟨same', rest'⟩ := comment_spec m.getch.2.rounds 1 m.getch.2
    refine ⟨_, next.trans same', ?_, fun n => ?_⟩
    · rw [rest', rest, ← Option.some.inj begins]
      have short := length_rest m.getch.2
      rw [rest] at short
      exact commentRest_rounds short (by rw [length_tail]; omega) 1
    · simp only [jsppLexN, stripped]
      rw [getch_char m, slash, getch_char m.getch.2, rest, nested]
      rfl

open Jspplex in
/-- `jsppLex` reads one token off the text it has left. -/
theorem jsppLexN_scan {n : Nat} {l : Jspplex} (enough : l.rest.length < n) :
    Reads l (jsppLexN n l) (scan l.lex l.rest) := by
  induction n generalizing l with
  | zero => omega
  | succ n ih =>
      obtain ⟨same, rest⟩ := stripWS_spec l
      rw [scan, skip]
      cases begins : comment? (strip l.rest) with
      | none =>
          rw [← rest] at begins ⊢
          exact jsppLexN_token rfl same begins
      | some t =>
          have shorter := length_comment? begins
          have stripped := length_strip l.rest
          obtain ⟨k, same', rest', run⟩ := jsppLexN_comment rfl same (rest ▸ begins)
          have reads := ih (l := k) (by rw [rest']; omega)
          rw [run]
          rw [rest', same'.lex, scan] at reads
          exact reads.behind same'.buffer

open Jspplex in
theorem jsppLex_scan (l : Jspplex) : Reads l (jsppLex l) (scan l.lex l.rest) :=
  jsppLexN_scan (length_rest l)

/-! ## Every token takes a character -/

theorem length_scanExponent (r : List Char) : (scanExponent r).2.length ≤ r.length := by
  unfold scanExponent
  split
  · have digits := length_left isdigit r.tail
    rw [length_tail] at digits
    exact Nat.le_trans digits (Nat.sub_le _ _)
  · exact length_left _ r

theorem length_scanFraction (toke : Token) (acc r : List Char) :
    (scanFraction toke acc r).rest.length ≤ r.length := by
  unfold scanFraction
  split
  · have digits := length_left isdigit r.tail
    rw [length_tail] at digits
    exact Nat.le_trans digits (Nat.sub_le _ _)
  · exact Nat.le_refl _

theorem length_scanReal (s : Piece) : (scanReal s).rest.length ≤ s.rest.length := by
  unfold scanReal
  split
  · have behind := length_back (scanExponent s.rest.tail).2
    have exponent := length_scanExponent s.rest.tail
    rw [length_tail] at exponent
    show (back _).length ≤ _
    omega
  · exact length_back s.rest

/-- A number takes what its first loop takes, and the rest it looks at. -/
theorem length_scanNumber (toke : Token) (r : List Char) :
    (scanNumber toke r).rest.length ≤ (left isdigit r).length := by
  unfold scanNumber
  split
  · have first := length_tail (left isdigit r)
    split
    · show (left isdigit r).tail.length ≤ _
      omega
    · have digits := length_left isdigit (left isdigit r).tail
      have behind := length_back (left isdigit (left isdigit r).tail)
      show (back _).length ≤ _
      omega
  · exact Nat.le_trans (length_scanReal _) (length_scanFraction _ _ _)

theorem length_scanQuote (c : Int) (r : List Char) :
    (scanQuote c r).rest.length ≤ r.length := by
  unfold scanQuote
  split <;> exact List.length_tail ▸ Nat.sub_le _ _

theorem length_scanChar (r : List Char) : (scanChar r).rest.length ≤ r.length := by
  have one := length_tail r
  have two := length_tail r.tail
  unfold scanChar
  split
  · split
    · show r.tail.tail.length ≤ _
      omega
    · have quote := length_scanQuote (escape (peek r.tail)) r.tail.tail
      omega
  · have quote := length_scanQuote (peek r) r.tail
    omega

theorem length_scanString (acc r : List Char) : (scanString acc r).rest.length ≤ r.length := by
  induction hn : r.length using Nat.strongRecOn generalizing acc r with
  | ind n ih =>
      subst hn
      cases r with
      | nil => exact Nat.le_refl _
      | cons c r =>
          have here : ∀ acc, (scanString acc r).rest.length ≤ r.length :=
            fun acc => ih r.length (Nat.lt_succ_self _) acc r rfl
          rw [scanString_cons, List.length_cons]
          split
          · exact Nat.le_succ _
          split
          · split <;> exact Nat.le_succ _
          split
          · split
            · cases r with
              | nil => exact Nat.le_succ _
              | cons e r =>
                  have shorter : r.length < (c :: e :: r).length := by
                    simp only [List.length_cons]
                    omega
                  simp only [List.length_cons]
                  split
                  · show r.length ≤ _
                    omega
                  · exact Nat.le_trans (ih r.length shorter _ r rfl) (by omega)
            · exact Nat.le_succ_of_le (here _)
          · exact Nat.le_succ _

theorem length_scanOperator (single : Token) (follow : List (Char × Token)) (lex r : List Char) :
    (scanOperator single follow lex r).rest.length ≤ r.length := by
  unfold scanOperator
  split
  · exact List.length_tail ▸ Nat.sub_le _ _
  · exact length_back r

theorem length_ite {p : Prop} [Decidable p] {s t : Piece} {n : Nat} (yes : s.rest.length ≤ n)
    (no : t.rest.length ≤ n) : (if p then s else t).rest.length ≤ n := by
  split
  · exact yes
  · exact no

theorem length_scanPunct (c : Int) (lex r : List Char) :
    (scanPunct c lex r).rest.length ≤ r.length := by
  have op := length_scanOperator
  have one := Nat.le_refl r.length
  unfold scanPunct
  iterate 2 refine length_ite (op _ _ _ _) ?_
  iterate 6 refine length_ite one ?_
  iterate 10 refine length_ite (op _ _ _ _) ?_
  iterate 2 refine length_ite one ?_
  iterate 2 refine length_ite (op _ _ _ _) ?_
  exact one

/-- A token takes its first character, but the end of the text takes none. -/
theorem length_scanToken (lex r : List Char) (more : 0 < peek r) :
    (scanToken lex r).rest.length < r.length := by
  cases r with
  | nil => exact absurd more (by decide)
  | cons c r =>
      rw [scanToken, if_neg (by omega)]
      apply Nat.lt_succ_of_le
      by_cases digit : isdigit (peek (c :: r))
      · rw [if_pos digit]
        have digits : left isdigit (c :: r) = left isdigit r := by
          rw [Jspplex.left_cons]
          exact if_pos digit
        refine Nat.le_trans (length_scanNumber _ _) ?_
        rw [digits]
        exact length_left _ r
      rw [if_neg digit]
      by_cases point : peek (c :: r) = ch '.'
      · rw [if_pos point]
        have noDigits : left isdigit (c :: r) = c :: r := by
          rw [Jspplex.left_cons]
          exact if_neg digit
        refine length_ite (length_back r) ?_
        rw [scanNumber, noDigits, if_neg (by rw [point]; decide), scanFraction, if_pos point]
        exact Nat.le_trans (length_scanReal _) (length_left _ r)
      rw [if_neg point]
      by_cases word : isalpha (peek (c :: r)) ∨ peek (c :: r) = ch '_'
      · rw [if_pos word]
        have first : isword (chOf c) := by
          change isalpha (chOf c) ∨ chOf c = ch '_' at word
          rcases word with letter | score
          · rw [isword, isalnum, letter]
            rfl
          · rw [isword, score]
            rfl
        rw [scanWord, Jspplex.left_cons, if_pos first]
        exact Nat.le_trans (length_back _) (length_left _ r)
      rw [if_neg word]
      refine length_ite (length_scanChar r) ?_
      exact length_ite (length_scanString [] r) (length_scanPunct _ lex r)

theorem length_skip (r : List Char) : (skip r).length ≤ r.length := by
  induction r using skip.induct with
  | case1 r t begins ih =>
      rw [skip]
      split
      · rename_i t' begins'
        rw [begins] at begins'
        cases begins'
        have shorter := length_comment? begins
        have stripped := length_strip r
        omega
      · exact length_strip r
  | case2 r none =>
      rw [skip, none]
      exact length_strip r

theorem scan_shorter {lex r : List Char} (more : (scan lex r).token ≠ .jeof) :
    (scan lex r).rest.length < r.length := by
  have skipped := length_skip r
  have there : 0 < peek (skip r) := by
    by_contra ended
    rw [scan, scanToken, if_pos (by omega)] at more
    exact more rfl
  exact Nat.lt_of_lt_of_le (length_scanToken lex _ there) skipped

theorem length_scanToken_le (lex r : List Char) : (scanToken lex r).rest.length ≤ r.length := by
  by_cases more : 0 < peek r
  · exact Nat.le_of_lt (length_scanToken lex r more)
  · rw [scanToken, if_pos (by omega)]
    show r.tail.length ≤ _
    rw [length_tail]
    omega

theorem length_scan (lex r : List Char) : (scan lex r).rest.length ≤ r.length :=
  Nat.le_trans (length_scanToken_le lex _) (length_skip r)

end Jspp.Compiler
