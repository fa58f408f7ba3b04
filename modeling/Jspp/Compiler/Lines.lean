/-
# Compiler.Lines -- where the lexer stands, and on which line

`getch` and `ungetch` move the position and the line number separately, on every
way out of `jsppLex`.  A state is `Counted` when its position is inside the buffer
and its line number counts the line feeds before it; a character is `Fetched` when
it was read from such a state.  Only a fetched character is put back, so the
position never goes below the first one (`Fetched.before`).

* `jsppLex_counted`: a call keeps the position inside and the line number right.
* `jsppLex_goes`: a call comes to the end of the buffer, or goes on.
* `calls_lines`: both, after any number of calls on a text of 7-bit characters.
* `interpreterLine_iff`: a first line that begins with `#` is left out when it ends.
-/
import Jspp.Compiler.Comments
import Mathlib.Data.List.TakeWhile

namespace Jspp.Compiler

set_option autoImplicit false

namespace Jspplex

/-- The position is inside the buffer, and the line number counts the line feeds before it. -/
structure Counted (l : Jspplex) : Prop where
  ascii : Ascii l.buffer
  inside : l.pos ≤ l.buffer.length
  lines : l.lineno = 1 + ((l.buffer.take l.pos).count '\n' : Nat)

/-- A character and the state behind it, as `getch` returns them. -/
def Fetched (r : Int × Jspplex) : Prop := ∃ k, Counted k ∧ r = k.getch

/-! ## A character read, and put back -/

theorem Counted.fetched {l : Jspplex} (counted : Counted l) : Fetched l.getch :=
  ⟨l, counted, rfl⟩

theorem take_next {b : List Char} {p : Nat} {c : Char} (here : b[p]? = some c) :
    b.take (p + 1) = b.take p ++ [c] := by
  rw [List.take_add_one, here]
  rfl

theorem getch_none {l : Jspplex} (ended : l.buffer[l.pos]? = none) : l.getch = (-1, l) := by
  simp only [Jspplex.getch, ended]

/-- The state behind the character `c`. -/
def behind (l : Jspplex) (c : Char) : Jspplex :=
  { l with pos := l.pos + 1, lineno := if c = '\n' then l.lineno + 1 else l.lineno }

theorem getch_some {l : Jspplex} {c : Char} (here : l.buffer[l.pos]? = some c) :
    l.getch = (chOf c, l.behind c) := by
  simp only [Jspplex.getch, here, behind]

theorem behind_plain {c : Char} (plain : c ≠ '\n') (l : Jspplex) :
    l.behind c = { l with pos := l.pos + 1 } := by
  rw [behind, if_neg plain]

theorem Counted.behind {l : Jspplex} (counted : Counted l) {c : Char}
    (here : l.buffer[l.pos]? = some c) : Counted (l.behind c) := by
  refine ⟨counted.ascii, (List.getElem?_eq_some_iff.mp here).1, ?_⟩
  have lines := counted.lines
  have next := take_next here
  have after : ((l.behind c).buffer.take (l.behind c).pos).count '\n' =
      (l.buffer.take l.pos).count '\n' + if c = '\n' then 1 else 0 := by
    show (l.buffer.take (l.pos + 1)).count '\n' = _
    rw [next, List.count_append, List.count_singleton]
    simp only [beq_iff_eq]
  rw [after]
  show (if c = '\n' then l.lineno + 1 else l.lineno) = _
  split <;> omega

theorem Counted.getch {l : Jspplex} (counted : Counted l) : Counted l.getch.2 := by
  cases here : l.buffer[l.pos]? with
  | none => rwa [getch_none here]
  | some c =>
      rw [getch_some here]
      exact counted.behind here

theorem Fetched.counted {c : Int} {l : Jspplex} (fetched : Fetched (c, l)) : Counted l := by
  obtain ⟨k, counted, read⟩ := fetched
  have behind := counted.getch
  rwa [← read] at behind

/-- There is a character before the position, when one was read. -/
theorem Fetched.before {c : Int} {l : Jspplex} (fetched : Fetched (c, l)) (some : c ≠ -1) :
    0 < l.pos := by
  obtain ⟨k, -, read⟩ := fetched
  cases here : k.buffer[k.pos]? with
  | none => exact absurd (congrArg Prod.fst (read.trans (getch_none here))) some
  | some d =>
      have state : l = k.behind d := congrArg Prod.snd (read.trans (getch_some here))
      rw [state]
      exact Nat.succ_pos k.pos

theorem ascii_line {c : Char} (ascii : c.toNat < 128) : chOf c = ch '\n' ↔ c = '\n' := by
  constructor
  · exact eq_of_chOf ascii (by decide)
  · rintro rfl
    decide

/-- What is put back is what was read. -/
theorem Fetched.unread {c : Int} {l : Jspplex} (fetched : Fetched (c, l)) :
    Counted (l.unread c) := by
  have after := fetched.counted
  obtain ⟨k, counted, read⟩ := fetched
  cases here : k.buffer[k.pos]? with
  | none =>
      have minus : c = -1 := congrArg Prod.fst (read.trans (getch_none here))
      rwa [Jspplex.unread, ungetch, if_pos (.inr minus)]
  | some d =>
      rw [getch_some here] at read
      have both := Prod.mk.inj read
      rw [both.2] at after ⊢
      rw [both.1]
      have own := counted.ascii d (List.mem_of_getElem? here)
      rw [Jspplex.unread, ungetch]
      split
      · exact after
      refine ⟨counted.ascii, counted.inside, ?_⟩
      simp only [Jspplex.behind, ascii_line own.2, Nat.add_sub_cancel]
      rw [← counted.lines]
      split <;> omega

/-- A digit is the end of no text and of no line. -/
theorem digit_ne {c : Int} (digit : isdigit c) : c ≠ -1 ∧ c ≠ ch '\n' := by
  constructor <;>
    · rintro rfl
      exact absurd digit (by decide)

/-- The point of a fraction is put back behind its first digit. -/
theorem Counted.point {l : Jspplex} (counted : Counted l) (point : l.getch.1 = ch '.')
    (digit : isdigit l.getch.2.getch.1) :
    Fetched (l.getch.2.getch.2.ungetch l.getch.2.getch.1) := by
  cases here : l.buffer[l.pos]? with
  | none =>
      have minus : (-1 : Int) = ch '.' := by rw [← point, getch_none here]
      exact absurd minus (by decide)
  | some c =>
      have char : chOf c = ch '.' := by rw [← point, getch_some here]
      have plain : c ≠ '\n' := by
        rintro rfl
        exact absurd char (by decide)
      rw [getch_some here] at digit ⊢
      rw [behind_plain plain] at digit ⊢
      cases next : l.buffer[l.pos + 1]? with
      | none =>
          rw [getch_none (l := { l with pos := l.pos + 1 }) next] at digit
          exact absurd rfl (digit_ne digit).1
      | some d =>
          rw [getch_some (l := { l with pos := l.pos + 1 }) next] at digit ⊢
          simp only at digit ⊢
          obtain ⟨notMinus, notLine⟩ := digit_ne digit
          have plain' : d ≠ '\n' := by
            rintro rfl
            exact absurd notLine (by decide)
          rw [behind_plain plain']
          exact ⟨l, counted, ungetch_twice here rfl notMinus notLine plain⟩

/-! ## The loops -/

theorem fetched_skipWS (n : Nat) {c : Int} {l : Jspplex} (fetched : Fetched (c, l)) :
    Fetched (skipWS n c l) := by
  induction n generalizing c l with
  | zero => exact fetched
  | succ n ih =>
      unfold skipWS
      split
      · exact ih fetched.counted.fetched
      · exact fetched

theorem counted_stripWS {l : Jspplex} (counted : Counted l) : Counted (stripWS l) := by
  have next : Fetched (l.getch.1, l.getch.2) := counted.fetched
  have stops := fetched_skipWS l.getch.2.rounds next
  simp only [stripWS]
  generalize skipWS l.getch.2.rounds l.getch.1 l.getch.2 = r at stops ⊢
  exact Fetched.unread stops

/-- A character and the state behind it, whatever was collected. -/
def Fetched3 (r : Int × List Char × Jspplex) : Prop := Fetched (r.1, r.2.2)

theorem fetched_collect (p : Int → Bool) (n : Nat) {c : Int} (acc : List Char) {l : Jspplex}
    (fetched : Fetched (c, l)) : Fetched3 (collect p n c acc l) := by
  induction n generalizing c acc l with
  | zero => exact fetched
  | succ n ih =>
      unfold collect
      split
      · exact ih _ fetched.counted.fetched
      · exact fetched

theorem fetched_seekMark (n : Nat) {c : Int} {l : Jspplex} (fetched : Fetched (c, l)) :
    Fetched (seekMark n c l) := by
  induction n generalizing c l with
  | zero => exact fetched
  | succ n ih =>
      unfold seekMark
      split
      · exact ih fetched.counted.fetched
      · exact fetched

theorem counted_eolComment (n : Nat) {c : Int} {l : Jspplex} (fetched : Fetched (c, l)) :
    Counted (eolComment n c l) := by
  induction n generalizing c l with
  | zero => exact fetched.counted
  | succ n ih =>
      unfold eolComment
      split
      · exact ih fetched.counted.fetched
      · exact fetched.counted

theorem counted_comment (n opencount : Nat) {c : Int} {l : Jspplex} (fetched : Fetched (c, l)) :
    Counted (comment n opencount c l) := by
  induction n generalizing opencount c l with
  | zero => exact fetched.counted
  | succ n ih =>
      have sought := fetched_seekMark l.rounds fetched
      have star : Fetched (if (seekMark l.rounds c l).1 = ch '*' then
          (seekMark l.rounds c l).2.getch else seekMark l.rounds c l) := by
        split
        · exact sought.counted.fetched
        · exact sought
      unfold comment
      split
      · by_cases here : (seekMark l.rounds c l).1 = ch '*'
        · simp only [if_pos here] at star ⊢
          split
          · exact ih _ star.counted.fetched
          · exact ih _ star
        · simp only [if_neg here] at star ⊢
          split
          · exact ih _ star.counted.fetched
          · exact ih _ star
      · exact fetched.counted

/-! ## One token -/

theorem counted_ite {p : Prop} [Decidable p] {a b : Jspplex} (yes : p → Counted a)
    (no : ¬ p → Counted b) : Counted (if p then a else b) := by
  split
  · rename_i holds
    exact yes holds
  · rename_i fails
    exact no fails

theorem Counted.setToken {l : Jspplex} (counted : Counted l) (t : Token) :
    Counted (l.setToken t) :=
  ⟨counted.ascii, counted.inside, counted.lines⟩

theorem Counted.setLexeme {l : Jspplex} (counted : Counted l) (t : Token) (text : List Char) :
    Counted (l.setLexeme t text) :=
  ⟨counted.ascii, counted.inside, counted.lines⟩

theorem fetched_exponent {c : Int} (acc : List Char) {l : Jspplex} (fetched : Fetched (c, l)) :
    Fetched3 (exponent c acc l) := by
  have next := fetched.counted.fetched
  unfold exponent
  by_cases sign : l.getch.1 = ch '+' ∨ l.getch.1 = ch '-'
  · simp only [if_pos sign]
    exact fetched_collect _ _ _ next.counted.fetched
  · simp only [if_neg sign]
    exact fetched_collect _ _ _ next

theorem counted_number (toke : Token) {c : Int} {l : Jspplex} (fetched : Fetched (c, l)) :
    Counted (number toke c l) := by
  have digits := fetched_collect isdigit l.rounds [] fetched
  generalize run : collect isdigit l.rounds c [] l = r at digits
  obtain ⟨d, acc, m⟩ := r
  have next := digits.counted.fetched
  have ends (toke : Token) (d : Int) (acc : List Char) (m : Jspplex) (fetched : Fetched (d, m)) :
      Counted (if d = ch 'e' ∨ d = ch 'E' then
        ((exponent d acc m).2.2.unread (exponent d acc m).1).setLexeme .real (exponent d acc m).2.1
      else (m.unread d).setLexeme toke acc) := by
    refine counted_ite (fun _ => ?_) fun _ => ?_
    · exact (fetched_exponent acc fetched).unread.setLexeme _ _
    · exact fetched.unread.setLexeme _ _
  simp only [number, run]
  refine counted_ite (fun _ => counted_ite (fun _ => ?_) fun _ => ?_) fun _ => ?_
  · exact digits.counted.setLexeme _ _
  · exact (fetched_collect _ _ _ next).unread.setLexeme _ _
  · by_cases point : d = ch '.'
    · simp only [if_pos point]
      exact ends _ _ _ _ (fetched_collect _ _ _ next)
    · simp only [if_neg point]
      exact ends _ _ _ _ digits

theorem counted_identifier {c : Int} {l : Jspplex} (fetched : Fetched (c, l)) :
    Counted (identifier c l) := by
  have word := fetched_collect (fun c => isalnum c || c == ch '_') l.rounds [] fetched
  exact (Fetched.unread word).setLexeme _ _

theorem counted_getescape {l : Jspplex} (counted : Counted l) : Counted l.getescape.2 :=
  counted.getch

theorem counted_charLiteral {l : Jspplex} (counted : Counted l) : Counted (charLiteral l) := by
  have next := counted.getch
  have quote (c : Int) (m : Jspplex) (counted : Counted m) :
      Counted (if m.getch.1 ≠ ch '\'' then m.getch.2.lexError LEX_UNTERMINATED_CHAR
        else m.getch.2.setLexeme .char (if toChar c = '\x00' then [] else [toChar c])) :=
    counted_ite (fun _ => counted.getch.setLexeme _ _) fun _ => counted.getch.setLexeme _ _
  simp only [charLiteral]
  by_cases slash : l.getch.1 = ch '\\'
  · simp only [if_pos slash]
    refine counted_ite (fun _ => (counted_getescape next).setLexeme _ _) fun _ => ?_
    exact quote _ _ (counted_getescape next)
  · simp only [if_neg slash]
    exact counted_ite (fun _ => next.setLexeme _ _) fun _ => quote _ _ next

theorem counted_stringLiteral (n : Nat) (acc : List Char) {l : Jspplex} (counted : Counted l) :
    Counted (stringLiteral n acc l) := by
  induction n generalizing acc l with
  | zero => exact counted.setLexeme _ _
  | succ n ih =>
      have next := counted.getch
      simp only [stringLiteral]
      refine counted_ite (fun _ => next.setLexeme _ _) fun _ => ?_
      refine counted_ite (fun _ => ?_) fun _ => ?_
      · exact counted_ite (fun _ => next.setLexeme _ _) fun _ => next.setLexeme _ _
      refine counted_ite (fun _ => ?_) fun _ => next.setLexeme _ _
      refine counted_ite (fun _ => ?_) fun _ => ih _ next
      have escaped := counted_getescape next
      exact counted_ite (fun _ => escaped.setLexeme _ _) fun _ => ih _ escaped

theorem counted_operator (single : Token) (follow : List (Char × Token)) {l : Jspplex}
    (counted : Counted l) : Counted (operator single follow l) := by
  simp only [operator]
  split
  · exact counted.getch.setToken _
  · exact counted.fetched.unread.setToken _

theorem jsppLexN_counted (n : Nat) {l : Jspplex} (counted : Counted l) :
    Counted (jsppLexN n l) := by
  induction n generalizing l with
  | zero => exact counted.setToken _
  | succ n ih =>
      have stripped := counted_stripWS counted
      have next := stripped.getch
      have op (single : Token) (follow : List (Char × Token)) :=
        counted_operator single follow next
      have one (t : Token) := next.setToken t
      simp only [jsppLexN]
      refine counted_ite (fun _ => one _) fun _ => ?_
      refine counted_ite (fun _ => counted_number _ stripped.fetched) fun _ => ?_
      refine counted_ite (fun point => ?_) fun _ => ?_
      · refine counted_ite (fun _ => next.fetched.unread.setToken _) fun digit => ?_
        have back := stripped.point point (by simpa using digit)
        generalize (stripWS l).getch.2.getch.2.ungetch (stripWS l).getch.2.getch.1 = r at back ⊢
        exact counted_number _ back
      refine counted_ite (fun _ => counted_identifier stripped.fetched) fun _ => ?_
      refine counted_ite (fun _ => counted_charLiteral next) fun _ => ?_
      refine counted_ite (fun _ => counted_stringLiteral _ _ next) fun _ => ?_
      iterate 2 refine counted_ite (fun _ => op _ _) fun _ => ?_
      iterate 6 refine counted_ite (fun _ => one _) fun _ => ?_
      iterate 5 refine counted_ite (fun _ => op _ _) fun _ => ?_
      refine counted_ite (fun _ => ?_) fun _ => ?_
      · refine counted_ite (fun _ => ih (counted_eolComment _ next.fetched)) fun _ => ?_
        exact counted_ite (fun _ => ih (counted_comment _ _ next.fetched)) fun _ => op _ _
      iterate 4 refine counted_ite (fun _ => op _ _) fun _ => ?_
      iterate 2 refine counted_ite (fun _ => one _) fun _ => ?_
      iterate 2 refine counted_ite (fun _ => op _ _) fun _ => ?_
      exact next.setLexeme _ _

theorem jsppLex_counted {l : Jspplex} (counted : Counted l) : Counted (jsppLex l) :=
  jsppLexN_counted _ counted

end Jspplex

/-! ## Every call goes on -/

theorem left_suffix (p : Int → Bool) (r : List Char) : left p r <:+ r := List.dropWhile_suffix _

theorem back_suffix (r : List Char) : back r <:+ r := by
  cases r with
  | nil => exact List.suffix_refl _
  | cons c r =>
      show (if chOf c = -1 then r else c :: r) <:+ _
      split
      · exact List.suffix_cons c r
      · exact List.suffix_refl _

theorem star_suffix (opencount : Nat) (t : List Char) : (star opencount t).2 <:+ t := by
  unfold star
  split
  · exact List.tail_suffix t
  · exact List.suffix_refl _

theorem slash_suffix (s : Nat × List Char) : (slash s).2 <:+ s.2 := by
  unfold slash
  split
  · exact List.tail_suffix _
  · exact List.suffix_refl _

theorem commentRest_suffix (n opencount : Nat) (t : List Char) :
    commentRest n opencount t <:+ t := by
  induction n generalizing opencount t with
  | zero => exact List.tail_suffix t
  | succ n ih =>
      unfold commentRest
      split
      · exact (ih _ _).trans ((slash_suffix _).trans ((star_suffix _ _).trans (left_suffix _ t)))
      · exact List.tail_suffix t

theorem strip_suffix (r : List Char) : strip r <:+ r := (back_suffix _).trans (left_suffix _ r)

theorem comment?_suffix {r t : List Char} (begins : comment? r = some t) : t <:+ r := by
  unfold comment? at begins
  split_ifs at begins
  · cases begins
    exact (List.tail_suffix _).trans ((left_suffix _ _).trans (List.tail_suffix r))
  · cases begins
    exact (commentRest_suffix _ _ _).trans (List.tail_suffix r)

theorem skip_suffix (r : List Char) : skip r <:+ r := by
  induction r using skip.induct with
  | case1 r t begins ih =>
      rw [skip]
      split
      · rename_i t' begins'
        rw [begins] at begins'
        cases begins'
        exact ih.trans ((comment?_suffix begins).trans (strip_suffix r))
      · exact strip_suffix r
  | case2 r none =>
      rw [skip, none]
      exact strip_suffix r

theorem Ascii.suffix {r t : List Char} (ascii : Ascii r) (ends : t <:+ r) : Ascii t :=
  fun c mem => ascii c (ends.mem mem)

/-- On a text of 7-bit characters a token takes a character, or the text has come to its end. -/
theorem scan_goes (lex : List Char) {r : List Char} (ascii : Ascii r) :
    (scan lex r).rest.length < r.length ∨
      ((scan lex r).token = .jeof ∧ (scan lex r).rest = []) := by
  have skipped := length_skip r
  cases here : skip r with
  | nil =>
      rw [scan, here]
      exact .inr ⟨rfl, rfl⟩
  | cons c t =>
      have char : 0 < peek (skip r) := by
        rw [here]
        exact (here ▸ ascii.suffix (skip_suffix r) : Ascii (c :: t)).pos
      exact .inl (Nat.lt_of_lt_of_le (length_scanToken lex _ char) skipped)

namespace Jspplex

theorem Counted.length_rest {l : Jspplex} (counted : Counted l) :
    l.pos + l.rest.length = l.buffer.length := by
  have inside := counted.inside
  rw [rest, List.length_drop]
  omega

theorem jsppLex_goes {l : Jspplex} (counted : Counted l) :
    ((jsppLex l).token = .jeof ∧ (jsppLex l).pos = l.buffer.length) ∨
      l.pos < (jsppLex l).pos := by
  have reads := jsppLex_scan l
  have here := counted.length_rest
  have there := (jsppLex_counted counted).length_rest
  rw [reads.buffer, reads.rest] at there
  have ascii : Ascii l.rest := counted.ascii.suffix (List.drop_suffix l.pos _)
  rcases scan_goes l.lex ascii with goes | ⟨eof, ended⟩
  · exact .inr (by omega)
  · refine .inl ⟨reads.token.trans eof, ?_⟩
    rw [ended] at there
    exact there

theorem counted_start {text : List Char} (ascii : Ascii text) :
    Counted (jspplexConstructChar text) where
  ascii := fun c mem => ascii c ((List.takeWhile_sublist _).mem mem)
  inside := Nat.zero_le _
  lines := rfl

end Jspplex

theorem calls_counted (k : Nat) {l : Jspplex} (counted : l.Counted) : (calls k l).Counted := by
  induction k generalizing l with
  | zero => exact counted
  | succ k ih => exact ih (Jspplex.jsppLex_counted counted)

theorem calls_buffer (k : Nat) (l : Jspplex) : (calls k l).buffer = l.buffer := by
  induction k generalizing l with
  | zero => rfl
  | succ k ih => exact (ih _).trans (jsppLex_scan l).buffer

theorem ascii_construct {text : List Char} (ascii : Ascii text) :
    (jspplexConstructChar text).buffer = text := by
  have noNul : ∀ c ∈ text, decide (c ≠ '\x00') = true := by
    intro c mem
    refine decide_eq_true ?_
    rintro rfl
    exact absurd (ascii _ mem).1 (by decide)
  simp only [jspplexConstructChar]
  exact List.takeWhile_eq_self_iff.mpr noNul

/-- On a text of 7-bit characters the lexer stands inside the text, its line number
counts the line feeds before it, and every call comes to the end or goes on. -/
theorem calls_lines {text : List Char} (ascii : Ascii text) (k : Nat) :
    let l := calls k (jspplexConstructChar text)
    l.pos ≤ text.length ∧ l.lineno = 1 + ((text.take l.pos).count '\n' : Nat) ∧
      (((jsppLex l).token = .jeof ∧ (jsppLex l).pos = text.length) ∨ l.pos < (jsppLex l).pos) := by
  intro l
  have counted : l.Counted := calls_counted k (Jspplex.counted_start ascii)
  have whole : l.buffer = text := (calls_buffer k _).trans (ascii_construct ascii)
  have goes := Jspplex.jsppLex_goes counted
  have inside := counted.inside
  have lines := counted.lines
  rw [whole] at goes inside lines
  exact ⟨inside, lines, goes⟩

/-- The end of a line, a comment over two lines, a fraction and a number put back. -/
theorem calls_lines_text :
    let text := "a\n/* x\n*/ .5 12\n".toList
    let l := calls 3 (jspplexConstructChar text)
    l.pos ≤ text.length ∧ l.lineno = 1 + ((text.take l.pos).count '\n' : Nat) ∧
      (((jsppLex l).token = .jeof ∧ (jsppLex l).pos = text.length) ∨ l.pos < (jsppLex l).pos) :=
  calls_lines (by simp [Ascii]) 3

/-! ## The interpreter line -/

/-- The loop of `jspplexConstructBuf` over the characters of `cstr`: how far it moves the
position, none when it reads behind the array. -/
def skipLine : List Char → Option Nat
  | [] => none
  | c :: r => if '\r' ≠ c ∧ '\n' ≠ c then (skipLine r).map (· + 1) else some 0

/-- The lexer at the start of a text, as both constructors set it up. -/
def jspplexOn (buffer : List Char) : Jspplex where
  buffer := buffer
  pos := 0
  lineno := 1
  token := .jeof
  lex := []

/-- `jspplexConstructBuf`; the characters of the string are followed by a NUL. -/
def jspplexConstructBuf (buffer : List Char) : Option Jspplex :=
  if buffer.head? = some '#' then
    (skipLine (buffer ++ ['\x00'])).map fun pos => { jspplexOn buffer with pos := pos }
  else some (jspplexOn buffer)

/-- The lines end with a line feed, a carriage return or both. -/
def endsLine (c : Char) : Bool := c = '\r' || c = '\n'

/-- The text behind its first line, nothing when the line has no end. -/
def afterLine (text : List Char) : List Char :=
  match text.dropWhile fun c => !endsLine c with
  | '\r' :: '\n' :: r => r
  | _ :: r => r
  | [] => []

theorem skipLine_line {t : List Char} (single : ∀ c ∈ t, endsLine c = false) :
    skipLine t = none := by
  induction t with
  | nil => rfl
  | cons c t ih =>
      obtain ⟨own, rest⟩ := List.forall_mem_cons.mp single
      simp only [endsLine, Bool.or_eq_false_iff, decide_eq_false_iff_not] at own
      rw [skipLine, if_pos ⟨fun same => own.1 same.symm, fun same => own.2 same.symm⟩, ih rest]
      rfl

theorem skipLine_ends {t : List Char} (single : ∀ c ∈ t, endsLine c = false) {c : Char}
    (ends : endsLine c = true) (r : List Char) : skipLine (t ++ c :: r) = some t.length := by
  induction t with
  | nil =>
      simp only [endsLine, Bool.or_eq_true, decide_eq_true_eq] at ends
      rw [List.nil_append, skipLine, if_neg]
      · rfl
      · rintro ⟨one, two⟩
        exact ends.elim (fun same => one same.symm) fun same => two same.symm
  | cons d t ih =>
      obtain ⟨own, rest⟩ := List.forall_mem_cons.mp single
      simp only [endsLine, Bool.or_eq_false_iff, decide_eq_false_iff_not] at own
      rw [List.cons_append, skipLine,
        if_pos ⟨fun same => own.1 same.symm, fun same => own.2 same.symm⟩, ih rest]
      rfl

/-- A text without a line end, or its first line with the end and the rest. -/
theorem line_cases (text : List Char) : (∀ c ∈ text, endsLine c = false) ∨
    ∃ t c r, text = t ++ c :: r ∧ (∀ d ∈ t, endsLine d = false) ∧ endsLine c = true := by
  induction text with
  | nil => exact .inl fun c mem => nomatch mem
  | cons c text ih =>
      cases ends : endsLine c with
      | true => exact .inr ⟨[], c, text, rfl, (fun d mem => nomatch mem), ends⟩
      | false =>
          rcases ih with single | ⟨t, d, r, rfl, single, ends'⟩
          · exact .inl (List.forall_mem_cons.mpr ⟨ends, single⟩)
          · exact .inr ⟨c :: t, d, r, rfl, List.forall_mem_cons.mpr ⟨ends, single⟩, ends'⟩

/-- The tokens depend on the text behind white space and comments. -/
theorem tokens_skip (k : Nat) {l l' : Jspplex} (same : skip l.rest = skip l'.rest)
    (lex : l.lex = l'.lex) : tokens Jspplex.pair k l = tokens Jspplex.pair k l' := by
  induction k generalizing l l' with
  | zero => rfl
  | succ k ih =>
      have reads := jsppLex_scan l
      have reads' := jsppLex_scan l'
      have scanned : scan l.lex l.rest = scan l'.lex l'.rest := by rw [scan, scan, same, lex]
      rw [← scanned] at reads'
      have lex' : (jsppLex l).lex = (jsppLex l').lex := reads.lex.trans reads'.lex.symm
      rw [tokens, tokens, ih (by rw [reads.rest, reads'.rest]) lex', Jspplex.pair, Jspplex.pair,
        lex', reads.token, reads'.token]

/-- The end of a line is white space before the text behind it. -/
theorem skip_afterLine {t : List Char} (single : ∀ c ∈ t, endsLine c = false) {c : Char}
    (ends : endsLine c = true) (r : List Char) :
    skip (c :: r) = skip (afterLine (t ++ c :: r)) := by
  have dropped : (t ++ c :: r).dropWhile (fun c => !endsLine c) = c :: r := by
    have all : ∀ c ∈ t, (!endsLine c) = true := fun c mem => by rw [single c mem]; rfl
    rw [List.dropWhile_append_of_pos all, List.dropWhile_cons, ends]
    rfl
  have white : isws (chOf c) = true := by
    simp only [endsLine, Bool.or_eq_true, decide_eq_true_eq] at ends
    rcases ends with rfl | rfl <;> decide
  rw [skip_white white, afterLine, dropped]
  split
  · rename_i r' both
    cases both
    exact skip_white (by decide) r'
  · rename_i d r' _ same
    cases same
    rfl
  · rename_i empty
    cases empty

theorem rest_on (text : List Char) (p : Nat) :
    ({ jspplexOn text with pos := p } : Jspplex).rest = text.drop p := rfl

/-- The first line of the text begins with `#`: it is skipped inside the buffer, and the
tokens are those of the text behind it, if and only if the line has an end. -/
theorem interpreterLine_iff {text : List Char} (mark : text.head? = some '#') :
    (∃ l, jspplexConstructBuf text = some l ∧ l.pos ≤ text.length ∧
      ∀ k, tokens Jspplex.pair k l = tokens Jspplex.pair k (jspplexOn (afterLine text))) ↔
      '\n' ∈ text ∨ '\r' ∈ text := by
  rw [jspplexConstructBuf, if_pos mark]
  rcases line_cases text with single | ⟨t, c, r, rfl, single, ends⟩
  · have none : skipLine (text ++ ['\x00']) = none := by
      refine skipLine_line fun c mem => ?_
      rcases List.mem_append.mp mem with own | nul
      · exact single c own
      · rw [List.mem_singleton.mp nul]
        decide
    rw [none]
    constructor
    · rintro ⟨l, found, -⟩
      exact absurd found (by simp)
    · rintro (feed | carriage)
      · exact absurd (single _ feed) (by decide)
      · exact absurd (single _ carriage) (by decide)
  · have stops : skipLine (t ++ c :: r ++ ['\x00']) = some t.length := by
      rw [List.append_assoc]
      exact skipLine_ends single ends _
    refine iff_of_true ⟨{ jspplexOn (t ++ c :: r) with pos := t.length }, ?_, ?_, fun k => ?_⟩ ?_
    · rw [stops]
      rfl
    · show t.length ≤ _
      rw [List.length_append]
      exact Nat.le_add_right _ _
    · refine tokens_skip k ?_ rfl
      rw [rest_on, List.drop_left]
      exact skip_afterLine single ends r
    · simp only [endsLine, Bool.or_eq_true, decide_eq_true_eq] at ends
      rcases ends with rfl | rfl
      · exact .inr (List.mem_append_right _ (List.mem_cons_self ..))
      · exact .inl (List.mem_append_right _ (List.mem_cons_self ..))

/-- A line that ends with a carriage return and a line feed. -/
theorem interpreterLine_crlf :
    (∃ l, jspplexConstructBuf "#!js\r\na".toList = some l ∧ l.pos ≤ "#!js\r\na".toList.length ∧
      ∀ k, tokens Jspplex.pair k l =
        tokens Jspplex.pair k (jspplexOn (afterLine "#!js\r\na".toList))) ↔
      '\n' ∈ "#!js\r\na".toList ∨ '\r' ∈ "#!js\r\na".toList :=
  interpreterLine_iff (by decide)

/-- The loop reads behind a text that is nothing but an interpreter line without its end. -/
theorem interpreterLine_endless : "#!js".toList.head? = some '#' ∧
    ¬ ∃ l, jspplexConstructBuf "#!js".toList = some l ∧ l.pos ≤ "#!js".toList.length ∧
      ∀ k, tokens Jspplex.pair k l =
        tokens Jspplex.pair k (jspplexOn (afterLine "#!js".toList)) := by
  have none : jspplexConstructBuf "#!js".toList = none := by decide
  rw [none]
  exact ⟨by decide, fun ⟨_, found, _⟩ => nomatch found⟩

end Jspp.Compiler
