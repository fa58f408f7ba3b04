/-
# Splc.Lexing -- the next token, by what the text goes on with

One lemma for each way a text can go on behind the blanks: its end, a word, a
string, or punctuation.  `Nexts` says what a call of `sqllexNext` yields and what
is left of the text.

Where strings are copied exactly the lexeme is the text read (`stringNew_exact`).
-/
import Jspp.Splc.Sqllex

namespace Jspp.Splc

set_option autoImplicit false

/-- Copies without the loss. -/
@[reducible] def copyingAll : Copying := ⟨fun source maxlen => source.take maxlen⟩

theorem copyingAll_exact : @Copying.Exact copyingAll := fun _ _ => rfl

variable [Copying]

theorem stringNew_exact (exact : Copying.Exact) (cp : Bytes) : stringNew cp = stringTakeOwnership cp := by
  unfold stringNew stringTakeOwnership
  rw [exact, List.take_length]

omit [Copying] in
theorem cstr_whole {cp : Bytes} (whole : 0 ∉ cp) : cstr cp = cp :=
  List.takeWhile_eq_self_iff.mpr fun c mem => by
    have other : c ≠ 0 := fun zero => whole (zero ▸ mem)
    simpa using other

omit [Copying] in
theorem sqlToken_ne_eof (lexum : Str) : sqlToken lexum ≠ .eof := by
  unfold sqlToken
  split
  case h_1 entry found =>
    have all : ∀ entry ∈ operators, entry.2 ≠ .eof := by decide
    exact all entry (List.mem_of_find?_eq_some found)
  case h_2 =>
    split
    case h_1 entry found =>
      have all : ∀ entry ∈ words, entry.2 ≠ .eof := by decide +kernel
      exact all entry (List.mem_of_find?_eq_some found)
    case h_2 => split <;> simp

namespace Sqllex

def isBlank (c : UInt8) : Bool := !(isalnum c || ispunct c)

/-- What a call of `sqllexNext` yields: its result, the token, and the text behind it. -/
def Nexts (lex : Sqllex) (ok : Bool) (token : SqlToken) (lexum : Option Str) (left : Bytes) : Prop :=
  ∃ lex', lex.sqllexNext = some (ok, lex') ∧ lex'.m_token = token ∧ lex'.m_lexum = lexum ∧
    lex'.rest = left

variable {lex : Sqllex} {blanks tail : Bytes}

omit [Copying] in
theorem rest_length (lex : Sqllex) : lex.rest.length = lex.m_text.m_len - lex.m_pos := by
  have padded : lex.m_text.m_len ≤ lex.m_text.array.length := by
    simp only [Str.array, List.length_append, List.length_replicate]
    omega
  rw [rest, List.length_drop, List.length_take, Nat.min_eq_left padded]

omit [Copying] in
theorem rest_nil_iff (lex : Sqllex) : lex.rest = [] ↔ lex.m_text.m_len ≤ lex.m_pos := by
  rw [← List.length_eq_zero_iff, rest_length]
  omega

omit [Copying] in
/-- The text behind a reading. -/
theorem rest_behind {n : Nat} {token : SqlToken} {lexum : Option Str} :
    Sqllex.rest { lex with m_token := token, m_lexum := lexum, m_pos := lex.m_pos + n } =
      lex.rest.drop n := by
  show (lex.m_text.array.take lex.m_text.m_len).drop (lex.m_pos + n) = _
  rw [rest, List.drop_drop]

theorem nexts_eof (going : lex.m_token ≠ .eof) (ended : lex.rest = []) :
    lex.Nexts true .eof none [] := by
  refine ⟨{ lex with m_token := .eof, m_lexum := none }, ?_, rfl, rfl, ended⟩
  rw [sqllexNext, if_neg going, if_pos ((rest_nil_iff lex).mp ended)]

/-- A reading of the lexer, with the buffer and the length it takes. -/
theorem nexts_read {buf : Bytes} {n : Nat} {literal : Bool} (going : lex.m_token ≠ .eof)
    (more : lex.rest ≠ []) (reads : lex._sqllexRead = .read buf (lex.m_pos + n) literal) :
    if buf = [] then
      lex.Nexts false (if literal then .strlit else .unknown) none (lex.rest.drop n)
    else
      lex.Nexts true (if literal then .strlit else sqlToken (stringNew (cstr buf)))
        (some (stringNew (cstr buf))) (lex.rest.drop n) := by
  have further : ¬ lex.m_text.m_len ≤ lex.m_pos := fun ended => more ((rest_nil_iff lex).mpr ended)
  split
  case isTrue empty =>
    refine ⟨{ lex with
      m_token := if literal then .strlit else .unknown
      m_lexum := none
      m_pos := lex.m_pos + n }, ?_, rfl, rfl, rest_behind⟩
    rw [sqllexNext, if_neg going, if_neg further, reads]
    simp only [empty, if_true]
  case isFalse filled =>
    refine ⟨{ lex with
      m_token := if literal then .strlit else sqlToken (stringNew (cstr buf))
      m_lexum := some (stringNew (cstr buf))
      m_pos := lex.m_pos + n }, ?_, rfl, rfl, rest_behind⟩
    rw [sqllexNext, if_neg going, if_neg further, reads]
    simp only [filled, if_false]
    rfl

omit [Copying] in
/-- The blanks, and what stands behind them. -/
theorem skip_blanks {c : UInt8} (more : Bytes) (blank : ∀ b ∈ blanks, isBlank b = true)
    (seen : isBlank c = false) :
    (blanks ++ c :: more).takeWhile (fun c => !(isalnum c || ispunct c)) = blanks ∧
      (blanks ++ c :: more).dropWhile (fun c => !(isalnum c || ispunct c)) = c :: more := by
  constructor
  · rw [List.takeWhile_append_of_pos (p := fun c => !(isalnum c || ispunct c)) blank,
      List.takeWhile_cons_of_neg (by simpa [isBlank] using seen),
      List.append_nil]
  · rw [List.dropWhile_append_of_pos (p := fun c => !(isalnum c || ispunct c)) blank,
      List.dropWhile_cons_of_neg (by simpa [isBlank] using seen)]

/-- Blanks, and the end of the text. -/
theorem nexts_blank (going : lex.m_token ≠ .eof) (some : blanks ≠ [])
    (blank : ∀ b ∈ blanks, isBlank b = true) (text : lex.rest = blanks) :
    lex.Nexts false .unknown none [] := by
  have reads : lex._sqllexRead = .read [] (lex.m_pos + blanks.length) false := by
    have taken : blanks.takeWhile (fun c => !(isalnum c || ispunct c)) = blanks :=
      List.takeWhile_eq_self_iff.mpr blank
    have dropped : blanks.dropWhile (fun c => !(isalnum c || ispunct c)) = [] :=
      List.dropWhile_eq_nil_iff.mpr blank
    simp only [_sqllexRead, text, taken, dropped]
  have next := nexts_read going (text ▸ some) reads
  rw [if_pos rfl, text, List.drop_length] at next
  exact next

omit [Copying] in
theorem wordCh_seen {c : UInt8} (word : wordCh c = true) : isBlank c = false ∧ c ≠ 39 ∧ c ≠ 34 := by
  refine ⟨?_, ?_, ?_⟩
  · simp only [wordCh, Bool.or_eq_true, beq_iff_eq] at word
    rcases word with letter | rfl
    · simp [isBlank, letter]
    · decide
  · rintro rfl
    revert word
    decide
  · rintro rfl
    revert word
    decide

/-- A word, up to a character that is none of its own. -/
theorem nexts_word {word : Bytes} (going : lex.m_token ≠ .eof)
    (blank : ∀ b ∈ blanks, isBlank b = true) (some : word ≠ []) (inside : ∀ c ∈ word, wordCh c = true)
    (outside : ∀ c ∈ tail.head?, wordCh c = false) (text : lex.rest = blanks ++ (word ++ tail)) :
    lex.Nexts true (sqlToken (stringNew (cstr word))) (.some (stringNew (cstr word))) tail := by
  obtain ⟨c, cs, rfl⟩ := List.exists_cons_of_ne_nil some
  obtain ⟨seen, single, double⟩ := wordCh_seen (inside c List.mem_cons_self)
  obtain ⟨taken, dropped⟩ := skip_blanks (cs ++ tail) blank seen
  have run : (c :: (cs ++ tail)).takeWhile wordCh = c :: cs := by
    rw [← List.cons_append, List.takeWhile_append_of_pos inside]
    cases tail with
    | nil => simp
    | cons t tail => rw [List.takeWhile_cons_of_neg (by simpa using outside t rfl), List.append_nil]
  have reads : lex._sqllexRead =
      .read (c :: cs) (lex.m_pos + (blanks.length + (c :: cs).length)) false := by
    simp only [_sqllexRead, text, List.cons_append, taken, dropped, single, double, or_self, if_false,
      inside c List.mem_cons_self, if_true, run, Nat.add_assoc]
  have next := nexts_read going (by rw [text]; simp) reads
  rw [if_neg (List.cons_ne_nil _ _), text, ← List.append_assoc,
    List.drop_left' (by simp)] at next
  exact next

/-- A string in quotes; an empty one leaves no lexeme. -/
theorem nexts_string {q : UInt8} {content : Bytes} (going : lex.m_token ≠ .eof)
    (blank : ∀ b ∈ blanks, isBlank b = true) (quote : q = 39 ∨ q = 34) (free : q ∉ content)
    (text : lex.rest = blanks ++ q :: (content ++ q :: tail)) :
    if content = [] then lex.Nexts false .strlit none tail
    else lex.Nexts true .strlit (some (stringNew (cstr content))) tail := by
  have seen : isBlank q = false := by rcases quote with rfl | rfl <;> decide
  obtain ⟨taken, dropped⟩ := skip_blanks (content ++ q :: tail) blank seen
  have run : (content ++ q :: tail).takeWhile (· ≠ q) = content := by
    rw [List.takeWhile_append_of_pos fun c mem => by
      simpa using fun same : c = q => free (same ▸ mem)]
    simp
  have closed : ¬ content.length = (content ++ q :: tail).length := by simp
  have reads : lex._sqllexRead =
      .read content (lex.m_pos + (blanks.length + (content.length + 2))) true := by
    simp only [_sqllexRead, text, taken, dropped, quote, if_true, run, if_neg closed]
    congr 1
    omega
  have next := nexts_read going (by rw [text]; simp) reads
  have left : (blanks ++ q :: (content ++ q :: tail)).drop (blanks.length + (content.length + 2)) =
      tail := by
    have split' : blanks ++ q :: (content ++ q :: tail) = (blanks ++ q :: (content ++ [q])) ++ tail := by
      simp
    rw [split', List.drop_left' (by simp)]
  rw [text, left] at next
  exact next

/-- Punctuation, with all that the loop takes. -/
theorem nexts_punct {c : UInt8} {more : Bytes} (going : lex.m_token ≠ .eof)
    (blank : ∀ b ∈ blanks, isBlank b = true) (punct : ispunct c = true) (single : c ≠ 39)
    (double : c ≠ 34) (other : wordCh c = false) (text : lex.rest = blanks ++ c :: more) :
    lex.Nexts true (sqlToken (stringNew (cstr (punctRun (c :: more)))))
      (some (stringNew (cstr (punctRun (c :: more)))))
      ((c :: more).drop (punctRun (c :: more)).length) := by
  have seen : isBlank c = false := by simp [isBlank, punct]
  obtain ⟨taken, dropped⟩ := skip_blanks more blank seen
  have reads : lex._sqllexRead = .read (punctRun (c :: more))
      (lex.m_pos + (blanks.length + (punctRun (c :: more)).length)) false := by
    simp only [_sqllexRead, text, taken, dropped, single, double, or_self, if_false, other,
      Bool.false_eq_true, Nat.add_assoc]
  have some : punctRun (c :: more) ≠ [] := by simp [punctRun, punct]
  have next := nexts_read going (by rw [text]; simp) reads
  rw [if_neg some, text, ← List.drop_drop, List.drop_left] at next
  exact next

/-! ## Where strings are copied exactly -/

/-- A word is its own lexeme. -/
theorem nexts_word_exact (exact : Copying.Exact) (word tail : Bytes) (going : lex.m_token ≠ .eof)
    (blank : ∀ b ∈ blanks, isBlank b = true) (some : word ≠ []) (inside : ∀ c ∈ word, wordCh c = true)
    (outside : ∀ c ∈ tail.head?, wordCh c = false) (text : lex.rest = blanks ++ (word ++ tail)) :
    lex.Nexts true (sqlToken (stringTakeOwnership word)) (.some (stringTakeOwnership word)) tail := by
  have whole : cstr word = word := cstr_whole fun mem => absurd (inside 0 mem) (by decide)
  have next := nexts_word going blank some inside outside text
  rw [whole, stringNew_exact exact] at next
  exact next

/-- The first token, by the text. -/
theorem sqllexNew_nexts (exact : Copying.Exact) {sql : Str} {ok : Bool} {token : SqlToken}
    {lexum : Option Str} {left : Bytes}
    (next : ∀ lex : Sqllex, lex.m_token ≠ .eof → lex.rest = sql.m_cstr → lex.Nexts ok token lexum left) :
    ∃ lex, sqllexNew sql = some lex ∧ lex.m_token = token ∧ lex.m_lexum = lexum ∧ lex.rest = left := by
  let start : Sqllex := { m_token := .bof, m_lexum := none, m_pos := 0, m_text := stringDup sql }
  have whole : start.rest = sql.m_cstr := by
    show ((stringDup sql).array.take (stringDup sql).m_len).drop 0 = _
    rw [stringDup, stringNew_exact exact]
    simp [Str.array, stringTakeOwnership]
  obtain ⟨lex, reads, is⟩ := next start (by simp [start]) whole
  refine ⟨lex, ?_, is⟩
  show start.sqllexNext.map (·.2) = _
  rw [reads]
  rfl

end Sqllex

end Jspp.Splc
