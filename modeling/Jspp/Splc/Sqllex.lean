/-
# Splc.Sqllex -- the tokens of an SQL text

The lexer of the server, and the two parsers the server runs itself: the EXEC
statement and the head of CREATE PROCEDURE.  `none` stands for a step C leaves
undefined: a NULL lexeme read, or a string literal that runs off its text.

The lexeme of a token is a `stringNew` copy and lacks the last character of the
token, so no word of the text is recognised as itself (`lexum_of_word`): `EXEC`
in the text becomes the lexeme `EXE`, an identifier.

* `sqllexNew`, `sqllexNext`, `sqllexMatch`, `sqllexMatchToken`.
* `requestNewFromExecSql`, `sqlprocNew`.
* `requestNewFromExecSql_exec`, `sqlprocNew_create`: what the server sends there
  is always refused.
-/
import Mathlib.Data.List.TakeWhile
import Jspp.Splc.Packet

namespace Jspp.Splc

set_option autoImplicit false

/-- The tokens the server's parsers tell apart; `other` is the rest of sqltoken.h. -/
inductive SqlToken where
  | bof | eof | unknown | strlit | num | id | lpar | rpar | dot | comma
  | create | proc | cursor | exec
  | other
  deriving DecidableEq, Repr

/-- Spellings compared as they are. -/
def operators : List (String × SqlToken) :=
  [("(", .lpar), (")", .rpar), (">", .other), (">=", .other), ("<", .other), ("<=", .other),
   ("<>", .other), ("*", .other), (":", .other), ("?", .other), (";", .other), ("=", .other),
   (".", .dot), (",", .comma)]

/-- Spellings compared ignoring case, in the order of the cascade. -/
def words : List (String × SqlToken) :=
  [("CREATE", .create), ("PROCEDURE", .proc)] ++
  (["SELECT", "FROM", "AS", "INT", "INTEGER", "SMALLINT", "BIGINT", "CHAR", "WHERE", "AND", "OR",
    "INNER", "JOIN", "LEFT", "RIGHT", "ON", "INSERT", "INTO", "VALUES", "UPDATE", "SET", "ORDER",
    "BY", "DESC", "ASC", "IN", "DELETE", "GROUP", "HAVING", "LIKE", "IS", "NULL", "NOT", "UNION",
    "CASE", "WHEN", "THEN", "ELSE", "END", "DISTINCT", "BEGIN", "TRANSACTION", "COMMIT", "ABORT",
    "INVOKE", "ALTER", "DECLARE", "SECTION", "INCLUDE"].map fun word => (word, .other)) ++
  [("CURSOR", .cursor)] ++
  (["FOR", "OPEN", "FETCH", "BETWEEN", "CLOSE", "DATETIME", "FREE", "ROLLBACK", "CONTROL", "CAST",
    "EXISTS", "BROWSE", "STABLE", "INTERVAL", "SUBSTRING", "DATEFORMAT", "POSITION",
    "TRIM"].map fun word => (word, .other)) ++
  [("EXEC", .exec), ("EXECUTE", .exec)]

structure Sqllex where
  m_token : SqlToken
  m_lexum : Option Str
  m_pos : Nat
  m_text : Str

/-- The first `m_len` characters of the array of a string. -/
def Str.array (s : Str) : Bytes := s.m_cstr ++ List.replicate (s.m_len - s.m_cstr.length) 0

def stringIsInt (str : Str) : Bool := (str.array.take str.m_len).all isdigit

/-- Digits with at most one dot. -/
def floatText : Bool → Bytes → Bool
  | _, [] => true
  | dot, c :: rest =>
      if isdigit c then floatText dot rest
      else if c = 46 ∧ dot = false then floatText true rest
      else false

def stringIsFloat (str : Str) : Bool := floatText false (str.array.take str.m_len)

def stringIsNumeric (str : Str) : Bool := stringIsInt str || stringIsFloat str

/-- The token of a lexeme, as the `if` cascade of `sqllexNext` finds it. -/
def sqlToken (lexum : Str) : SqlToken :=
  match operators.find? fun entry => stringIsEqual lexum (lit entry.1) false with
  | some entry => entry.2
  | none =>
      match words.find? fun entry => stringIsEqual lexum (lit entry.1) true with
      | some entry => entry.2
      | none => if stringIsNumeric lexum then .num else .id

namespace Sqllex

/-- What is left of the text. -/
def rest (lex : Sqllex) : Bytes := (lex.m_text.array.take lex.m_text.m_len).drop lex.m_pos

def wordCh (c : UInt8) : Bool := isalnum c || c == 95

/-- The loop excess punctuation: it stops in front of a closing parenthesis. -/
def punctRun : Bytes → Bytes
  | [] => []
  | c :: rest =>
      if ispunct c then
        c :: (match rest with
          | [] => []
          | next :: _ => if next = 41 then [] else punctRun rest)
      else []

/-- What a call of `_sqllexRead` finds: the buffer, the position, and whether it was a literal. -/
inductive Reading where
  | read (buf : Bytes) (pos : Nat) (literal : Bool)
  | runsOff

def _sqllexRead (lex : Sqllex) : Reading :=
  let blank := lex.rest.takeWhile fun c => !(isalnum c || ispunct c)
  let pos := lex.m_pos + blank.length
  match lex.rest.dropWhile fun c => !(isalnum c || ispunct c) with
  | [] => .read [] pos false
  | c :: more =>
      if c = 39 ∨ c = 34 then
        let text := more.takeWhile (· ≠ c)
        if text.length = more.length then .runsOff
        else .read text (pos + 1 + text.length + 1) true
      else if wordCh c then
        let text := (c :: more).takeWhile wordCh
        .read text (pos + text.length) false
      else
        let text := punctRun (c :: more)
        .read text (pos + text.length) false

variable [Copying]

/-- `sqllexNext`, with its result. -/
def sqllexNext (lex : Sqllex) : Option (Bool × Sqllex) :=
  if lex.m_token = .eof then some (false, lex)
  else if lex.m_text.m_len ≤ lex.m_pos then
    some (true, { lex with m_token := .eof, m_lexum := none })
  else
    match lex._sqllexRead with
    | .runsOff => none
    | .read buf pos literal =>
        -- the lexeme was deleted before; an empty buffer leaves it NULL
        if buf = [] then
          some (false, { lex with
            m_token := if literal then .strlit else .unknown, m_lexum := none, m_pos := pos })
        else
          let lexum := Packet.stringbufferToString buf
          some (true, { lex with
            m_token := if literal then .strlit else sqlToken lexum
            m_lexum := some lexum
            m_pos := pos })

def sqllexNew (sql : Str) : Option Sqllex :=
  (sqllexNext { m_token := .bof, m_lexum := none, m_pos := 0, m_text := stringDup sql }).map (·.2)

def sqllexMatchToken (lex : Sqllex) (tok : SqlToken) : Option (Bool × Sqllex) :=
  if lex.m_token = tok then lex.sqllexNext else some (false, lex)

/-- `stringIsEqual` on the lexeme, which must not be NULL. -/
def lexumIs (lex : Sqllex) (cp : Bytes) : Option Bool :=
  lex.m_lexum.map fun lexum => stringIsEqual lexum cp true

def sqllexMatch (lex : Sqllex) (cp : Bytes) : Option (Bool × Sqllex) := do
  if ← lex.lexumIs cp then lex.sqllexNext else some (false, lex)

end Sqllex

/-! ## EXEC -/

open Sqllex

/-- `atoi`, up to its first character that is no digit. -/
def atoiText (text : Bytes) : Int :=
  Int.bmod ((text.takeWhile isdigit).foldl (fun n c => n * 10 + (c.toNat - 48)) 0 : Nat) (2 ^ 32)

section Exec

variable [Copying]

/-- The argument loop of `requestNewFromExecSql`; each round moves on in the text. -/
def execItems : Nat → List RequestItem → Sqllex → Option (Option (List RequestItem))
  | 0, items, _ => some (some items)
  | n + 1, items, lex =>
      if lex.m_token = .eof then some (some items)
      else do
        let (ok, lex) ← if lex.m_token = .comma then lex.sqllexNext else some (true, lex)
        if ok = false then some none
        else
          let data : Option (Option Value) :=
            if lex.m_token = .strlit then
              lex.m_lexum.map fun lexum => some (.str (stringNew lexum.m_cstr))
            else if lex.m_token = .num then
              lex.m_lexum.map fun lexum =>
                if stringIsFloat lexum then some (.real lexum.m_cstr)
                else some (.int (atoiText lexum.m_cstr))
            else some none
          match ← data with
          | none => some none
          | some data =>
              let (_, lex) ← lex.sqllexNext
              execItems n ({ m_name := none, m_data := data } :: items) lex

/-- `requestNewFromExecSql`: NULL is an inner `none`.  The user id is NULL there,
to be set by the caller, and so is the password. -/
def requestNewFromExecSql (sql : Str) : Option (Option Request) := do
  let lex ← sqllexNew sql
  let (ok, lex) ← lex.sqllexMatchToken .exec
  if ok = false then some none
  else
    let name ← lex.m_lexum.map stringDup
    let (ok, lex) ← lex.sqllexMatchToken .id
    if ok = false then some none
    else
      let named : Option (Option (Str × Sqllex)) :=
        if lex.m_token = .dot then do
          let dotted := stringCat name (lit ".") 1
          let (_, lex) ← lex.sqllexMatchToken .dot
          let lexum ← lex.m_lexum
          let name := stringCat dotted lexum.m_cstr lexum.m_len
          let (ok, lex) ← lex.sqllexMatchToken .id
          if ok = false then some none else some (some (name, lex))
        else some (some (name, lex))
      match ← named with
      | none => some none
      | some (name, lex) =>
          match ← execItems (sql.m_len + 1) [] lex with
          | none => some none
          | some items =>
              some (some {
                m_name := name
                m_transid := 0
                m_userId := stringNew []
                m_password := stringNew []
                m_items := items
                m_itemCount := items.length
                m_bytes := 0 })

end Exec

/-! ## CREATE PROCEDURE -/

/-- What the server itself uses of a parsed procedure. -/
structure Sqlproc where
  m_name : Str
  m_text : Str
  deriving DecidableEq, Repr

/-- The loop of `_sqlprocScanForBody`. -/
def scanForBody : Bool → Nat → Bytes → Option Nat
  | _, _, [] => none
  | lastWasNum, x, c :: rest =>
      if c = 41 ∧ lastWasNum = false then some (x + 1) else scanForBody (isdigit c) (x + 1) rest

section Create

variable [Copying]

def _sqlprocScanForBody (text : Str) : Option Nat :=
  scanForBody false 0 (text.array.take text.m_len)

/-- `_sqlprocParseParameters` up to the opening parenthesis: the name, and the lexer there. -/
def sqlprocHead (head : Str) : Option (Option (Str × Sqllex)) := do
  let lex ← sqllexNew head
  if lex.m_token ≠ .create then some none
  else
    let (ok, lex) ← lex.sqllexNext
    if ok = false then some none
    else if lex.m_token ≠ .proc ∧ lex.m_token ≠ .cursor then some none
    else
      let (ok, lex) ← lex.sqllexNext
      if ok = false ∨ lex.m_token ≠ .id then some none
      else
        let name ← lex.m_lexum.map stringDup
        let (ok, lex) ← lex.sqllexNext
        if ok = false ∨ lex.m_token ≠ .lpar then some none
        else some (some (name, lex))

/-- `sqlprocNew`; `parse` says whether the parameter list and the body are accepted. -/
def sqlprocNew (parse : Sqllex → Str → Option Bool) (sql : Str) : Option (Option Sqlproc) :=
  let text := stringDup sql
  match _sqlprocScanForBody text with
  | none => some none
  | some pos => do
      match ← sqlprocHead (stringSubstring text 0 (pos + 1)) with
      | none => some none
      | some (name, lex) =>
          if ← parse lex (stringSubstringFrom text (pos + 1)) then
            some (some { m_name := name, m_text := text })
          else some none

end Create

/-! ## Words of the text lose their last letter -/

theorem toNat_toupper (c : UInt8) :
    (toupper c).toNat = if 97 ≤ c.toNat ∧ c.toNat ≤ 122 then c.toNat - 32 else c.toNat := by
  have low : UInt8.toNat 97 = 97 := rfl
  have high : UInt8.toNat 122 = 122 := rfl
  simp only [toupper, Bool.and_eq_true, decide_eq_true_eq, UInt8.le_iff_toNat_le, low, high]
  split
  case isTrue h =>
    have big : (32 : UInt8) ≤ c := by
      rw [UInt8.le_iff_toNat_le]
      exact Nat.le_trans (by decide) h.1
    rw [UInt8.toNat_sub_of_le _ _ big]
    rfl
  case isFalse => rfl

/-- A character that is a letter up to its case is one. -/
theorem isalnum_of_same {c k : UInt8} (letter : 65 ≤ k.toNat ∧ k.toNat ≤ 90)
    (same : sameCh true c k = true) : isalnum c = true := by
  have upper : (toupper c).toNat = (toupper k).toNat :=
    congrArg UInt8.toNat (by simpa [sameCh] using same)
  have kept : (toupper k).toNat = k.toNat := by rw [toNat_toupper, if_neg (by omega)]
  rw [toNat_toupper, kept] at upper
  simp only [isalnum, isdigit, Bool.or_eq_true, Bool.and_eq_true, decide_eq_true_eq,
    UInt8.le_iff_toNat_le]
  split at upper
  · right
    simpa using ‹_›
  · left
    right
    simp
    omega

theorem eq_blank_of_same {c : UInt8} (same : sameCh true c 32 = true) : c = 32 := by
  have same : toupper c = toupper 32 := by simpa [sameCh] using same
  have upper : (toupper c).toNat = 32 := congrArg UInt8.toNat same
  rw [toNat_toupper] at upper
  apply UInt8.toNat_inj.mp
  split at upper
  · omega
  · exact upper

/-- A text that starts with a word of capitals and a blank, up to case. -/
theorem startsText_word {text word : Bytes} (capitals : ∀ k ∈ word, 65 ≤ k.toNat ∧ k.toNat ≤ 90)
    (starts : startsText true text (word ++ [32]) = true) :
    ∃ front tail, text = front ++ 32 :: tail ∧ front.length = word.length ∧
      ∀ c ∈ front, isalnum c = true := by
  induction word generalizing text with
  | nil =>
      cases text with
      | nil => simp [startsText] at starts
      | cons c text =>
          simp only [List.nil_append, startsText, Bool.and_eq_true] at starts
          exact ⟨[], text, by rw [eq_blank_of_same starts.1]; rfl, rfl, fun _ mem =>
            absurd mem List.not_mem_nil⟩
  | cons k word ih =>
      cases text with
      | nil => simp [startsText] at starts
      | cons c text =>
          simp only [List.cons_append, startsText, Bool.and_eq_true] at starts
          obtain ⟨front, tail, rfl, size, letters⟩ :=
            ih (fun k' mem => capitals k' (List.mem_cons_of_mem _ mem)) starts.2
          refine ⟨c :: front, tail, rfl, by simp [size], ?_⟩
          intro c' mem
          rcases List.mem_cons.mp mem with rfl | mem
          · exact isalnum_of_same (capitals k List.mem_cons_self) starts.1
          · exact letters c' mem

theorem isalnum_ne_zero {c : UInt8} (letter : isalnum c = true) : c ≠ 0 := by
  rintro rfl
  exact absurd letter (by decide)

theorem cstr_of_letters {word : Bytes} (letters : ∀ c ∈ word, isalnum c = true) : cstr word = word :=
  List.takeWhile_eq_self_iff.mpr fun c mem => by simpa using isalnum_ne_zero (letters c mem)

/-- The first token of a text that starts with a word is read from the word cut short. -/
theorem lexum_of_word {sql : Str} {word tail : Bytes} (some : word ≠ [])
    (letters : ∀ c ∈ word, isalnum c = true) (text : sql.m_cstr = word ++ 32 :: tail) :
    ∃ lex, sqllexNew sql = .some lex ∧ lex.m_token = sqlToken (stringNew word) ∧
      lex.m_lexum = .some (stringNew word) := by
  let start : Sqllex := { m_token := .bof, m_lexum := none, m_pos := 0, m_text := stringDup sql }
  -- behind the word comes the blank, or the NUL where the copy cut it off
  obtain ⟨y, ys, rest, outside⟩ : ∃ y ys, start.rest = word ++ y :: ys ∧ wordCh y = false := by
    have cut : (stringDup sql).m_cstr = word ++ (32 :: tail).dropLast := by
      rw [stringDup, stringNew_cstr, text, List.dropLast_append_of_ne_nil (List.cons_ne_nil _ _)]
    have len : (stringDup sql).m_len = word.length + (tail.length + 1) := by
      rw [stringDup, stringNew_len, text, List.length_append, List.length_cons]
    have excess : word.length + (tail.length + 1) - (word ++ (32 :: tail).dropLast).length = 1 := by
      rw [List.length_append, List.length_dropLast, List.length_cons]
      omega
    have whole : start.rest = word ++ ((32 :: tail).dropLast ++ [0]) := by
      show ((stringDup sql).array.take (stringDup sql).m_len).drop 0 = _
      rw [Str.array, cut, len, excess, List.drop_zero, List.take_of_length_le, List.append_assoc]
      · rfl
      · simp only [List.length_append, List.length_dropLast, List.length_cons, List.length_replicate]
        omega
    cases tail with
    | nil => exact ⟨0, [], whole, rfl⟩
    | cons t tail => exact ⟨32, (t :: tail).dropLast ++ [0], by rw [whole]; rfl, rfl⟩
  obtain ⟨c, cs, rfl⟩ := List.exists_cons_of_ne_nil some
  have first := letters c List.mem_cons_self
  have noBlank : start.rest.takeWhile (fun c => !(isalnum c || ispunct c)) = [] := by
    rw [rest]
    simp [first]
  have whole : start.rest.dropWhile (fun c => !(isalnum c || ispunct c)) = (c :: cs) ++ y :: ys := by
    rw [rest]
    simp [first]
  have quotes : ¬ (c = 39 ∨ c = 34) := by
    rintro (rfl | rfl) <;> exact absurd first (by decide)
  have wordy : ∀ c' ∈ c :: cs, wordCh c' = true := fun c' mem => by simp [wordCh, letters c' mem]
  have run : ((c :: cs) ++ y :: ys).takeWhile wordCh = c :: cs := by
    rw [List.takeWhile_append_of_pos wordy]
    simp [outside]
  have read : start._sqllexRead = .read (c :: cs) (c :: cs).length false := by
    unfold _sqllexRead
    rw [whole, noBlank]
    simp only [List.cons_append, quotes, if_false, wordy c List.mem_cons_self, if_true]
    rw [← List.cons_append, run]
    simp [start]
  have more : ¬ start.m_text.m_len ≤ start.m_pos := by
    intro excess
    have : start.rest = [] := by
      have size := List.length_take_le start.m_text.m_len start.m_text.array
      exact List.drop_eq_nil_of_le (by omega)
    rw [rest] at this
    exact absurd this (by simp)
  have lexum : Packet.stringbufferToString (c :: cs) = stringNew (c :: cs) := by
    rw [Packet.stringbufferToString, cstr_of_letters letters]
  refine ⟨{ start with
    m_token := sqlToken (stringNew (c :: cs))
    m_lexum := .some (stringNew (c :: cs))
    m_pos := (c :: cs).length }, ?_, rfl, rfl⟩
  show (start.sqllexNext).map (·.2) = _
  rw [sqllexNext, if_neg (show SqlToken.bof ≠ .eof by decide), if_neg more, read]
  simp only [List.cons_ne_nil, if_false, lexum, Bool.false_eq_true, Option.map_some]

theorem sqlToken_mem {lexum : Str} {token : SqlToken} (same : sqlToken lexum = token)
    (num : token ≠ .num) (id : token ≠ .id) :
    ∃ entry ∈ operators ++ words, entry.2 = token ∧
      lexum.m_cstr.length = (lit entry.1).length := by
  unfold sqlToken at same
  split at same
  case h_1 entry found =>
    have hit := List.find?_some found
    exact ⟨entry, List.mem_append_left _ (List.mem_of_find?_eq_some found), same, sameText_length hit⟩
  case h_2 =>
    split at same
    case h_1 entry found =>
      have hit := List.find?_some found
      exact ⟨entry, List.mem_append_right _ (List.mem_of_find?_eq_some found), same,
        sameText_length hit⟩
    case h_2 =>
      split at same
      · exact absurd same.symm num
      · exact absurd same.symm id

theorem sqlToken_ne_exec {lexum : Str} (size : lexum.m_cstr.length = 3) : sqlToken lexum ≠ .exec := by
  intro same
  obtain ⟨entry, mem, token, length⟩ := sqlToken_mem same (by decide) (by decide)
  have lengths : ∀ entry ∈ operators ++ words, entry.2 = .exec → (lit entry.1).length ≠ 3 := by decide
  exact lengths entry mem token (by rw [← length, size])

theorem sqlToken_ne_create {lexum : Str} (size : lexum.m_cstr.length = 5) :
    sqlToken lexum ≠ .create := by
  intro same
  obtain ⟨entry, mem, token, length⟩ := sqlToken_mem same (by decide) (by decide)
  have lengths : ∀ entry ∈ operators ++ words, entry.2 = .create → (lit entry.1).length ≠ 5 := by
    decide
  exact lengths entry mem token (by rw [← length, size])

/-- Every text the server takes for an EXEC statement is refused. -/
theorem requestNewFromExecSql_exec {sql : Str}
    (starts : stringStartsWith sql (lit "EXEC ") true = true) :
    requestNewFromExecSql sql = some none := by
  have starts : startsText true sql.m_cstr ([69, 88, 69, 67] ++ [32]) = true := by
    unfold stringStartsWith at starts
    split at starts
    · cases starts
    · exact starts
  obtain ⟨word, tail, text, size, letters⟩ := startsText_word (by simp) starts
  obtain ⟨lex, new, token, -⟩ :=
    lexum_of_word (List.ne_nil_of_length_pos (by rw [size]; decide)) letters text
  have wrong : lex.m_token ≠ .exec := by
    rw [token]
    exact sqlToken_ne_exec (by rw [stringNew_cstr, List.length_dropLast, size]; rfl)
  simp [requestNewFromExecSql, new, sqllexMatchToken, wrong]

theorem scanForBody_spec {lastWasNum : Bool} {x pos : Nat} {text : Bytes}
    (found : scanForBody lastWasNum x text = some pos) :
    ∃ front tail, text = front ++ 41 :: tail ∧ pos = x + front.length + 1 := by
  induction text generalizing lastWasNum x with
  | nil => cases found
  | cons c text ih =>
      unfold scanForBody at found
      split at found
      case isTrue hit =>
        rw [hit.1]
        exact ⟨[], text, rfl, by simpa using (Option.some.inj found).symm⟩
      case isFalse =>
        obtain ⟨front, tail, rfl, same⟩ := ih found
        exact ⟨c :: front, tail, rfl, by rw [same, List.length_cons]; omega⟩

/-- The array of a copy: the text without its last character, and the NUL. -/
theorem array_stringDup {sql : Str} (more : sql.m_cstr ≠ []) :
    (stringDup sql).array.take (stringDup sql).m_len = sql.m_cstr.dropLast ++ [0] := by
  have pos : 0 < sql.m_cstr.length := List.length_pos_iff.mpr more
  have excess : (stringDup sql).m_len - (stringDup sql).m_cstr.length = 1 := by
    rw [stringDup, stringNew_cstr, stringNew_len, List.length_dropLast]
    omega
  rw [Str.array, excess, List.take_of_length_le]
  · rw [stringDup, stringNew_cstr]
    rfl
  · rw [List.length_append, stringDup, stringNew_cstr, stringNew_len, List.length_dropLast]
    simp
    omega

/-- The head of a CREATE text is what stands in front of the parenthesis. -/
theorem head_front {sql : Str} {pos : Nat} (more : sql.m_cstr ≠ [])
    (found : _sqlprocScanForBody (stringDup sql) = some pos) :
    ∃ front behind, sql.m_cstr = front ++ 41 :: behind ∧
      (stringSubstring (stringDup sql) 0 (pos + 1)).m_cstr = front := by
  obtain ⟨front, behind, array, same⟩ := scanForBody_spec found
  rw [array_stringDup more] at array
  -- the NUL at the end is no parenthesis
  obtain ⟨body, whole⟩ : ∃ body, sql.m_cstr.dropLast = front ++ 41 :: body := by
    rcases List.eq_nil_or_concat behind with rfl | ⟨body, last, rfl⟩
    · have := List.append_inj_right' array rfl
      exact absurd this (by decide)
    · rw [List.concat_eq_append, ← List.cons_append, ← List.append_assoc] at array
      exact ⟨body, List.append_inj_left' array rfl⟩
  have room : ¬ 0 + (pos + 1) > (stringDup sql).m_len := by
    have sizes := congrArg List.length whole
    simp only [List.length_dropLast, List.length_append, List.length_cons] at sizes
    show ¬ 0 + (pos + 1) > sql.m_cstr.length
    omega
  refine ⟨front, body ++ [sql.m_cstr.getLast more], ?_, ?_⟩
  · rw [← List.cons_append, ← List.append_assoc, ← whole, List.dropLast_concat_getLast]
  · rw [stringSubstring, if_neg (by omega)]
    simp only [Nat.zero_min, if_neg room, stringNew_cstr, copy_cut, List.drop_zero]
    rw [stringDup, stringNew_cstr, whole, same, Nat.add_sub_cancel]
    rw [show 0 + front.length + 1 = front.length + 1 by omega, List.take_length_add_append]
    simp

/-- What is free of a character stands in front of it. -/
theorem front_of_free {known tail front behind : Bytes} {c : UInt8}
    (whole : known ++ tail = front ++ c :: behind) (free : c ∉ known) :
    ∃ rest, front = known ++ rest := by
  rcases List.append_eq_append_iff.mp whole with ⟨x, rfl, -⟩ | ⟨x, rfl, rest⟩
  · exact ⟨x, rfl⟩
  · cases x with
    | nil => exact ⟨[], by simp⟩
    | cons d x =>
        have same : c = d := (List.cons.inj rest).1
        exact absurd (by simp [same]) free

/-- It still has the first word and the blank behind it. -/
theorem head_of_word {sql : Str} {word tail : Bytes} {pos : Nat}
    (text : sql.m_cstr = word ++ 32 :: tail) (letters : ∀ c ∈ word, isalnum c = true)
    (found : _sqlprocScanForBody (stringDup sql) = some pos) :
    ∃ rest, (stringSubstring (stringDup sql) 0 (pos + 1)).m_cstr = word ++ 32 :: rest := by
  obtain ⟨front, behind, whole, head⟩ := head_front (by rw [text]; simp) found
  have free : 41 ∉ word ++ [32] := by
    intro mem
    rcases List.mem_append.mp mem with mem | mem
    · exact absurd (letters 41 mem) (by decide)
    · exact absurd mem (by decide)
  rw [text, ← List.singleton_append, ← List.append_assoc] at whole
  obtain ⟨rest, rfl⟩ := front_of_free whole free
  exact ⟨rest, by rw [head]; simp⟩

/-- Every text the server takes for a CREATE statement is refused. -/
theorem sqlprocNew_create (parse : Sqllex → Str → Option Bool) {sql : Str}
    (starts : startsText true sql.m_cstr (lit "CREATE ") = true) :
    sqlprocNew parse sql = some none := by
  obtain ⟨word, tail, text, size, letters⟩ :=
    @startsText_word _ [67, 82, 69, 65, 84, 69] (by simp) starts
  have size : word.length = 6 := size
  cases found : _sqlprocScanForBody (stringDup sql) with
  | none => simp only [sqlprocNew, found]
  | some pos =>
    obtain ⟨rest, head⟩ := head_of_word text letters found
    obtain ⟨lex, new, token, -⟩ :=
      lexum_of_word (List.ne_nil_of_length_pos (by rw [size]; decide)) letters head
    have wrong : lex.m_token ≠ .create := by
      rw [token]
      exact sqlToken_ne_create (by rw [stringNew_cstr, List.length_dropLast, size])
    simp [sqlprocNew, found, sqlprocHead, new, wrong]

end Jspp.Splc
