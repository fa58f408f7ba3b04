/-
# Sql.Tokenizer -- the tokens of a stored procedure

The tokenizer of sqlparser.c, which works on the text of one CREATE PROCEDURE
statement.  A `Cursor` is what a call reads and changes: the position, the line,
the token and its text `lexum`; at the end of the text the last `lexum` stays.

The text is a C string: reading at its length yields its NUL.
-/
import Jspp.Splc.Text

namespace Jspp.Sql

open Jspp.Splc (Bytes lit isdigit isalnum toupper)

set_option autoImplicit false

inductive Sqltoken where
  | eos | create | proc | as | var | id | dot | select | from | splat | lpar | rpar | strlit | eq
  | semi | comma | int | smallint | bigint | char | num | where | and | inner | join | right | left
  | on | or | insert | into | values | update | set | order | by | desc | asc | in | func | delete
  | group | having | gt | lt | gteq | lteq | neq | like | is | null | not | union | case | when
  | then | else | end | distinct
  deriving DecidableEq, Repr

structure Cursor where
  pos : Nat
  lineno : Nat
  token : Sqltoken
  lexum : Bytes
  /-- Where the current token begins, behind the blanks. -/
  start : Nat
  deriving DecidableEq, Repr

/-- `iswspace` and `isspace`. -/
def iswspace (c : UInt8) : Bool := c == 32 || (9 ≤ c && c ≤ 13)

/-- `src->cstr[ pos ]`. -/
def charAt (src : Bytes) (pos : Nat) : UInt8 := src.getD pos 0

/-- The characters from `pos` on that a loop over `p` takes. -/
def run (p : UInt8 → Bool) (src : Bytes) (pos : Nat) : Bytes := (src.drop pos).takeWhile p

def skipws (src : Bytes) (c : Cursor) : Cursor :=
  let blanks := run iswspace src c.pos
  { c with pos := c.pos + blanks.length, lineno := c.lineno + blanks.count 10 }

/-- `scanstr`: a string ends in its line. -/
def scanstr (src : Bytes) (c : Cursor) : Bool × Cursor :=
  let text := run (fun ch => ch != 39 && ch != 10) src c.pos
  let c := { c with pos := c.pos + text.length, lexum := c.lexum ++ text }
  if charAt src c.pos = 39 then (true, { c with pos := c.pos + 1 }) else (false, c)

def scantows (src : Bytes) (c : Cursor) : Cursor :=
  let text := run (fun ch => !iswspace ch && (isalnum ch || ch == 95)) src c.pos
  { c with pos := c.pos + text.length, lexum := c.lexum ++ text }

/-- The words of the cascade over `ll`, in its order. -/
def keywords : List (String × Sqltoken) :=
  [("SELECT", .select), ("FROM", .from), ("AS", .as), ("CREATE", .create), ("PROCEDURE", .proc),
   ("INT", .int), ("SMALLINT", .smallint), ("BIGINT", .bigint), ("CHAR", .char),
   ("WHERE", .where), ("AND", .and), ("OR", .or), ("INNER", .inner), ("JOIN", .join),
   ("LEFT", .left), ("RIGHT", .right), ("ON", .on), ("INSERT", .insert), ("INTO", .into),
   ("VALUES", .values), ("UPDATE", .update), ("SET", .set), ("ORDER", .order), ("BY", .by),
   ("DESC", .desc), ("ASC", .asc), ("IN", .in), ("DELETE", .delete), ("GROUP", .group),
   ("HAVING", .having), ("LIKE", .like), ("IS", .is), ("NULL", .null), ("NOT", .not),
   ("UNION", .union), ("CASE", .case), ("WHEN", .when), ("THEN", .then), ("ELSE", .else),
   ("END", .end), ("DISTINCT", .distinct)]

def keyword (ll : Bytes) : Option Sqltoken :=
  (keywords.find? fun entry => ll == lit entry.1).map (·.2)

/-- The `default` case: a word, whatever its first character is. -/
def scanword (src : Bytes) (c : Cursor) : Cursor :=
  let c := scantows src c
  let ll := c.lexum.map toupper
  match keyword ll with
  | some token => { c with token := token }
  | none =>
      if ll.headD 0 = 64 then { c with token := .var }
      else if ll = [61] then { c with token := .eq }
      else
        let c := skipws src c
        { c with token := if charAt src c.pos = 40 then .func else .id }

/-- The cases of `<`: the second `if` has no `else` in front of it. -/
def scanLt (src : Bytes) (c : Cursor) : Cursor :=
  let c := if charAt src c.pos = 61 then { c with pos := c.pos + 1, token := .lteq } else c
  if charAt src c.pos = 62 then { c with pos := c.pos + 1, token := .neq }
  else { c with token := .lt }

def scanGt (src : Bytes) (c : Cursor) : Cursor :=
  if charAt src c.pos = 61 then { c with pos := c.pos + 1, token := .gteq }
  else { c with token := .gt }

/-- The `switch` on the first character, which is taken. -/
def scanSymbol (src : Bytes) (ch : UInt8) (c : Cursor) : Bool × Cursor :=
  if ch = 39 then scanstr src { c with token := .strlit, lexum := [] }
  else if ch = 40 then (true, { c with token := .lpar })
  else if ch = 41 then (true, { c with token := .rpar })
  else if ch = 46 then (true, { c with token := .dot })
  else if ch = 62 then (true, scanGt src c)
  else if ch = 60 then (true, scanLt src c)
  else if ch = 42 then (true, { c with token := .splat })
  else if ch = 44 then (true, { c with token := .comma })
  else if ch = 59 then (true, { c with token := .semi })
  else if ch = 61 ∧ iswspace (charAt src c.pos) = true then (true, { c with token := .eq })
  else (true, scanword src c)

/-- A number: its sign or first digit, and the digits behind it. -/
def scannum (src : Bytes) (c : Cursor) : Cursor :=
  let digits := run isdigit src c.pos
  { c with pos := c.pos + digits.length, lexum := c.lexum ++ digits, token := .num }

def sqltokenizer (src : Bytes) (c : Cursor) : Bool × Cursor :=
  let c := skipws src c
  let c := { c with start := c.pos }
  if src.length ≤ c.pos then (true, { c with token := .eos })
  else
    let ch := charAt src c.pos
    let c := { c with pos := c.pos + 1, lexum := [ch] }
    if isdigit ch = true ∨ ch = 45 then (true, scannum src c) else scanSymbol src ch c

/-! ## Every call moves on -/

theorem skipws_pos (src : Bytes) (c : Cursor) : c.pos ≤ (skipws src c).pos :=
  Nat.le_add_right _ _

theorem run_inside (p : UInt8 → Bool) {src : Bytes} {pos : Nat} (inside : pos ≤ src.length) :
    pos + (run p src pos).length ≤ src.length := by
  have short := (List.takeWhile_prefix (l := src.drop pos) p).length_le
  rw [List.length_drop] at short
  show pos + ((src.drop pos).takeWhile p).length ≤ _
  omega

theorem charAt_inside {src : Bytes} {pos : Nat} (some : charAt src pos ≠ 0) : pos < src.length := by
  by_contra outside
  exact some (by simp [charAt, List.getD_eq_getElem?_getD, List.getElem?_eq_none (Nat.le_of_not_lt outside)])

theorem skipws_inside {src : Bytes} {c : Cursor} (inside : c.pos ≤ src.length) :
    (skipws src c).pos ≤ src.length :=
  run_inside _ inside

/-- What the cases of the tokenizer behind the first character leave. -/
structure Scanned (src : Bytes) (c c' : Cursor) : Prop where
  pos : c.pos ≤ c'.pos
  token : c'.token ≠ .eos
  start : c'.start = c.start
  inside : c.pos ≤ src.length → c'.pos ≤ src.length

theorem scannum_scanned (src : Bytes) (c : Cursor) : Scanned src c (scannum src c) where
  pos := Nat.le_add_right _ _
  token := nofun
  start := rfl
  inside := run_inside _

theorem scanstr_scanned (src : Bytes) {c : Cursor} (token : c.token ≠ .eos) :
    Scanned src c (scanstr src c).2 := by
  simp only [scanstr]
  split
  case isTrue quote => exact {
    pos := by show c.pos ≤ c.pos + _ + 1; omega
    token := token
    start := rfl
    inside := fun _ => charAt_inside (by rw [quote]; decide) }
  case isFalse => exact {
    pos := Nat.le_add_right _ _
    token := token
    start := rfl
    inside := run_inside _ }

theorem scanGt_scanned (src : Bytes) (c : Cursor) : Scanned src c (scanGt src c) := by
  unfold scanGt
  split
  case isTrue next => exact ⟨Nat.le_succ _, nofun, rfl, fun _ => charAt_inside (by rw [next]; decide)⟩
  case isFalse => exact ⟨Nat.le_refl _, nofun, rfl, id⟩

theorem scanLt_scanned (src : Bytes) (c : Cursor) : Scanned src c (scanLt src c) := by
  unfold scanLt
  by_cases equal : charAt src c.pos = 61
  · simp only [equal, if_true]
    have one : c.pos + 1 ≤ src.length := charAt_inside (by rw [equal]; decide)
    split
    case isTrue next =>
      exact ⟨by show c.pos ≤ c.pos + 1 + 1; omega, nofun, rfl,
        fun _ => charAt_inside (by rw [next]; decide)⟩
    case isFalse => exact ⟨Nat.le_succ _, nofun, rfl, fun _ => one⟩
  · simp only [equal, if_false]
    split
    case isTrue next =>
      exact ⟨Nat.le_succ _, nofun, rfl, fun _ => charAt_inside (by rw [next]; decide)⟩
    case isFalse => exact ⟨Nat.le_refl _, nofun, rfl, id⟩

theorem keyword_mem {ll : Bytes} {token : Sqltoken} (found : keyword ll = some token) :
    ∃ entry ∈ keywords, entry.2 = token ∧ ll = lit entry.1 := by
  obtain ⟨entry, hit, same⟩ := Option.map_eq_some_iff.mp found
  exact ⟨entry, List.mem_of_find?_eq_some hit, same, by simpa using List.find?_some hit⟩

theorem keywords_ne_eos : ∀ entry ∈ keywords, entry.2 ≠ .eos := by decide

theorem scanword_scanned (src : Bytes) (c : Cursor) : Scanned src c (scanword src c) := by
  have word : c.pos ≤ (scantows src c).pos := Nat.le_add_right _ _
  have inside : c.pos ≤ src.length → (scantows src c).pos ≤ src.length := run_inside _
  simp only [scanword]
  split
  case h_1 token found =>
    obtain ⟨entry, mem, same, -⟩ := keyword_mem found
    exact ⟨word, same ▸ keywords_ne_eos entry mem, rfl, inside⟩
  case h_2 =>
    split
    · exact ⟨word, nofun, rfl, inside⟩
    · split
      · exact ⟨word, nofun, rfl, inside⟩
      · refine ⟨Nat.le_trans word (skipws_pos _ _), ?_, rfl, fun at' => skipws_inside (inside at')⟩
        show (if _ then Sqltoken.func else .id) ≠ _
        split <;> nofun

/-- What holds of every way to read a symbol or a word. -/
theorem scanSymbol_cases {motive : Bool × Cursor → Prop} {src : Bytes} {ch : UInt8} {c : Cursor}
    (quote : ch = 39 → motive (scanstr src { c with token := .strlit, lexum := [] }))
    (lpar : motive (true, { c with token := .lpar }))
    (rpar : motive (true, { c with token := .rpar }))
    (dot : motive (true, { c with token := .dot }))
    (greater : ch = 62 → motive (true, scanGt src c))
    (less : ch = 60 → motive (true, scanLt src c))
    (splat : motive (true, { c with token := .splat }))
    (comma : motive (true, { c with token := .comma }))
    (semi : motive (true, { c with token := .semi }))
    (equal : ch = 61 → motive (true, { c with token := .eq }))
    (word : motive (true, scanword src c)) : motive (scanSymbol src ch c) :=
  iteInduction quote fun _ => iteInduction (fun _ => lpar) fun _ =>
    iteInduction (fun _ => rpar) fun _ => iteInduction (fun _ => dot) fun _ =>
      iteInduction greater fun _ => iteInduction less fun _ =>
        iteInduction (fun _ => splat) fun _ => iteInduction (fun _ => comma) fun _ =>
          iteInduction (fun _ => semi) fun _ => iteInduction (fun both => equal both.1) fun _ => word

theorem scanSymbol_scanned (src : Bytes) (ch : UInt8) (c : Cursor) :
    Scanned src c (scanSymbol src ch c).2 := by
  have plain : ∀ t, t ≠ .eos → Scanned src c { c with token := t } :=
    fun t ne => ⟨Nat.le_refl _, ne, rfl, id⟩
  refine scanSymbol_cases (motive := fun r => Scanned src c r.2) (fun _ => ?_)
    (plain _ (by decide)) (plain _ (by decide)) (plain _ (by decide))
    (fun _ => scanGt_scanned src c) (fun _ => scanLt_scanned src c) (plain _ (by decide))
    (plain _ (by decide)) (plain _ (by decide)) (fun _ => plain _ (by decide))
    (scanword_scanned src c)
  · have text := scanstr_scanned src (c := { c with token := .strlit, lexum := [] }) nofun
    exact ⟨text.pos, text.token, text.start, text.inside⟩

/-- Behind a call the text is at its end, or the position has moved on. -/
inductive Moved (src : Bytes) (c c' : Cursor) : Prop where
  | eos (token : c'.token = .eos) (end' : src.length ≤ c'.pos) (pos : c.pos ≤ c'.pos)
  | on (token : c'.token ≠ .eos) (pos : c.pos < c'.pos) (more : c.pos < src.length)

theorem sqltokenizer_moved (src : Bytes) (c : Cursor) : Moved src c (sqltokenizer src c).2 := by
  have blanks := skipws_pos src c
  simp only [sqltokenizer]
  split
  case isTrue ended => exact .eos rfl ended blanks
  case isFalse more =>
    have more : (skipws src c).pos < src.length := Nat.lt_of_not_le more
    split
    case isTrue =>
      have scanned := scannum_scanned src
        { skipws src c with
          start := (skipws src c).pos
          pos := (skipws src c).pos + 1
          lexum := [charAt src (skipws src c).pos] }
      exact .on scanned.token (Nat.lt_of_le_of_lt blanks scanned.pos) (by omega)
    case isFalse =>
      have scanned := scanSymbol_scanned src (charAt src (skipws src c).pos)
        { skipws src c with
          start := (skipws src c).pos
          pos := (skipws src c).pos + 1
          lexum := [charAt src (skipws src c).pos] }
      exact .on scanned.token (Nat.lt_of_le_of_lt blanks scanned.pos) (by omega)

theorem sqltokenizer_inside {src : Bytes} {c : Cursor} (inside : c.pos ≤ src.length) :
    (sqltokenizer src c).2.pos ≤ src.length := by
  have blanks := skipws_inside inside
  simp only [sqltokenizer]
  split
  case isTrue => exact blanks
  case isFalse more =>
    have more : (skipws src c).pos + 1 ≤ src.length := Nat.lt_of_not_le more
    split
    case isTrue => exact (scannum_scanned src _).inside more
    case isFalse => exact (scanSymbol_scanned src _ _).inside more

theorem sqltokenizer_start (src : Bytes) (c : Cursor) :
    (sqltokenizer src c).2.start = (skipws src c).pos := by
  simp only [sqltokenizer]
  split
  case isTrue => rfl
  case isFalse =>
    split
    case isTrue => rfl
    case isFalse => exact (scanSymbol_scanned src _ _).start

/-- Only letters are changed, to letters. -/
theorem toupper_symbol {c u : UInt8} (symbol : isalnum u = false) (same : toupper c = u) :
    c = u := by
  unfold toupper at same
  split at same
  case isTrue letter =>
    simp only [Bool.and_eq_true, decide_eq_true_eq, UInt8.le_iff_toNat_le] at letter
    have low : (32 : UInt8) ≤ c := by
      rw [UInt8.le_iff_toNat_le]
      exact Nat.le_trans (by decide) letter.1
    have same := congrArg UInt8.toNat same
    rw [UInt8.toNat_sub_of_le _ _ low] at same
    simp only [isalnum, Bool.or_eq_false_iff, Bool.and_eq_false_iff, decide_eq_false_iff_not,
      UInt8.le_iff_toNat_le] at symbol
    have up := letter
    simp at same up symbol
    omega
  case isFalse => exact same

theorem keyword_ne {ll : Bytes} {token other : Sqltoken} (found : keyword ll = some token)
    (none : ∀ entry ∈ keywords, entry.2 ≠ other) : token ≠ other := by
  obtain ⟨entry, mem, same, -⟩ := keyword_mem found
  exact same ▸ none entry mem

/-- A variable starts with `@`. -/
theorem scanword_var {src : Bytes} {c : Cursor} (var : (scanword src c).token = .var) :
    (scanword src c).lexum = 64 :: (scanword src c).lexum.drop 1 := by
  simp only [scanword] at var ⊢
  split at var
  case h_1 token found => exact absurd var (keyword_ne found (by decide))
  case h_2 found =>
    split at var
    case isTrue first =>
      rw [if_pos first]
      show (scantows src c).lexum = 64 :: (scantows src c).lexum.drop 1
      cases lexum : (scantows src c).lexum with
      | nil => rw [lexum] at first; cases first
      | cons ch rest =>
          rw [lexum] at first
          rw [toupper_symbol (by decide) first]
          rfl
    case isFalse =>
      split at var
      · cases var
      · have token : (if charAt src (skipws src (scantows src c)).pos = 40 then Sqltoken.func
          else .id) = .var := var
        split at token <;> cases token

theorem scanSymbol_var {src : Bytes} {ch : UInt8} {c : Cursor}
    (var : (scanSymbol src ch c).2.token = .var) :
    (scanSymbol src ch c).2.lexum = 64 :: (scanSymbol src ch c).2.lexum.drop 1 := by
  revert var
  refine scanSymbol_cases (motive := fun r => r.2.token = .var → r.2.lexum = 64 :: r.2.lexum.drop 1)
    (fun _ var => ?_) nofun nofun nofun (fun _ var => ?_) (fun _ var => ?_) nofun nofun nofun
    (fun _ => nofun) scanword_var
  · unfold scanstr at var
    dsimp only at var
    split at var <;> cases var
  · unfold scanGt at var
    dsimp only at var
    split at var <;> cases var
  · unfold scanLt at var
    dsimp only at var
    split at var <;> split at var <;> cases var

theorem sqltokenizer_var {src : Bytes} {c : Cursor} (var : (sqltokenizer src c).2.token = .var) :
    (sqltokenizer src c).2.lexum = 64 :: (sqltokenizer src c).2.lexum.drop 1 := by
  revert var
  simp only [sqltokenizer]
  split
  case isTrue =>
    intro var
    cases var
  case isFalse =>
    split
    case isTrue =>
      intro var
      cases var
    case isFalse => exact scanSymbol_var

end Jspp.Sql
