/-
# Sql.Operators -- the operators of the translation and those of the text

An operator of a condition is recognised by the tokenizer and appended again from
its token.  `spelledAt` says, apart from the tokenizer, which operator stands at a
position of the text: the longest symbol, or a whole word.

* `Reads`: what the token at hand says of the text it was read from.
* `Survive`: every operator of the translation is the one spelled at its place, its
  operands are the text's own, and all of them stand in the order of the text.
* `survive_iff`: so it is exactly when no operator is spelled `<=`, for which the
  tokenizer has no token left (`scanLt`).
-/
import Mathlib.Data.List.Basic
import Jspp.Sql.Placeholders

namespace Jspp.Sql

open Jspp.Splc (Bytes lit isdigit isalnum toupper)
open Jspp.Theory
open Jspp.Theory.Attempt (Chain)
open Jspp.Sql.Parser

set_option autoImplicit false

/-- The operators that are words. -/
def operatorWords : List (String × Operator) :=
  [("LIKE", .like), ("IS", .is), ("IN", .in), ("NOT", .not)]

/-- The word at a position. -/
def wordAt (src : Bytes) (start : Nat) : Bytes :=
  (src.drop start).takeWhile fun c => isalnum c || c == 95

/-- The operator spelled at a position: the longest symbol, or a whole word. -/
def spelledAt (src : Bytes) (start : Nat) : Option Operator :=
  let second := charAt src (start + 1)
  if charAt src start = 60 then some (if second = 61 then .le else if second = 62 then .ne else .lt)
  else if charAt src start = 62 then some (if second = 61 then .ge else .gt)
  else if charAt src start = 61 then some .eq
  else (operatorWords.find? fun entry => (wordAt src start).map toupper == lit entry.1).map (·.2)

/-- Where the token of a piece begins. -/
def Piece.start : Piece → Option Nat
  | .text _ => none
  | .word start _ => some start
  | .operator start _ _ => some start
  | .placeholder start _ _ => some start

/-- An operand is what the text has at its place, a string behind its quote. -/
def Piece.Verbatim (src : Bytes) : Piece → Prop
  | .word start lexum => lexum <+: src.drop start ∨ 39 :: lexum <+: src.drop start
  | .placeholder start name _ => 64 :: name <+: src.drop start
  | _ => True

def starts (tsql : List Piece) : List Nat := tsql.filterMap Piece.start

structure Survive (src : Bytes) (tsql : List Piece) : Prop where
  operators : ∀ start op t, Piece.operator start op t ∈ tsql →
    spelledAt src start = some op ∧ t ∈ (spellings op).map lit
  operands : ∀ p ∈ tsql, p.Verbatim src
  order : (starts tsql).Pairwise (· ≤ ·)

/-- No operator of the translation stands where the text has `<=`. -/
def NoLessEqual (src : Bytes) (tsql : List Piece) : Prop :=
  ∀ start op t, Piece.operator start op t ∈ tsql → spelledAt src start ≠ some .le

/-! ## What a token says of the text -/

/-- What the tokenizer leaves of an operator: `<=` has become another one. -/
def Spells (src : Bytes) (start : Nat) (op : Operator) : Prop :=
  op ≠ .le ∧ (spelledAt src start = some op ∨ spelledAt src start = some .le)

structure Reads (src : Bytes) (c : Cursor) : Prop where
  operator : ∀ op, operatorOf c.token = some op → Spells src c.start op
  word : c.token = .id ∨ c.token = .num ∨ c.token = .var → c.lexum <+: src.drop c.start
  quoted : c.token = .strlit → 39 :: c.lexum <+: src.drop c.start
  pos : c.start ≤ c.pos

/-- The cursor behind the first character of a token. -/
structure Taken (src : Bytes) (ch : UInt8) (c : Cursor) : Prop where
  first : charAt src c.start = ch
  rest : src.drop c.start = ch :: src.drop c.pos
  lexum : c.lexum = [ch]
  pos : c.pos = c.start + 1

variable {src : Bytes} {ch : UInt8} {c : Cursor}

theorem Taken.char (taken : Taken src ch c) : charAt src c.pos = charAt src (c.start + 1) := by
  rw [taken.pos]

/-- The first character and a run behind it. -/
theorem Taken.run_prefix (taken : Taken src ch c) (p : UInt8 → Bool) :
    c.lexum ++ run p src c.pos <+: src.drop c.start := by
  rw [taken.rest, taken.lexum]
  exact List.prefix_cons_inj ch |>.mpr (List.takeWhile_prefix p)

/-- A token that no piece is made of. -/
theorem Reads.other (operator : operatorOf c.token = none)
    (word : c.token ≠ .id ∧ c.token ≠ .num ∧ c.token ≠ .var) (quoted : c.token ≠ .strlit)
    (pos : c.start ≤ c.pos) : Reads src c where
  operator op same := by
    rw [operator] at same
    cases same
  word := by
    rintro (id | num | var)
    · exact absurd id word.1
    · exact absurd num word.2.1
    · exact absurd var word.2.2
  quoted same := absurd same quoted
  pos := pos

/-- An operator. -/
theorem Reads.symbol (op : Operator) (operator : operatorOf c.token = some op)
    (spells : Spells src c.start op) (pos : c.start ≤ c.pos) : Reads src c where
  operator op' same := by
    obtain rfl := Option.some.inj (operator.symm.trans same)
    exact spells
  word := by
    rintro (id | num | var)
    · rw [id] at operator; cases operator
    · rw [num] at operator; cases operator
    · rw [var] at operator; cases operator
  quoted strlit := by rw [strlit] at operator; cases operator
  pos := pos

/-- A field, a number or a variable. -/
theorem Reads.literal (token : c.token = .id ∨ c.token = .num ∨ c.token = .var)
    (lexum : c.lexum <+: src.drop c.start) (pos : c.start ≤ c.pos) : Reads src c where
  operator op same := by
    rcases token with token | token | token <;> rw [token] at same <;> cases same
  word _ := lexum
  quoted strlit := by
    rcases token with token | token | token <;> rw [token] at strlit <;> cases strlit
  pos := pos

theorem scannum_reads (taken : Taken src ch c) : Reads src (scannum src c) := by
  refine .literal (.inr (.inl rfl)) (taken.run_prefix isdigit) ?_
  show c.start ≤ c.pos + _
  have := taken.pos
  omega

theorem scanstr_reads (taken : Taken src 39 c) :
    Reads src (scanstr src { c with token := .strlit, lexum := [] }).2 := by
  have quoted : 39 :: run (fun ch => ch != 39 && ch != 10) src c.pos <+: src.drop c.start := by
    rw [taken.rest]
    exact List.prefix_cons_inj 39 |>.mpr (List.takeWhile_prefix _)
  have pos := taken.pos
  have reads (pos' : Nat) (behind : c.start ≤ pos') : Reads src { c with
      pos := pos'
      token := .strlit
      lexum := run (fun ch => ch != 39 && ch != 10) src c.pos } := {
    operator := fun _ same => nomatch same
    word := by rintro (id | num | var) <;> contradiction
    quoted := fun _ => quoted
    pos := behind }
  simp only [scanstr, List.nil_append]
  split
  · exact reads _ (by omega)
  · exact reads _ (by omega)

theorem scanGt_reads (taken : Taken src 62 c) : Reads src (scanGt src c) := by
  have first := taken.first
  have pos := taken.pos
  unfold scanGt
  split
  case isTrue equal =>
    rw [taken.char] at equal
    refine .symbol .ge rfl ⟨nofun, .inl ?_⟩ (by show c.start ≤ c.pos + 1; omega)
    show spelledAt src c.start = _
    simp [spelledAt, first, equal]
  case isFalse other =>
    rw [taken.char] at other
    refine .symbol .gt rfl ⟨nofun, .inl ?_⟩ (by show c.start ≤ c.pos; omega)
    show spelledAt src c.start = _
    simp [spelledAt, first, other]

/-- Behind `<=` the token is that of `<` or of `<>`. -/
theorem scanLt_reads (taken : Taken src 60 c) : Reads src (scanLt src c) := by
  have first := taken.first
  have pos := taken.pos
  unfold scanLt
  by_cases equal : charAt src c.pos = 61
  · simp only [equal, if_true]
    rw [taken.char] at equal
    have spelled : spelledAt src c.start = some .le := by simp [spelledAt, first, equal]
    split
    · exact .symbol .ne rfl ⟨nofun, .inr spelled⟩ (by show c.start ≤ c.pos + 1 + 1; omega)
    · exact .symbol .lt rfl ⟨nofun, .inr spelled⟩ (by show c.start ≤ c.pos + 1; omega)
  · simp only [equal, if_false]
    rw [taken.char] at equal
    split
    case isTrue greater =>
      rw [taken.char] at greater
      refine .symbol .ne rfl ⟨nofun, .inl ?_⟩ (by show c.start ≤ c.pos + 1; omega)
      show spelledAt src c.start = _
      simp [spelledAt, first, greater]
    case isFalse other =>
      rw [taken.char] at other
      refine .symbol .lt rfl ⟨nofun, .inl ?_⟩ (by show c.start ≤ c.pos; omega)
      show spelledAt src c.start = _
      simp [spelledAt, first, equal, other]

/-- The keywords that are operators have their words. -/
theorem keywords_operators : ∀ entry ∈ keywords, ∀ op, operatorOf entry.2 = some op →
    op ≠ .le ∧ (entry.1, op) ∈ operatorWords := by
  decide

theorem keywords_plain : ∀ entry ∈ keywords, entry.2 ≠ .id ∧ entry.2 ≠ .num ∧ entry.2 ≠ .var ∧
    entry.2 ≠ .strlit := by
  decide

theorem isalnum_toupper {ch : UInt8} (letter : isalnum (toupper ch) = true) : isalnum ch = true := by
  unfold toupper at letter
  split at letter
  case isTrue lower => simp only [isalnum, lower, Bool.or_true]
  case isFalse => exact letter

theorem word_char {ch : UInt8} (word : (isalnum ch || ch == 95) = true) : iswspace ch = false := by
  simp only [isalnum, isdigit, iswspace, Bool.or_eq_true, Bool.and_eq_true, decide_eq_true_eq,
    beq_iff_eq, UInt8.le_iff_toNat_le, Bool.or_eq_false_iff, beq_eq_false_iff_ne, ne_eq,
    Bool.and_eq_false_iff, decide_eq_false_iff_not, ← UInt8.toNat_inj] at word ⊢
  simp at word ⊢
  omega

/-- The run of a word, whose characters are no blanks. -/
theorem run_word (src : Bytes) (pos : Nat) :
    run (fun ch => !iswspace ch && (isalnum ch || ch == 95)) src pos = wordAt src pos := by
  have same : (fun ch => !iswspace ch && (isalnum ch || ch == 95)) =
      fun ch => isalnum ch || ch == 95 := by
    funext ch
    cases word : (isalnum ch || ch == 95) with
    | false => simp
    | true => simp [word_char word]
  rw [run, same]
  rfl

/-- The operators that are words begin with a letter. -/
theorem operatorWords_letter : ∀ entry ∈ operatorWords, ∃ first rest,
    lit entry.1 = first :: rest ∧ isalnum first = true := by
  simp [operatorWords, lit]
  decide

theorem isalnum_symbol {ch : UInt8} (letter : isalnum ch = true) : ch ≠ 60 ∧ ch ≠ 62 ∧ ch ≠ 61 := by
  refine ⟨?_, ?_, ?_⟩ <;> rintro rfl <;> revert letter <;> decide

theorem Taken.scantows_lexum (taken : Taken src ch c) :
    (scantows src c).lexum = ch :: wordAt src c.pos := by
  show c.lexum ++ run _ src c.pos = _
  rw [run_word, taken.lexum]
  rfl

/-- A word that is an operator stands at the beginning of its token. -/
theorem Taken.word_operator {entry : String × Sqltoken} {op : Operator} (taken : Taken src ch c)
    (mem : entry ∈ keywords) (operator : operatorOf entry.2 = some op)
    (same : (scantows src c).lexum.map toupper = lit entry.1) : Spells src c.start op := by
  obtain ⟨ne, word⟩ := keywords_operators entry mem op operator
  obtain ⟨first, rest, head, letter⟩ := operatorWords_letter _ word
  rw [taken.scantows_lexum, head] at same
  have letter : isalnum ch = true := isalnum_toupper ((List.cons.inj same).1 ▸ letter)
  obtain ⟨lt, gt, eq⟩ := isalnum_symbol letter
  have whole : wordAt src c.start = ch :: wordAt src c.pos := by
    unfold wordAt
    rw [taken.rest, List.takeWhile_cons_of_pos (by simp [letter])]
  have spelled : (wordAt src c.start).map toupper = lit entry.1 := by rw [whole, same, head]
  refine ⟨ne, .inl ?_⟩
  simp only [spelledAt, taken.first, lt, gt, eq, if_false, spelled]
  revert word
  generalize entry.1 = t
  intro word
  simp only [operatorWords, List.mem_cons, Prod.mk.injEq, List.not_mem_nil, or_false] at word
  rcases word with ⟨rfl, rfl⟩ | ⟨rfl, rfl⟩ | ⟨rfl, rfl⟩ | ⟨rfl, rfl⟩ <;> decide

theorem scanword_reads (taken : Taken src ch c) : Reads src (scanword src c) := by
  have behind : c.start ≤ (scantows src c).pos := by
    have := taken.pos
    show c.start ≤ c.pos + _
    omega
  have lexum : (scantows src c).lexum <+: src.drop c.start := taken.run_prefix _
  simp only [scanword]
  split
  case h_1 token found =>
    obtain ⟨entry, mem, rfl, same⟩ := keyword_mem found
    obtain ⟨id, num, var, strlit⟩ := keywords_plain entry mem
    exact {
      operator := fun op operator => taken.word_operator mem operator same
      word := by rintro (token | token | token) <;> contradiction
      quoted := fun token => absurd token strlit
      pos := behind }
  case h_2 =>
    split
    case isTrue => exact .literal (.inr (.inr rfl)) lexum behind
    case isFalse =>
      split
      case isTrue equal =>
        refine .symbol .eq rfl ⟨by decide, .inl ?_⟩ behind
        rw [taken.scantows_lexum] at equal
        have first : ch = 61 := toupper_symbol (by decide) (List.cons.inj equal).1
        show spelledAt src c.start = _
        simp [spelledAt, taken.first, first]
      case isFalse =>
        have behind : c.start ≤ (skipws src (scantows src c)).pos :=
          Nat.le_trans behind (skipws_pos _ _)
        by_cases call : charAt src (skipws src (scantows src c)).pos = 40
        · simp only [call, if_true]
          refine .other rfl ⟨Sqltoken.noConfusion, Sqltoken.noConfusion, Sqltoken.noConfusion⟩ ?_ behind
          exact Sqltoken.noConfusion
        · simp only [call, if_false]
          exact .literal (.inl rfl) lexum behind

theorem scanSymbol_reads (taken : Taken src ch c) : Reads src (scanSymbol src ch c).2 := by
  have pos : c.start ≤ c.pos := by
    have := taken.pos
    omega
  refine scanSymbol_cases (motive := fun r => Reads src r.2) (fun quote => ?_)
    (.other rfl ⟨nofun, nofun, nofun⟩ nofun pos) (.other rfl ⟨nofun, nofun, nofun⟩ nofun pos)
    (.other rfl ⟨nofun, nofun, nofun⟩ nofun pos) (fun greater => ?_) (fun less => ?_)
    (.other rfl ⟨nofun, nofun, nofun⟩ nofun pos) (.other rfl ⟨nofun, nofun, nofun⟩ nofun pos)
    (.other rfl ⟨nofun, nofun, nofun⟩ nofun pos) (fun equal => ?_) (scanword_reads taken)
  · subst quote
    exact scanstr_reads taken
  · subst greater
    exact scanGt_reads taken
  · subst less
    exact scanLt_reads taken
  · refine .symbol .eq rfl ⟨nofun, .inl ?_⟩ pos
    show spelledAt src c.start = _
    simp [spelledAt, taken.first, equal]

theorem sqltokenizer_reads (src : Bytes) (c : Cursor) : Reads src (sqltokenizer src c).2 := by
  simp only [sqltokenizer]
  split
  case isTrue =>
    refine .other rfl ⟨Sqltoken.noConfusion, Sqltoken.noConfusion, Sqltoken.noConfusion⟩ ?_ (Nat.le_refl _)
    exact Sqltoken.noConfusion
  case isFalse more =>
    have more : (skipws src c).pos < src.length := Nat.lt_of_not_le more
    have taken : Taken src (charAt src (skipws src c).pos) { skipws src c with
        start := (skipws src c).pos
        pos := (skipws src c).pos + 1
        lexum := [charAt src (skipws src c).pos] } := {
      first := rfl
      rest := by
        show src.drop (skipws src c).pos = src.getD _ 0 :: src.drop ((skipws src c).pos + 1)
        rw [List.drop_eq_getElem_cons more, List.getD_eq_getElem?_getD, List.getElem?_eq_getElem more]
        rfl
      lexum := rfl
      pos := rfl }
    split
    case isTrue => exact scannum_reads taken
    case isFalse => exact scanSymbol_reads taken

/-! ## What holds in every state -/

/-- A piece is drawn from the text, but for `<=`. -/
def Piece.Drawn (src : Bytes) (p : Piece) : Prop :=
  p.Verbatim src ∧ ∀ start op t, p = .operator start op t →
    Spells src start op ∧ t ∈ (spellings op).map lit

structure Drawn (src : Bytes) (s : Parse) : Prop where
  cursor : Reads src s.cursor
  var : s.cursor.token = .var → s.cursor.lexum = 64 :: s.cursor.lexum.drop 1
  pieces : ∀ p ∈ s.dp.tsql, p.Drawn src
  order : (starts s.dp.tsql).Pairwise (· ≤ ·)
  behind : ∀ start ∈ starts s.dp.tsql, start ≤ s.cursor.start

variable {G : Given} {s s' : Parse}

theorem Drawn.keep (drawn : Drawn src s) (tsql : s'.dp.tsql = s.dp.tsql)
    (cursor : s'.cursor = s.cursor) : Drawn src s' where
  cursor := by rw [cursor]; exact drawn.cursor
  var := by rw [cursor]; exact drawn.var
  pieces := by rw [tsql]; exact drawn.pieces
  order := by rw [tsql]; exact drawn.order
  behind := by rw [tsql, cursor]; exact drawn.behind

theorem Reads.next_start (reads : Reads G.src s.cursor) :
    s.cursor.start ≤ (s.next G).cursor.start := by
  have on := reads.pos
  have blanks := skipws_pos G.src s.cursor
  show _ ≤ (sqltokenizer G.src s.cursor).2.start
  rw [sqltokenizer_start]
  omega

theorem Drawn.next (drawn : Drawn G.src s) : Drawn G.src (s.next G) where
  cursor := sqltokenizer_reads _ _
  var := sqltokenizer_var
  pieces := drawn.pieces
  order := drawn.order
  behind start mem := Nat.le_trans (drawn.behind start mem) drawn.cursor.next_start

/-- A piece behind the others, that begins behind them. -/
theorem Drawn.append {p : Piece} (drawn : Drawn src s) (new : p.Drawn src)
    (tsql : s'.dp.tsql = s.dp.tsql ++ [p]) (cursor : s'.cursor = s.cursor)
    (start : ∀ x ∈ p.start, x ≤ s.cursor.start ∧ ∀ y ∈ starts s.dp.tsql, y ≤ x) :
    Drawn src s' := by
  have split' : starts s'.dp.tsql = starts s.dp.tsql ++ p.start.toList := by
    rw [tsql, starts, List.filterMap_append]
    cases p <;> rfl
  refine ⟨cursor ▸ drawn.cursor, cursor ▸ drawn.var, fun q mem => ?_, ?_, fun x mem => ?_⟩
  · rw [tsql] at mem
    rcases List.mem_append.mp mem with old | last
    · exact drawn.pieces q old
    · rw [List.mem_singleton.mp last]
      exact new
  · rw [split']
    refine List.pairwise_append.mpr ⟨drawn.order, ?_, fun y old x last => ?_⟩
    · cases p.start <;> simp
    · exact (start x (Option.mem_toList.mp last)).2 y old
  · rw [split'] at mem
    rw [cursor]
    rcases List.mem_append.mp mem with old | last
    · exact drawn.behind x old
    · exact (start x (Option.mem_toList.mp last)).1

theorem Drawn.put {p : Piece} (drawn : Drawn src s) (new : p.Drawn src)
    (start : p.start = none ∨ p.start = some s.cursor.start) : Drawn src (s.put p) := by
  refine drawn.append new rfl rfl fun x mem => ?_
  rcases start with none | here
  · rw [none] at mem
    cases mem
  · obtain rfl := Option.some.inj (here.symm.trans mem)
    exact ⟨Nat.le_refl _, drawn.behind⟩

theorem Drawn.placeholder (drawn : Drawn src s) (token : s.cursor.token = .var)
    (index : Option Index) :
    (Piece.placeholder s.cursor.start (s.cursor.lexum.drop 1) index).Drawn src := by
  refine ⟨?_, nofun⟩
  show 64 :: s.cursor.lexum.drop 1 <+: _
  rw [← drawn.var token]
  exact drawn.cursor.word (.inr (.inr token))

theorem Move.drawn (move : Move G s s') (drawn : Drawn G.src s) : Drawn G.src s' := by
  cases move with
  | read => exact drawn.next
  | raise token => exact {
      cursor := {
        operator := fun op same => by
          rw [show operatorOf _ = operatorOf s.cursor.token from rfl, token] at same
          cases same
        word := by
          rintro (other | other | other) <;> rw [show s.cursor.token = _ from other] at token <;>
            cases token
        quoted := fun other => by
          rw [show s.cursor.token = _ from other] at token
          cases token
        pos := drawn.cursor.pos }
      var := fun other => by
        rw [show s.cursor.token = _ from other] at token
        cases token
      pieces := drawn.pieces
      order := drawn.order
      behind := drawn.behind }
  | text t => exact drawn.put ⟨trivial, nofun⟩ (.inl rfl)
  | word token =>
      refine drawn.put ⟨?_, nofun⟩ (.inr rfl)
      rcases token with id | num | strlit
      · exact .inl (drawn.cursor.word (.inl id))
      · exact .inl (drawn.cursor.word (.inr (.inl num)))
      · exact .inr (drawn.cursor.quoted strlit)
  | operator op t token spelled =>
      refine drawn.put ⟨trivial, ?_⟩ (.inr rfl)
      rintro start op' t' same
      obtain ⟨rfl, rfl, rfl⟩ := Piece.operator.inj same
      exact ⟨drawn.cursor.operator _ token, List.mem_map_of_mem spelled⟩
  | list token =>
      have two := drawn.next.next
      refine two.append (p := .operator s.cursor.start .in (lit " IN ")) ⟨trivial, ?_⟩ rfl rfl ?_
      · rintro start op' t' same
        obtain ⟨rfl, rfl, rfl⟩ := Piece.operator.inj same
        exact ⟨drawn.cursor.operator _ (by rw [token]; rfl), by decide⟩
      · intro x mem
        obtain rfl := Option.some.inj (Option.mem_def.mp mem)
        exact ⟨Nat.le_trans drawn.cursor.next_start drawn.next.cursor.next_start, drawn.behind⟩
  | number s' cell x inlike token found numbered =>
      unfold setPrmIdx at numbered
      split at numbered
      case h_2 => cases numbered
      case h_1 prm prmidxpos param counter =>
        split at numbered
        case isFalse => cases numbered
        case isTrue =>
          obtain rfl := Option.some.inj numbered
          refine drawn.append (drawn.placeholder token _) rfl rfl fun x mem => ?_
          obtain rfl := Option.some.inj (Option.mem_def.mp mem)
          exact ⟨Nat.le_refl _, drawn.behind⟩
  | free token => exact drawn.put (drawn.placeholder token _) (.inr rfl)
  | define dp same => exact drawn.keep same.tsql rfl
  | _ => exact drawn.keep rfl rfl

theorem parseSQL_drawn {rounds : Nat} (room : 2 * G.src.length + 1 < rounds) :
    Drawn G.src (parseSQL G rounds).2 := by
  have first : Drawn G.src Parser.start := {
    cursor := .other rfl ⟨nofun, nofun, nofun⟩ nofun (Nat.le_refl _)
    var := nofun
    pieces := fun _ mem => nomatch mem
    order := .nil
    behind := fun _ mem => nomatch mem }
  exact Chain.invariant (I := Drawn G.src) (fun _ _ move => move.drawn)
    (parseSQL_runs room).chain first

theorem Drawn.survive_iff (drawn : Drawn src s) :
    Survive src s.dp.tsql ↔ NoLessEqual src s.dp.tsql := by
  constructor
  · intro survive start op t mem spelled
    have same := (survive.operators start op t mem).1
    rw [spelled] at same
    exact ((drawn.pieces _ mem).2 start op t rfl).1.1 (Option.some.inj same).symm
  · intro none
    refine ⟨fun start op t mem => ?_, fun p mem => (drawn.pieces p mem).1, drawn.order⟩
    obtain ⟨⟨-, spelled⟩, text⟩ := (drawn.pieces _ mem).2 start op t rfl
    exact ⟨spelled.resolve_right (none start op t mem), text⟩

/-! ## Every operator that is read is appended -/

/-- What a predicate appends for its operator, and that it stays. -/
structure Appends (G : Given) : Prop where
  comparison : ∀ s inlike s', comparison s = (.ok inlike, s') →
    ∃ op, ∃ t ∈ spellings op, operatorOf s.cursor.token = some op ∧
      s' = s.put (.operator s.cursor.start op (lit t))
  /-- NOT behind IS. -/
  expected : ∀ s, s.cursor.token = .not →
    expected G .null s = next G (s.put (.operator s.cursor.start .not (lit "NOT ")))
  /-- NOT behind a field. -/
  negated : ∀ select rounds s, s.cursor.token = .not → inPredicate G select rounds s =
    (do next G; parseInList G select rounds : Parser Unit)
      (s.put (.operator s.cursor.start .not (lit " NOT ")))
  list : ∀ s s', s.cursor.token = .in → inHead G s = (.ok (), s') →
    s' = ((s.next G).next G).put (.operator s.cursor.start .in (lit " IN "))
  stays : ∀ s s', Move G s s' → s.dp.tsql <+: s'.dp.tsql

theorem Move.stays (move : Move G s s') : s.dp.tsql <+: s'.dp.tsql := by
  cases move with
  | text | word | operator | list | free => exact List.prefix_append _ _
  | define dp same => exact same.tsql ▸ List.prefix_refl _
  | number s' cell x inlike token found numbered =>
      unfold setPrmIdx at numbered
      split at numbered
      case h_2 => cases numbered
      case h_1 =>
        split at numbered
        · exact Option.some.inj numbered ▸ List.prefix_append _ _
        · cases numbered
  | _ => exact List.prefix_refl _

theorem appends (G : Given) : Appends G where
  comparison s inlike s' ran := by
    have made := (comparison_runs (G := G) (s := s)).result
    rw [ran] at made
    exact made inlike rfl
  expected s token := by
    show (if Sqltoken.null = .eos ∨ s.cursor.token = .null then _ else
      if Sqltoken.null = .null ∧ s.cursor.token = .not then _ else _ : Parser Unit) s = _
    rw [if_neg (by rw [token]; decide), if_pos ⟨rfl, token⟩]
    rfl
  negated select rounds s token := by
    show (only (decide (s.cursor.token = .not)) _ >>= fun _ => _ : Parser Unit) s = _
    rw [token]
    rfl
  list s s' token ran := by
    have made := (inHead_runs (G := G) token).result
    rw [ran] at made
    exact made () rfl
  stays _ _ move := move.stays

/-- The operators of an accepted statement are those of its text exactly when none is spelled
`<=`; and every operator that a condition reads is appended. -/
theorem accepted_operators (G : Given) (more : Nat) {s : Parse}
    (accepted : parseSQL G (2 * G.src.length + 2 + more) = (.ok (), s)) :
    (Survive G.src s.dp.tsql ↔ NoLessEqual G.src s.dp.tsql) ∧ Appends G := by
  have drawn := @parseSQL_drawn G (2 * G.src.length + 2 + more) (by omega)
  rw [accepted] at drawn
  exact ⟨drawn.survive_iff, appends G⟩

/-- An operator without a blank before it. -/
example :
    Survive (lit "create procedure a.b as select f from t where f< 3")
        (translated "create procedure a.b as select f from t where f< 3").dp.tsql ↔
      NoLessEqual (lit "create procedure a.b as select f from t where f< 3")
        (translated "create procedure a.b as select f from t where f< 3").dp.tsql :=
  (accepted_operators
    (firstNamed "create procedure a.b as select f from t where f< 3") 0
    (translated_of_accepted (by decide +kernel))).1

/-- `<=` becomes `<`. -/
theorem less_equal_lost : ¬ ∀ (G : Given) (more : Nat) (s : Parse),
    parseSQL G (2 * G.src.length + 2 + more) = (.ok (), s) → Survive G.src s.dp.tsql := by
  intro survives
  have survive := survives _ 0 _ (translated_of_accepted
    (t := "create procedure a.b as select f from t where f <= 3") (by decide +kernel))
  have mem : Piece.operator 48 .lt (lit " < ") ∈
      (translated "create procedure a.b as select f from t where f <= 3").dp.tsql := by
    decide +kernel
  have same := (survive.operators _ _ _ mem).1
  have spelled : spelledAt (firstNamed "create procedure a.b as select f from t where f <= 3").src
      48 = some .le := by decide +kernel
  rw [spelled] at same
  cases same

end Jspp.Sql
