/-
# Sql.Moves -- what a run of the parser consists of

A run of the parser is a chain of single moves (`Move`): the tokenizer reads, a
piece is appended, a name is pushed.  Each move says when it is made, so that what
holds of a whole run is proved from what each move preserves.

`left` measures what is before a cursor: the characters, and the current token.
No move raises it; `Passed` is a cursor behind another that has less before it.
The rounds of the loops and the nested selects are recorded only when they have
passed something.

* `Runs`: the triple of the parser's functions over `Move`; its errors are the
  code's own, never the bound on the rounds.
-/
import Jspp.Sql.Parser

namespace Jspp.Sql

open Jspp.Splc (Bytes lit isdigit isalnum toupper)
open Jspp.Theory
open Jspp.Theory.Attempt (Does Chain)

set_option autoImplicit false

/-- Twice the characters before the cursor, and one for a token. -/
def left (src : Bytes) (c : Cursor) : Nat :=
  2 * (src.length - c.pos) + if c.token = .eos then 0 else 1

structure Reached (src : Bytes) (c c' : Cursor) : Prop where
  pos : c.pos ≤ c'.pos
  left : left src c' ≤ left src c

structure Passed (src : Bytes) (c c' : Cursor) : Prop where
  pos : c.pos ≤ c'.pos
  left : left src c' < left src c

theorem Reached.refl (src : Bytes) (c : Cursor) : Reached src c c := ⟨Nat.le_refl _, Nat.le_refl _⟩

theorem Reached.trans {src : Bytes} {c d e : Cursor} (one : Reached src c d)
    (two : Reached src d e) : Reached src c e :=
  ⟨Nat.le_trans one.pos two.pos, Nat.le_trans two.left one.left⟩

theorem Passed.reached {src : Bytes} {c d : Cursor} (one : Passed src c d) : Reached src c d :=
  ⟨one.pos, Nat.le_of_lt one.left⟩

theorem Passed.trans {src : Bytes} {c d e : Cursor} (one : Passed src c d)
    (two : Reached src d e) : Passed src c e :=
  ⟨Nat.le_trans one.pos two.pos, Nat.lt_of_le_of_lt two.left one.left⟩

theorem Reached.passed {src : Bytes} {c d e : Cursor} (one : Reached src c d)
    (two : Passed src d e) : Passed src c e :=
  ⟨Nat.le_trans one.pos two.pos, Nat.lt_of_lt_of_le two.left one.left⟩

theorem sqltokenizer_reached (src : Bytes) (c : Cursor) :
    Reached src c (sqltokenizer src c).2 := by
  cases sqltokenizer_moved src c with
  | eos token ended pos =>
      refine ⟨pos, ?_⟩
      simp only [left, token, if_true]
      omega
  | on token pos more =>
      refine ⟨Nat.le_of_lt pos, ?_⟩
      simp only [left, token, if_false]
      omega

/-- A token that is read, or one that is passed. -/
theorem sqltokenizer_passed {src : Bytes} {c : Cursor}
    (some : c.token ≠ .eos ∨ (sqltokenizer src c).2.token ≠ .eos) :
    Passed src c (sqltokenizer src c).2 := by
  cases sqltokenizer_moved src c with
  | eos token ended pos =>
      refine ⟨pos, ?_⟩
      have first : c.token ≠ .eos := some.resolve_right fun ne => ne token
      simp only [left, token, first, if_true, if_false]
      omega
  | on token pos more =>
      refine ⟨Nat.le_of_lt pos, ?_⟩
      simp only [left, token, if_false]
      omega

/-! ## Moves -/

/-- A piece behind the others. -/
def Parse.put (s : Parse) (p : Piece) : Parse :=
  { s with dp := { s.dp with tsql := s.dp.tsql ++ [p] } }

/-- The state behind a call of the tokenizer. -/
def Parse.next (G : Given) (s : Parse) : Parse :=
  { s with cursor := (sqltokenizer G.src s.cursor).2 }

/-- The operator a token stands for. -/
def operatorOf : Sqltoken → Option Operator
  | .eq => some .eq
  | .gt => some .gt
  | .lt => some .lt
  | .gteq => some .ge
  | .lteq => some .le
  | .neq => some .ne
  | .like => some .like
  | .is => some .is
  | .in => some .in
  | .not => some .not
  | _ => none

/-- The texts an operator is appended as. -/
def spellings : Operator → List String
  | .eq => [" = "]
  | .gt => [" > "]
  | .lt => [" < "]
  | .ge => [" >= "]
  | .le => [" <= "]
  | .ne => [" <> "]
  | .like => [" LIKE "]
  | .is => [" IS "]
  | .in => [" IN "]
  | .not => [" NOT ", "NOT "]

/-- The parts of the `sqldef` no other part depends on. -/
structure SameLists (d d' : Sqldef) : Prop where
  tsql : d'.tsql = d.tsql
  uparams : d'.uparams = d.uparams
  ufields : d'.ufields = d.ufields

open Jspp.Sql.Parser in
/-- One step of the parser. -/
inductive Move (G : Given) : Parse → Parse → Prop where
  | read (s : Parse) : Move G s (s.next G)
  | raise (s : Parse) (token : s.cursor.token = .func) :
      Move G s { s with cursor := { s.cursor with lexum := s.cursor.lexum.map toupper } }
  | text (s : Parse) (t : Bytes) : Move G s (s.put (.text t))
  | word (s : Parse)
      (token : s.cursor.token = .id ∨ s.cursor.token = .num ∨ s.cursor.token = .strlit) :
      Move G s (s.put (.word s.cursor.start s.cursor.lexum))
  | operator (s : Parse) (op : Operator) (t : String) (token : operatorOf s.cursor.token = some op)
      (spelled : t ∈ spellings op) : Move G s (s.put (.operator s.cursor.start op (lit t)))
  /-- IN, when it and the parenthesis behind it have been read. -/
  | list (s : Parse) (token : s.cursor.token = .in) :
      Move G s (((s.next G).next G).put (.operator s.cursor.start .in (lit " IN ")))
  | number (s s' : Parse) (cell x : Nat) (inlike : Bool) (token : s.cursor.token = .var)
      (found : G.hashtableGetChar (names s) s.cursor.lexum = some x)
      (numbered : setPrmIdx cell x inlike s = some s') : Move G s s'
  | free (s : Parse) (token : s.cursor.token = .var) :
      Move G s (s.put (.placeholder s.cursor.start (s.cursor.lexum.drop 1) none))
  | field (s : Parse) (cell : Nat) : Move G s (pushField cell s).2
  | extend (s : Parse) (t : Bytes) (cell : Nat) (name : Bytes)
      (last : s.items.getLast? = some (cell, { field := some name, named := none })) :
      Move G s (extendField (fun _ => t) s).2
  | entitle (s : Parse) (cell : Nat) : Move G s (pushAlias cell false s).2
  | rename (s : Parse) (cell : Nat) (name : Bytes)
      (last : s.items.getLast? = some (cell, { field := some name, named := none })) :
      Move G s (pushAlias cell true s).2
  | generated (s : Parse) (cell : Nat) : Move G s (pushGenerated cell s).2
  | lap (s : Parse) (before : Cursor) (passed : Passed G.src before s.cursor) :
      Move G s { s with laps := s.laps ++ [(before, s.cursor)] }
  | call (s : Parse) (caller : Cursor) (passed : Passed G.src caller s.cursor) :
      Move G s { s with calls := s.calls ++ [(caller, s.cursor)] }
  | cell (s : Parse) : Move G s { s with cells := s.cells ++ [0] }
  | param (s : Parse) (type : Datatype) (len : Int) :
      Move G s { s with dp := { s.dp with uparams := s.dp.uparams ++ [{
        name := s.cursor.lexum
        type := type
        len := len
        likepattern := false
        idxs := [] }] } }
  | type (s : Parse) (type : Datatype) (len : Int) :
      Move G s { s with dp := { s.dp with
        uparams := changeLast (fun prm => { prm with type := type, len := len }) s.dp.uparams } }
  | define (s : Parse) (dp : Sqldef) (same : SameLists s.dp dp) : Move G s { s with dp := dp }

theorem Parse.put_cursor (s : Parse) (p : Piece) : (s.put p).cursor = s.cursor := rfl

theorem setPrmIdx_cursor {cell x : Nat} {inlike : Bool} {s s' : Parse}
    (numbered : Parser.setPrmIdx cell x inlike s = some s') : s'.cursor = s.cursor := by
  unfold Parser.setPrmIdx at numbered
  split at numbered
  case h_1 =>
    split at numbered
    · exact Option.some.inj numbered ▸ rfl
    · cases numbered
  case h_2 => cases numbered

variable {G : Given}

theorem Move.reached {s s' : Parse} (move : Move G s s') : Reached G.src s.cursor s'.cursor := by
  cases move with
  | read => exact sqltokenizer_reached _ _
  | list token => exact (sqltokenizer_reached _ _).trans (sqltokenizer_reached _ _)
  | number s' cell x inlike token found numbered =>
      rw [setPrmIdx_cursor numbered]
      exact Reached.refl _ _
  | _ => exact ⟨Nat.le_refl _, Nat.le_refl _⟩

theorem chain_reached {s s' : Parse} (chain : Chain (Move G) s s') :
    Reached G.src s.cursor s'.cursor := by
  induction chain with
  | refl => exact Reached.refl _ _
  | tail _ move ih => exact ih.trans move.reached

end Jspp.Sql
