/-
# Sql.Separated -- lists whose commas may be missing

The loops over an IN list, the columns and the values of an INSERT and the declared
parameters go on as long as the current token starts an element; a comma is passed
where there is one.  A `Form` is such a list: its elements as they should stand in
the text (`item`), as the loop takes them (`taken`), and what it makes of them.

* `Separated`: the text from one cursor to the other is elements with single commas
  between them, and the outcome is these elements in their order.
* `Flawed`: two elements stand side by side, or a comma has no element behind it, or
  an element is taken that is none.
* `Form.separated_iff`: a list that is accepted is separated where it is not flawed.
* `list_separated_iff`: the four lists.
-/
import Jspp.Sql.Lists
import Jspp.Sql.Columns

namespace Jspp.Sql

open Jspp.Splc (Bytes lit toupper)
open Jspp.Theory
open Jspp.Theory.Attempt (modify)
open Jspp.Sql.Parser

set_option autoImplicit false

/-- A list of `ι`; `out` is what the parser makes of it, `sep` what it writes for a comma. -/
structure Form (ι γ : Type) where
  starts : Sqltoken → Bool
  item : Cursor → ι → Cursor → Prop
  taken : Cursor → ι → Cursor → Prop
  odd : ι → Prop
  text : ι → List γ
  sep : List γ
  out : Parse → List γ

namespace Form

variable {ι γ : Type}

/-- The text between the cursors is elements with single commas between them; the outcome is
theirs, in this order. -/
def Separated (F : Form ι γ) (src : Bytes) (s s' : Parse) : Prop :=
  ∃ items : List ι,
    (items = [] ∧ s'.cursor = s.cursor ∨ ListAt src F.item s.cursor items s'.cursor) ∧
    F.out s' = F.out s ++ F.sep.intercalate (items.map F.text)

/-- Somewhere behind `c` two elements stand side by side, a comma has no element behind it, or
what is taken is no element. -/
inductive Flawed (F : Form ι γ) (src : Bytes) : Cursor → Prop where
  | beside {c d : Cursor} {i : ι} (at' : F.taken c i d) (other : F.starts d.token = true) :
      Flawed F src c
  | trailing {c d e : Cursor} {i : ι} (at' : F.taken c i d) (comma : d.token = .comma)
      (step : Step src d e) (none : F.starts e.token = false) : Flawed F src c
  | odd {c d : Cursor} {i : ι} (at' : F.taken c i d) (odd : F.odd i) : Flawed F src c
  | later {c d e : Cursor} {i : ι} (at' : F.taken c i d) (comma : d.token = .comma)
      (step : Step src d e) (flawed : Flawed F src e) : Flawed F src c

/-- What the lists have in common. -/
structure Lawful (F : Form ι γ) (src : Bytes) : Prop where
  comma : F.starts .comma = false
  starts : ∀ c i d, F.item c i d → F.starts c.token = true
  takes : ∀ c i d, F.taken c i d → F.starts c.token = true
  alone : ∀ c i d j e, F.taken c i d → F.taken c j e → d = e
  plain : ∀ c i d, F.taken c i d → ¬ F.odd i → F.item c i d
  same : ∀ c i d j e, F.taken c i d → ¬ F.odd i → F.item c j e → d = e
  /-- What is no element reaches past the one that stands there. -/
  past : ∀ c i d j e, F.taken c i d → F.odd i → F.item c j e →
    e.token = .rpar ∧ left src d < left src e
  reached : ∀ c i d, F.taken c i d → Reached src c d

/-- The elements the loop takes, each with whether a comma is behind it. -/
inductive RunAt (F : Form ι γ) (src : Bytes) : Cursor → List (ι × Bool) → Cursor → Prop where
  | done {c : Cursor} (none : F.starts c.token = false) : RunAt F src c [] c
  | comma {c d e c' : Cursor} {i : ι} {is : List (ι × Bool)} (at' : F.taken c i d)
      (comma : d.token = .comma) (step : Step src d e) (rest : RunAt F src e is c') :
      RunAt F src c ((i, true) :: is) c'
  | next {c d c' : Cursor} {i : ι} {is : List (ι × Bool)} (at' : F.taken c i d)
      (other : d.token ≠ .comma) (rest : RunAt F src d is c') :
      RunAt F src c ((i, false) :: is) c'

/-- What the loop makes of its elements. -/
def outcome (F : Form ι γ) (is : List (ι × Bool)) : List γ :=
  is.flatMap fun i => F.text i.1 ++ if i.2 then F.sep else []

variable {F : Form ι γ} {src : Bytes} {c c' : Cursor} {is : List (ι × Bool)}

theorem RunAt.ends (run : RunAt F src c is c') : F.starts c'.token = false := by
  induction run with
  | done none => exact none
  | comma _ _ _ _ ih => exact ih
  | next _ _ _ ih => exact ih

theorem RunAt.reached (lawful : F.Lawful src) (run : RunAt F src c is c') : Reached src c c' := by
  induction run with
  | done => exact Reached.refl _ _
  | comma at' _ step _ ih => exact (lawful.reached _ _ _ at').trans (step.reached.trans ih)
  | next at' _ _ ih => exact (lawful.reached _ _ _ at').trans ih

theorem intercalate_cons (sep text : List γ) {texts : List (List γ)} (more : texts ≠ []) :
    sep.intercalate (text :: texts) = text ++ sep ++ sep.intercalate texts := by
  obtain ⟨next, rest, rfl⟩ := List.exists_cons_of_ne_nil more
  simp [List.intercalate, List.intersperse]

/-- Without a flaw the elements have their commas. -/
theorem RunAt.separated (lawful : F.Lawful src) (run : RunAt F src c is c')
    (clean : ¬ F.Flawed src c) :
    (is = [] ∧ c' = c ∨ ListAt src F.item c (is.map Prod.fst) c') ∧
      F.outcome is = F.sep.intercalate ((is.map Prod.fst).map F.text) := by
  induction run with
  | done => exact ⟨.inl ⟨rfl, rfl⟩, rfl⟩
  | @comma c d e c' i is at' comma step rest ih =>
      obtain ⟨list, same⟩ := ih fun flawed => clean (.later at' comma step flawed)
      have item := lawful.plain _ _ _ at' fun odd => clean (.odd at' odd)
      have more : is ≠ [] := by
        rintro rfl
        cases rest with
        | done none => exact clean (.trailing at' comma step none)
      refine ⟨.inr (.more item comma step (list.resolve_left fun none => more none.1)), ?_⟩
      rw [List.map_cons, List.map_cons, intercalate_cons _ _ (by simpa using more), ← same]
      simp [outcome]
  | @next c d c' i is at' other rest ih =>
      have item := lawful.plain _ _ _ at' fun odd => clean (.odd at' odd)
      cases rest with
      | done none => exact ⟨.inr (.last item other), by simp [outcome, List.intercalate]⟩
      | comma at'' _ _ _ => exact absurd (.beside at' (lawful.takes _ _ _ at'')) clean
      | next at'' _ _ => exact absurd (.beside at' (lawful.takes _ _ _ at'')) clean

/-- Where an element stands the loop takes no other thing that ends in front of it. -/
theorem RunAt.head_plain {d : Cursor} {i : ι} {items : List ι} (lawful : F.Lawful src)
    (run : RunAt F src c is c') (list : ListAt src F.item c items c') (at' : F.taken c i d) :
    ¬ F.odd i := by
  intro odd
  have reached : left src c' ≤ left src d := by
    cases run with
    | done none => exact nomatch none.symm.trans (lawful.takes _ _ _ at')
    | comma at'' _ step rest =>
        rw [lawful.alone _ _ _ _ _ at' at'']
        exact (step.reached.trans (rest.reached lawful)).left
    | next at'' _ rest =>
        rw [lawful.alone _ _ _ _ _ at' at'']
        exact (rest.reached lawful).left
  cases list with
  | last item _ =>
      have := (lawful.past _ _ _ _ _ at' odd item).2
      omega
  | more item comma _ _ =>
      have rpar := (lawful.past _ _ _ _ _ at' odd item).1
      exact nomatch rpar.symm.trans comma

/-- With a flaw they have not. -/
theorem RunAt.not_separated (lawful : F.Lawful src) (flawed : F.Flawed src c)
    (run : RunAt F src c is c') {items : List ι} (list : ListAt src F.item c items c') :
    False := by
  induction flawed generalizing items is with
  | beside at' other =>
      have plain := run.head_plain lawful list at'
      cases list with
      | last item _ =>
          obtain rfl := lawful.same _ _ _ _ _ at' plain item
          exact nomatch run.ends.symm.trans other
      | more item comma _ _ =>
          obtain rfl := lawful.same _ _ _ _ _ at' plain item
          rw [comma, lawful.comma] at other
          cases other
  | trailing at' comma step none =>
      have plain := run.head_plain lawful list at'
      cases list with
      | last item ends =>
          obtain rfl := lawful.same _ _ _ _ _ at' plain item
          exact ends comma
      | more item _ step' rest =>
          obtain rfl := lawful.same _ _ _ _ _ at' plain item
          obtain rfl := step.unique step'
          obtain ⟨j, d, item', -⟩ := rest.head
          exact nomatch none.symm.trans (lawful.starts _ _ _ item')
  | odd at' odd => exact run.head_plain lawful list at' odd
  | later at' comma step _ ih =>
      have plain := run.head_plain lawful list at'
      cases list with
      | last item ends =>
          obtain rfl := lawful.same _ _ _ _ _ at' plain item
          exact ends comma
      | more item _ step' rest =>
          obtain rfl := lawful.same _ _ _ _ _ at' plain item
          obtain rfl := step.unique step'
          cases run with
          | done none => exact nomatch none.symm.trans (lawful.takes _ _ _ at')
          | comma at'' _ step'' rest' =>
              obtain rfl := lawful.alone _ _ _ _ _ at' at''
              obtain rfl := step.unique step''
              exact ih rest' rest
          | next at'' other _ =>
              obtain rfl := lawful.alone _ _ _ _ _ at' at''
              exact other comma

theorem Flawed.starts (lawful : F.Lawful src) (flawed : F.Flawed src c) :
    F.starts c.token = true := by
  cases flawed <;> exact lawful.takes _ _ _ ‹_›

/-- A list that is accepted is separated exactly where it has no flaw. -/
theorem separated_iff {s s' : Parse} (lawful : F.Lawful src)
    (run : RunAt F src s.cursor is s'.cursor) (out : F.out s' = F.out s ++ F.outcome is) :
    F.Separated src s s' ↔ ¬ F.Flawed src s.cursor := by
  constructor
  · rintro ⟨items, ⟨-, same⟩ | list, -⟩ flawed
    · have ends := run.ends
      rw [same, flawed.starts lawful] at ends
      cases ends
    · exact run.not_separated lawful flawed list
  · intro clean
    obtain ⟨list, same⟩ := run.separated lawful clean
    refine ⟨is.map Prod.fst, list.imp_left fun none => ⟨by rw [none.1]; rfl, none.2⟩, ?_⟩
    rw [out, same]

/-- What a round of the loop does: an element, and a comma where there is one. -/
def Round (F : Form ι γ) (src : Bytes) (s s' : Parse) : Prop :=
  ∃ i d, F.taken s.cursor i d ∧
    (d.token = .comma ∧ Step src d s'.cursor ∧ F.out s' = F.out s ++ F.text i ++ F.sep ∨
      d.token ≠ .comma ∧ s'.cursor = d ∧ F.out s' = F.out s ++ F.text i)

/-- A loop of such rounds. -/
theorem loop_runs {round : Parser Unit} (rounds : Nat) {s s' : Parse}
    (once : ∀ s s', F.starts s.cursor.token = true → round s = (.ok (), s') → F.Round src s s')
    (lapped : ∀ s before, F.out (Parse.lapped s before) = F.out s)
    (run : loopWhile rounds F.starts round s = (.ok (), s')) :
    ∃ is, RunAt F src s.cursor is s'.cursor ∧ F.out s' = F.out s ++ F.outcome is := by
  induction rounds generalizing s with
  | zero => cases (Prod.mk.inj run).1
  | succ rounds ih =>
      rcases loopWhile_ok_cases run with ⟨none, rfl⟩ | ⟨starts, _, same, s₁, one, more⟩
      · exact ⟨[], .done none, by simp [outcome]⟩
      obtain rfl := Nat.succ.inj same
      obtain ⟨is, rest, out⟩ := ih more
      rw [lapped] at out
      obtain ⟨i, d, at', ⟨comma, step, out₁⟩ | ⟨other, here, out₁⟩⟩ := once s s₁ starts one
      · exact ⟨(i, true) :: is, .comma at' comma step rest, by rw [out, out₁]; simp [outcome]⟩
      · refine ⟨(i, false) :: is, .next at' other (here ▸ rest), ?_⟩
        rw [out, out₁]
        simp [outcome]

end Form

/-! ## The literals of IN -/

def literals (src : Bytes) : Form Literal UInt8 where
  starts tok := tok = .num ∨ tok = .strlit
  item := LiteralAt src
  taken := LiteralAt src
  odd _ := False
  text l := l.text false
  sep := lit ","
  out := Parse.written

theorem LiteralAt.step {src : Bytes} {c c' : Cursor} {l : Literal} (at' : LiteralAt src c l c') :
    Step src c c' := by
  cases at' <;> assumption

theorem LiteralAt.starts {src : Bytes} {c c' : Cursor} {l : Literal} (at' : LiteralAt src c l c') :
    c.token = .num ∨ c.token = .strlit := by
  cases at' with
  | num num => exact .inl num
  | string strlit => exact .inr strlit

theorem literals_lawful (src : Bytes) : (literals src).Lawful src where
  comma := rfl
  starts _ _ _ at' := decide_eq_true at'.starts
  takes _ _ _ at' := decide_eq_true at'.starts
  alone _ _ _ _ _ one two := one.step.unique two.step
  plain _ _ _ at' _ := at'
  same _ _ _ _ _ one _ two := one.step.unique two.step
  past _ _ _ _ _ _ odd := odd.elim
  reached _ _ _ at' := at'.step.reached

variable {G : Given} {s s' : Parse} {rounds : Nat}

/-- A round of the loop over the literals of IN. -/
def literalRound (G : Given) : Parser Unit := do
  parseLit G false
  if (← token) ≠ .comma then pure ()
  else
    next G
    text ","
    let tok ← token
    if tok = .num ∨ tok = .strlit then pure () else stop .errSyntax

/-- A comma that is passed and written. -/
theorem comma_passed {s₁ : Parse} {c e : Cursor} {text : Bytes} (writes : Writes s c text s₁)
    (step : Step G.src c e) (ends : s' = (s₁.seek e).put (.text (lit ","))) :
    Step G.src c s'.cursor ∧ s'.written = s.written ++ text ++ lit "," := by
  subst ends
  refine ⟨step, ?_⟩
  rw [List.append_assoc]
  exact ((writes.seek e).append (.text (lit ","))).written

theorem unless_stop {p : Prop} [Decidable p] {errcode : Sqlparseerror}
    (run : (if p then pure () else stop errcode : Parser Unit) s = (.ok (), s')) : p ∧ s' = s := by
  by_cases holds : p
  · rw [if_pos holds] at run
    exact ⟨holds, (Prod.mk.inj run).2.symm⟩
  · rw [if_neg holds] at run
    cases (Prod.mk.inj run).1

theorem literalRound_does (run : literalRound G s = (.ok (), s')) :
    (literals G.src).Round G.src s s' := by
  obtain ⟨_, s₁, literal, rest⟩ := bind_ok_iff.mp run
  obtain ⟨l, at'⟩ := parseLit_at literal
  obtain ⟨s₂, run', writes⟩ := @parseLit_reads G s false l _ at'
  obtain rfl := (Prod.mk.inj (run'.symm.trans literal)).2
  refine ⟨l, s₂.cursor, at', ?_⟩
  rw [token_run] at rest
  by_cases comma : s₂.cursor.token = .comma
  · rw [if_neg (not_not.mpr comma)] at rest
    obtain ⟨e, step, rest⟩ := read_ok_iff.mp rest
    obtain ⟨step, written⟩ := comma_passed writes step (unless_stop rest).2
    exact .inl ⟨comma, step, written⟩
  · rw [if_pos comma] at rest
    obtain rfl := (Prod.mk.inj rest).2
    exact .inr ⟨comma, rfl, writes.written⟩

/-! ## The columns of INSERT -/

inductive ColumnAt (src : Bytes) (c : Cursor) : Bytes → Cursor → Prop where
  | id {c' : Cursor} (id : c.token = .id) (step : Step src c c') : ColumnAt src c c.lexum c'

def columns (src : Bytes) : Form Bytes UInt8 where
  starts tok := tok = .id
  item := ColumnAt src
  taken := ColumnAt src
  odd _ := False
  text name := name
  sep := lit ","
  out := Parse.written

theorem ColumnAt.step {src : Bytes} {c c' : Cursor} {name : Bytes}
    (at' : ColumnAt src c name c') : Step src c c' := by
  cases at'
  assumption

theorem ColumnAt.starts {src : Bytes} {c c' : Cursor} {name : Bytes}
    (at' : ColumnAt src c name c') : c.token = .id := by
  cases at'
  assumption

theorem columns_lawful (src : Bytes) : (columns src).Lawful src where
  comma := rfl
  starts _ _ _ at' := decide_eq_true at'.starts
  takes _ _ _ at' := decide_eq_true at'.starts
  alone _ _ _ _ _ one two := one.step.unique two.step
  plain _ _ _ at' _ := at'
  same _ _ _ _ _ one _ two := one.step.unique two.step
  past _ _ _ _ _ _ odd := odd.elim
  reached _ _ _ at' := at'.step.reached

/-- A round of the loop of `insertFields`. -/
def columnRound (G : Given) : Parser Unit := do
  word
  next G
  if (← token) ≠ .comma then pure ()
  else
    next G
    expect .id .expFields
    text ","

theorem columnRound_does (id : s.cursor.token = .id) (run : columnRound G s = (.ok (), s')) :
    (columns G.src).Round G.src s s' := by
  let s₁ := s.put (.word s.cursor.start s.cursor.lexum)
  obtain ⟨d, at', rest⟩ := (read_ok_iff (s := s₁)).mp run
  have writes : Writes s d s.cursor.lexum (s₁.seek d) :=
    (Writes.put s (.word s.cursor.start s.cursor.lexum)).seek d
  refine ⟨s.cursor.lexum, d, .id id at', ?_⟩
  rw [token_run, Parse.seek_cursor] at rest
  by_cases comma : d.token = .comma
  · rw [if_neg (not_not.mpr comma)] at rest
    obtain ⟨e, step, rest⟩ := read_ok_iff.mp rest
    obtain ⟨-, rest⟩ := expect_then_ok_iff.mp rest
    obtain ⟨step, written⟩ := comma_passed writes step (Prod.mk.inj rest).2.symm
    exact .inl ⟨comma, step, written⟩
  · rw [if_pos comma] at rest
    obtain rfl := (Prod.mk.inj rest).2
    exact .inr ⟨comma, rfl, writes.written⟩

/-! ## The values of INSERT -/

inductive RowValue where
  | word (lexum : Bytes)
  | string (lexum : Bytes)
  | var (lexum : Bytes)
  | call (fn : Function)
  deriving DecidableEq, Repr

def RowValue.text : RowValue → Bytes
  | .word lexum => lexum
  | .string lexum => lit "'" ++ lexum ++ lit "'"
  | .var lexum => lit ":p" ++ lexum.drop 1
  | .call fn => fn.text

def RowValue.isAggregate : RowValue → Bool
  | .call fn => fn.isAggregate
  | _ => false

/-- A value in the text, where `call` is how a call stands there. -/
inductive RowValueAt (src : Bytes) (call : Cursor → Function → Cursor → Prop) (c : Cursor) :
    RowValue → Cursor → Prop where
  | word {c' : Cursor} (word : c.token = .num ∨ c.token = .id) (step : Step src c c') :
      RowValueAt src call c (.word c.lexum) c'
  | string {c' : Cursor} (strlit : c.token = .strlit) (step : Step src c c') :
      RowValueAt src call c (.string c.lexum) c'
  | var {c' : Cursor} (var : c.token = .var) (step : Step src c c') :
      RowValueAt src call c (.var c.lexum) c'
  | call {c' : Cursor} {fn : Function} (at' : call c fn c') : RowValueAt src call c (.call fn) c'

def rowValues (src : Bytes) : Form RowValue UInt8 where
  starts := startsValue
  item := RowValueAt src (CallAt src)
  taken := RowValueAt src (FunctionAt src)
  odd v := v.isAggregate = true
  text := RowValue.text
  sep := lit ","
  out := Parse.written

theorem FunctionAt.func {src : Bytes} {c c' : Cursor} {fn : Function}
    (at' : FunctionAt src c fn c') : c.token = .func := by
  cases at' with
  | plain call _ => exact call.func
  | aggregate func => exact func

theorem RowValueAt.starts {src : Bytes} {call : Cursor → Function → Cursor → Prop} {c c' : Cursor}
    {v : RowValue} (func : ∀ c fn c', call c fn c' → c.token = .func)
    (at' : RowValueAt src call c v c') : startsValue c.token = true := by
  cases at' with
  | word word => rcases word with word | word <;> rw [word] <;> rfl
  | string strlit => rw [strlit]; rfl
  | var var => rw [var]; rfl
  | call at' => rw [func _ _ _ at']; rfl

theorem RowValueAt.unique {src : Bytes} {call call' : Cursor → Function → Cursor → Prop}
    {c d e : Cursor} {v w : RowValue} (one : RowValueAt src call c v d)
    (two : RowValueAt src call' c w e) (func : ∀ c fn c', call c fn c' → c.token = .func)
    (func' : ∀ c fn c', call' c fn c' → c.token = .func)
    (calls : ∀ fn fn', v = .call fn → w = .call fn' → call c fn d → call' c fn' e → d = e) :
    d = e := by
  cases one with
  | call at' =>
      cases two with
      | call at'' => exact calls _ _ rfl rfl at' at''
      | word word => rw [func _ _ _ at'] at word; exact absurd word (by decide)
      | string strlit => rw [func _ _ _ at'] at strlit; cases strlit
      | var var => rw [func _ _ _ at'] at var; cases var
  | word word step =>
      cases two with
      | call at'' => rw [func' _ _ _ at''] at word; exact absurd word (by decide)
      | _ => exact step.unique ‹_›
  | string strlit step =>
      cases two with
      | call at'' => rw [func' _ _ _ at''] at strlit; cases strlit
      | _ => exact step.unique ‹_›
  | var var step =>
      cases two with
      | call at'' => rw [func' _ _ _ at''] at var; cases var
      | _ => exact step.unique ‹_›

theorem FunctionAt.alone {c d e : Cursor} {fn fn' : Function} (one : FunctionAt G.src c fn d)
    (two : FunctionAt G.src c fn' e) : d = e := by
  obtain ⟨s₁, run, writes⟩ := parseFunction_reads (s := Parser.start.seek c) one
  obtain ⟨s₂, run', writes'⟩ := parseFunction_reads (s := Parser.start.seek c) two
  obtain rfl := (Prod.mk.inj (run.symm.trans run')).2
  exact writes.cursor.symm.trans writes'.cursor

/-- What is taken where a call stands: the call, or more than the call of an aggregate. -/
theorem FunctionAt.of_call {c d e : Cursor} {fn fn' : Function} (taken : FunctionAt G.src c fn d)
    (call : CallAt G.src c fn' e) : fn.isAggregate = false ∧ d = e ∨
      fn.isAggregate = true ∧ e.token = .rpar ∧ left G.src d < left G.src e := by
  cases taken with
  | plain call' other =>
      cases plain : fn'.isAggregate with
      | false => exact .inl ⟨other, FunctionAt.alone (.plain call' other) (.plain call plain)⟩
      | true =>
          cases call with
          | aggregate _ name =>
              cases call' with
              | getdate _ date => exact absurd date (aggregates_plain _ name).1
              | count _ count => exact absurd count (aggregates_plain _ name).2
              | aggregate => cases other
          | _ => cases plain
  | aggregate func name step lpar step' field passed rpar last =>
      cases call with
      | getdate _ date => exact absurd date (aggregates_plain _ name).1
      | count _ count => exact absurd count (aggregates_plain _ name).2
      | aggregate _ _ one _ two field' _ last' =>
          obtain rfl := step.unique one
          obtain rfl := step'.unique two
          obtain ⟨-, rfl⟩ := field.unique field'
          obtain rfl := passed.unique last'
          exact .inr ⟨rfl, rpar, (last.passed (by rw [rpar]; nofun)).left⟩

theorem FunctionAt.passed {c d : Cursor} {fn : Function} (at' : FunctionAt G.src c fn d) :
    Passed G.src c d := by
  cases at' with
  | plain call _ => exact call.passed
  | aggregate func name step lpar step' field passed rpar last =>
      exact (step.passed (by rw [func]; nofun)).trans (step'.reached.trans
        (field.passed.reached.trans (passed.reached.trans last.reached)))

theorem rowValues_lawful (G : Given) : (rowValues G.src).Lawful G.src where
  comma := rfl
  starts _ _ _ at' := at'.starts fun _ _ _ call => call.func
  takes _ _ _ at' := at'.starts fun _ _ _ call => call.func
  alone _ _ _ _ _ one two := one.unique two (fun _ _ _ call => call.func)
    (fun _ _ _ call => call.func) fun _ _ _ _ => FunctionAt.alone
  plain c v d at' plain := by
    cases at' with
    | word word step => exact .word word step
    | string strlit step => exact .string strlit step
    | var var step => exact .var var step
    | call at' =>
        cases at' with
        | plain call _ => exact .call call
        | aggregate => exact absurd rfl plain
  same c v d w e one plain two := by
    refine one.unique two (fun _ _ _ call => call.func) (fun _ _ _ call => call.func) ?_
    rintro fn fn' rfl rfl taken call
    exact (taken.of_call call).elim And.right fun aggregate => absurd aggregate.1 plain
  past c v d w e one odd two := by
    cases one with
    | call taken =>
        have func := taken.func
        cases two with
        | call call =>
            refine (taken.of_call call).elim (fun plain => ?_) And.right
            exact nomatch plain.1.symm.trans odd
        | word word => rw [func] at word; exact absurd word (by decide)
        | string strlit => rw [func] at strlit; cases strlit
        | var var => rw [func] at var; cases var
    | _ => cases odd
  reached c v d at' := by
    cases at' with
    | call at' => exact at'.passed.reached
    | _ => exact Step.reached ‹_›

/-- What `insertValue` takes. -/
theorem insertValue_does (starts : startsValue s.cursor.token = true)
    (run : insertValue G s = (.ok (), s')) :
    ∃ v d, RowValueAt G.src (FunctionAt G.src) s.cursor v d ∧ Writes s d v.text s' := by
  unfold insertValue at run
  rw [token_run] at run
  have single (p : Piece) (run : next G (s.put p) = (.ok (), s')) :
      ∃ d, Step G.src s.cursor d ∧ Writes s d p.render s' := by
    obtain ⟨step, same⟩ := next_ok_iff.mp run
    exact ⟨_, step, same ▸ (Writes.put s p).seek _⟩
  cases token : s.cursor.token with
  | func =>
      rw [token] at run
      obtain ⟨fn, at'⟩ := parseFunction_at run
      obtain ⟨s₁, run', writes⟩ := parseFunction_reads at'
      obtain rfl := (Prod.mk.inj (run'.symm.trans run)).2
      exact ⟨_, _, .call at', writes⟩
  | var =>
      rw [token] at run
      obtain ⟨d, step, writes⟩ := single _ run
      exact ⟨_, _, .var token step, writes⟩
  | strlit =>
      rw [token] at run
      let s₁ := ((s.put (.text (lit "'"))).put (.word s.cursor.start s.cursor.lexum)).put
        (.text (lit "'"))
      obtain ⟨step, same⟩ := (next_ok_iff (s := s₁)).mp run
      have writes : Writes s s.cursor (lit "'" ++ s.cursor.lexum ++ lit "'") s₁ :=
        ((Writes.put s (.text (lit "'"))).append (.word s.cursor.start s.cursor.lexum)).append
          (.text (lit "'"))
      exact ⟨_, _, .string token step, same ▸ writes.seek _⟩
  | num =>
      rw [token] at run
      obtain ⟨d, step, writes⟩ := single _ run
      exact ⟨_, _, .word (.inl token) step, writes⟩
  | id =>
      rw [token] at run
      obtain ⟨d, step, writes⟩ := single _ run
      exact ⟨_, _, .word (.inr token) step, writes⟩
  | _ =>
      rw [token] at starts
      cases starts

/-- A round of the loop of `insertValues`. -/
def valueRound (G : Given) : Parser Unit := do
  insertValue G
  if (← token) ≠ .comma then pure ()
  else
    next G
    if startsValue (← token) then text "," else stop .expFields

theorem valueRound_does (starts : startsValue s.cursor.token = true)
    (run : valueRound G s = (.ok (), s')) : (rowValues G.src).Round G.src s s' := by
  obtain ⟨_, s₁, value, rest⟩ := bind_ok_iff.mp run
  obtain ⟨v, d, at', writes⟩ := insertValue_does starts value
  refine ⟨v, d, at', ?_⟩
  rw [token_run, writes.cursor] at rest
  by_cases comma : d.token = .comma
  · rw [if_neg (not_not.mpr comma)] at rest
    obtain ⟨e, step, rest⟩ := read_ok_iff.mp rest
    rw [writes.cursor] at step
    rw [token_run, Parse.seek_cursor] at rest
    split at rest
    · obtain ⟨step, written⟩ := comma_passed writes step (Prod.mk.inj rest).2.symm
      exact .inl ⟨comma, step, written⟩
    · cases (Prod.mk.inj rest).1
  · rw [if_pos comma] at rest
    obtain rfl := (Prod.mk.inj rest).2
    exact .inr ⟨comma, writes.cursor, writes.written⟩

/-! ## Declared parameters -/

/-- A type behind the name of a parameter, with the length the code keeps for it. -/
inductive TypeAt (src : Bytes) (c : Cursor) : Datatype → Int → Cursor → Prop where
  | int {c' : Cursor} (int : c.token = .int) (step : Step src c c') : TypeAt src c .int 4 c'
  | smallint {c' : Cursor} (smallint : c.token = .smallint) (step : Step src c c') :
      TypeAt src c .short 2 c'
  | bigint {c' : Cursor} (bigint : c.token = .bigint) (step : Step src c c') :
      TypeAt src c .long 8 c'
  | char {d e r c' : Cursor} (char : c.token = .char) (step : Step src c d)
      (lpar : d.token = .lpar) (step' : Step src d e) (num : e.token = .num)
      (step'' : Step src e r) (rpar : r.token = .rpar) (last : Step src r c') :
      TypeAt src c .char (atoi e.lexum) c'

inductive ParamAt (src : Bytes) (c : Cursor) : Sqlparam → Cursor → Prop where
  | var {d c' : Cursor} {type : Datatype} {len : Int} (var : c.token = .var) (step : Step src c d)
      (at' : TypeAt src d type len c') :
      ParamAt src c
        { name := c.lexum, type := type, len := len, likepattern := false, idxs := [] } c'

def params (src : Bytes) : Form Sqlparam Sqlparam where
  starts tok := tok = .var
  item := ParamAt src
  taken := ParamAt src
  odd _ := False
  text prm := [prm]
  sep := []
  out s := s.dp.uparams

theorem TypeAt.unique {src : Bytes} {c d e : Cursor} {type type' : Datatype} {len len' : Int}
    (one : TypeAt src c type len d) (two : TypeAt src c type' len' e) : d = e := by
  cases one with
  | int int step =>
      cases two with
      | int _ step' => exact step.unique step'
      | _ => simp_all
  | smallint smallint step =>
      cases two with
      | smallint _ step' => exact step.unique step'
      | _ => simp_all
  | bigint bigint step =>
      cases two with
      | bigint _ step' => exact step.unique step'
      | _ => simp_all
  | char char step _ step' _ step'' _ last =>
      cases two with
      | char _ one _ two _ three _ last' =>
          obtain rfl := step.unique one
          obtain rfl := step'.unique two
          obtain rfl := step''.unique three
          exact last.unique last'
      | _ => simp_all

theorem TypeAt.reached {src : Bytes} {c d : Cursor} {type : Datatype} {len : Int}
    (at' : TypeAt src c type len d) : Reached src c d := by
  cases at' with
  | char _ step _ step' _ step'' _ last =>
      exact step.reached.trans (step'.reached.trans (step''.reached.trans last.reached))
  | _ => exact Step.reached ‹_›

theorem ParamAt.starts {src : Bytes} {c d : Cursor} {prm : Sqlparam} (at' : ParamAt src c prm d) :
    c.token = .var := by
  cases at'
  assumption

theorem ParamAt.unique {src : Bytes} {c d e : Cursor} {prm prm' : Sqlparam}
    (one : ParamAt src c prm d) (two : ParamAt src c prm' e) : d = e := by
  cases one with
  | var _ step at' =>
      cases two with
      | var _ step' at'' =>
          obtain rfl := step.unique step'
          exact at'.unique at''

theorem params_lawful (src : Bytes) : (params src).Lawful src where
  comma := rfl
  starts _ _ _ at' := decide_eq_true at'.starts
  takes _ _ _ at' := decide_eq_true at'.starts
  alone _ _ _ _ _ one two := one.unique two
  plain _ _ _ at' _ := at'
  same _ _ _ _ _ one _ two := one.unique two
  past _ _ _ _ _ _ odd := odd.elim
  reached _ _ _ at' := by
    cases at' with
    | var _ step at' => exact step.reached.trans at'.reached

/-- What `paramType` takes, with the token behind it. -/
theorem paramType_does {c : Cursor} {uparams : List Sqlparam} {prm : Sqlparam}
    (last : s.dp.uparams = uparams ++ [prm]) (run : paramType G s = (.ok (), s'))
    (step : Step G.src s'.cursor c) :
    ∃ type len, TypeAt G.src s.cursor type len c ∧
      s'.dp.uparams = uparams ++ [{ prm with type := type, len := len }] := by
  have typed (s : Parse) (type : Datatype) (len : Cursor → Int)
      (last : s.dp.uparams = uparams ++ [prm]) :
      (setParam type len s).2.dp.uparams =
        uparams ++ [{ prm with type := type, len := len s.cursor }] := by
    show changeLast _ s.dp.uparams = _
    rw [last, changeLast_append]
  unfold paramType at run
  rw [token_run] at run
  cases token : s.cursor.token with
  | int =>
      rw [token] at run
      obtain rfl := (Prod.mk.inj run).2
      exact ⟨_, _, .int token step, typed s .int (fun _ => 4) last⟩
  | smallint =>
      rw [token] at run
      obtain rfl := (Prod.mk.inj run).2
      exact ⟨_, _, .smallint token step, typed s .short (fun _ => 2) last⟩
  | bigint =>
      rw [token] at run
      obtain rfl := (Prod.mk.inj run).2
      exact ⟨_, _, .bigint token step, typed s .long (fun _ => 8) last⟩
  | char =>
      rw [token] at run
      obtain ⟨d, one, run⟩ := read_ok_iff.mp run
      obtain ⟨lpar, run⟩ := expect_then_ok_iff.mp run
      obtain ⟨e, two, run⟩ := read_ok_iff.mp run
      obtain ⟨num, run⟩ := expect_then_ok_iff.mp run
      obtain ⟨_, s₁, set, run⟩ := bind_ok_iff.mp run
      obtain rfl := (Prod.mk.inj set).2
      obtain ⟨r, three, run⟩ := read_ok_iff.mp run
      obtain ⟨rpar, rfl⟩ := expect_ok_iff.mp run
      exact ⟨_, _, .char token one lpar two num three rpar step,
        typed ((s.seek d).seek e) .char (fun c => atoi c.lexum) last⟩
  | _ =>
      rw [token] at run
      cases (Prod.mk.inj run).1

theorem param_does (var : s.cursor.token = .var) (run : param G s = (.ok (), s')) :
    (params G.src).Round G.src s s' := by
  obtain ⟨_, s₁, add, run⟩ := bind_ok_iff.mp run
  have added : s₁.cursor = s.cursor ∧ s₁.dp.uparams = s.dp.uparams ++ [{
      name := s.cursor.lexum
      type := .int
      len := 0
      likepattern := false
      idxs := [] }] := by
    unfold addParam at add
    split at add
    · obtain rfl := (Prod.mk.inj add).2
      exact ⟨rfl, rfl⟩
    · cases (Prod.mk.inj add).1
  obtain ⟨d, step, run⟩ := read_ok_iff.mp run
  obtain ⟨_, s₂, type, run⟩ := bind_ok_iff.mp run
  obtain ⟨c, last, run⟩ := read_ok_iff.mp run
  obtain ⟨_, _, at', uparams⟩ := paramType_does (s := s₁.seek d) added.2 type last
  refine ⟨_, c, .var var (added.1 ▸ step) at', ?_⟩
  rw [token_run, Parse.seek_cursor] at run
  by_cases comma : c.token = .comma
  · rw [if_pos comma] at run
    obtain ⟨step, same⟩ := next_ok_iff.mp run
    refine .inl ⟨comma, step, ?_⟩
    rw [same]
    exact uparams.trans (List.append_nil _).symm
  · rw [if_neg comma] at run
    obtain rfl := (Prod.mk.inj run).2
    exact .inr ⟨comma, rfl, uparams⟩

/-! ## The four lists -/

inductive Listing where
  | literals | columns | values | params
  deriving DecidableEq, Repr

namespace Listing

/-- The loop that reads the list; `select` is what stands in its place behind IN. -/
def loop (G : Given) (select : Parser Unit) (rounds : Nat) : Listing → Parser Unit
  | .literals => inItems G select rounds
  | .columns => insertFields G rounds
  | .values => insertValues G rounds
  | .params => loopWhile rounds (fun tok => tok = .var) (param G)

/-- The list is elements with single commas between them, and they are kept in their order. -/
def Separated (src : Bytes) (s s' : Parse) : Listing → Prop
  | .literals => (Sql.literals src).Separated src s s'
  | .columns => (Sql.columns src).Separated src s s'
  | .values => (rowValues src).Separated src s s'
  | .params => (Sql.params src).Separated src s s'

/-- Two elements stand side by side, or a comma is the last of the list, or a value is a call of
AVG, MAX, MIN or SUM. -/
def Flawed (src : Bytes) (c : Cursor) : Listing → Prop
  | .literals => (Sql.literals src).Flawed src c
  | .columns => (Sql.columns src).Flawed src c
  | .values => (rowValues src).Flawed src c
  | .params => (Sql.params src).Flawed src c

end Listing

theorem inItems_literals {select : Parser Unit} (literal : s.cursor.token ≠ .select)
    (run : inItems G select rounds s = (.ok (), s')) :
    (literals G.src).Separated G.src s s' ↔ ¬ (literals G.src).Flawed G.src s.cursor := by
  have loop : inItems G select rounds s =
      loopWhile rounds (literals G.src).starts (literalRound G) s := by
    show (if s.cursor.token = .select then _ else _ : Parser Unit) s = _
    rw [if_neg literal]
    rfl
  obtain ⟨is, runs, out⟩ := Form.loop_runs rounds (fun _ _ _ => literalRound_does) (fun _ _ => rfl)
    (loop.symm.trans run)
  exact Form.separated_iff (literals_lawful G.src) runs out

theorem insertFields_columns (run : insertFields G rounds s = (.ok (), s')) :
    (columns G.src).Separated G.src s s' ↔ ¬ (columns G.src).Flawed G.src s.cursor := by
  obtain ⟨is, runs, out⟩ := Form.loop_runs (F := columns G.src) rounds
    (fun _ _ id => columnRound_does (of_decide_eq_true id)) (fun _ _ => rfl) run
  exact Form.separated_iff (columns_lawful G.src) runs out

theorem insertValues_values (run : insertValues G rounds s = (.ok (), s')) :
    (rowValues G.src).Separated G.src s s' ↔ ¬ (rowValues G.src).Flawed G.src s.cursor := by
  obtain ⟨is, runs, out⟩ := Form.loop_runs (F := rowValues G.src) rounds
    (fun _ _ => valueRound_does) (fun _ _ => rfl) run
  exact Form.separated_iff (rowValues_lawful G) runs out

theorem paramLoop_params
    (run : loopWhile rounds (fun tok => tok = .var) (param G) s = (.ok (), s')) :
    (params G.src).Separated G.src s s' ↔ ¬ (params G.src).Flawed G.src s.cursor := by
  obtain ⟨is, runs, out⟩ := Form.loop_runs (F := params G.src) rounds
    (fun _ _ var => param_does (of_decide_eq_true var)) (fun _ _ => rfl) run
  exact Form.separated_iff (params_lawful G.src) runs out

/-- A list that is accepted is separated and kept exactly where it has no flaw. -/
theorem list_separated_iff (G : Given) (select : Parser Unit) (rounds : Nat) (listing : Listing)
    (s s' : Parse) (accepted : listing.loop G select rounds s = (.ok (), s'))
    (literal : listing = .literals → s.cursor.token ≠ .select) :
    listing.Separated G.src s s' ↔ ¬ listing.Flawed G.src s.cursor := by
  cases listing with
  | literals => exact inItems_literals (literal rfl) accepted
  | columns => exact insertFields_columns accepted
  | values => exact insertValues_values accepted
  | params => exact paramLoop_params accepted

theorem ran {m : Parser Unit} (ok : (m s).1 = .ok ()) : m s = (.ok (), (m s).2) := Prod.ext ok rfl

/-- Two columns. -/
theorem list_separated_columns : ∃ s',
    Listing.columns.loop (firstNamed "a, b)") (stop .errSyntax) 11
      (Parser.start.seek (cursorAt "a, b)" 1)) = (.ok (), s') ∧
    (Listing.columns.Separated (firstNamed "a, b)").src
        (Parser.start.seek (cursorAt "a, b)" 1)) s' ↔
      ¬ Listing.columns.Flawed (firstNamed "a, b)").src
        (Parser.start.seek (cursorAt "a, b)" 1)).cursor) := by
  have accepted : (Listing.columns.loop (firstNamed "a, b)") (stop .errSyntax) 11
      (Parser.start.seek (cursorAt "a, b)" 1))).1 = .ok () := by decide +kernel
  exact ⟨_, ran accepted, list_separated_iff _ _ _ _ _ _ (ran accepted) nofun⟩

/-- The literals `1 2`. -/
theorem literals_run_together : ¬ ∀ (G : Given) (select : Parser Unit) (rounds : Nat)
    (listing : Listing) (s s' : Parse), listing.loop G select rounds s = (.ok (), s') →
      (listing = .literals → s.cursor.token ≠ .select) → listing.Separated G.src s s' := by
  intro separates
  obtain ⟨num, step, num', accepted⟩ : (cursorAt "1 2)" 1).token = .num ∧
      (sqltokenizer (lit "1 2)") (cursorAt "1 2)" 1)).1 = true ∧
      (cursorAt "1 2)" 2).token = .num ∧
      (inItems (firstNamed "1 2)") (stop .errSyntax) 9
        (Parser.start.seek (cursorAt "1 2)" 1))).1 = .ok () := by decide +kernel
  have literal : (Parser.start.seek (cursorAt "1 2)" 1)).cursor.token ≠ .select := by
    rw [Parse.seek_cursor, num]
    nofun
  have starts : (literals (lit "1 2)")).starts (cursorAt "1 2)" 2).token = true := by
    rw [num']
    rfl
  have beside : (literals (lit "1 2)")).Flawed (lit "1 2)") (cursorAt "1 2)" 1) :=
    .beside (.num num (cursorAt_step step)) starts
  have separated := separates _ _ _ .literals _ _ (ran accepted) fun _ => literal
  exact (inItems_literals literal (ran accepted)).mp separated beside

end Jspp.Sql
