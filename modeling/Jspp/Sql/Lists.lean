/-
# Sql.Lists -- the lists of GROUP BY and ORDER BY

A list is fields and calls with commas between them; behind an element of ORDER BY
its direction may stand.  `Translates` says what the translation of such a clause
should be: the same elements in the same order, each with its direction, and
ascending where none is written.

* `orderList_run`: what the loop of `parseOrderBy` makes of a list without
  aggregates: DESC where no direction is written.
* `orderList_aggregate`: an aggregate makes the loop fail or run past its list.
* `clause_kept_iff`: GROUP BY is never translated; ORDER BY is for the lists of
  `Kept`.
-/
import Jspp.Sql.Reading

namespace Jspp.Sql

open Jspp.Splc (Bytes lit toupper)
open Jspp.Theory
open Jspp.Sql.Parser

set_option autoImplicit false

inductive Element where
  | field (f : Field)
  | call (fn : Function)
  deriving DecidableEq, Repr

def Element.text : Element → Bytes
  | .field f => f.text
  | .call fn => fn.text

/-- A call of AVG, MAX, MIN or SUM. -/
def Element.isAggregate : Element → Bool
  | .field _ => false
  | .call fn => fn.isAggregate

inductive Direction where
  | asc | desc
  deriving DecidableEq, Repr

def Direction.text : Direction → Bytes
  | .asc => lit " ASC "
  | .desc => lit " DESC "

/-! ## Lists in the text -/

inductive ElementAt (src : Bytes) (c : Cursor) : Element → Cursor → Prop where
  | field {f : Field} {c' : Cursor} (field : FieldAt src c f c') : ElementAt src c (.field f) c'
  | call {fn : Function} {c' : Cursor} (call : CallAt src c fn c') : ElementAt src c (.call fn) c'

/-- The direction behind an element, if one is written. -/
inductive DirectionAt (src : Bytes) (c : Cursor) : Option Direction → Cursor → Prop where
  | asc {c' : Cursor} (asc : c.token = .asc) (step : Step src c c') :
      DirectionAt src c (some .asc) c'
  | desc {c' : Cursor} (desc : c.token = .desc) (step : Step src c c') :
      DirectionAt src c (some .desc) c'
  | none (asc : c.token ≠ .asc) (desc : c.token ≠ .desc) : DirectionAt src c none c

/-- Items with commas between them. -/
inductive ListAt {ι : Type} (src : Bytes) (item : Cursor → ι → Cursor → Prop) :
    Cursor → List ι → Cursor → Prop where
  | last {c c' : Cursor} {i : ι} (at' : item c i c') (ends : c'.token ≠ .comma) :
      ListAt src item c [i] c'
  | more {c d e c' : Cursor} {i : ι} {is : List ι} (at' : item c i d) (comma : d.token = .comma)
      (step : Step src d e) (rest : ListAt src item e is c') : ListAt src item c (i :: is) c'

/-- An element of ORDER BY, with the direction behind it. -/
def OrderedAt (src : Bytes) (c : Cursor) (item : Element × Option Direction) (c' : Cursor) : Prop :=
  ∃ d, ElementAt src c item.1 d ∧ DirectionAt src d item.2 c'

inductive Clause where
  | groupBy (elements : List Element)
  | orderBy (items : List (Element × Option Direction))
  deriving DecidableEq, Repr

/-- The clause with its list; what stands behind it starts no further element. -/
inductive ClauseAt (src : Bytes) (c : Cursor) : Clause → Cursor → Prop where
  | groupBy {d e c' : Cursor} {elements : List Element} (group : c.token = .group)
      (step : Step src c d) (by' : d.token = .by) (step' : Step src d e)
      (list : ListAt src (ElementAt src) e elements c') (id : c'.token ≠ .id)
      (func : c'.token ≠ .func) : ClauseAt src c (.groupBy elements) c'
  | orderBy {d e c' : Cursor} {items : List (Element × Option Direction)}
      (order : c.token = .order) (step : Step src c d) (by' : d.token = .by) (step' : Step src d e)
      (list : ListAt src (OrderedAt src) e items c') (id : c'.token ≠ .id)
      (func : c'.token ≠ .func) : ClauseAt src c (.orderBy items) c'

/-! ## The translation that is wanted -/

/-- The direction as it is written, and ascending where it is not: ASC is the default of the
translation, too. -/
def Directed : Option Direction → Bytes → Prop
  | some direction, text => text = direction.text
  | none, text => text = [] ∨ text = Direction.asc.text

/-- An element with its direction. -/
def Ordered (item : Element × Option Direction) (text : Bytes) : Prop :=
  ∃ direction, Directed item.2 direction ∧ text = item.1.text ++ direction

def commas (texts : List Bytes) : Bytes := (lit ",").intercalate texts

/-- The clause is accepted up to its end, and the translation has its elements in their order. -/
def Translates (G : Given) (rounds : Nat) (s : Parse) (c : Cursor) : Clause → Prop
  | .groupBy elements => ∃ s', parseGroupBy G rounds s = (.ok (), s') ∧
      Writes s c (lit " GROUP BY " ++ commas (elements.map Element.text)) s'
  | .orderBy items => ∃ s' texts, parseOrderBy G rounds s = (.ok (), s') ∧
      List.Forall₂ Ordered items texts ∧ Writes s c (lit " ORDER BY " ++ commas texts) s'

/-- The lists that are kept: none of GROUP BY, and of ORDER BY those that start with a field,
have no aggregate with a field and a direction behind every element. -/
def Kept : Clause → Prop
  | .groupBy _ => False
  | .orderBy items => (∃ f, items.head?.map Prod.fst = some (.field f)) ∧
      ∀ item ∈ items, item.1.isAggregate = false ∧ item.2.isSome

/-! ## Steps through a list -/

variable {G : Given} {s s' : Parse} {rounds : Nat}

theorem Step.reached {src : Bytes} {c d : Cursor} (step : Step src c d) : Reached src c d := by
  have reached := sqltokenizer_reached src c
  rwa [step] at reached

theorem Step.passed {src : Bytes} {c d : Cursor} (step : Step src c d) (some : c.token ≠ .eos) :
    Passed src c d := by
  have passed : Passed src c (sqltokenizer src c).2 := sqltokenizer_passed (.inl some)
  rwa [step] at passed

theorem FieldAt.passed {src : Bytes} {c c' : Cursor} {f : Field} (field : FieldAt src c f c') :
    Passed src c c' := by
  cases field with
  | plain id step => exact step.passed (by rw [id]; nofun)
  | dotted id step dot step' id' step'' =>
      exact (step.passed (by rw [id]; nofun)).trans (step'.reached.trans step''.reached)

theorem CallAt.passed {src : Bytes} {c c' : Cursor} {fn : Function} (call : CallAt src c fn c') :
    Passed src c c' := by
  cases call with
  | getdate func name step lpar step' rpar last =>
      exact (step.passed (by rw [func]; nofun)).trans (step'.reached.trans last.reached)
  | count func name step lpar step' splat step'' rpar last =>
      exact (step.passed (by rw [func]; nofun)).trans
        (step'.reached.trans (step''.reached.trans last.reached))
  | aggregate func name step lpar step' field rpar last =>
      exact (step.passed (by rw [func]; nofun)).trans
        (step'.reached.trans (field.passed.reached.trans last.reached))

theorem ElementAt.passed {src : Bytes} {c c' : Cursor} {e : Element} (at' : ElementAt src c e c') :
    Passed src c c' := by
  cases at' with
  | field field => exact field.passed
  | call call => exact call.passed

theorem DirectionAt.reached {src : Bytes} {c c' : Cursor} {direction : Option Direction}
    (at' : DirectionAt src c direction c') : Reached src c c' := by
  cases at' with
  | asc _ step => exact step.reached
  | desc _ step => exact step.reached
  | none => exact Reached.refl _ _

theorem CallAt.func {src : Bytes} {c c' : Cursor} {fn : Function} (call : CallAt src c fn c') :
    c.token = .func := by
  cases call <;> assumption

theorem FieldAt.id {src : Bytes} {c c' : Cursor} {f : Field} (field : FieldAt src c f c') :
    c.token = .id := by
  cases field <;> assumption

/-- What starts an element. -/
def startsElement (tok : Sqltoken) : Bool := tok = .id ∨ tok = .func

theorem ElementAt.starts {src : Bytes} {c c' : Cursor} {e : Element} (at' : ElementAt src c e c') :
    startsElement c.token = true := by
  cases at' with
  | field field => simp [startsElement, field.id]
  | call call => simp [startsElement, call.func]

theorem ElementAt.field_of_id {src : Bytes} {c c' : Cursor} {e : Element}
    (at' : ElementAt src c e c') (id : c.token = .id) : ∃ f, e = .field f := by
  cases at' with
  | @field f => exact ⟨f, rfl⟩
  | call call =>
      rw [call.func] at id
      cases id

theorem fieldOrFunction_reads {e : Element} {c : Cursor} (at' : ElementAt G.src s.cursor e c)
    (plain : e.isAggregate = false) :
    ∃ s', fieldOrFunction G s = (.ok (), s') ∧ Writes s c e.text s' := by
  cases at' with
  | field field =>
      obtain ⟨s', run, writes⟩ := parseField_reads field
      refine ⟨s', ?_, writes⟩
      show (if s.cursor.token = .id then _ else _ : Parser Unit) s = _
      rw [if_pos field.id]
      exact run
  | call call =>
      obtain ⟨s', run, writes⟩ := parseFunction_reads (.plain call plain)
      refine ⟨s', ?_, writes⟩
      show (if s.cursor.token = .id then _ else _ : Parser Unit) s = _
      rw [if_neg (by rw [call.func]; nofun)]
      exact run

/-- The direction the code writes: DESC where none is written. -/
def writtenDirection (direction : Option Direction) : Bytes := (direction.getD .desc).text

theorem direction_reads {d : Option Direction} {c : Cursor} (at' : DirectionAt G.src s.cursor d c) :
    ∃ s', direction G s = (.ok (), s') ∧ Writes s c (writtenDirection d) s' := by
  unfold direction
  rw [token_run]
  cases at' with
  | asc asc step =>
      rw [asc]
      exact ⟨_, next_reads (s := s.put (.text (lit " ASC "))) step,
        (Writes.put s (.text (lit " ASC "))).seek c⟩
  | desc desc step =>
      rw [desc]
      exact ⟨_, next_reads (s := s.put (.text (lit " DESC "))) step,
        (Writes.put s (.text (lit " DESC "))).seek c⟩
  | none asc desc =>
      refine ⟨s.put (.text (lit " DESC ")), ?_, Writes.put s (.text (lit " DESC "))⟩
      generalize s.cursor.token = tok at asc desc
      cases tok with
      | asc => exact absurd rfl asc
      | desc => exact absurd rfl desc
      | _ => rfl

/-- What `parseOrderBy` does behind an element. -/
def behindElement (G : Given) : Parser Unit := do
  direction G
  if (← token) ≠ .comma then pure ()
  else
    next G
    text ","
    let tok ← token
    if tok ≠ .id ∧ tok ≠ .func then stop .expFields else pure ()

def orderRound (G : Given) : Parser Unit := do
  fieldOrFunction G
  behindElement G

def orderLoop (G : Given) (rounds : Nat) : Parser Unit :=
  loopWhile rounds (fun tok => tok = .id ∨ tok = .func) (orderRound G)

theorem behindElement_last {d : Option Direction} {c : Cursor}
    (at' : DirectionAt G.src s.cursor d c) (ends : c.token ≠ .comma) :
    ∃ s', behindElement G s = (.ok (), s') ∧ Writes s c (writtenDirection d) s' := by
  obtain ⟨s', run, writes⟩ := direction_reads at'
  refine ⟨s', ?_, writes⟩
  rw [behindElement, Attempt.bind_ok run, token_run, writes.cursor, if_pos ends]
  rfl

theorem behindElement_comma {d : Option Direction} {c e : Cursor}
    (at' : DirectionAt G.src s.cursor d c) (comma : c.token = .comma) (step : Step G.src c e)
    (starts : startsElement e.token = true) :
    ∃ s', behindElement G s = (.ok (), s') ∧ Writes s e (writtenDirection d ++ lit ",") s' := by
  obtain ⟨s₁, run, writes⟩ := direction_reads at'
  refine ⟨(s₁.seek e).put (.text (lit ",")), ?_, (writes.seek e).append (.text (lit ","))⟩
  rw [behindElement, Attempt.bind_ok run, token_run, writes.cursor, if_neg (not_not.mpr comma),
    read_ok_iff]
  refine ⟨e, writes.cursor ▸ step, ?_⟩
  show (if e.token ≠ .id ∧ e.token ≠ .func then _ else _ : Parser Unit) _ = _
  rw [if_neg (by simp only [startsElement, decide_eq_true_eq] at starts; tauto)]
  rfl

theorem commas_single (text : Bytes) : commas [text] = text := by
  simp [commas, List.intercalate]

theorem commas_cons (text : Bytes) {texts : List Bytes} (more : texts ≠ []) :
    commas (text :: texts) = text ++ lit "," ++ commas texts := by
  obtain ⟨next, rest, rfl⟩ := List.exists_cons_of_ne_nil more
  simp [commas, List.intercalate, List.intersperse]

theorem ListAt.ne_nil {ι : Type} {src : Bytes} {item : Cursor → ι → Cursor → Prop} {c c' : Cursor}
    {is : List ι} (list : ListAt src item c is c') : is ≠ [] := by
  cases list <;> nofun

/-- An element of ORDER BY as the code writes it. -/
def orderText (item : Element × Option Direction) : Bytes :=
  item.1.text ++ writtenDirection item.2

theorem OrderedAt.starts {src : Bytes} {c c' : Cursor} {item : Element × Option Direction}
    (at' : OrderedAt src c item c') : startsElement c.token = true := by
  obtain ⟨d, element, -⟩ := at'
  exact element.starts

theorem ListAt.head {ι : Type} {src : Bytes} {item : Cursor → ι → Cursor → Prop} {c c' : Cursor}
    {is : List ι} (list : ListAt src item c is c') : ∃ i d, item c i d ∧ is.head? = some i := by
  cases list with
  | last at' _ => exact ⟨_, _, at', rfl⟩
  | more at' _ _ _ => exact ⟨_, _, at', rfl⟩

theorem ListAt.starts {src : Bytes} {c c' : Cursor} {items : List (Element × Option Direction)}
    (list : ListAt src (OrderedAt src) c items c') : startsElement c.token = true := by
  obtain ⟨item, d, at', -⟩ := list.head
  exact at'.starts

/-- What the loop makes of a list without aggregates. -/
theorem orderList_run {c c' : Cursor} {items : List (Element × Option Direction)}
    (list : ListAt G.src (OrderedAt G.src) c items c') (id : c'.token ≠ .id)
    (func : c'.token ≠ .func) (plain : ∀ item ∈ items, item.1.isAggregate = false)
    (here : s.cursor = c) (room : left G.src c < rounds) :
    ∃ s', orderLoop G rounds s = (.ok (), s') ∧ Writes s c' (commas (items.map orderText)) s' := by
  induction list generalizing s rounds with
  | @last c c' item at' ends =>
      obtain ⟨d, element, direction⟩ := at'
      subst here
      obtain ⟨s₁, one, first⟩ := fieldOrFunction_reads element
        (plain item (List.mem_singleton_self _))
      obtain ⟨s₂, two, second⟩ := behindElement_last (s := s₁) (first.cursor.symm ▸ direction) ends
      have whole := first.trans second
      have less := element.passed.left
      obtain ⟨rounds, rfl⟩ : ∃ n, rounds = n + 1 + 1 := ⟨rounds - 2, by omega⟩
      have round : orderRound G s = (.ok (), s₂) := (Attempt.bind_ok one).trans two
      have again : orderLoop G (rounds + 1 + 1) s = orderLoop G (rounds + 1) (s₂.lapped s.cursor) :=
        loopWhile_again element.starts round
      have ended : orderLoop G (rounds + 1) (s₂.lapped s.cursor) = (.ok (), s₂.lapped s.cursor) := by
        refine loopWhile_end ?_
        show decide (s₂.cursor.token = .id ∨ s₂.cursor.token = .func) = false
        rw [second.cursor]
        simp [id, func]
      refine ⟨_, again.trans ended, ?_⟩
      rw [List.map_singleton, commas_single]
      exact whole.lapped _
  | @more c d e c' item items at' comma step rest ih =>
      obtain ⟨x, element, direction⟩ := at'
      subst here
      obtain ⟨s₁, one, first⟩ := fieldOrFunction_reads element (plain item List.mem_cons_self)
      obtain ⟨s₂, two, second⟩ := behindElement_comma (s := s₁) (first.cursor.symm ▸ direction)
        comma step rest.starts
      have whole := first.trans second
      obtain ⟨rounds, rfl⟩ : ∃ n, rounds = n + 1 := ⟨rounds - 1, by omega⟩
      have round : orderRound G s = (.ok (), s₂) := (Attempt.bind_ok one).trans two
      have again : orderLoop G (rounds + 1) s = orderLoop G rounds (s₂.lapped s.cursor) :=
        loopWhile_again element.starts round
      have less := (element.passed.trans (direction.reached.trans step.reached)).left
      obtain ⟨s₃, more, writes⟩ := ih id func
        (fun item mem => plain item (List.mem_cons_of_mem _ mem)) (s := s₂.lapped s.cursor)
        second.cursor (by omega : left G.src e < rounds)
      refine ⟨s₃, again.trans more, ?_⟩
      rw [List.map_cons, commas_cons _ (by simpa using rest.ne_nil), orderText]
      simpa using (whole.lapped s.cursor).trans writes

/-! ## Aggregates -/

theorem FieldAt.unique {src : Bytes} {c d d' : Cursor} {f f' : Field} (one : FieldAt src c f d)
    (two : FieldAt src c f' d') : f = f' ∧ d = d' := by
  cases one with
  | plain id step single =>
      cases two with
      | plain id' step' single' => exact ⟨rfl, step.unique step'⟩
      | dotted id' step' dot _ _ _ => exact absurd dot (step.unique step' ▸ single)
  | dotted id step dot step' id' step'' =>
      cases two with
      | plain _ other single => exact absurd dot (other.unique step ▸ single)
      | dotted _ other _ other' _ other'' =>
          obtain rfl := step.unique other
          obtain rfl := step'.unique other'
          exact ⟨rfl, step''.unique other''⟩

theorem aggregates_plain : ∀ lexum ∈ aggregates.map lit,
    lexum ≠ lit "GETDATE" ∧ lexum ≠ lit "COUNT" := by decide

/-- Behind the parenthesis of an aggregate the code wants another one. -/
theorem parseFunction_aggregate {name : Bytes} {f : Field} {c : Cursor} {a : Unit}
    (call : CallAt G.src s.cursor (.aggregate name f) c)
    (run : parseFunction G s = (.ok a, s')) : c.token = .rpar ∧ Step G.src c s'.cursor := by
  obtain ⟨fn, taken⟩ := parseFunction_at run
  cases call with
  | aggregate func name step lpar step' field rpar last =>
      cases taken with
      | plain other plain =>
          cases other with
          | getdate _ date => exact absurd date (aggregates_plain _ name).1
          | count _ count => exact absurd count (aggregates_plain _ name).2
          | aggregate => cases plain
      | aggregate _ _ one _ two field' passed rpar' last' =>
          obtain rfl := step.unique one
          obtain rfl := step'.unique two
          obtain ⟨-, rfl⟩ := field.unique field'
          obtain rfl := last.unique passed
          exact ⟨rpar', last'⟩

theorem behindElement_goes (s : Parse) : Goes G (behindElement G) s :=
  Runs.seq direction_goes fun _ _ _ => comma_goes fun _ _ => next_then (text_then (token_then
    (Attempt.Does.ite (fun _ => stop_runs) fun _ => Attempt.Does.pure trivial)))

theorem orderRound_takes (s : Parse) : Takes G (orderRound G) s :=
  fieldOrFunction_takes.bind fun _ s₁ _ passed => (behindElement_goes s₁).passed passed

/-- What goes on goes no way back. -/
theorem Goes.reached {α : Type} {m : Parser α} {a : α} (goes : Goes G m s)
    (run : m s = (.ok a, s')) : Reached G.src s.cursor s'.cursor := by
  have reached := chain_reached goes.chain
  rwa [run] at reached

theorem orderRound_aggregate {e : Element} {d : Cursor} (element : ElementAt G.src s.cursor e d)
    (aggregate : e.isAggregate = true) (run : orderRound G s = (.ok (), s')) :
    d.token = .rpar ∧ left G.src s'.cursor < left G.src d := by
  cases element with
  | field => cases aggregate
  | @call fn _ call =>
      obtain ⟨_, s₁, one, two⟩ := bind_ok_iff.mp run
      have function : parseFunction G s = (.ok (), s₁) := by
        have run : (if s.cursor.token = .id then _ else _ : Parser Unit) s = _ := one
        rwa [if_neg (by rw [call.func]; nofun)] at run
      cases fn with
      | aggregate name f =>
          obtain ⟨rpar, step⟩ := parseFunction_aggregate call function
          have less := (step.passed (by rw [rpar]; nofun)).left
          have reached := ((behindElement_goes s₁).reached two).left
          exact ⟨rpar, by omega⟩
      | _ => cases aggregate

theorem DirectionAt.rpar {src : Bytes} {c c' : Cursor} {direction : Option Direction}
    (at' : DirectionAt src c direction c') (rpar : c.token = .rpar) : c' = c := by
  cases at' with
  | none => rfl
  | asc asc => rw [rpar] at asc; cases asc
  | desc desc => rw [rpar] at desc; cases desc

/-- With an aggregate in the list the loop fails, or reads past the end of the list. -/
theorem orderList_aggregate {c c' : Cursor} {items : List (Element × Option Direction)}
    (list : ListAt G.src (OrderedAt G.src) c items c')
    (aggregate : ∃ item ∈ items, item.1.isAggregate = true) (here : s.cursor = c)
    (room : left G.src c < rounds) (run : orderLoop G rounds s = (.ok (), s')) :
    left G.src s'.cursor < left G.src c' := by
  have loops (s : Parse) (rounds : Nat) (room : left G.src s.cursor < rounds) :
      Goes G (orderLoop G rounds) s :=
    loopWhile_goes room fun s' _ _ => orderRound_takes s'
  induction list generalizing s rounds with
  | @last c c' item at' ends =>
      obtain ⟨d, element, direction⟩ := at'
      subst here
      have aggregate : item.1.isAggregate = true := by simpa using aggregate
      rcases loopWhile_ok_cases run with ⟨stops, -⟩ | ⟨-, rounds, rfl, s₁, one, more⟩
      · exact absurd (stops.symm.trans element.starts) nofun
      obtain ⟨rpar, less⟩ := orderRound_aggregate element aggregate one
      have passed := element.passed.left
      have reached := ((loops (s₁.lapped s.cursor) rounds
        (Nat.lt_of_lt_of_le less (by omega))).reached more).left
      rw [direction.rpar rpar]
      exact Nat.lt_of_le_of_lt reached less
  | @more c d e c' item items at' comma step rest ih =>
      obtain ⟨x, element, direction⟩ := at'
      subst here
      rcases loopWhile_ok_cases run with ⟨stops, -⟩ | ⟨-, rounds, rfl, s₁, one, more⟩
      · exact absurd (stops.symm.trans element.starts) nofun
      have less := (element.passed.trans (direction.reached.trans step.reached)).left
      cases head : item.1.isAggregate with
      | true =>
          obtain ⟨rpar, -⟩ := orderRound_aggregate element head one
          rw [direction.rpar rpar, rpar] at comma
          cases comma
      | false =>
          obtain ⟨s₂, field, first⟩ := fieldOrFunction_reads element head
          obtain ⟨s₃, behind, second⟩ := behindElement_comma (s := s₂)
            (first.cursor.symm ▸ direction) comma step rest.starts
          have same : s₃ = s₁ :=
            (Prod.mk.inj (((Attempt.bind_ok field).trans behind).symm.trans one)).2
          obtain ⟨other, mem, aggregate⟩ := aggregate
          have inside : other ∈ items := (List.mem_cons.mp mem).resolve_left fun same => by
            rw [same, head] at aggregate
            cases aggregate
          exact ih ⟨other, inside, aggregate⟩ (s := s₁.lapped s.cursor)
            (same ▸ second.cursor) (by omega) more

/-! ## The clauses -/

theorem parseOrderBy_order {d e : Cursor} (order : s.cursor.token = .order)
    (step : Step G.src s.cursor d) (by' : d.token = .by) (step' : Step G.src d e) :
    parseOrderBy G rounds s = (do
      expect .id .expFields
      orderLoop G rounds : Parser Unit) (((s.seek d).seek e).put (.text (lit " ORDER BY "))) := by
  show (if s.cursor.token ≠ .order then _ else _ : Parser Unit) s = _
  rw [if_neg (not_not.mpr order), Attempt.bind_ok (next_reads step),
    Attempt.bind_ok (expect_run (s := s.seek d) by'), Attempt.bind_ok (next_reads step')]
  rfl

/-- The first test of the list holds of every token. -/
theorem parseGroupBy_group {d e : Cursor} (group : s.cursor.token = .group)
    (step : Step G.src s.cursor d) (by' : d.token = .by) (step' : Step G.src d e) :
    (parseGroupBy G rounds s).1 = .error (.error (some .expFields)) := by
  have run : parseGroupBy G rounds s =
      parseFieldFnList G rounds (((s.seek d).seek e).put (.text (lit " GROUP BY "))) := by
    show (if s.cursor.token ≠ .group then _ else _ : Parser Unit) s = _
    rw [if_neg (not_not.mpr group), Attempt.bind_ok (next_reads step),
      Attempt.bind_ok (expect_run (s := s.seek d) by'), Attempt.bind_ok (next_reads step')]
    rfl
  have both (tok : Sqltoken) : tok ≠ .id ∨ tok ≠ .func := by cases tok <;> simp
  rw [run]
  show ((if _ then _ else _ : Parser Unit) _).1 = _
  rw [if_pos (both _)]
  rfl

theorem commas_eq (text : Bytes) (texts : List Bytes) :
    commas (text :: texts) = text ++ texts.flatMap (lit "," ++ ·) := by
  induction texts generalizing text with
  | nil => simp [commas_single]
  | cons next rest ih =>
      rw [commas_cons _ (List.cons_ne_nil _ _), ih, List.flatMap_cons, List.append_assoc,
        List.append_assoc]

/-- DESC is no ascending order. -/
theorem direction_written {direction : Option Direction} {text rest rest' : Bytes}
    (directed : Directed direction text) (start : ∀ b ∈ rest.head?, b = 44)
    (same : text ++ rest = writtenDirection direction ++ rest') : direction.isSome := by
  cases direction with
  | some => rfl
  | none =>
      rcases directed with rfl | rfl
      · have head := congrArg List.head? same
        have first : rest.head? = some 32 := head.trans rfl
        exact absurd (start 32 (by rw [first]; rfl)) (by decide)
      · have second := congrArg (fun bytes => bytes[1]?) same
        exact absurd (show (some 65 : Option UInt8) = some 68 from second) (by decide)

/-- Texts with commas between them are what the code writes only where every direction is
written. -/
theorem directions_written {items : List (Element × Option Direction)} {texts : List Bytes}
    (ordered : List.Forall₂ Ordered items texts)
    (same : texts.flatMap (lit "," ++ ·) = (items.map orderText).flatMap (lit "," ++ ·)) :
    ∀ item ∈ items, item.2.isSome := by
  induction ordered with
  | nil => nofun
  | @cons item text items texts order rest ih =>
      obtain ⟨direction, directed, rfl⟩ := order
      rw [List.map_cons, List.flatMap_cons, List.flatMap_cons, orderText] at same
      simp only [List.append_assoc] at same
      have same := List.append_cancel_left (List.append_cancel_left same)
      have start : ∀ b ∈ (texts.flatMap (lit "," ++ ·)).head?, b = 44 := by
        intro b mem
        cases texts with
        | nil => cases mem
        | cons => exact (Option.mem_some_iff.mp mem).symm
      have written := direction_written directed start same
      intro item' mem
      rcases List.mem_cons.mp mem with rfl | mem
      · exact written
      · refine ih ?_ item' mem
        obtain ⟨d, some⟩ := Option.isSome_iff_exists.mp written
        rw [some] at directed same
        rw [directed] at same
        exact List.append_cancel_left same

theorem ordered_written {items : List (Element × Option Direction)}
    (written : ∀ item ∈ items, item.2.isSome) :
    List.Forall₂ Ordered items (items.map orderText) := by
  rw [List.forall₂_map_right_iff]
  refine List.forall₂_same.mpr fun item mem => ⟨writtenDirection item.2, ?_, rfl⟩
  obtain ⟨d, some⟩ := Option.isSome_iff_exists.mp (written item mem)
  rw [some]
  rfl

/-- A clause is accepted and translated to its elements in their order and direction exactly
where it is one of `Kept`. -/
theorem clause_kept_iff (G : Given) (rounds : Nat) (s : Parse) (clause : Clause) (c : Cursor)
    (at' : ClauseAt G.src s.cursor clause c) (room : left G.src s.cursor < rounds) :
    Translates G rounds s c clause ↔ Kept clause := by
  cases at' with
  | groupBy group step by' step' =>
      refine ⟨fun ⟨s', run, _⟩ => ?_, False.elim⟩
      have failed : (parseGroupBy G rounds s).1 = _ := parseGroupBy_group group step by' step'
      rw [run] at failed
      cases failed
  | @orderBy d e _ items order step by' step' list id func =>
      let s₀ := ((s.seek d).seek e).put (.text (lit " ORDER BY "))
      have start : Writes s e (lit " ORDER BY ") s₀ :=
        (((Writes.refl s).seek d).seek e).append (.text (lit " ORDER BY "))
      have less : left G.src e < rounds :=
        Nat.lt_of_le_of_lt (step.reached.trans step'.reached).left room
      constructor
      · rintro ⟨s', texts, run, ordered, writes⟩
        rw [parseOrderBy_order order step by' step'] at run
        obtain ⟨first, run⟩ := expect_then_ok_iff.mp run
        have plain : ∀ item ∈ items, item.1.isAggregate = false := by
          intro item mem
          by_contra aggregate
          have past := orderList_aggregate list ⟨item, mem, by simpa using aggregate⟩
            (s := s₀) rfl less run
          rw [writes.cursor] at past
          exact Nat.lt_irrefl _ past
        obtain ⟨s'', run', writes'⟩ := orderList_run list id func plain (s := s₀) rfl less
        obtain rfl := (Prod.mk.inj (run.symm.trans run')).2
        have same := writes.written.symm.trans (start.trans writes').written
        have same := List.append_cancel_left (List.append_cancel_left same)
        obtain ⟨item, x, ⟨y, element, -⟩, head⟩ := list.head
        refine ⟨element.field_of_id first |>.imp fun f same => by rw [head, Option.map_some, same],
          fun item mem => ⟨plain item mem, directions_written ordered ?_ item mem⟩⟩
        cases ordered with
        | nil => rfl
        | cons order rest =>
            rw [List.map_cons, commas_eq, commas_eq] at same
            rw [List.map_cons, List.flatMap_cons, List.flatMap_cons, List.append_assoc, same,
              List.append_assoc]
      · rintro ⟨⟨f, head⟩, all⟩
        obtain ⟨item, x, ⟨y, element, -⟩, same⟩ := list.head
        have first : e.token = .id := by
          rw [same, Option.map_some, Option.some.injEq] at head
          rw [head] at element
          cases element with
          | field field => exact field.id
        obtain ⟨s', run, writes⟩ := orderList_run list id func (fun item mem => (all item mem).1)
          (s := s₀) rfl less
        refine ⟨s', items.map orderText, ?_, ordered_written fun item mem => (all item mem).2,
          start.trans writes⟩
        rw [parseOrderBy_order order step by' step']
        exact expect_then_ok_iff.mpr ⟨first, run⟩

/-- Two fields with their directions. -/
theorem clause_kept_directions :
    Translates (firstNamed "order by f asc, g desc") 46
      (Parser.start.seek (cursorAt "order by f asc, g desc" 1)) (cursorAt "order by f asc, g desc" 8)
      (.orderBy [(.field ⟨lit "f", none⟩, some .asc), (.field ⟨lit "g", none⟩, some .desc)]) ↔
    Kept (.orderBy [(.field ⟨lit "f", none⟩, some .asc), (.field ⟨lit "g", none⟩, some .desc)]) := by
  obtain ⟨order, by', id, name, asc, comma, id', name', desc, eos, room, all⟩ :
      (cursorAt "order by f asc, g desc" 1).token = .order ∧
      (cursorAt "order by f asc, g desc" 2).token = .by ∧
      (cursorAt "order by f asc, g desc" 3).token = .id ∧
      (cursorAt "order by f asc, g desc" 3).lexum = lit "f" ∧
      (cursorAt "order by f asc, g desc" 4).token = .asc ∧
      (cursorAt "order by f asc, g desc" 5).token = .comma ∧
      (cursorAt "order by f asc, g desc" 6).token = .id ∧
      (cursorAt "order by f asc, g desc" 6).lexum = lit "g" ∧
      (cursorAt "order by f asc, g desc" 7).token = .desc ∧
      (cursorAt "order by f asc, g desc" 8).token = .eos ∧
      left (lit "order by f asc, g desc") (cursorAt "order by f asc, g desc" 1) < 46 ∧
      ∀ n < 8, (sqltokenizer (lit "order by f asc, g desc")
        (cursorAt "order by f asc, g desc" n)).1 = true := by
    decide +kernel
  have step (n : Nat) (less : n < 8) : Step (lit "order by f asc, g desc")
      (cursorAt "order by f asc, g desc" n) (cursorAt "order by f asc, g desc" (n + 1)) :=
    cursorAt_step (all n less)
  have field : FieldAt (lit "order by f asc, g desc") (cursorAt "order by f asc, g desc" 3)
      ⟨lit "f", none⟩ (cursorAt "order by f asc, g desc" 4) :=
    name ▸ .plain id (step 3 (by decide)) (by rw [asc]; nofun)
  have field' : FieldAt (lit "order by f asc, g desc") (cursorAt "order by f asc, g desc" 6)
      ⟨lit "g", none⟩ (cursorAt "order by f asc, g desc" 7) :=
    name' ▸ .plain id' (step 6 (by decide)) (by rw [desc]; nofun)
  exact clause_kept_iff _ _ _ _ _ (.orderBy order (step 1 (by decide)) by' (step 2 (by decide))
    (.more ⟨_, .field field, .asc asc (step 4 (by decide))⟩ comma (step 5 (by decide))
      (.last ⟨_, .field field', .desc desc (step 7 (by decide))⟩ (by rw [eos]; nofun)))
    (by rw [eos]; nofun) (by rw [eos]; nofun)) room

/-- GROUP BY with one field. -/
theorem groupBy_refused : ¬ ∀ (G : Given) (rounds : Nat) (s : Parse) (clause : Clause) (c : Cursor),
    ClauseAt G.src s.cursor clause c → left G.src s.cursor < rounds →
      Translates G rounds s c clause := by
  intro translates
  obtain ⟨group, one, by', two, id, three, eos, room, failed⟩ :
      (cursorAt "group by f" 1).token = .group ∧
      (sqltokenizer (lit "group by f") (cursorAt "group by f" 1)).1 = true ∧
      (cursorAt "group by f" 2).token = .by ∧
      (sqltokenizer (lit "group by f") (cursorAt "group by f" 2)).1 = true ∧
      (cursorAt "group by f" 3).token = .id ∧
      (sqltokenizer (lit "group by f") (cursorAt "group by f" 3)).1 = true ∧
      (cursorAt "group by f" 4).token = .eos ∧
      left (lit "group by f") (cursorAt "group by f" 1) < 21 ∧
      (parseGroupBy (firstNamed "group by f") 21
        (Parser.start.seek (cursorAt "group by f" 1))).1 = .error (.error (some .expFields)) := by
    decide +kernel
  have field : FieldAt (lit "group by f") (cursorAt "group by f" 3)
      ⟨(cursorAt "group by f" 3).lexum, none⟩ (cursorAt "group by f" 4) :=
    .plain id (cursorAt_step three) (by rw [eos]; nofun)
  obtain ⟨s', run, -⟩ := translates (firstNamed "group by f") 21
    (Parser.start.seek (cursorAt "group by f" 1)) _ _
    (.groupBy group (cursorAt_step one) by' (cursorAt_step two)
      (.last (.field field) (by rw [eos]; nofun)) (by rw [eos]; nofun) (by rw [eos]; nofun)) room
  rw [run] at failed
  cases failed

end Jspp.Sql
