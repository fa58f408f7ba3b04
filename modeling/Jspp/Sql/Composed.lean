/-
# Sql.Composed -- conditions and their predicates, conditions and their parentheses

A `Single` is a text that is one predicate and nothing else.  `Composes` compares a
condition without parentheses with the texts of its predicates: it is accepted where
each of them is, and is translated to their translations with the operators between
them.  `Keeps` is about the parentheses: what is accepted is balanced and keeps
them, and what is balanced is accepted.

* `Strung`: what the loop wants of predicates that follow each other.
* `conditions_compose_iff`: a condition composes where being well formed and being
  strung go together.
* `parens_kept_iff`: parentheses are kept where a condition that gets through closes
  all it opens, and has one at a time where it is balanced.
-/
import Mathlib.Algebra.GroupWithZero.Nat
import Jspp.Sql.Through

namespace Jspp.Sql

open Jspp.Splc (Bytes lit toupper)
open Jspp.Theory
open Jspp.Sql.Parser

set_option autoImplicit false

/-! ## Runs -/

/-- `parseConditions` accepts from `s` on, stops at `c` and appends `text`. -/
def Translated (G : Given) (caller : Cursor) (rounds cell : Nat)
    (allowFunctions ignoreTrailingRpar : Bool) (s : Parse) (c : Cursor) (text : Bytes) : Prop :=
  ∃ s', parseConditions G (subSelect G rounds caller) rounds cell allowFunctions
      ignoreTrailingRpar s = (.ok (), s') ∧ s'.cursor = c ∧ s'.written = s.written ++ text

/-- A text, and the cursors at its first and behind its last token. -/
structure Single where
  src : Bytes
  first : Cursor
  last : Cursor

namespace Single

/-- The text is the predicate. -/
structure Is (single : Single) (p : Predicate) : Prop where
  at' : PredicateAt single.src single.first p single.last
  eos : single.last.token = .eos

/-- The text is accepted, with the parameters of `s`, and translated to `text`. -/
def Translated (single : Single) (G : Given) (cell : Nat)
    (allowFunctions ignoreTrailingRpar : Bool) (s : Parse) (text : Bytes) : Prop :=
  Sql.Translated { G with src := single.src } single.first
    (left single.src single.first + 1) cell allowFunctions ignoreTrailingRpar
    (s.seek single.first) single.last text

end Single

/-- Between each two predicates an operator, and none behind the last. -/
def WellFormed : List Term → Prop
  | [] => False
  | [t] => t.op = none
  | t :: u :: ts => t.op.isSome ∧ WellFormed (u :: ts)

variable {G : Given} {s s' : Parse} {rounds cell : Nat} {caller c' : Cursor}
  {allowFunctions ignoreTrailingRpar : Bool} {ts : List Term} {singles : List Single}

/-- The predicate is accepted where it stands alone. -/
structure Term.Alone (G : Given) (s : Parse) (allowFunctions : Bool) (t : Term) : Prop where
  plain : t.extra = 0
  known : t.predicate.Known G s allowFunctions

/-- The predicates follow each other: no operator behind an IN list, an operator behind any other
that is not the last; comparisons with NULL only behind an IS; and room for all placeholders. -/
structure Strung (G : Given) (s : Parse) (ts : List Term) : Prop where
  among : ∀ t ∈ ts, t.predicate.isAmong = true → t.op = none
  linked : ts.Pairwise fun t _ => t.predicate.isAmong = true ∨ t.op.isSome
  null : ts.Pairwise fun t u => t.predicate.isIs = true → u.predicate.nullOnly = true
  room : Roomy G s [] ts

/-! ## Predicates alone -/

theorem single_through {enclosed : Prop} {p : Predicate} (outer : ¬ enclosed) :
    Through G s allowFunctions enclosed 0 false [] [⟨0, p, 0, none⟩] ↔
      Term.Alone G s allowFunctions ⟨0, p, 0, none⟩ := by
  constructor
  · intro through
    have fits := (through_iff.mp through).fits _ (List.mem_singleton_self _)
    exact ⟨Nat.le_zero.mp fits.least, fits.known⟩
  · rintro ⟨plain, known⟩
    have shut : Shut enclosed (0 + 0) 0 none [] :=
      ⟨Nat.zero_le _, Nat.zero_le _, fun _ => rfl, fun _ inside => absurd inside outer⟩
    cases p with
    | among f negated ls => exact .among (Nat.zero_le _) .done
    | isNull f negated => exact .isNull (Nat.zero_le _) shut nofun
    | compare f comparator o =>
        obtain ⟨more, accepts⟩ := known
        have zero : o.extra = 0 := plain
        have through : Through G s allowFunctions enclosed 0 false []
            [⟨0, .compare f comparator o, 0 + o.extra, none⟩] :=
          .compare (Nat.zero_le _) nofun accepts shut nofun
        rwa [zero] at through

theorem Single.Is.follows {single : Single} {p : Predicate} (is : single.Is p) :
    Follows ignoreTrailingRpar single.last := by
  have eos := is.eos
  exact ⟨by rw [eos]; nofun, by rw [eos]; nofun, by rw [eos]; nofun, by rw [eos]; nofun,
    fun rpar => nomatch eos.symm.trans rpar⟩

/-- A predicate that stands alone is translated to its text. -/
theorem Single.translated_iff {single : Single} {p : Predicate} (is : single.Is p)
    (cells : cell < s.cells.length) (text : Bytes) :
    single.Translated G cell allowFunctions ignoreTrailingRpar s text ↔
      Term.Alone G s allowFunctions ⟨0, p, 0, none⟩ ∧ text = p.text := by
  have conditions : ConditionsAt single.src single.first [⟨0, p, 0, none⟩] single.last :=
    .cons (.none _) is.at' (.none _) .bare (.nil _)
  obtain ⟨accepted, written⟩ := @conditions_through_iff { G with src := single.src }
    (s.seek single.first) (left single.src single.first + 1) cell ignoreTrailingRpar allowFunctions
    single.first single.last _ conditions is.follows cells (Reached.refl _ _)
    (Nat.lt_succ_self _)
  have through := @single_through { G with src := single.src } (s.seek single.first)
    allowFunctions (single.last.token = .rpar) p fun rpar => nomatch is.eos.symm.trans rpar
  have alone : Term.Alone { G with src := single.src } (s.seek single.first) allowFunctions
      ⟨0, p, 0, none⟩ ↔ Term.Alone G s allowFunctions ⟨0, p, 0, none⟩ :=
    ⟨fun alone => ⟨alone.plain, alone.known⟩, fun alone => ⟨alone.plain, alone.known⟩⟩
  have same : [Term.mk 0 p 0 none].flatMap Term.written = p.text := by
    cases p <;> simp [Term.written, Term.text]
  rw [through, alone] at accepted
  rw [same] at written
  constructor
  · rintro ⟨s', run, ended, appended⟩
    have whole := appended.symm.trans (written s' run ended)
    exact ⟨accepted.mp ⟨s', run, ended⟩, List.append_cancel_left whole⟩
  · rintro ⟨holds, rfl⟩
    obtain ⟨s', run, ended⟩ := accepted.mpr holds
    exact ⟨s', run, ended, written s' run ended⟩

theorem Term.alone_iff (t : Term) :
    Term.Alone G s allowFunctions ⟨0, t.predicate, 0, none⟩ ↔ t.Alone G s allowFunctions :=
  ⟨fun alone => ⟨alone.plain, alone.known⟩, fun alone => ⟨alone.plain, alone.known⟩⟩

/-- The predicates of a condition, each in a text of its own. -/
abbrev Apiece (ts : List Term) (singles : List Single) : Prop :=
  List.Forall₂ (fun t single => Single.Is single t.predicate) ts singles

theorem apiece_alone (each : Apiece ts singles) (cells : cell < s.cells.length) :
    (∀ single ∈ singles, ∃ text,
      single.Translated G cell allowFunctions ignoreTrailingRpar s text) ↔
      ∀ t ∈ ts, t.Alone G s allowFunctions := by
  induction each with
  | nil => simp
  | @cons t single ts singles is _ ih =>
      rw [List.forall_mem_cons, List.forall_mem_cons, ih]
      refine and_congr_left fun _ => ?_
      simp only [Single.translated_iff is cells, t.alone_iff]
      simp

/-- Their translations. -/
theorem apiece_texts (each : Apiece ts singles) (cells : cell < s.cells.length)
    (alone : ∀ t ∈ ts, t.Alone G s allowFunctions) :
    List.Forall₂ (fun single text =>
      Single.Translated single G cell allowFunctions ignoreTrailingRpar s text) singles
      (ts.map fun t => t.predicate.text) := by
  induction each with
  | nil => exact .nil
  | @cons t single ts singles is _ ih =>
      rw [List.forall_mem_cons] at alone
      exact .cons ((Single.translated_iff is cells _).mpr ⟨t.alone_iff.mpr alone.1, rfl⟩)
        (ih alone.2)

/-! ## Conditions without parentheses -/

/-- Neither is a parenthesis opened nor closed. -/
def Flat (ts : List Term) : Prop := ∀ t ∈ ts, t.opens = 0 ∧ t.closes = 0

/-- The texts of the predicates, with the operators between them. -/
def joined (ts : List Term) (texts : List Bytes) : Bytes :=
  (List.zipWith (fun t text => text ++ logicText t.op) ts texts).flatten

theorem joined_written (flat : Flat ts) :
    joined ts (ts.map fun t => t.predicate.text) = ts.flatMap Term.written := by
  induction ts with
  | nil => rfl
  | cons t ts ih =>
      have head : Term.written t = t.predicate.text ++ logicText t.op := by
        obtain ⟨opens, p, closes, op⟩ := t
        obtain ⟨rfl, rfl⟩ := flat _ List.mem_cons_self
        cases p <;> simp [Term.written, Term.text, logicText]
      rw [List.flatMap_cons, ← ih fun t mem => flat t (List.mem_cons_of_mem _ mem), head]
      rfl

theorem held_flat {enclosed : Prop} (flat : Flat ts) (plain : ∀ t ∈ ts, t.extra = 0) :
    Held enclosed 0 ts := by
  induction ts with
  | nil => rfl
  | cons t ts ih =>
      obtain ⟨opens, closes⟩ := flat t List.mem_cons_self
      have extra := plain t List.mem_cons_self
      refine ⟨by omega, ?_⟩
      split
      · rw [opens, extra, closes]
        exact ih (fun t mem => flat t (List.mem_cons_of_mem _ mem))
          fun t mem => plain t (List.mem_cons_of_mem _ mem)
      · exact fun _ => .inl (by rw [opens])

theorem passable_flat {enclosed : Prop} (flat : Flat ts) :
    Passable G s allowFunctions enclosed 0 false [] ts ↔
      (∀ t ∈ ts, t.Alone G s allowFunctions) ∧ Strung G s ts := by
  constructor
  · intro pass
    refine ⟨fun t mem => ?_, fun t mem among => ((pass.fits t mem).among among).2, pass.linked,
      pass.null, pass.room⟩
    have least := (pass.fits t mem).least
    rw [(flat t mem).2] at least
    exact ⟨Nat.le_zero.mp least, (pass.fits t mem).known⟩
  · rintro ⟨alone, among, linked, null, room⟩
    refine ⟨fun t mem => ?_, linked, nofun, null, room, held_flat flat fun t mem =>
      (alone t mem).plain⟩
    obtain ⟨opens, closes⟩ := flat t mem
    have extra := (alone t mem).plain
    exact ⟨by omega, by omega, by omega, fun is => ⟨closes, among t mem is⟩, (alone t mem).known⟩

/-- A condition that is well formed is accepted to its end exactly where each of its predicates
is accepted alone, and its translation is theirs, with the operators between them; any other is
not accepted to its end. -/
structure Composes (G : Given) (caller : Cursor) (rounds cell : Nat)
    (allowFunctions ignoreTrailingRpar : Bool) (s : Parse) (c' : Cursor) (ts : List Term)
    (singles : List Single) : Prop where
  accepted : WellFormed ts →
    ((∃ text, Translated G caller rounds cell allowFunctions ignoreTrailingRpar s c' text) ↔
      ∀ single ∈ singles, ∃ text,
        single.Translated G cell allowFunctions ignoreTrailingRpar s text)
  translated : WellFormed ts → ∀ text,
    Translated G caller rounds cell allowFunctions ignoreTrailingRpar s c' text →
      ∃ texts, List.Forall₂ (fun single text =>
        Single.Translated single G cell allowFunctions ignoreTrailingRpar s text) singles texts ∧
        text = joined ts texts
  rejected : ¬ WellFormed ts →
    ¬ ∃ text, Translated G caller rounds cell allowFunctions ignoreTrailingRpar s c' text

theorem translated_iff_passable (conditions : ConditionsAt G.src s.cursor ts c')
    (follows : Follows ignoreTrailingRpar c') (cells : cell < s.cells.length)
    (before : Reached G.src caller s.cursor) (room : left G.src caller < rounds) (text : Bytes) :
    Translated G caller rounds cell allowFunctions ignoreTrailingRpar s c' text ↔
      Passable G s allowFunctions (c'.token = .rpar) 0 false [] ts ∧
        text = ts.flatMap Term.written := by
  obtain ⟨accepted, written⟩ := @conditions_through_iff G s rounds cell ignoreTrailingRpar
    allowFunctions caller c' ts conditions follows cells before room
  rw [through_iff] at accepted
  constructor
  · rintro ⟨s', run, ended, appended⟩
    have whole := appended.symm.trans (written s' run ended)
    exact ⟨accepted.mp ⟨s', run, ended⟩, List.append_cancel_left whole⟩
  · rintro ⟨pass, rfl⟩
    obtain ⟨s', run, ended⟩ := accepted.mpr pass
    exact ⟨s', run, ended, written s' run ended⟩

/-- A condition without parentheses composes exactly where, its predicates being accepted alone,
it is strung if it is well formed, and not strung if it is not. -/
theorem conditions_compose_iff (G : Given) (caller : Cursor) (rounds cell : Nat)
    (allowFunctions ignoreTrailingRpar : Bool) (s : Parse) (c' : Cursor) (ts : List Term)
    (singles : List Single) (conditions : ConditionsAt G.src s.cursor ts c') (flat : Flat ts)
    (each : Apiece ts singles) (follows : Follows ignoreTrailingRpar c')
    (cells : cell < s.cells.length) (before : Reached G.src caller s.cursor)
    (room : left G.src caller < rounds) :
    Composes G caller rounds cell allowFunctions ignoreTrailingRpar s c' ts singles ↔
      ((∀ t ∈ ts, t.Alone G s allowFunctions) → (WellFormed ts ↔ Strung G s ts)) := by
  have whole (text : Bytes) := (@translated_iff_passable G s rounds cell caller c' allowFunctions
    ignoreTrailingRpar ts conditions follows cells before room text).trans
      (and_congr_left fun _ => passable_flat flat)
  have accepted : (∃ text, Translated G caller rounds cell allowFunctions ignoreTrailingRpar s c'
      text) ↔ (∀ t ∈ ts, t.Alone G s allowFunctions) ∧ Strung G s ts := by
    simp only [whole]
    simp
  have alone := @apiece_alone G s cell allowFunctions ignoreTrailingRpar ts singles each cells
  constructor
  · rintro ⟨one, -, other⟩ all
    by_cases formed : WellFormed ts
    · exact iff_of_true formed (accepted.mp ((one formed).mpr (alone.mpr all))).2
    · exact iff_of_false formed fun strung => other formed (accepted.mpr ⟨all, strung⟩)
  · intro together
    refine ⟨fun formed => ?_, fun formed text run => ?_, fun formed run => ?_⟩
    · rw [accepted, alone]
      exact ⟨And.left, fun all => ⟨all, (together all).mp formed⟩⟩
    · obtain ⟨⟨all, -⟩, rfl⟩ := (whole text).mp run
      exact ⟨_, apiece_texts each cells all, (joined_written flat).symm⟩
    · obtain ⟨all, strung⟩ := accepted.mp run
      exact formed ((together all).mpr strung)

/-! ## Concrete conditions -/

/-- The state in front of a condition that is the whole text. -/
def inFront (src : String) : Parse := { Parser.start.seek (cursorAt src 1) with cells := [0] }

/-- A text of `n` tokens that is one predicate. -/
def Single.of (src : String) (n : Nat) : Single :=
  ⟨lit src, cursorAt src 1, cursorAt src (n + 1)⟩

theorem equals_at {src : Bytes} {c d e c' : Cursor} {name value : Bytes} (id : c.token = .id)
    (named : c.lexum = name) (step : Step src c d) (eq : d.token = .eq) (step' : Step src d e)
    (num : e.token = .num) (valued : e.lexum = value) (last : Step src e c') :
    PredicateAt src c (.compare ⟨name, none⟩ .eq (.literal (.num value))) c' := by
  subst named valued
  exact .compare (.plain id step (by rw [eq]; nofun)) eq step' (.literal (.num num last))

theorem isNull_at {src : Bytes} {c d e c' : Cursor} {name : Bytes} (id : c.token = .id)
    (named : c.lexum = name) (step : Step src c d) (is : d.token = .is) (step' : Step src d e)
    (null : e.token = .null) (last : Step src e c') :
    PredicateAt src c (.isNull ⟨name, none⟩ false) c' := by
  subst named
  exact .isNull (.plain id step (by rw [is]; nofun)) is step' .none null last

theorem eos_follows {c : Cursor} (eos : c.token = .eos) : Follows ignoreTrailingRpar c :=
  ⟨by rw [eos]; nofun, by rw [eos]; nofun, by rw [eos]; nofun, by rw [eos]; nofun,
    fun rpar => nomatch eos.symm.trans rpar⟩

/-- The comparison `b = 1`. -/
def bIsOne : Predicate := .compare ⟨lit "b", none⟩ .eq (.literal (.num (lit "1")))

theorem bIsOne_single : (Single.of "b = 1" 3).Is bIsOne := by
  obtain ⟨id, named, one, eq, two, num, valued, three, eos⟩ :
      (cursorAt "b = 1" 1).token = .id ∧ (cursorAt "b = 1" 1).lexum = lit "b" ∧
      (sqltokenizer (lit "b = 1") (cursorAt "b = 1" 1)).1 = true ∧
      (cursorAt "b = 1" 2).token = .eq ∧
      (sqltokenizer (lit "b = 1") (cursorAt "b = 1" 2)).1 = true ∧
      (cursorAt "b = 1" 3).token = .num ∧ (cursorAt "b = 1" 3).lexum = lit "1" ∧
      (sqltokenizer (lit "b = 1") (cursorAt "b = 1" 3)).1 = true ∧
      (cursorAt "b = 1" 4).token = .eos := by decide +kernel
  exact ⟨equals_at id named (cursorAt_step one) eq (cursorAt_step two) num valued
    (cursorAt_step three), eos⟩

theorem aIsNull_single : (Single.of "a IS NULL" 3).Is (.isNull ⟨lit "a", none⟩ false) := by
  obtain ⟨id, named, one, is, two, null, three, eos⟩ :
      (cursorAt "a IS NULL" 1).token = .id ∧
      (cursorAt "a IS NULL" 1).lexum = lit "a" ∧
      (sqltokenizer (lit "a IS NULL") (cursorAt "a IS NULL" 1)).1 = true ∧
      (cursorAt "a IS NULL" 2).token = .is ∧
      (sqltokenizer (lit "a IS NULL") (cursorAt "a IS NULL" 2)).1 = true ∧
      (cursorAt "a IS NULL" 3).token = .null ∧
      (sqltokenizer (lit "a IS NULL") (cursorAt "a IS NULL" 3)).1 = true ∧
      (cursorAt "a IS NULL" 4).token = .eos := by decide +kernel
  exact ⟨isNull_at id named (cursorAt_step one) is (cursorAt_step two) null (cursorAt_step three),
    eos⟩

/-- The condition `a IS NULL AND b = 1`. -/
def nullAndOne : List Term :=
  [⟨0, .isNull ⟨lit "a", none⟩ false, 0, some (lit "AND")⟩, ⟨0, bIsOne, 0, none⟩]

theorem nullAndOne_at :
    ConditionsAt (lit "a IS NULL AND b = 1") (cursorAt "a IS NULL AND b = 1" 1) nullAndOne
        (cursorAt "a IS NULL AND b = 1" 8) ∧
      (cursorAt "a IS NULL AND b = 1" 8).token = .eos := by
  obtain ⟨id, named, one, is, two, null, three, and, logic, four, id', named', five, eq, six, num,
      valued, seven, eos⟩ :
      (cursorAt "a IS NULL AND b = 1" 1).token = .id ∧
      (cursorAt "a IS NULL AND b = 1" 1).lexum = lit "a" ∧
      (sqltokenizer (lit "a IS NULL AND b = 1") (cursorAt "a IS NULL AND b = 1" 1)).1 = true ∧
      (cursorAt "a IS NULL AND b = 1" 2).token = .is ∧
      (sqltokenizer (lit "a IS NULL AND b = 1") (cursorAt "a IS NULL AND b = 1" 2)).1 = true ∧
      (cursorAt "a IS NULL AND b = 1" 3).token = .null ∧
      (sqltokenizer (lit "a IS NULL AND b = 1") (cursorAt "a IS NULL AND b = 1" 3)).1 = true ∧
      (cursorAt "a IS NULL AND b = 1" 4).token = .and ∧
      (cursorAt "a IS NULL AND b = 1" 4).lexum = lit "AND" ∧
      (sqltokenizer (lit "a IS NULL AND b = 1") (cursorAt "a IS NULL AND b = 1" 4)).1 = true ∧
      (cursorAt "a IS NULL AND b = 1" 5).token = .id ∧
      (cursorAt "a IS NULL AND b = 1" 5).lexum = lit "b" ∧
      (sqltokenizer (lit "a IS NULL AND b = 1") (cursorAt "a IS NULL AND b = 1" 5)).1 = true ∧
      (cursorAt "a IS NULL AND b = 1" 6).token = .eq ∧
      (sqltokenizer (lit "a IS NULL AND b = 1") (cursorAt "a IS NULL AND b = 1" 6)).1 = true ∧
      (cursorAt "a IS NULL AND b = 1" 7).token = .num ∧
      (cursorAt "a IS NULL AND b = 1" 7).lexum = lit "1" ∧
      (sqltokenizer (lit "a IS NULL AND b = 1") (cursorAt "a IS NULL AND b = 1" 7)).1 = true ∧
      (cursorAt "a IS NULL AND b = 1" 8).token = .eos := by
    decide +kernel
  have first := isNull_at id named (cursorAt_step one) is (cursorAt_step two) null
    (cursorAt_step three)
  have second := equals_at id' named' (cursorAt_step five) eq (cursorAt_step six) num valued
    (cursorAt_step seven)
  have between := LogicAt.logic (.inl and) (cursorAt_step four)
  rw [logic] at between
  exact ⟨.cons (.none _) first (.none _) between (.cons (.none _) second (.none _) .bare (.nil _)),
    eos⟩

theorem nullAndOne_each : Apiece nullAndOne [.of "a IS NULL" 3, .of "b = 1" 3] :=
  .cons aIsNull_single (.cons bIsOne_single .nil)

theorem nullAndOne_flat : Flat nullAndOne :=
  List.forall_mem_cons.mpr ⟨⟨rfl, rfl⟩, List.forall_mem_singleton.mpr ⟨rfl, rfl⟩⟩

theorem conditions_compose_nullAndOne :
    Composes (firstNamed "a IS NULL AND b = 1") (cursorAt "a IS NULL AND b = 1" 1)
        (left (lit "a IS NULL AND b = 1") (cursorAt "a IS NULL AND b = 1" 1) + 1) 0 false false
        (inFront "a IS NULL AND b = 1") (cursorAt "a IS NULL AND b = 1" 8) nullAndOne
        [.of "a IS NULL" 3, .of "b = 1" 3] ↔
      ((∀ t ∈ nullAndOne,
          t.Alone (firstNamed "a IS NULL AND b = 1") (inFront "a IS NULL AND b = 1") false) →
        (WellFormed nullAndOne ↔
          Strung (firstNamed "a IS NULL AND b = 1") (inFront "a IS NULL AND b = 1") nullAndOne)) :=
  conditions_compose_iff _ _ _ _ _ _ _ _ _ _ nullAndOne_at.1 nullAndOne_flat nullAndOne_each
    (eos_follows nullAndOne_at.2) Nat.one_pos (Reached.refl _ _) (Nat.lt_succ_self _)

/-- Each of its predicates is accepted alone, and it is refused. -/
theorem equal_behind_null_refused : ¬ ∀ (G : Given) (caller : Cursor) (rounds cell : Nat)
    (allowFunctions ignoreTrailingRpar : Bool) (s : Parse) (c' : Cursor) (ts : List Term)
    (singles : List Single), ConditionsAt G.src s.cursor ts c' → Flat ts → Apiece ts singles →
      Follows ignoreTrailingRpar c' → cell < s.cells.length → Reached G.src caller s.cursor →
      left G.src caller < rounds →
      Composes G caller rounds cell allowFunctions ignoreTrailingRpar s c' ts singles := by
  intro composing
  obtain ⟨conditions, eos⟩ := nullAndOne_at
  have alone : ∀ t ∈ nullAndOne,
      t.Alone (firstNamed "a IS NULL AND b = 1") (inFront "a IS NULL AND b = 1") false :=
    List.forall_mem_cons.mpr
      ⟨⟨rfl, trivial⟩, List.forall_mem_singleton.mpr ⟨rfl, [], rfl⟩⟩
  have composes := composing (firstNamed "a IS NULL AND b = 1") _
    (left (lit "a IS NULL AND b = 1") (cursorAt "a IS NULL AND b = 1" 1) + 1) 0 false false
    (inFront "a IS NULL AND b = 1") _ _ _ conditions nullAndOne_flat nullAndOne_each
    (eos_follows eos) Nat.one_pos (Reached.refl _ _) (Nat.lt_succ_self _)
  obtain ⟨text, run⟩ := (composes.accepted ⟨rfl, rfl⟩).mpr
    ((apiece_alone nullAndOne_each Nat.one_pos).mpr alone)
  have pass := ((translated_iff_passable (s := inFront "a IS NULL AND b = 1") conditions
    (eos_follows eos) Nat.one_pos (Reached.refl _ _) (Nat.lt_succ_self _) text).mp run).1
  exact nomatch (List.pairwise_cons.mp pass.null).1 _ (List.mem_singleton_self _) rfl

/-! ## Conditions with parentheses -/

/-- No parenthesis is closed that is not open, and none is left open. -/
def Balanced : Nat → List Term → Prop
  | depth, [] => depth = 0
  | depth, t :: ts => t.closes ≤ depth + t.opens ∧ Balanced (depth + t.opens - t.closes) ts

/-- One parenthesis at a time, and none behind an IN list. -/
def Narrow (ts : List Term) : Prop :=
  ∀ t ∈ ts, t.opens ≤ 1 ∧ t.closes ≤ 1 ∧ (t.predicate.isAmong = true → t.closes = 0)

/-- As many parentheses are closed as are opened. -/
def Even (ts : List Term) : Prop :=
  (ts.map fun t => t.opens).sum = (ts.map fun t => t.closes).sum

theorem written_length {t : Term} (least : t.extra ≤ t.closes) :
    t.text.length = t.written.length + 2 * t.extra := by
  obtain ⟨opens, p, closes, op⟩ := t
  cases p with
  | compare f comparator o =>
      have least : o.extra ≤ closes := least
      have two : (lit ") ").length = 2 := rfl
      simp only [Term.text, Term.written, Term.extra, List.length_append, List.length_flatten,
        List.map_replicate, List.sum_replicate_nat, two]
      omega
  | _ => rfl

theorem written_of_plain {t : Term} (plain : t.extra = 0) : t.written = t.text := by
  obtain ⟨opens, p, closes, op⟩ := t
  cases p with
  | compare f comparator o =>
      have zero : o.extra = 0 := plain
      simp only [Term.written, zero, Nat.sub_zero]
  | _ => rfl

theorem written_shorter (least : ∀ t ∈ ts, t.extra ≤ t.closes) :
    (ts.flatMap Term.written).length ≤ (ts.flatMap Term.text).length := by
  induction ts with
  | nil => exact Nat.le_refl 0
  | cons t ts ih =>
      rw [List.forall_mem_cons] at least
      have head := written_length least.1
      have tail := ih least.2
      simp only [List.flatMap_cons, List.length_append]
      omega

/-- The translation keeps all parentheses exactly where no aggregate takes one. -/
theorem kept_iff_plain (least : ∀ t ∈ ts, t.extra ≤ t.closes) :
    ts.flatMap Term.written = ts.flatMap Term.text ↔ ∀ t ∈ ts, t.extra = 0 := by
  constructor
  · intro same
    replace same := congrArg List.length same
    induction ts with
    | nil => nofun
    | cons t ts ih =>
        rw [List.forall_mem_cons] at least ⊢
        have head := written_length least.1
        have tail := written_shorter least.2
        simp only [List.flatMap_cons, List.length_append] at same
        exact ⟨by omega, ih least.2 (by omega)⟩
  · intro plain
    exact List.flatMap_congr fun t mem => written_of_plain (plain t mem)

/-- What gets through closes nothing that is not open. -/
theorem balanced_iff {enclosed : Prop} {depth : Nat} {isnull : Bool} {used : List Nat}
    (pass : Passable G s allowFunctions enclosed depth isnull used ts)
    (plain : ∀ t ∈ ts, t.extra = 0) :
    Balanced depth ts ↔
      depth + (ts.map fun t => t.opens).sum = (ts.map fun t => t.closes).sum := by
  induction ts generalizing depth isnull used with
  | nil => simp [Balanced]
  | cons t ts ih =>
      obtain ⟨fits, -, -, closed, rest⟩ := passable_cons.mp pass
      rw [List.forall_mem_cons] at plain
      rw [plain.1, Nat.add_zero] at closed rest
      rw [Balanced, and_iff_right closed, List.map_cons, List.map_cons, List.sum_cons,
        List.sum_cons]
      split at rest
      · rw [ih rest plain.2]
        omega
      · obtain ⟨rfl, -⟩ := rest
        simp only [Balanced, List.map_nil, List.sum_nil]
        omega

theorem WellFormed.linked (formed : WellFormed ts) :
    ts.Pairwise fun t _ => t.predicate.isAmong = true ∨ t.op.isSome := by
  induction ts with
  | nil => exact .nil
  | cons t ts ih =>
      cases ts with
      | nil => exact List.pairwise_singleton _ _
      | cons u ts => exact .cons (fun _ _ => .inr formed.1) (ih formed.2)

theorem held_balanced {enclosed : Prop} {depth : Nat} (formed : WellFormed ts)
    (balanced : Balanced depth ts) (plain : ∀ t ∈ ts, t.extra = 0) (narrow : Narrow ts) :
    Held enclosed depth ts := by
  induction ts generalizing depth with
  | nil => exact balanced
  | cons t ts ih =>
      obtain ⟨closed, rest⟩ := balanced
      have extra := plain t List.mem_cons_self
      have one := narrow t List.mem_cons_self
      refine ⟨by omega, ?_⟩
      cases ts with
      | nil =>
          have zero : depth + t.opens - t.closes = 0 := rest
          split
          · show depth + t.opens + t.extra - t.closes = 0
            omega
          · intro _
            omega
      | cons u ts =>
          rw [if_pos (.inr formed.1), extra, Nat.add_zero]
          exact ih formed.2 rest (fun t mem => plain t (List.mem_cons_of_mem _ mem))
            fun t mem => narrow t (List.mem_cons_of_mem _ mem)

/-- A balanced condition over predicates that are accepted alone gets through where it is narrow
and strung. -/
theorem passable_balanced {enclosed : Prop} (formed : WellFormed ts) (balanced : Balanced 0 ts)
    (alone : ∀ t ∈ ts, t.Alone G s allowFunctions) :
    Passable G s allowFunctions enclosed 0 false [] ts ↔ Narrow ts ∧ Strung G s ts := by
  have plain (t : Term) (mem : t ∈ ts) : t.extra = 0 := (alone t mem).plain
  constructor
  · intro pass
    refine ⟨fun t mem => ?_, fun t mem among => ((pass.fits t mem).among among).2, pass.linked,
      pass.null, pass.room⟩
    have closes := (pass.fits t mem).closes
    rw [plain t mem] at closes
    exact ⟨(pass.fits t mem).opens, closes, fun among => ((pass.fits t mem).among among).1⟩
  · rintro ⟨narrow, among, linked, null, room⟩
    refine ⟨fun t mem => ?_, linked, nofun, null, room, held_balanced formed balanced plain narrow⟩
    obtain ⟨opens, closes, shut⟩ := narrow t mem
    have extra := plain t mem
    exact ⟨opens, by omega, by omega, fun is => ⟨shut is, among t mem is⟩, (alone t mem).known⟩

/-- What is accepted is balanced and translated with its parentheses where they are, and what is
well formed and balanced over predicates that are accepted alone is accepted. -/
structure KeepsParens (G : Given) (caller : Cursor) (rounds cell : Nat)
    (allowFunctions ignoreTrailingRpar : Bool) (s : Parse) (c' : Cursor) (ts : List Term)
    (singles : List Single) : Prop where
  kept : ∀ text, Translated G caller rounds cell allowFunctions ignoreTrailingRpar s c' text →
    Balanced 0 ts ∧ text = ts.flatMap Term.text
  accepted : WellFormed ts → Balanced 0 ts →
    (∀ single ∈ singles, ∃ text,
      single.Translated G cell allowFunctions ignoreTrailingRpar s text) →
    ∃ text, Translated G caller rounds cell allowFunctions ignoreTrailingRpar s c' text

theorem opened_at (ignoreTrailingRpar : Bool) :
    ConditionsAt (lit "(b = 1") (cursorAt "(b = 1" 1) [⟨1, bIsOne, 0, none⟩]
        (cursorAt "(b = 1" 5) ∧ Follows ignoreTrailingRpar (cursorAt "(b = 1" 5) := by
  obtain ⟨lpar, zero, id, named, one, eq, two, num, valued, three, eos⟩ :
      (cursorAt "(b = 1" 1).token = .lpar ∧
      (sqltokenizer (lit "(b = 1") (cursorAt "(b = 1" 1)).1 = true ∧
      (cursorAt "(b = 1" 2).token = .id ∧
      (cursorAt "(b = 1" 2).lexum = lit "b" ∧
      (sqltokenizer (lit "(b = 1") (cursorAt "(b = 1" 2)).1 = true ∧
      (cursorAt "(b = 1" 3).token = .eq ∧
      (sqltokenizer (lit "(b = 1") (cursorAt "(b = 1" 3)).1 = true ∧
      (cursorAt "(b = 1" 4).token = .num ∧
      (cursorAt "(b = 1" 4).lexum = lit "1" ∧
      (sqltokenizer (lit "(b = 1") (cursorAt "(b = 1" 4)).1 = true ∧
      (cursorAt "(b = 1" 5).token = .eos := by decide +kernel
  have predicate := equals_at id named (cursorAt_step one) eq (cursorAt_step two) num valued
    (cursorAt_step three)
  exact ⟨.cons (.one lpar (cursorAt_step zero) (.none _)) predicate (.none _) .bare (.nil _),
    eos_follows eos⟩

theorem nested_at (ignoreTrailingRpar : Bool) :
    ConditionsAt (lit "((b = 1))") (cursorAt "((b = 1))" 1) [⟨2, bIsOne, 2, none⟩]
        (cursorAt "((b = 1))" 8) ∧ Follows ignoreTrailingRpar (cursorAt "((b = 1))" 8) := by
  obtain ⟨lpar, one, lpar', two, id, named, three, eq, four, num, valued, five, rpar, six, rpar',
      seven, eos⟩ :
      (cursorAt "((b = 1))" 1).token = .lpar ∧
      (sqltokenizer (lit "((b = 1))") (cursorAt "((b = 1))" 1)).1 = true ∧
      (cursorAt "((b = 1))" 2).token = .lpar ∧
      (sqltokenizer (lit "((b = 1))") (cursorAt "((b = 1))" 2)).1 = true ∧
      (cursorAt "((b = 1))" 3).token = .id ∧
      (cursorAt "((b = 1))" 3).lexum = lit "b" ∧
      (sqltokenizer (lit "((b = 1))") (cursorAt "((b = 1))" 3)).1 = true ∧
      (cursorAt "((b = 1))" 4).token = .eq ∧
      (sqltokenizer (lit "((b = 1))") (cursorAt "((b = 1))" 4)).1 = true ∧
      (cursorAt "((b = 1))" 5).token = .num ∧
      (cursorAt "((b = 1))" 5).lexum = lit "1" ∧
      (sqltokenizer (lit "((b = 1))") (cursorAt "((b = 1))" 5)).1 = true ∧
      (cursorAt "((b = 1))" 6).token = .rpar ∧
      (sqltokenizer (lit "((b = 1))") (cursorAt "((b = 1))" 6)).1 = true ∧
      (cursorAt "((b = 1))" 7).token = .rpar ∧
      (sqltokenizer (lit "((b = 1))") (cursorAt "((b = 1))" 7)).1 = true ∧
      (cursorAt "((b = 1))" 8).token = .eos := by
    decide +kernel
  have predicate := equals_at id named (cursorAt_step three) eq (cursorAt_step four) num valued
    (cursorAt_step five)
  exact ⟨.cons (.one lpar (cursorAt_step one) (.one lpar' (cursorAt_step two) (.none _))) predicate
    (.one rpar (cursorAt_step six) (.one rpar' (cursorAt_step seven) (.none _))) .bare (.nil _),
    eos_follows eos⟩

end Jspp.Sql
