/-
# Sql.Columns -- the names of the result columns

`ufields` is one vector for the whole statement: every select list of it, that of a
sub-select or behind UNION too, appends its names there.  A field appends its own
name and then its alias; any other item appends its alias, or `FIELD` and the number
of names so far.

* `Named`: in every state `ufields` is what the items read so far have appended.
* `Columns`: one name for each item of the first select, written without overflow.
* `Plain`: the items that do so, `columns_iff`.
-/
import Mathlib.Data.List.Basic
import Jspp.Sql.Placeholders

namespace Jspp.Sql

open Jspp.Splc (Bytes lit)
open Jspp.Theory
open Jspp.Theory.Attempt (Chain)
open Jspp.Sql.Parser

set_option autoImplicit false

/-- The name of the item at `k`: its alias, or its field, or a number. -/
def Item.label (k : Nat) (item : Item) : Bytes :=
  (item.named.or item.field).getD (lit "FIELD" ++ decimal k)

/-- The buffer of `pushGenerated`. -/
def BUFLEN : Nat := 5

/-- The items of the first select. -/
def firstItems (s : Parse) : List Item := (s.items.filter (·.1 = 0)).map (·.2)

/-- One name for each item of the first select, and no buffer written past its end. -/
structure Columns (s : Parse) : Prop where
  length : s.dp.ufields.length = (firstItems s).length
  label : ∀ k (item : Item), (firstItems s)[k]? = some item → s.dp.ufields[k]? = some (item.label k)
  held : ∀ n ∈ s.buffers, n ≤ BUFLEN

/-- No select beside the first has items, no field has an alias, and an item that is numbered
is among the first ten thousand. -/
structure Plain (s : Parse) : Prop where
  first : ∀ item ∈ s.items, item.1 = 0
  single : ∀ item ∈ firstItems s, item.field = none ∨ item.named = none
  few : ∀ k (item : Item), (firstItems s)[k]? = some item → item.field = none → item.named = none →
    k < 10000

/-! ## What the items append -/

/-- What an item appends to `count` names. -/
def Item.names (count : Nat) (item : Item) : List Bytes :=
  match item.field, item.named with
  | some field, some named => [field, named]
  | some field, none => [field]
  | none, some named => [named]
  | none, none => [lit "FIELD" ++ decimal count]

def labels : Nat → List Item → List Bytes
  | _, [] => []
  | count, item :: items =>
      item.names count ++ labels (count + (item.names count).length) items

/-- What an item writes to a buffer. -/
def Item.written (count : Nat) (item : Item) : List Nat :=
  match item.field, item.named with
  | none, none => [(decimal count).length + 1]
  | _, _ => []

def writes : Nat → List Item → List Nat
  | _, [] => []
  | count, item :: items =>
      item.written count ++ writes (count + (item.names count).length) items

theorem labels_append (count : Nat) (one two : List Item) :
    labels count (one ++ two) =
      labels count one ++ labels (count + (labels count one).length) two := by
  induction one generalizing count with
  | nil => rfl
  | cons item one ih => simp [labels, ih, Nat.add_assoc]

theorem writes_append (count : Nat) (one two : List Item) :
    writes count (one ++ two) =
      writes count one ++ writes (count + (labels count one).length) two := by
  induction one generalizing count with
  | nil => rfl
  | cons item one ih => simp [labels, writes, ih, Nat.add_assoc]

theorem labels_last (items : List Item) (item : Item) :
    labels 0 (items ++ [item]) = labels 0 items ++ item.names (labels 0 items).length := by
  simp [labels_append, labels]

theorem writes_last (items : List Item) (item : Item) :
    writes 0 (items ++ [item]) = writes 0 items ++ item.written (labels 0 items).length := by
  simp [writes_append, writes]

theorem changeLast_append {γ : Type} (f : γ → γ) (l : List γ) (a : γ) :
    changeLast f (l ++ [a]) = l ++ [f a] := by
  induction l with
  | nil => rfl
  | cons b l ih =>
      cases l with
      | nil => rfl
      | cons c l => exact congrArg (b :: ·) ih

/-! ## What holds in every state -/

/-- The names and the buffers are those of the items. -/
structure Labelled (s : Parse) : Prop where
  ufields : s.dp.ufields = labels 0 (s.items.map (·.2))
  buffers : s.buffers = writes 0 (s.items.map (·.2))

variable {G : Given} {s s' : Parse}

theorem Labelled.keep (labelled : Labelled s) (ufields : s'.dp.ufields = s.dp.ufields)
    (items : s'.items = s.items) (buffers : s'.buffers = s.buffers) : Labelled s' where
  ufields := by rw [ufields, items]; exact labelled.ufields
  buffers := by rw [buffers, items]; exact labelled.buffers

/-- An item behind the others. -/
theorem Labelled.push (labelled : Labelled s) (cell : Nat) (item : Item)
    (items : s'.items = s.items ++ [(cell, item)])
    (ufields : s'.dp.ufields = s.dp.ufields ++ item.names s.dp.ufields.length)
    (buffers : s'.buffers = s.buffers ++ item.written s.dp.ufields.length) : Labelled s' where
  ufields := by
    rw [items, List.map_append, List.map_singleton, labels_last, ← labelled.ufields]
    exact ufields
  buffers := by
    rw [items, List.map_append, List.map_singleton, writes_last, ← labelled.ufields,
      ← labelled.buffers]
    exact buffers

/-- The last item is a field, which becomes another item. -/
theorem Labelled.change {cell : Nat} {name : Bytes} (labelled : Labelled s) (item : Item)
    (last : s.items.getLast? = some (cell, { field := some name, named := none }))
    (field : item.field.isSome)
    (items : ∀ before, s.items = before ++ [(cell, { field := some name, named := none })] →
      s'.items = before ++ [(cell, item)])
    (ufields : ∀ before, s.dp.ufields = before ++ [name] →
      s'.dp.ufields = before ++ item.names before.length)
    (buffers : s'.buffers = s.buffers) : Labelled s' := by
  obtain ⟨before, was⟩ := List.getLast?_eq_some_iff.mp last
  have names := labelled.ufields
  have sizes := labelled.buffers
  rw [was, List.map_append, List.map_singleton, labels_last] at names
  rw [was, List.map_append, List.map_singleton, writes_last] at sizes
  have silent (count : Nat) : item.written count = [] := by
    obtain ⟨f, field⟩ := Option.isSome_iff_exists.mp field
    simp [Item.written, field]
  constructor
  · rw [items before was, List.map_append, List.map_singleton, labels_last]
    exact ufields _ names
  · rw [items before was, List.map_append, List.map_singleton, writes_last, silent, buffers, sizes]
    rfl

theorem Move.labelled (move : Move G s s') (labelled : Labelled s) : Labelled s' := by
  cases move with
  | field cell =>
      refine labelled.push cell { field := some s.cursor.lexum, named := none } rfl rfl ?_
      simp [pushField, Attempt.modify, Item.written]
  | extend t cell name last =>
      apply labelled.change { field := some (name ++ t), named := none } last rfl
      · intro before was
        show changeLast _ s.items = _
        rw [was, changeLast_append]
        rfl
      · intro before was
        show changeLast _ s.dp.ufields = _
        rw [was, changeLast_append]
        rfl
      · rfl
  | entitle cell =>
      refine labelled.push cell { field := none, named := some s.cursor.lexum } rfl rfl ?_
      simp [pushAlias, Attempt.modify, Item.written]
  | rename cell name last =>
      apply labelled.change { field := some name, named := some s.cursor.lexum } last rfl
      · intro before was
        show changeLast _ s.items = _
        rw [was, changeLast_append]
      · intro before was
        show s.dp.ufields ++ _ = _
        rw [was, List.append_assoc]
        rfl
      · rfl
  | generated cell => exact labelled.push cell { field := none, named := none } rfl rfl rfl
  | number s' cell x inlike token found numbered =>
      unfold setPrmIdx at numbered
      split at numbered
      case h_1 =>
        split at numbered
        · obtain rfl := Option.some.inj numbered
          exact labelled.keep rfl rfl rfl
        · cases numbered
      case h_2 => cases numbered
  | define dp same => exact labelled.keep same.ufields rfl rfl
  | _ => exact labelled.keep rfl rfl rfl

theorem parseSQL_labelled {rounds : Nat} (room : 2 * G.src.length + 1 < rounds) :
    Labelled (parseSQL G rounds).2 :=
  Chain.invariant (I := Labelled) (fun _ _ move => move.labelled)
    (parseSQL_runs room).chain ⟨rfl, rfl⟩

/-! ## One name for each item -/

theorem Item.names_pos (count : Nat) (item : Item) : 1 ≤ (item.names count).length := by
  unfold Item.names
  split <;> simp

/-- An item has one name unless it is a field with an alias. -/
theorem Item.names_single (count : Nat) {item : Item} :
    (item.names count).length = 1 ↔ item.field = none ∨ item.named = none := by
  obtain ⟨field, named⟩ := item
  cases field <;> cases named <;> simp [Item.names]

theorem Item.names_label (count : Nat) {item : Item}
    (single : item.field = none ∨ item.named = none) :
    item.names count = [item.label count] := by
  obtain ⟨field, named⟩ := item
  cases field <;> cases named <;> simp_all [Item.names, Item.label]

theorem labels_length (count : Nat) (items : List Item) :
    items.length ≤ (labels count items).length := by
  induction items generalizing count with
  | nil => exact Nat.le_refl _
  | cons item items ih =>
      have more := item.names_pos count
      have rest := ih (count + (item.names count).length)
      simp only [labels, List.length_append, List.length_cons]
      omega

/-- As many names as items: every item has one. -/
theorem single_of_length (count : Nat) {items : List Item}
    (length : (labels count items).length = items.length) :
    ∀ item ∈ items, item.field = none ∨ item.named = none := by
  induction items generalizing count with
  | nil => exact fun item mem => nomatch mem
  | cons item items ih =>
      have more := item.names_pos count
      have rest := labels_length (count + (item.names count).length) items
      simp only [labels, List.length_append, List.length_cons] at length
      intro item' mem
      rcases List.mem_cons.mp mem with rfl | mem
      · exact (item'.names_single count).mp (by omega)
      · exact ih (count + (item.names count).length) (by omega) item' mem

/-- If every item has one name, the name at `k` is that of the item at `k`. -/
theorem labels_at (count : Nat) {items : List Item}
    (single : ∀ item ∈ items, item.field = none ∨ item.named = none) :
    (labels count items).length = items.length ∧
      ∀ k (item : Item), items[k]? = some item →
        (labels count items)[k]? = some (item.label (count + k)) := by
  induction items generalizing count with
  | nil => exact ⟨rfl, fun k item found => nomatch found⟩
  | cons item items ih =>
      have one := Item.names_label count (single item List.mem_cons_self)
      obtain ⟨length, rest⟩ := ih (count + 1)
        fun item' mem => single item' (List.mem_cons_of_mem _ mem)
      have eq : labels count (item :: items) = item.label count :: labels (count + 1) items := by
        simp [labels, one]
      rw [eq]
      refine ⟨congrArg (· + 1) length, fun k item' found => ?_⟩
      cases k with
      | zero =>
          obtain rfl := Option.some.inj found
          rfl
      | succ k =>
          have there := rest k item' found
          rw [Nat.add_assoc, Nat.add_comm 1 k] at there
          exact there

/-- What is written to the buffers when every item has one name. -/
theorem mem_writes (count : Nat) {n : Nat} {items : List Item}
    (single : ∀ item ∈ items, item.field = none ∨ item.named = none) :
    n ∈ writes count items ↔ ∃ k, ∃ item : Item, items[k]? = some item ∧ item.field = none ∧
      item.named = none ∧ n = (decimal (count + k)).length + 1 := by
  induction items generalizing count with
  | nil => simp [writes]
  | cons item items ih =>
      have one : (item.names count).length = 1 :=
        (item.names_single count).mpr (single item List.mem_cons_self)
      have rest := ih (count + 1)
        fun item' mem => single item' (List.mem_cons_of_mem _ mem)
      simp only [writes, one, List.mem_append, rest]
      constructor
      · rintro (here | ⟨k, item', found, field, named, size⟩)
        · obtain ⟨field, named⟩ := item
          cases field <;> cases named <;>
            simp only [Item.written, List.mem_singleton, List.not_mem_nil] at here
          exact ⟨0, _, rfl, rfl, rfl, here⟩
        · refine ⟨k + 1, item', found, field, named, ?_⟩
          rw [size, Nat.add_assoc, Nat.add_comm 1 k]
      · rintro ⟨k, item', found, field, named, size⟩
        cases k with
        | zero =>
            obtain rfl := Option.some.inj found
            left
            rw [size]
            simp [Item.written, field, named]
        | succ k =>
            refine .inr ⟨k, item', found, field, named, ?_⟩
            rw [size, Nat.add_assoc, Nat.add_comm 1 k]

/-- Five characters hold the numbers below ten thousand. -/
theorem decimal_held (n : Nat) : (decimal n).length + 1 ≤ BUFLEN ↔ n < 10000 := by
  have digits : (decimal n).length = n.repr.length := by simp [decimal, lit, Nat.repr_eq_ofList_toDigits]
  have few : n.repr.length ≤ 4 ↔ n < 10 ^ 4 := Nat.length_repr_le_iff (by omega)
  rw [digits, BUFLEN, Nat.succ_le_succ_iff]
  exact few

theorem firstItems_eq (first : ∀ item ∈ s.items, item.1 = 0) :
    firstItems s = s.items.map (·.2) := by
  unfold firstItems
  rw [List.filter_eq_self.mpr]
  intro item mem
  simp [first item mem]

theorem Labelled.columns (labelled : Labelled s) (plain : Plain s) : Columns s := by
  have all := firstItems_eq plain.first
  have single : ∀ item ∈ s.items.map (·.2), item.field = none ∨ item.named = none := by
    rw [← all]
    exact plain.single
  obtain ⟨length, label⟩ := labels_at 0 single
  refine ⟨?_, fun k item found => ?_, fun n mem => ?_⟩
  · rw [labelled.ufields, all]
    exact length
  · have there := label k item (all ▸ found)
    rw [Nat.zero_add] at there
    rw [labelled.ufields]
    exact there
  · rw [labelled.buffers] at mem
    obtain ⟨k, item, found, field, named, rfl⟩ := (mem_writes 0 single).mp mem
    apply (decimal_held _).mpr
    have small := plain.few k item (all ▸ found) field named
    omega

theorem Labelled.plain (labelled : Labelled s) (columns : Columns s) : Plain s := by
  have names := columns.length
  rw [labelled.ufields] at names
  have more := labels_length 0 (s.items.map (·.2))
  rw [List.length_map] at more
  have part : (firstItems s).length = (s.items.filter (·.1 = 0)).length := List.length_map _
  have fewer := List.length_filter_le (fun item => decide (item.1 = 0)) s.items
  have first : ∀ item ∈ s.items, item.1 = 0 := by
    have whole := List.length_filter_eq_length_iff.mp (Nat.le_antisymm fewer (by omega))
    intro item mem
    simpa using whole item mem
  have all := firstItems_eq first
  rw [all] at names
  have single := single_of_length 0 names
  refine ⟨first, all ▸ single, fun k item found field named => ?_⟩
  have written : (decimal (0 + k)).length + 1 ∈ s.buffers := by
    rw [labelled.buffers]
    exact (mem_writes 0 single).mpr ⟨k, item, all ▸ found, field, named, rfl⟩
  have small := (decimal_held _).mp (columns.held _ written)
  omega

/-- The columns of an accepted statement are named one to one exactly when its only items are
those of the first select, none of them a field with an alias, and no number is too long. -/
theorem accepted_columns (G : Given) (more : Nat) {s : Parse}
    (accepted : parseSQL G (2 * G.src.length + 2 + more) = (.ok (), s)) :
    Columns s ↔ Plain s := by
  have labelled := @parseSQL_labelled G (2 * G.src.length + 2 + more) (by omega)
  rw [accepted] at labelled
  exact ⟨labelled.plain, labelled.columns⟩

/-- A field, and a number without an alias. -/
theorem accepted_columns_numbered :
    Columns (translated "create procedure a.b as select f, 3 from t") ↔
      Plain (translated "create procedure a.b as select f, 3 from t") :=
  accepted_columns (firstNamed "create procedure a.b as select f, 3 from t") 0
    (translated_of_accepted (by decide +kernel))

/-- A field with an alias has two names. -/
theorem aliased_twice : ¬ ∀ (G : Given) (more : Nat) (s : Parse),
    parseSQL G (2 * G.src.length + 2 + more) = (.ok (), s) → Columns s := by
  intro names
  have columns := names _ 0 _ (translated_of_accepted
    (t := "create procedure a.b as select f as g from t") (by decide +kernel))
  have two : (translated "create procedure a.b as select f as g from t").dp.ufields.length = 2 := by
    decide +kernel
  have one : (firstItems (translated "create procedure a.b as select f as g from t")).length = 1 := by
    decide +kernel
  have same := columns.length
  rw [two, one] at same
  cases same

end Jspp.Sql
