/-
# Splc.Names -- the names of columns and parameters

SQL describes a statement with a buffer of names: each has a two-byte length in
front and is blankPadded to even length with a blank, which the length counts.
`_preparedstatementWriteRow` and `_preparedstatementSetInput` each walk such a
buffer with a pointer of their own.  The first moves its pointer behind the last
character of the name read, `lastchar`, also where the length was 0 and no name
was read: `lastchar` is then the one of the name before, or no value at all.  The
second moves inside the branch that read the name.

* `writeRowNames`, `setInputNames`: the walks, with the position of each length read.
* `namesBuffer`: the buffer of some names.
* `named_iff`: both walks read the names, each at its place, exactly if no output name but
  the last is empty and no name of even length ends with a blank.
-/
import Jspp.Splc.Lexing

namespace Jspp.Splc

set_option autoImplicit false

/-! ## The walks -/

/-- `*(short *)p`, where `big` says how a `short` lies in memory; `none` is read outside. -/
def shortAt (big : Bool) (buf : Bytes) (p : Nat) : Option Int := do
  let b0 ← buf[p]?
  let b1 ← buf[p + 1]?
  let n := if big then 256 * b0.toNat + b1.toNat else b0.toNat + 256 * b1.toNat
  some (Int.bmod n (2 ^ 16))

/-- The name in front of `lastchar`: `strncpy` up to it, without it where it is a blank. -/
def nameAt (buf : Bytes) (nb lastchar : Nat) : Option Bytes := do
  let c ← buf[lastchar]?
  let text := (buf.drop nb).take (lastchar + 1 - nb)
  some (cstr (if c = 32 then text.dropLast else text))

/-- The pointers of `_preparedstatementWriteRow`; `none` is a pointer without a value. -/
structure Walk where
  nb : Option Nat
  lastchar : Option Nat

/-- One round of the loop: the name, and the pointers behind it. -/
def writeRowName (big : Bool) (buf : Bytes) (i : Nat) (walk : Walk) : Option (Bytes × Walk) := do
  let nb ← walk.nb
  let name_len ← shortAt big buf nb
  let nb := nb + 2
  if name_len < 0 then none
  else
    let (name, lastchar) ←
      if name_len = 0 then some (lit "EXPR" ++ lit (toString i), walk.lastchar)
      else do
        let lastchar := nb + (name_len.toNat - 1)
        let name ← nameAt buf nb lastchar
        some (name, some lastchar)
    some (name, { nb := lastchar.map (· + 1), lastchar := lastchar })

/-- The rounds from `i` on: where each length was read, and the name. -/
def writeRowNames (big : Bool) (buf : Bytes) : Nat → Nat → Walk → Option (List (Nat × Bytes))
  | 0, _, _ => some []
  | n + 1, i, walk => do
      let nb ← walk.nb
      let (name, walk) ← writeRowName big buf i walk
      let rest ← writeRowNames big buf n (i + 1) walk
      some ((nb, name) :: rest)

/-- The rounds of `_preparedstatementSetInput` from `i` on.  It ends at a length over 30, and
where `goesOn` is false: there is no item for the name or the position, or its data type is
not supported. -/
def setInputNames (big : Bool) (buf : Bytes) (goesOn : Bytes → Nat → Bool) :
    Nat → Nat → Nat → Option (List (Nat × Bytes))
  | 0, _, _ => some []
  | n + 1, i, nb => do
      let name_len ← shortAt big buf nb
      if name_len > 30 then some []
      else if name_len < 0 then none
      else
        let (name, behind) ←
          if name_len = 0 then some ([], nb + 2)
          else do
            let lastchar := nb + 2 + (name_len.toNat - 1)
            let name ← nameAt buf (nb + 2) lastchar
            some (name, lastchar + 1)
        let rest ←
          if goesOn name i then setInputNames big buf goesOn n (i + 1) behind else some []
        some ((nb, name) :: rest)

/-! ## The buffer -/

/-- A name with the blank that makes its length even. -/
def blankPadded (name : Bytes) : Bytes :=
  if name.length % 2 = 1 then name ++ [32] else name

structure ColumnName where
  text : Bytes
  whole : 0 ∉ text
  short : (blankPadded text).length ≤ 240

def shortBytes (big : Bool) (n : Nat) : Bytes :=
  let bytes := [(n / 256).toUInt8, n.toUInt8]
  if big then bytes else bytes.reverse

namespace ColumnName

def len (name : ColumnName) : Nat := (blankPadded name.text).length

/-- The name in the buffer. -/
def entry (big : Bool) (name : ColumnName) : Bytes :=
  shortBytes big name.len ++ blankPadded name.text

def label (name : ColumnName) (k : Nat) : Bytes :=
  if name.text = [] then lit "EXPR" ++ lit (toString k) else name.text

/-- The last character of the name is taken for the blank of the padding. -/
def EndsBlank (name : ColumnName) : Prop := name.text.length % 2 = 0 ∧ name.text.getLast? = some 32

end ColumnName

def namesBuffer (big : Bool) (names : List ColumnName) : Bytes := names.flatMap (·.entry big)

/-- The columns from `k` on, read from `p` on. -/
def labels (big : Bool) : Nat → Nat → List ColumnName → List (Nat × Bytes)
  | _, _, [] => []
  | p, k, name :: rest =>
      (p, name.label k) :: labels big (p + (name.entry big).length) (k + 1) rest

/-- The parameters from `k` on, read from `p` on as far as the walk goes. -/
def parameters (big : Bool) (goesOn : Bytes → Nat → Bool) :
    Nat → Nat → List ColumnName → List (Nat × Bytes)
  | _, _, [] => []
  | p, k, name :: rest =>
      if 30 < name.len then []
      else (p, name.text) ::
        if goesOn name.text k then parameters big goesOn (p + (name.entry big).length) (k + 1) rest
        else []

/-- Each column is labelled with its own name, read at its own place. -/
def Labelled (big : Bool) (names : List ColumnName) : Prop :=
  writeRowNames big (namesBuffer big names) names.length 0 { nb := some 0, lastchar := none } =
    some (labels big 0 0 names)

/-- Each parameter is looked up under its own name, read at its own place. -/
def Walked (big : Bool) (names : List ColumnName) : Prop :=
  ∀ goesOn, setInputNames big (namesBuffer big names) goesOn names.length 0 0 =
    some (parameters big goesOn 0 0 names)

/-! ## One name -/

theorem shortAt_length (big : Bool) {n : Nat} (small : n ≤ 240) (before tail : Bytes) :
    shortAt big (before ++ (shortBytes big n ++ tail)) before.length = some (n : Int) := by
  have low : n.toUInt8.toNat = n := Nat.mod_eq_of_lt (by omega)
  have high : (n / 256).toUInt8.toNat = 0 := by
    rw [Nat.div_eq_of_lt (by omega)]
    rfl
  have value : Int.bmod (n : Nat) 65536 = n := by
    rw [Int.bmod_eq_of_le] <;> omega
  cases big <;>
    simp [shortAt, shortBytes, low, high, value]

/-- What is taken of a name in its padding. -/
def ColumnName.taken (name : ColumnName) : Bytes :=
  let text := blankPadded name.text
  if text.getLast? = some 32 then text.dropLast else text

theorem blankPadded_ne {text : Bytes} (filled : text ≠ []) : blankPadded text ≠ [] := by
  unfold blankPadded
  split
  · simp
  · exact filled

theorem blankPadded_whole {text : Bytes} (whole : 0 ∉ text) : 0 ∉ blankPadded text := by
  unfold blankPadded
  split
  · simpa using whole
  · exact whole

theorem ColumnName.taken_iff (name : ColumnName) : name.taken = name.text ↔ ¬ name.EndsBlank := by
  unfold taken blankPadded EndsBlank
  by_cases odd : name.text.length % 2 = 1
  · simp only [odd, if_true, List.getLast?_append, List.getLast?_singleton, Option.some_or,
      List.dropLast_concat]
    simp
  · have even : name.text.length % 2 = 0 := by omega
    rw [if_neg odd, even]
    by_cases blank : name.text.getLast? = some 32
    · rw [if_pos blank]
      refine iff_of_false (fun same => ?_) fun fine => fine ⟨rfl, blank⟩
      have size := congrArg List.length same
      rw [List.length_dropLast] at size
      have empty : name.text = [] := List.length_eq_zero_iff.mp (by omega)
      rw [empty] at blank
      cases blank
    · rw [if_neg blank]
      exact iff_of_true rfl fun ends => blank ends.2

theorem nameAt_entry {name : ColumnName} (filled : name.text ≠ []) (before tail : Bytes) :
    nameAt (before ++ (blankPadded name.text ++ tail)) before.length
      (before.length + (name.len - 1)) = some name.taken := by
  have some := blankPadded_ne filled
  have pos : 0 < name.len := List.length_pos_iff.mpr some
  have last : (before ++ (blankPadded name.text ++ tail))[before.length + (name.len - 1)]? =
      (blankPadded name.text).getLast? := by
    rw [List.getElem?_append_right (by omega), Nat.add_sub_cancel_left,
      List.getElem?_append_left (by unfold ColumnName.len at *; omega), List.getLast?_eq_getElem?]
    rfl
  have text : ((before ++ (blankPadded name.text ++ tail)).drop before.length).take
      (before.length + (name.len - 1) + 1 - before.length) = blankPadded name.text := by
    rw [List.drop_left, show before.length + (name.len - 1) + 1 - before.length = name.len by omega]
    exact List.take_left
  obtain ⟨c, is⟩ := Option.ne_none_iff_exists'.mp (mt List.getLast?_eq_none_iff.mp some)
  have whole := blankPadded_whole name.whole
  simp only [nameAt, last, is, text, Option.bind_eq_bind, Option.bind_some, ColumnName.taken,
    Option.some_inj]
  split
  · exact cstr_whole fun mem => whole (List.dropLast_subset _ mem)
  · exact cstr_whole whole

/-! ## The walk through the output names -/

theorem len_eq_zero {name : ColumnName} : name.len = 0 ↔ name.text = [] := by
  constructor
  · intro zero
    by_contra filled
    exact blankPadded_ne filled (List.length_eq_zero_iff.mp zero)
  · intro empty
    rw [ColumnName.len, empty]
    rfl

theorem entry_length (big : Bool) (name : ColumnName) :
    (name.entry big).length = 2 + name.len := by
  rw [ColumnName.entry, List.length_append]
  cases big <;> rfl

section Walks

variable {big : Bool} {name : ColumnName} (before tail : Bytes)

/-- The length and the name stand where the entry does. -/
theorem shortAt_entry :
    shortAt big (before ++ (name.entry big ++ tail)) before.length = some (name.len : Int) := by
  rw [ColumnName.entry, List.append_assoc]
  exact shortAt_length big name.short before _

theorem nameAt_behind (filled : name.text ≠ []) :
    nameAt (before ++ (name.entry big ++ tail)) (before.length + 2)
      (before.length + 2 + (name.len - 1)) = some name.taken := by
  have size : (before ++ shortBytes big name.len).length = before.length + 2 := by
    rw [List.length_append]
    cases big <;> rfl
  have front : before ++ (name.entry big ++ tail) =
      (before ++ shortBytes big name.len) ++ (blankPadded name.text ++ tail) := by
    simp [ColumnName.entry]
  rw [front, ← size]
  exact nameAt_entry filled _ tail

theorem writeRowName_filled (filled : name.text ≠ []) (i : Nat) (lastchar : Option Nat) :
    writeRowName big (before ++ (name.entry big ++ tail)) i
        { nb := some before.length, lastchar := lastchar } =
      some (name.taken, {
        nb := some (before.length + (name.entry big).length)
        lastchar := some (before.length + 2 + (name.len - 1)) }) := by
  have some : name.len ≠ 0 := mt len_eq_zero.mp filled
  have behind : before.length + 2 + (name.len - 1) + 1 =
      before.length + (name.entry big).length := by
    rw [entry_length]
    omega
  have positive : ¬ ((name.len : Int) < 0) := by omega
  have other : ¬ ((name.len : Int) = 0) := by omega
  simp only [writeRowName, Option.bind_eq_bind, Option.bind_some, shortAt_entry, positive, other,
    if_false, Int.toNat_natCast, nameAt_behind before tail filled, Option.map_some, behind]

theorem writeRowName_empty (empty : name.text = []) (i : Nat) (lastchar : Option Nat) :
    writeRowName big (before ++ (name.entry big ++ tail)) i
        { nb := some before.length, lastchar := lastchar } =
      some (name.label i, { nb := lastchar.map (· + 1), lastchar := lastchar }) := by
  have zero : (name.len : Int) = 0 := by rw [len_eq_zero.mpr empty]; rfl
  have none : ¬ ((0 : Int) < 0) := by decide
  simp only [writeRowName, Option.bind_eq_bind, Option.bind_some, shortAt_entry, zero, none,
    if_true, if_false, ColumnName.label, empty]

end Walks

/-- A round begins where its pointer stands. -/
theorem writeRowNames_first {big : Bool} {buf : Bytes} {n i : Nat} {walk : Walk}
    {first : Nat × Bytes} {rest : List (Nat × Bytes)}
    (walked : writeRowNames big buf (n + 1) i walk = some (first :: rest)) :
    walk.nb = some first.1 := by
  simp only [writeRowNames, Option.bind_eq_bind, Option.bind_eq_some_iff, Option.some_inj] at walked
  obtain ⟨nb, at_, named, -, rest', -, same⟩ := walked
  rw [at_, ← (List.cons.inj same).1]

/-- Each name is read at its place if only the last may be empty, and none ends with a blank
that is its own. -/
def Plain (names : List ColumnName) : Prop :=
  (∀ name ∈ names.dropLast, name.text ≠ []) ∧ ∀ name ∈ names, ¬ name.EndsBlank

theorem plain_cons {name : ColumnName} {rest : List ColumnName} :
    Plain (name :: rest) ↔ (rest ≠ [] → name.text ≠ []) ∧ ¬ name.EndsBlank ∧ Plain rest := by
  cases rest with
  | nil => simp [Plain]
  | cons next rest =>
      simp only [Plain, List.dropLast_cons_cons, List.forall_mem_cons, ne_eq, List.cons_ne_nil,
        not_false_eq_true, forall_const]
      tauto

theorem writeRowNames_iff (big : Bool) (names : List ColumnName) (before : Bytes) (i : Nat)
    (lastchar : Option Nat) (behind : ∀ p ∈ lastchar, p + 1 = before.length) :
    writeRowNames big (before ++ namesBuffer big names) names.length i
        { nb := some before.length, lastchar := lastchar } =
      some (labels big before.length i names) ↔ Plain names := by
  induction names generalizing before i lastchar with
  | nil => exact iff_of_true rfl ⟨by simp, by simp⟩
  | cons name rest ih =>
      have buffer : before ++ namesBuffer big (name :: rest) =
          before ++ (name.entry big ++ namesBuffer big rest) := by
        rw [namesBuffer, List.flatMap_cons, namesBuffer]
      rw [plain_cons, buffer]
      by_cases empty : name.text = []
      · -- the pointer stays where it is, or has no value: only the last name may be empty
        have named := @writeRowName_empty big name before (namesBuffer big rest) empty i lastchar
        simp only [List.length_cons, writeRowNames, Option.bind_eq_bind, Option.bind_some, named,
          labels]
        cases rest with
        | nil =>
            refine iff_of_true rfl ⟨fun some => absurd rfl some, fun ends => ?_, by simp [Plain]⟩
            rw [ColumnName.EndsBlank, empty] at ends
            cases ends.2
        | cons next rest =>
            refine iff_of_false (fun walked => ?_) fun plain =>
              plain.1 (List.cons_ne_nil _ _) empty
            obtain ⟨others, walked, same⟩ := Option.bind_eq_some_iff.mp walked
            rw [(List.cons.inj (Option.some.inj same)).2] at walked
            have first := writeRowNames_first walked
            cases lastchar with
            | none => cases first
            | some p =>
                have here := behind p rfl
                have there : p + 1 = _ := Option.some.inj first
                rw [entry_length] at there
                omega
      · have named := @writeRowName_filled big name before (namesBuffer big rest) empty i lastchar
        have others := ih (before ++ name.entry big) (i + 1)
          (some (before.length + 2 + (name.len - 1))) (by
            rintro p ⟨⟩
            have some : name.len ≠ 0 := mt len_eq_zero.mp empty
            rw [List.length_append, entry_length]
            omega)
        rw [List.append_assoc, List.length_append] at others
        simp only [List.length_cons, writeRowNames, Option.bind_eq_bind, Option.bind_some, named,
          labels, ColumnName.label, if_neg empty]
        rw [← name.taken_iff, ← others]
        constructor
        · intro walked
          obtain ⟨found, walked, same⟩ := Option.bind_eq_some_iff.mp walked
          obtain ⟨first, behind⟩ := List.cons.inj (Option.some.inj same)
          exact ⟨fun _ => empty, congrArg Prod.snd first, by rw [walked, behind]⟩
        · rintro ⟨-, taken, walked⟩
          rw [walked, taken]
          rfl

/-! ## The walk through the input names -/

theorem taken_empty {name : ColumnName} (empty : name.text = []) : name.taken = [] := by
  rw [ColumnName.taken, empty]
  rfl

theorem bind_cons {α : Type} (found : Option (List α)) (first : α) :
    (found.bind fun rest => some (first :: rest)) = found.map (first :: ·) := by
  cases found <;> rfl

/-- One round: it looks the name up, and goes on behind it. -/
theorem setInputNames_round (big : Bool) (goesOn : Bytes → Nat → Bool) (name : ColumnName)
    (before tail : Bytes) (n i : Nat) :
    setInputNames big (before ++ (name.entry big ++ tail)) goesOn (n + 1) i before.length =
      if 30 < name.len then some []
      else
        (if goesOn name.taken i then
          setInputNames big (before ++ (name.entry big ++ tail)) goesOn n (i + 1)
            (before.length + (name.entry big).length)
        else some []).map ((before.length, name.taken) :: ·) := by
  have long : ((name.len : Int) > 30) ↔ 30 < name.len := by omega
  have positive : ¬ ((name.len : Int) < 0) := by omega
  simp only [setInputNames, Option.bind_eq_bind, Option.bind_some, shortAt_entry, long, positive,
    if_false]
  by_cases stop : 30 < name.len
  · rw [if_pos stop, if_pos stop]
  · rw [if_neg stop, if_neg stop]
    by_cases empty : name.text = []
    · have zero : name.len = 0 := len_eq_zero.mpr empty
      have size : (name.entry big).length = 2 := by rw [entry_length, zero]
      have none : ((0 : Nat) : Int) = 0 := rfl
      simp only [zero, taken_empty empty, size, none, if_true]
      split
      · exact bind_cons _ _
      · rfl
    · have some : name.len ≠ 0 := mt len_eq_zero.mp empty
      have other : ¬ ((name.len : Int) = 0) := by omega
      have behind : before.length + 2 + (name.len - 1) + 1 =
          before.length + (name.entry big).length := by
        rw [entry_length]
        omega
      simp only [other, if_false, Int.toNat_natCast, nameAt_behind before tail empty,
        Option.bind_some, behind]
      split
      · exact bind_cons _ _
      · rfl

/-- The names up to the first that is too long for the buffer. -/
def reached (names : List ColumnName) : List ColumnName := names.takeWhile fun name => name.len ≤ 30

theorem walked_of_plain (big : Bool) (goesOn : Bytes → Nat → Bool) (names : List ColumnName)
    (before : Bytes) (i : Nat) (plain : ∀ name ∈ reached names, ¬ name.EndsBlank) :
    setInputNames big (before ++ namesBuffer big names) goesOn names.length i before.length =
      some (parameters big goesOn before.length i names) := by
  induction names generalizing before i with
  | nil => rfl
  | cons name rest ih =>
      have buffer : before ++ namesBuffer big (name :: rest) =
          before ++ (name.entry big ++ namesBuffer big rest) := by
        rw [namesBuffer, List.flatMap_cons, namesBuffer]
      rw [buffer, List.length_cons, setInputNames_round, parameters]
      by_cases stop : 30 < name.len
      · rw [if_pos stop, if_pos stop]
      · have first : reached (name :: rest) = name :: reached rest :=
          List.takeWhile_cons_of_pos (by simpa using stop)
        rw [first] at plain
        have others := ih (before ++ name.entry big) (i + 1)
          fun name mem => plain name (List.mem_cons_of_mem _ mem)
        rw [List.append_assoc, List.length_append] at others
        rw [if_neg stop, if_neg stop, others, name.taken_iff.mpr (plain name List.mem_cons_self)]
        cases goesOn name.text i <;> rfl

theorem plain_of_walked (big : Bool) (names : List ColumnName) (before : Bytes) (i : Nat)
    (walked : setInputNames big (before ++ namesBuffer big names) (fun _ _ => true) names.length i
      before.length = some (parameters big (fun _ _ => true) before.length i names)) :
    ∀ name ∈ reached names, ¬ name.EndsBlank := by
  induction names generalizing before i with
  | nil => exact fun _ mem => nomatch mem
  | cons name rest ih =>
      have buffer : before ++ namesBuffer big (name :: rest) =
          before ++ (name.entry big ++ namesBuffer big rest) := by
        rw [namesBuffer, List.flatMap_cons, namesBuffer]
      rw [buffer, List.length_cons, setInputNames_round, parameters] at walked
      by_cases stop : 30 < name.len
      · have none : reached (name :: rest) = [] :=
          List.takeWhile_cons_of_neg (by simpa using stop)
        rw [none]
        exact fun _ mem => nomatch mem
      · have first : reached (name :: rest) = name :: reached rest :=
          List.takeWhile_cons_of_pos (by simpa using stop)
        rw [if_neg stop, if_neg stop] at walked
        obtain ⟨found, others, same⟩ := Option.map_eq_some_iff.mp walked
        obtain ⟨taken, behind⟩ := List.cons.inj same
        rw [if_pos rfl, behind, if_pos rfl] at others
        rw [first]
        refine List.forall_mem_cons.mpr ⟨name.taken_iff.mp (congrArg Prod.snd taken), ?_⟩
        refine ih (before ++ name.entry big) (i + 1) ?_
        rw [List.append_assoc, List.length_append]
        exact others

/-! ## Both walks -/

/-- The columns and the parameters get their own names exactly if of the columns only the last
has none, and no name has a blank of its own where the padding would stand. -/
theorem named_iff (big : Bool) (columns inputs : List ColumnName) :
    Labelled big columns ∧ Walked big inputs ↔
      Plain columns ∧ ∀ name ∈ reached inputs, ¬ name.EndsBlank := by
  refine and_congr ?_ ⟨fun walked => ?_, fun plain goesOn => ?_⟩
  · exact writeRowNames_iff big columns [] 0 none fun _ mem => nomatch mem
  · exact plain_of_walked big inputs [] 0 (walked _)
  · exact walked_of_plain big goesOn inputs [] 0 plain

/-- The columns `A`, one without a name, and `B`. -/
def unnamedBetween : List ColumnName :=
  [⟨[65], by decide, by decide⟩, ⟨[], by decide, by decide⟩, ⟨[66], by decide, by decide⟩]

/-- What the walk reads of them. -/
def readBetween : List (Nat × Bytes) := [(0, [65]), (4, lit "EXPR1"), (4, lit "EXPR2")]

/-- The third column is labelled EXPR2, from the length of the second. -/
theorem unnamed_read_again :
    writeRowNames true (namesBuffer true unnamedBetween) 3 0 { nb := some 0, lastchar := none } =
      some readBetween ∧ ¬ Labelled true unnamedBetween := by
  have walked : writeRowNames true (namesBuffer true unnamedBetween) 3 0
      { nb := some 0, lastchar := none } = some readBetween := by
    decide
  refine ⟨walked, fun labelled => ?_⟩
  have same := Option.some.inj (walked.symm.trans labelled)
  exact absurd same (by decide)

end Jspp.Splc
