/-
# Splc.Vec -- the vectors of the portable library

A `vector` has a block of `m_count` elements, of which the first `m_pos` are its
own.  `vectorAdd` doubles a full block, `vectorSetElementAt` asks for two more
elements than the index.  A write outside of the block and a number that no
`int` holds are undefined; a block is new with anything in it.

* `Vec`: the operations.
* `Vec.Call`, `run`: calls one behind another.
* `Vec.IsOf`: the vector as a list, with gaps where nothing was stored.
* `step_isOf`: what a call does, and when it is defined.
* `vector_iff`: all calls are, from a block of the first capacity.

Allocation is taken to succeed.
-/
import Jspp.Splc.Buffers

namespace Jspp.Splc

open Jspp.Theory

set_option autoImplicit false

universe u

/-- A `vector`. -/
structure Vec (α : Type u) where
  m_vdata : List α
  m_count : Nat
  m_pos : Nat

namespace Vec

variable {α : Type u}

/-! ## vector.c -/

section Source

-- What is in a new block, by its size and the place in it.
variable (junk : Nat → Nat → α)

def block (n : Nat) : List α := (List.range n).map (junk n)

def _vectorExtend (v : Vec α) (newlen : Nat) : Option (Vec α) :=
  if newlen ≤ intMax then
    (storeAll (block junk newlen) 0 (v.m_vdata.take v.m_count)).map fun newbuf =>
      { v with m_vdata := newbuf, m_count := newlen }
  else none

def _vectorExtendTo (v : Vec α) (index : Nat) : Option (Vec α) :=
  if v.m_count < index then v._vectorExtend junk (index + 1) else some v

def vectorNewSized (count : Nat) : Vec α where
  m_vdata := block junk count
  m_count := count
  m_pos := 0

/-- `vectorElementAt`; `none` is NULL. -/
def vectorElementAt (v : Vec α) (idx : Int) : Option α :=
  if v.m_pos ≤ idx ∨ idx < 0 then none else v.m_vdata[idx.toNat]?

def vectorSetElementAt (v : Vec α) (idx : Nat) (data : α) : Option (Vec α) :=
  (if v.m_count ≤ idx then v._vectorExtendTo junk (idx + 1) else some v).bind fun v =>
    (store v.m_vdata idx data).map fun m_vdata =>
      { v with m_vdata := m_vdata, m_pos := if v.m_pos ≤ idx then idx + 1 else v.m_pos }

def vectorAdd (v : Vec α) (data : α) : Option (Vec α) :=
  (if v.m_pos = v.m_count then v._vectorExtend junk (v.m_count * 2) else some v).bind fun v =>
    (store v.m_vdata v.m_pos data).map fun m_vdata =>
      { v with m_vdata := m_vdata, m_pos := v.m_pos + 1 }

/-- The calls that change a vector. -/
inductive Call (α : Type u) where
  | add (data : α)
  | set (idx : Nat) (data : α)

def Call.run (v : Vec α) : Call α → Option (Vec α)
  | add data => v.vectorAdd junk data
  | set idx data => v.vectorSetElementAt junk idx data

def run (v : Vec α) : List (Call α) → Option (Vec α)
  | [] => some v
  | call :: calls => (call.run junk v).bind fun v => run v calls

end Source

/-! ## Lists with gaps -/

/-- The list behind a call: what was stored last at each index. -/
def Call.contents (l : List (Option α)) : Call α → List (Option α)
  | add data => l ++ [some data]
  | set idx data => (l ++ List.replicate (idx + 1 - l.length) none).set idx (some data)

/-- The vector is the list: what was stored is found, and nothing outside. -/
structure IsOf (v : Vec α) (l : List (Option α)) : Prop where
  block : v.m_vdata.length = v.m_count
  pos : v.m_pos = l.length
  room : v.m_pos ≤ v.m_count
  stored : ∀ (i : Nat) (x : α), l[i]? = some (some x) → v.vectorElementAt i = some x
  outside : ∀ i : Int, i < 0 ∨ v.m_pos ≤ i → v.vectorElementAt i = none

/-- The elements that were stored are in the block. -/
structure Holds (v : Vec α) (l : List (Option α)) : Prop where
  block : v.m_vdata.length = v.m_count
  pos : v.m_pos = l.length
  room : v.m_pos ≤ v.m_count
  stored : ∀ (i : Nat) (x : α), l[i]? = some (some x) → v.m_vdata[i]? = some x

theorem Holds.isOf {v : Vec α} {l : List (Option α)} (holds : v.Holds l) : v.IsOf l := by
  refine ⟨holds.block, holds.pos, holds.room, fun i x found => ?_, fun i out => ?_⟩
  · have inside := (List.getElem?_eq_some_iff.mp found).1
    have pos := holds.pos
    rw [vectorElementAt, if_neg (by omega)]
    exact holds.stored i x found
  · exact if_pos (by omega)

variable {junk : Nat → Nat → α} {v v' : Vec α} {l : List (Option α)}

@[simp] theorem length_block (n : Nat) : (Vec.block junk n).length = n := by
  simp [Vec.block]

theorem vectorNewSized_holds (count : Nat) : (vectorNewSized junk count).Holds [] :=
  ⟨length_block count, rfl, Nat.zero_le _, fun i x found => by simp at found⟩

/-- The elements are copied to the front of the new block. -/
theorem _vectorExtend_holds (holds : v.Holds l) {newlen : Nat} (more : v.m_count ≤ newlen)
    (int : newlen ≤ intMax) :
    ∃ v', v._vectorExtend junk newlen = some v' ∧ v'.Holds l ∧ v'.m_count = newlen := by
  have whole : v.m_vdata.take v.m_count = v.m_vdata :=
    List.take_of_length_le (Nat.le_of_eq holds.block)
  have copied := @storeAll_eq _ (Vec.block junk newlen) 0 v.m_vdata
    (by rw [length_block, holds.block]; omega)
  rw [List.take_zero, List.nil_append, Nat.zero_add] at copied
  refine ⟨⟨v.m_vdata ++ (Vec.block junk newlen).drop v.m_vdata.length, newlen, v.m_pos⟩, ?_,
    ⟨?_, holds.pos, holds.room.trans more, fun i x found => ?_⟩, rfl⟩
  · simp only [_vectorExtend, if_pos int, whole, copied, Option.map_some]
  · show (v.m_vdata ++ (Vec.block junk newlen).drop v.m_vdata.length).length = newlen
    rw [List.length_append, List.length_drop, length_block, holds.block]
    omega
  · have here := holds.stored i x found
    have inside := (List.getElem?_eq_some_iff.mp here).1
    exact (List.getElem?_append_left inside).trans here

theorem _vectorExtend_none {newlen : Nat} (large : intMax < newlen) :
    v._vectorExtend junk newlen = none := if_neg (by omega)

/-! ## One call -/

/-- The call needs no block of a length that no `int` holds, and no doubled block of none. -/
def Call.Fits (count len : Nat) : Call α → Prop
  | add _ => len = count → count ≠ 0 ∧ count * 2 ≤ intMax
  | set idx _ => count ≤ idx → idx + 2 ≤ intMax

/-- The capacity behind the call. -/
def Call.count (count len : Nat) : Call α → Nat
  | add _ => if len = count then count * 2 else count
  | set idx _ => if count ≤ idx then idx + 2 else count

/-- An element is stored where the list is changed. -/
theorem Holds.store {k : Nat} {x : α} {l' : List (Option α)} (holds : v.Holds l)
    (inside : k < v.m_count) (pos : l'.length ≤ v.m_count)
    (kept : ∀ (i : Nat) (y : α), l'[i]? = some (some y) →
      i = k ∧ y = x ∨ i ≠ k ∧ l[i]? = some (some y)) :
    ∃ m_vdata, store v.m_vdata k x = some m_vdata ∧
      (⟨m_vdata, v.m_count, l'.length⟩ : Vec α).Holds l' := by
  have room : k < v.m_vdata.length := by
    rw [holds.block]
    exact inside
  refine ⟨v.m_vdata.set k x, store_inside room x, ?_, rfl, pos, fun i y found => ?_⟩
  · exact List.length_set.trans holds.block
  · rcases kept i y found with ⟨rfl, rfl⟩ | ⟨other, here⟩
    · exact List.getElem?_set_self room
    · rw [List.getElem?_set_ne (Ne.symm other)]
      exact holds.stored i y here

theorem contents_add (l : List (Option α)) (x : α) (i : Nat) (y : α)
    (found : (l ++ [some x])[i]? = some (some y)) :
    i = l.length ∧ y = x ∨ i ≠ l.length ∧ l[i]? = some (some y) := by
  rcases Nat.lt_trichotomy i l.length with less | rfl | more
  · rw [List.getElem?_append_left less] at found
    exact .inr ⟨Nat.ne_of_lt less, found⟩
  · rw [List.getElem?_append_right (Nat.le_refl _), Nat.sub_self] at found
    exact .inl ⟨rfl, (Option.some.inj (Option.some.inj found)).symm⟩
  · rw [List.getElem?_eq_none (by rw [List.length_append]; exact more)] at found
    cases found

theorem contents_set (l : List (Option α)) (k : Nat) (x : α) (i : Nat) (y : α)
    (found : ((l ++ List.replicate (k + 1 - l.length) none).set k (some x))[i]? = some (some y)) :
    i = k ∧ y = x ∨ i ≠ k ∧ l[i]? = some (some y) := by
  by_cases same : i = k
  · subst same
    rw [List.getElem?_set_self (by rw [List.length_append, List.length_replicate]; omega)] at found
    exact .inl ⟨rfl, (Option.some.inj (Option.some.inj found)).symm⟩
  · rw [List.getElem?_set_ne (Ne.symm same)] at found
    by_cases inside : i < l.length
    · rw [List.getElem?_append_left inside] at found
      exact .inr ⟨same, found⟩
    · rw [List.getElem?_append_right (by omega), List.getElem?_replicate] at found
      split at found <;> cases found

theorem add_inside (holds : v.Holds l) (inside : l.length < v.m_count) (x : α) :
    ∃ v', ((Theory.store v.m_vdata v.m_pos x).map fun m_vdata =>
        { v with m_vdata := m_vdata, m_pos := v.m_pos + 1 }) = some v' ∧
      v'.Holds (l ++ [some x]) ∧ v'.m_count = v.m_count := by
  have size : (l ++ [some x]).length = l.length + 1 := by simp
  obtain ⟨m_vdata, stored, holds'⟩ :=
    holds.store inside (by rw [size]; exact inside) (contents_add l x)
  rw [size] at holds'
  rw [holds.pos, stored]
  exact ⟨⟨m_vdata, v.m_count, l.length + 1⟩, rfl, holds', rfl⟩

theorem set_inside (holds : v.Holds l) {idx : Nat} (inside : idx < v.m_count) (x : α) :
    ∃ v', ((Theory.store v.m_vdata idx x).map fun m_vdata =>
        { v with m_vdata := m_vdata, m_pos := if v.m_pos ≤ idx then idx + 1 else v.m_pos }) =
          some v' ∧
      v'.Holds ((Call.set idx x).contents l) ∧ v'.m_count = v.m_count := by
  have room := holds.room
  have size : ((Call.set idx x).contents l).length =
      if v.m_pos ≤ idx then idx + 1 else v.m_pos := by
    rw [Call.contents, List.length_set, List.length_append, List.length_replicate, holds.pos]
    split <;> omega
  obtain ⟨m_vdata, stored, holds'⟩ := @Holds.store _ v l idx x ((Call.set idx x).contents l) holds
    inside (by rw [size]; split <;> omega) (contents_set l idx x)
  rw [size] at holds'
  rw [stored]
  exact ⟨_, rfl, holds', rfl⟩

theorem vectorAdd_fits (holds : v.Holds l) {x : α} (fits : (Call.add x).Fits v.m_count l.length) :
    ∃ v', v.vectorAdd junk x = some v' ∧ v'.Holds (l ++ [some x]) ∧
      v'.m_count = (Call.add x).count v.m_count l.length := by
  have room := holds.room
  have pos := holds.pos
  by_cases full : l.length = v.m_count
  · obtain ⟨some, int⟩ := fits full
    obtain ⟨grown, extended, holds', count⟩ :=
      @_vectorExtend_holds _ junk v l holds (v.m_count * 2) (by omega) int
    obtain ⟨v', stored, after⟩ := add_inside holds' (by omega) x
    refine ⟨v', ?_, after.1, ?_⟩
    · rw [vectorAdd, if_pos (pos.trans full), extended]
      exact stored
    · rw [after.2, count, Call.count, if_pos full]
  · obtain ⟨v', stored, after⟩ := add_inside holds (by omega) x
    refine ⟨v', ?_, after.1, ?_⟩
    · rw [vectorAdd, if_neg fun same => full (pos.symm.trans same)]
      exact stored
    · rw [after.2, Call.count, if_neg full]

/-- A full block of no elements is not extended. -/
theorem vectorAdd_none (holds : v.Holds l) {x : α}
    (unfit : ¬ (Call.add x).Fits v.m_count l.length) :
    v.vectorAdd junk x = none := by
  have pos := holds.pos
  rw [Call.Fits, Classical.not_imp, not_and_or, not_not] at unfit
  obtain ⟨full, zero | large⟩ := unfit
  · obtain ⟨grown, extended, holds', count⟩ :=
      @_vectorExtend_holds _ junk v l holds (v.m_count * 2) (by omega) (by omega)
    have outside : Theory.store grown.m_vdata grown.m_pos x = none := by
      refine store_outside ?_ x
      have block := holds'.block
      omega
    rw [vectorAdd, if_pos (pos.trans full), extended, Option.bind_some, outside, Option.map_none]
  · rw [vectorAdd, if_pos (pos.trans full), _vectorExtend_none (by omega), Option.bind_none]

theorem vectorSetElementAt_fits (holds : v.Holds l) {idx : Nat} {x : α}
    (fits : (Call.set idx x).Fits v.m_count l.length) :
    ∃ v', v.vectorSetElementAt junk idx x = some v' ∧ v'.Holds ((Call.set idx x).contents l) ∧
      v'.m_count = (Call.set idx x).count v.m_count l.length := by
  by_cases behind : v.m_count ≤ idx
  · obtain ⟨grown, extended, holds', count⟩ :=
      @_vectorExtend_holds _ junk v l holds (idx + 1 + 1) (by omega) (fits behind)
    obtain ⟨v', stored, after⟩ := @set_inside _ grown l holds' idx (by omega) x
    refine ⟨v', ?_, after.1, ?_⟩
    · rw [vectorSetElementAt, if_pos behind, _vectorExtendTo, if_pos (by omega), extended]
      exact stored
    · rw [after.2, count, Call.count, if_pos behind]
  · obtain ⟨v', stored, after⟩ := @set_inside _ v l holds idx (by omega) x
    refine ⟨v', ?_, after.1, ?_⟩
    · rw [vectorSetElementAt, if_neg behind]
      exact stored
    · rw [after.2, Call.count, if_neg behind]

theorem vectorSetElementAt_none {idx len : Nat} {x : α}
    (unfit : ¬ (Call.set idx x).Fits v.m_count len) : v.vectorSetElementAt junk idx x = none := by
  rw [Call.Fits, Classical.not_imp] at unfit
  obtain ⟨behind, large⟩ := unfit
  rw [vectorSetElementAt, if_pos behind, _vectorExtendTo, if_pos (by omega),
    _vectorExtend_none (by omega), Option.bind_none]

/-- A call is defined exactly where it fits, and then keeps what it does not store. -/
theorem step_holds (holds : v.Holds l) (call : Call α) :
    (call.Fits v.m_count l.length ∧ ∃ v', call.run junk v = some v' ∧ v'.Holds (call.contents l) ∧
        v'.m_count = call.count v.m_count l.length) ∨
      ¬ call.Fits v.m_count l.length ∧ call.run junk v = none := by
  by_cases fits : call.Fits v.m_count l.length
  · cases call with
    | add x => exact .inl ⟨fits, vectorAdd_fits holds fits⟩
    | set idx x => exact .inl ⟨fits, vectorSetElementAt_fits holds fits⟩
  · cases call with
    | add x => exact .inr ⟨fits, vectorAdd_none holds fits⟩
    | set idx x => exact .inr ⟨fits, vectorSetElementAt_none fits⟩

/-! ## Calls -/

/-- Every call fits behind the calls before it. -/
def AllFit : Nat → List (Option α) → List (Call α) → Prop
  | _, _, [] => True
  | count, l, call :: calls =>
      call.Fits count l.length ∧ AllFit (call.count count l.length) (call.contents l) calls

theorem run_holds {calls : List (Call α)} (holds : v.Holds l) (fits : AllFit v.m_count l calls) :
    ∃ v', run junk v calls = some v' ∧ v'.Holds (calls.foldl Call.contents l) := by
  induction calls generalizing v l with
  | nil => exact ⟨v, rfl, holds⟩
  | cons call calls ih =>
      rcases @step_holds _ junk v l holds call with ⟨-, next, ran, holds', count⟩ | ⟨unfit, -⟩
      · obtain ⟨last, more, after⟩ := ih holds' (by rw [count]; exact fits.2)
        exact ⟨last, by rw [run, ran]; exact more, after⟩
      · exact absurd fits.1 unfit

theorem AllFit.of_run {calls : List (Call α)} (holds : v.Holds l)
    (ran : run junk v calls = some v') : AllFit v.m_count l calls := by
  induction calls generalizing v l with
  | nil => trivial
  | cons call calls ih =>
      rcases @step_holds _ junk v l holds call with
        ⟨fits, next, first, holds', count⟩ | ⟨-, none⟩
      · rw [run, first] at ran
        exact ⟨fits, count ▸ ih holds' ran⟩
      · rw [run, none] at ran
        cases ran

theorem AllFit.front {count : Nat} {front rest : List (Call α)}
    (fits : AllFit count l (front ++ rest)) : AllFit count l front := by
  induction front generalizing count l with
  | nil => trivial
  | cons call front ih => exact ⟨fits.1, ih fits.2⟩

/-- After every call the vector is the list of what was stored. -/
def Behaves (junk : Nat → Nat → α) (count : Nat) (calls : List (Call α)) : Prop :=
  ∀ front, front <+: calls → ∃ v', run junk (vectorNewSized junk count) front = some v' ∧
    v'.IsOf (front.foldl Call.contents [])

/-- The calls behave if and only if none of them is a `vectorAdd` to a vector without capacity,
and none needs a capacity that no `int` holds. -/
theorem vector_iff (count : Nat) (calls : List (Call α)) :
    Behaves junk count calls ↔ AllFit count [] calls := by
  constructor
  · intro behaves
    obtain ⟨v', ran, -⟩ := behaves calls (List.prefix_refl calls)
    exact AllFit.of_run (vectorNewSized_holds count) ran
  · rintro fits front ⟨rest, rfl⟩
    obtain ⟨v', ran, holds⟩ := @run_holds _ junk _ _ front (vectorNewSized_holds count) fits.front
    exact ⟨v', ran, holds.isOf⟩

/-- The first element of a vector that was made for none is written outside of its block. -/
theorem add_outside : ¬ ∀ (junk : Nat → Nat → Bool) count calls, Behaves junk count calls := by
  intro behaves
  obtain ⟨v', ran, -⟩ := behaves (fun _ _ => true) 0 [.add true] _ (List.prefix_refl _)
  have fits := (AllFit.of_run (vectorNewSized_holds 0) ran).1 rfl
  exact fits.1 rfl

end Vec

end Jspp.Splc
