/-
# Kernel.Arrays -- the `Array` class

An `Array` keeps its elements in one vector.  The number of an element is the sum
of the indices, each times the length of its own dimension, and no index is
compared with a length: tuples share elements, and a tuple outside of the shape
names an element all the same.

* `Cvector`: the vector of the collection library, which the repository does not have.
* `array_arrayX`, `arrayHelperSet`, `array_itemX`, `array_length`, `array_dims`.
* `addresses_iff`: the arrays whose elements are told apart.
* `outside_iff`: the accesses outside of the shape that are reported.
-/
import Jspp.Kernel.Machine
import Jspp.Theory.Box

namespace Jspp.Kernel

open Jspp.Theory

set_option autoImplicit false

/-! ## The vector -/

/-- The vector of the collection library: it holds pointers to variants of its own, so it
is modelled with the variants.  `get` is NULL where nothing was set. -/
structure Cvector where
  V : Type
  construct : V
  get : V → Int → Option Variant
  set : V → Int → Option Variant → V

/-- What is set is read back, and nothing else changes. -/
structure Cvector.Lawful (cv : Cvector) : Prop where
  get_set_self : ∀ (v : cv.V) (n : Int) (x : Variant), 0 ≤ n →
    cv.get (cv.set v n (some x)) n = some x
  get_set_ne : ∀ (v : cv.V) (n m : Int) (x : Option Variant), 0 ≤ n → 0 ≤ m → m ≠ n →
    cv.get (cv.set v n x) m = cv.get v m

/-- A vector as a function. -/
def plainVector : Cvector where
  V := Int → Option Variant
  construct := fun _ => none
  get v n := v n
  set v n x := Function.update v n x

theorem plainVector_lawful : plainVector.Lawful := by
  refine ⟨?_, ?_⟩
  · intro v n x _
    exact Function.update_self n (some x) (v : Int → Option Variant)
  · intro v n m x _ _ ne
    exact Function.update_of_ne ne x (v : Int → Option Variant)

/-! ## The functions -/

/-- `ARRAY_MAX_DIMS`. -/
def arrayMaxDims : Nat := 10

/-- `struct arraydata`; `dims` is the number of the lengths. -/
structure Arraydata (cv : Cvector) where
  array : cv.V
  dimlens : List Int
  nonneg : ∀ l ∈ dimlens, 0 ≤ l
  dims_le : dimlens.length ≤ arrayMaxDims

/-- A value that an `int` can hold. -/
def IsInt (x : Int) : Prop := -2 ^ 31 ≤ x ∧ x < 2 ^ 31

instance (x : Int) : Decidable (IsInt x) := inferInstanceAs (Decidable (_ ∧ _))

/-- The loop over the dimensions; signed overflow is not defined. -/
def elementOf : List Int → List Int → Int → Option Int
  | l :: dimlens, i :: indexes, element =>
      if IsInt (i * l) ∧ IsInt (element + i * l) then
        elementOf dimlens indexes (element + i * l)
      else none
  | _, _, element => some element

section

variable {cv : Cvector}

/-- Lengths that are no negative numbers. -/
abbrev Dimlens := { lens : List Int // ∀ l ∈ lens, 0 ≤ l }

/-- The loop over the arguments of the constructor, with the number of the elements. -/
def dimensions (elements : Int) : List Variant → Option (Except InterpErrors (Dimlens × Int))
  | [] => some (.ok (⟨[], nofun⟩, elements))
  | varlen :: args =>
      match varlen.varGetInt with
      | none => some (.error .typeMismatch)
      | some len =>
          if nonneg : 0 ≤ len then
            if IsInt (elements * len) then
              (dimensions (elements * len) args).map fun found =>
                found.map fun (lens, elements) =>
                  (⟨len :: lens.val, List.forall_mem_cons.mpr ⟨nonneg, lens.property⟩⟩, elements)
            else none
          else some (.error .indexOutOfBounds)

/-- `array_arrayX`: the error code, and the new array.  More dimensions than
`ARRAY_MAX_DIMS` are written behind the lengths, which is not defined. -/
def array_arrayX (cv : Cvector) (args : List Variant) :
    Option (InterpErrors × Option (Arraydata cv)) :=
  (dimensions 1 args).bind fun
    | .error err => some (err, none)
    | .ok (lens, elements) =>
        if room : lens.val.length ≤ arrayMaxDims then
          some (.none, some
            ⟨cv.set cv.construct (elements - 1) none, lens.val, lens.property, room⟩)
        else none

/-- `arrayHelperSet`: the error code, and the array. -/
def arrayHelperSet (adp : Arraydata cv) (data : Variant) (indexes : List Int) :
    Option (InterpErrors × Arraydata cv) :=
  if indexes.length ≠ adp.dimlens.length then some (.wrongArrayIndexs, adp)
  else
    (elementOf adp.dimlens indexes 0).map fun element =>
      (.none, { adp with array := cv.set adp.array element (some data) })

/-- The instances with an `Array` behind them: those whose `magic` is `ARRAY_MAGIC`. -/
abbrev Arrays (cv : Cvector) := Nat → Option (Arraydata cv)

/-- `array_itemX`: the error code, the arrays, and the number of the element `ret` refers to. -/
def array_itemX (arrays : Arrays cv) (varthis : Variant) (args : List Variant) :
    Option (InterpErrors × Arrays cv × Option Int) :=
  match varthis with
  | .inst ip =>
      match arrays ip with
      | none => some (.typeMismatch, arrays, none)
      | some adp =>
          if args.length ≠ adp.dimlens.length then some (.wrongArrayIndexs, arrays, none)
          else
            match args.mapM Variant.varGetInt with
            | none => some (.typeMismatch, arrays, none)
            | some indexes =>
                (elementOf adp.dimlens indexes 0).map fun element =>
                  match cv.get adp.array element with
                  | some _ => (.none, arrays, some element)
                  | none =>
                      let adp := { adp with array := cv.set adp.array element (some .null) }
                      (.none, Function.update arrays ip (some adp), some element)
  | _ => some (.typeMismatch, arrays, none)

/-- `array_length` with and without its argument.  A negative number reads in front of
the lengths, which is not defined. -/
def array_length (arrays : Arrays cv) (varthis : Variant) (dim : Option Variant) :
    Option (InterpErrors × Option Variant) :=
  match varthis with
  | .inst ip =>
      match arrays ip with
      | none => some (.typeMismatch, none)
      | some adp =>
          match (dim.getD (.int 0)).varGetInt with
          | none => some (.typeMismatch, none)
          | some d =>
              if (adp.dimlens.length : Int) ≤ d then some (.indexOutOfBounds, none)
              else if d < 0 then none
              else (adp.dimlens[d.toNat]?).map fun len => (.none, some (.int len))
  | _ => some (.typeMismatch, none)

def array_dims (arrays : Arrays cv) (varthis : Variant) : InterpErrors × Option Variant :=
  match varthis with
  | .inst ip =>
      match arrays ip with
      | none => (.typeMismatch, none)
      | some adp => (.none, some (.int adp.dimlens.length))
  | _ => (.typeMismatch, none)

end

/-! ## Elements -/

/-- Every tuple of the shape has an element in the array, different tuples have different
elements, and a stored value is read back, also after another tuple was stored to. -/
structure Addresses (lens : List Int) : Prop where
  inside : ∀ t, InBox lens t → ∃ n, elementOf lens t 0 = some n ∧ 0 ≤ n ∧ n < lens.prod
  apart : ∀ t u, InBox lens t → InBox lens u → elementOf lens t 0 = elementOf lens u 0 → t = u
  kept : ∀ (cv : Cvector), cv.Lawful → ∀ (adp : Arraydata cv), adp.dimlens = lens →
    ∀ t data, InBox lens t → ∃ adp' : Arraydata cv,
      arrayHelperSet adp data t = some (.none, adp') ∧
        ∀ u n, InBox lens u → elementOf lens u 0 = some n →
          cv.get adp'.array n = if u = t then some data else cv.get adp.array n

/-- What the loop computes while nothing overflows. -/
def weighted : List Int → List Int → Int
  | l :: lens, i :: t => i * l + weighted lens t
  | _, _ => 0

theorem elementOf_eq {lens t : List Int} {acc n : Int} (h : elementOf lens t acc = some n) :
    n = acc + weighted lens t := by
  induction lens generalizing t acc with
  | nil =>
      cases h
      exact (Int.add_zero n).symm
  | cons l lens ih =>
      cases t with
      | nil =>
          cases h
          exact (Int.add_zero n).symm
      | cons i t =>
          rw [elementOf] at h
          split at h
          case isTrue =>
              rw [ih h, weighted]
              omega
          case isFalse => cases h

/-- No tuple has the element 1: an index is 0, or it is multiplied by a length from 2 on. -/
theorem weighted_ne_one {lens t : List Int} (inBox : InBox lens t) :
    weighted lens t = 0 ∨ 2 ≤ weighted lens t := by
  induction inBox with
  | nil => exact .inl rfl
  | @cons l i lens t room _ ih =>
      rw [weighted]
      by_cases zero : i = 0
      · rw [zero, Int.zero_mul, Int.zero_add]
        exact ih
      · have big : 2 ≤ i * l := by
          have one : 1 * l ≤ i * l := Int.mul_le_mul_of_nonneg_right (by omega) (by omega)
          omega
        omega

theorem prod_pos_of_inBox {lens t : List Int} (inBox : InBox lens t) : 0 < lens.prod := by
  induction inBox with
  | nil => decide
  | cons room _ ih =>
      rw [List.prod_cons]
      exact Int.mul_pos (by omega) ih

/-- In an array of one element the only tuple has the element 0. -/
theorem single_element {lens t : List Int} (inBox : InBox lens t) (single : lens.prod ≤ 1) :
    t = lens.map (fun _ => 0) ∧ elementOf lens t 0 = some 0 := by
  induction inBox with
  | nil => exact ⟨rfl, rfl⟩
  | @cons l i lens t room rest ih =>
      have pos := prod_pos_of_inBox rest
      rw [List.prod_cons] at single
      have small : l * 1 ≤ l * lens.prod := Int.mul_le_mul_of_nonneg_left (by omega) (by omega)
      have one : l = 1 := by omega
      subst one
      have zero : i = 0 := by omega
      subst zero
      obtain ⟨same, element⟩ := ih (by omega)
      refine ⟨by rw [List.map_cons, ← same], ?_⟩
      rw [elementOf, if_pos (by decide)]
      exact element

/-- The elements of an array are told apart exactly when it has at most one. -/
theorem addresses_iff {lens : List Int} (nonneg : ∀ l ∈ lens, 0 ≤ l) :
    Addresses lens ↔ lens.prod ≤ 1 := by
  constructor
  · rintro ⟨inside, apart, _⟩
    by_contra many
    have range : ∀ t, InBox lens t →
        0 ≤ (elementOf lens t 0).getD 0 ∧ (elementOf lens t 0).getD 0 < lens.prod := by
      intro t inBox
      obtain ⟨n, element, room⟩ := inside t inBox
      rw [element]
      exact room
    have injective : ∀ t u, InBox lens t → InBox lens u →
        (elementOf lens t 0).getD 0 = (elementOf lens u 0).getD 0 → t = u := by
      intro t u ht hu eq
      obtain ⟨n, element, _⟩ := inside t ht
      obtain ⟨m, element', _⟩ := inside u hu
      rw [element, element', Option.getD_some, Option.getD_some] at eq
      exact apart t u ht hu (by rw [element, element', eq])
    -- the numbering would hit 1
    obtain ⟨t, inBox, one⟩ := InBox.hits nonneg range injective (n := 1) (by omega)
    obtain ⟨n, element, _⟩ := inside t inBox
    rw [element, Option.getD_some] at one
    have value := elementOf_eq element
    rcases weighted_ne_one inBox with none | more
    · omega
    · omega
  · intro single
    refine ⟨?_, ?_, ?_⟩
    · intro t inBox
      exact ⟨0, (single_element inBox single).2, Int.le_refl 0, prod_pos_of_inBox inBox⟩
    · intro t u ht hu _
      rw [(single_element ht single).1, (single_element hu single).1]
    · rintro cv lawful adp rfl t data inBox
      have length : ¬ t.length ≠ adp.dimlens.length :=
        fun ne => ne (List.Forall₂.length_eq inBox).symm
      refine ⟨{ adp with array := cv.set adp.array 0 (some data) }, ?_, ?_⟩
      · rw [arrayHelperSet, if_neg length, (single_element inBox single).2]
        rfl
      · intro u n other element
        rw [(single_element other single).2] at element
        cases element
        rw [if_pos (by rw [(single_element inBox single).1, (single_element other single).1])]
        exact lawful.get_set_self _ _ _ (Int.le_refl 0)

/-- Two tuples of a square of four elements have the same element. -/
theorem addresses_broken : ¬ Addresses [2, 2] := by
  intro told
  have same := told.apart [1, 0] [0, 1] (by simp [InBox]) (by simp [InBox]) (by decide)
  exact absurd same (by decide)

/-- An array of one row and one column, with a plain vector. -/
def oneElement : Arraydata plainVector where
  array := plainVector.construct
  dimlens := [1, 1]
  nonneg := by decide
  dims_le := by decide

theorem addresses_iff_single :
    Addresses [1, 1] ∧ plainVector.Lawful ∧
      ∃ adp : Arraydata plainVector,
        arrayHelperSet oneElement (.int 7) [0, 0] = some (.none, adp) ∧
          plainVector.get adp.array 0 = some (.int 7) := by
  have told : Addresses [1, 1] := (addresses_iff (by decide)).mpr (by decide)
  obtain ⟨adp, stored, back⟩ := told.kept plainVector plainVector_lawful oneElement rfl [0, 0]
    (.int 7) (by simp [InBox])
  have element : elementOf [1, 1] [0, 0] 0 = some 0 := by decide
  exact ⟨told, plainVector_lawful, adp, stored, by
    simpa using back [0, 0] 0 (by simp [InBox]) element⟩

/-! ## Accesses outside of the shape -/

/-- An access to an array by `[]`, or the length of a dimension. -/
inductive Access where
  | item (indexes : List Variant)
  | length (dim : Variant)

/-- The access is outside of the shape: some index is, or the dimension. -/
def Access.Outside (dimlens : List Int) : Access → Prop
  | .item indexes => ∃ is : List Int, indexes.mapM Variant.varGetInt = some is ∧
      is.length = dimlens.length ∧ ¬ InBox dimlens is
  | .length dim => ∃ d, dim.varGetInt = some d ∧ (d < 0 ∨ (dimlens.length : Int) ≤ d)

/-- The access reports that the index is out of bounds, and changes no array. -/
def Access.Reported {cv : Cvector} (arrays : Arrays cv) (varthis : Variant) : Access → Prop
  | .item indexes => array_itemX arrays varthis indexes = some (.indexOutOfBounds, arrays, none)
  | .length dim => array_length arrays varthis (some dim) = some (.indexOutOfBounds, none)

/-- The accesses that compare with a bound: the length of a dimension, from above. -/
def Access.Compared : Access → Prop
  | .item _ => False
  | .length dim => ∃ d, dim.varGetInt = some d ∧ 0 ≤ d

/-- `[]` reports no index that is out of bounds. -/
theorem item_not_reported {cv : Cvector} (arrays : Arrays cv) (varthis : Variant)
    (indexes : List Variant) : ¬ (Access.item indexes).Reported arrays varthis := by
  intro reported
  have answer : array_itemX arrays varthis indexes = some (.indexOutOfBounds, arrays, none) :=
    reported
  unfold array_itemX at answer
  split at answer
  case h_2 => cases answer
  case h_1 ip =>
      split at answer
      case h_1 => cases answer
      case h_2 adp _ =>
          split at answer
          case isTrue => cases answer
          case isFalse =>
              split at answer
              case h_1 => cases answer
              case h_2 is _ =>
                  obtain ⟨element, _, answer⟩ := Option.map_eq_some_iff.mp answer
                  split at answer
                  · cases answer
                  · cases answer

/-- Of the accesses outside of the shape only a dimension behind the last one is reported. -/
theorem outside_iff {cv : Cvector} {arrays : Arrays cv} {ip : Nat} {adp : Arraydata cv}
    (here : arrays ip = some adp) {access : Access} (outside : access.Outside adp.dimlens) :
    access.Reported arrays (.inst ip) ↔ access.Compared := by
  cases access with
  | item indexes => exact iff_of_false (item_not_reported arrays _ indexes) id
  | length dim =>
      obtain ⟨d, value, out⟩ := outside
      have answer : array_length arrays (.inst ip) (some dim) =
          if (adp.dimlens.length : Int) ≤ d then some (.indexOutOfBounds, none)
          else if d < 0 then none
          else (adp.dimlens[d.toNat]?).map fun len => (.none, some (.int len)) := by
        rw [array_length]
        simp only [here, Option.getD_some, value]
      rw [Access.Reported, Access.Compared, answer]
      by_cases behind : (adp.dimlens.length : Int) ≤ d
      · rw [if_pos behind]
        exact iff_of_true rfl ⟨d, value, by omega⟩
      · have before : d < 0 := by omega
        rw [if_neg behind, if_pos before]
        refine iff_of_false nofun ?_
        rintro ⟨d', value', pos⟩
        rw [value] at value'
        cases value'
        omega

/-- An array of two elements, made by its constructor. -/
def pairArray : Arrays plainVector := fun ip =>
  if ip = 0 then ((array_arrayX plainVector [.int 2]).bind Prod.snd) else none

theorem pairArray_zero :
    ∃ adp : Arraydata plainVector, pairArray 0 = some adp ∧ adp.dimlens = [2] :=
  ⟨_, rfl, rfl⟩

/-- The element -1 of an array of two elements is found, and becomes null. -/
theorem outside_broken :
    ∃ (adp : Arraydata plainVector) (access : Access), pairArray 0 = some adp ∧
      access.Outside adp.dimlens ∧ ¬ access.Reported pairArray (.inst 0) := by
  obtain ⟨adp, here, shape⟩ := pairArray_zero
  refine ⟨adp, .item [.int (-1)], here, ⟨[-1], rfl, by rw [shape]; rfl, ?_⟩,
    item_not_reported _ _ _⟩
  rw [shape]
  simp [InBox]

theorem outside_iff_length :
    ∃ adp : Arraydata plainVector, pairArray 0 = some adp ∧
      (Access.length (.int 1)).Outside adp.dimlens ∧
        (Access.length (.int 1)).Reported pairArray (.inst 0) := by
  obtain ⟨adp, here, shape⟩ := pairArray_zero
  have outside : (Access.length (.int 1)).Outside adp.dimlens :=
    ⟨1, rfl, .inr (by rw [shape]; decide)⟩
  exact ⟨adp, here, outside, (outside_iff here outside).mpr ⟨1, rfl, by decide⟩⟩

end Jspp.Kernel
