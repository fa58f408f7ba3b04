/-
# Theory.Box -- numbering the tuples of a box

A box is given by the lengths of its dimensions, and its tuples have in every
dimension an index from 0 up to the length.  There are as many of them as the
product of the lengths, so a numbering that is injective and stays below the
product gives every number below it to some tuple.

* `InBox`, `box`, `card_box`.
* `InBox.hits`: an injective numbering leaves nothing out.
-/
import Mathlib.Data.Finset.Prod
import Mathlib.Data.Int.Interval
import Mathlib.Algebra.BigOperators.Group.List.Basic

namespace Jspp.Theory

set_option autoImplicit false

/-- An index in every dimension, from 0 up to its length. -/
def InBox (lens t : List Int) : Prop := List.Forall₂ (fun l i => 0 ≤ i ∧ i < l) lens t

/-- The numbers from 0 up to a length. -/
def below (l : Int) : Finset Int := (Finset.range l.toNat).map Nat.castEmbedding

theorem mem_below {l i : Int} : i ∈ below l ↔ 0 ≤ i ∧ i < l := by
  rw [below, Finset.mem_map]
  constructor
  · rintro ⟨n, mem, rfl⟩
    have less := Finset.mem_range.mp mem
    rw [Nat.castEmbedding_apply]
    omega
  · rintro ⟨low, high⟩
    exact ⟨i.toNat, Finset.mem_range.mpr (by omega), Int.toNat_of_nonneg low⟩

theorem card_below (l : Int) : (below l).card = l.toNat := by
  rw [below, Finset.card_map, Finset.card_range]

/-- The tuples of a box. -/
def box : List Int → Finset (List Int)
  | [] => {[]}
  | l :: lens =>
      (below l ×ˢ box lens).map ⟨fun p => p.1 :: p.2, by
        rintro ⟨i, t⟩ ⟨j, u⟩ eq
        obtain ⟨rfl, rfl⟩ := List.cons.inj eq
        rfl⟩

theorem mem_box {lens t : List Int} : t ∈ box lens ↔ InBox lens t := by
  induction lens generalizing t with
  | nil =>
      rw [box, Finset.mem_singleton, InBox, List.forall₂_nil_left_iff]
  | cons l lens ih =>
      rw [box, Finset.mem_map, InBox, List.forall₂_cons_left_iff]
      constructor
      · rintro ⟨⟨i, u⟩, mem, rfl⟩
        obtain ⟨room, rest⟩ := Finset.mem_product.mp mem
        exact ⟨i, u, mem_below.mp room, ih.mp rest, rfl⟩
      · rintro ⟨i, u, room, rest, rfl⟩
        exact ⟨(i, u), Finset.mem_product.mpr ⟨mem_below.mpr room, ih.mpr rest⟩, rfl⟩

theorem card_box {lens : List Int} (nonneg : ∀ l ∈ lens, 0 ≤ l) :
    ((box lens).card : Int) = lens.prod := by
  induction lens with
  | nil => rfl
  | cons l lens ih =>
      obtain ⟨first, rest⟩ := List.forall_mem_cons.mp nonneg
      rw [box, Finset.card_map, Finset.card_product, card_below, Nat.cast_mul, ih rest,
        List.prod_cons, Int.toNat_of_nonneg first]

/-- An injective numbering that stays below the number of the tuples gives every number
below it to one of them. -/
theorem InBox.hits {lens : List Int} (nonneg : ∀ l ∈ lens, 0 ≤ l) {f : List Int → Int}
    (range : ∀ t, InBox lens t → 0 ≤ f t ∧ f t < lens.prod)
    (apart : ∀ t u, InBox lens t → InBox lens u → f t = f u → t = u) {n : Int}
    (below : 0 ≤ n ∧ n < lens.prod) : ∃ t, InBox lens t ∧ f t = n := by
  have inside : (box lens).image f ⊆ Theory.below lens.prod := by
    intro m mem
    obtain ⟨t, there, rfl⟩ := Finset.mem_image.mp mem
    exact mem_below.mpr (range t (mem_box.mp there))
  have size : ((box lens).image f).card = (box lens).card := by
    refine Finset.card_image_of_injOn ?_
    intro t ht u hu eq
    exact apart t u (mem_box.mp ht) (mem_box.mp hu) eq
  have full : (box lens).image f = Theory.below lens.prod := by
    refine Finset.eq_of_subset_of_card_le inside ?_
    rw [size, card_below]
    have count := card_box nonneg
    omega
  have mem : n ∈ (box lens).image f := by
    rw [full]
    exact mem_below.mpr below
  obtain ⟨t, there, eq⟩ := Finset.mem_image.mp mem
  exact ⟨t, mem_box.mp there, eq⟩

end Jspp.Theory
