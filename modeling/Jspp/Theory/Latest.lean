/-
# Theory.Latest -- an association list that is a map

A list of keys and values is read by its first entry for a key (`latest`).  So
read, the list of all that was ever put, the newest first, says what a map must
answer; `Stands` says that a list in which every key has one entry answers the
same, and `Stands.put` that it goes on to do so.

* `latest`, `put`: the value of a key, and a value put in place or in front.
* `Stands.put`: one more value.
* `Stands.length`: the entries are as many as the keys that were ever put.
-/
import Mathlib.Data.List.Dedup

namespace Jspp.Theory

set_option autoImplicit false

universe u v

variable {K : Type u} {V : Type v} [DecidableEq K]

/-- The value of the first entry for a key. -/
def latest : List (K × V) → K → Option V
  | [], _ => none
  | (k', v) :: rest, k => if k' = k then some v else latest rest k

/-- The value of the first entry for a key, changed. -/
def replace (k : K) (v : V) : List (K × V) → List (K × V)
  | [] => []
  | (k', v') :: rest => if k' = k then (k', v) :: rest else (k', v') :: replace k v rest

/-- A value in the place of the one that is there, or in front. -/
def put (k : K) (v : V) (entries : List (K × V)) : List (K × V) :=
  if (latest entries k).isSome then replace k v entries else (k, v) :: entries

theorem latest_isSome_iff {entries : List (K × V)} {k : K} :
    (latest entries k).isSome = true ↔ k ∈ entries.map Prod.fst := by
  induction entries with
  | nil => simp [latest]
  | cons entry rest ih =>
      obtain ⟨k', v⟩ := entry
      rw [latest, List.map_cons, List.mem_cons]
      by_cases same : k' = k
      · simp [same]
      · rw [if_neg same, ih]
        simp [Ne.symm same]

theorem replace_keys (k : K) (v : V) (entries : List (K × V)) :
    (replace k v entries).map Prod.fst = entries.map Prod.fst := by
  induction entries with
  | nil => rfl
  | cons entry rest ih =>
      obtain ⟨k', v'⟩ := entry
      rw [replace]
      split
      · rfl
      · rw [List.map_cons, ih]
        rfl

theorem latest_replace {entries : List (K × V)} {k : K} (v : V)
    (there : (latest entries k).isSome = true) (wanted : K) :
    latest (replace k v entries) wanted = if k = wanted then some v else latest entries wanted := by
  induction entries with
  | nil => cases there
  | cons entry rest ih =>
      obtain ⟨k', v'⟩ := entry
      by_cases same : k' = k
      · subst same
        rw [replace, if_pos rfl, latest, latest]
        split <;> rfl
      · rw [latest, if_neg same] at there
        rw [replace, if_neg same, latest, latest, ih there]
        by_cases first : k' = wanted
        · rw [if_pos first, if_pos first, if_neg fun equal => same (first.trans equal.symm)]
        · rw [if_neg first, if_neg first]

theorem latest_put (k : K) (v : V) (entries : List (K × V)) (wanted : K) :
    latest (put k v entries) wanted = if k = wanted then some v else latest entries wanted := by
  unfold put
  split
  case isTrue there => exact latest_replace v there wanted
  case isFalse => rfl

/-- The entries answer as all that was put does, with one entry for a key. -/
structure Stands (entries history : List (K × V)) : Prop where
  answers : ∀ k, latest entries k = latest history k
  once : (entries.map Prod.fst).Nodup

namespace Stands

theorem nil : Stands ([] : List (K × V)) [] where
  answers _ := rfl
  once := List.nodup_nil

variable {entries history : List (K × V)}

theorem put (stands : Stands entries history) (k : K) (v : V) :
    Stands (put k v entries) ((k, v) :: history) where
  answers wanted := by
    rw [latest_put, stands.answers]
    rfl
  once := by
    unfold Theory.put
    split
    case isTrue =>
      rw [replace_keys]
      exact stands.once
    case isFalse missing =>
      rw [List.map_cons, List.nodup_cons]
      exact ⟨fun mem => missing (latest_isSome_iff.mpr mem), stands.once⟩

theorem keys (stands : Stands entries history) (k : K) :
    k ∈ entries.map Prod.fst ↔ k ∈ history.map Prod.fst := by
  rw [← latest_isSome_iff, ← latest_isSome_iff, stands.answers]

/-- The entries are as many as the different keys that were put. -/
theorem length (stands : Stands entries history) :
    entries.length = (history.map Prod.fst).dedup.length := by
  have same : (entries.map Prod.fst).Perm (history.map Prod.fst).dedup :=
    (List.perm_ext_iff_of_nodup stands.once (List.nodup_dedup _)).mpr fun k => by
      rw [stands.keys, List.mem_dedup]
  rw [← same.length_eq, List.length_map]

end Stands

end Jspp.Theory
