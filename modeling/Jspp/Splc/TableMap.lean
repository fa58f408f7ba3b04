/-
# Splc.TableMap -- the hash table as a map

Where strings are copied exactly (`Copying.Exact`), an entry is hit by the keys
that are equal to its own as the table compares them: equal keys have one hash,
whatever collides with it.  So the chains together are an association list with
one entry for a key.

* `sameKey`: what the table compares, and `bucketOf_sameKey`.
* `Standing`: every entry in the chain of its hash, and the count.
* `answers_spec`: the answers of any calls are those of a map.
-/
import Jspp.Splc.Lexing
import Jspp.Theory.Latest

namespace Jspp.Splc

open Jspp.Theory

set_option autoImplicit false

/-! ## Keys -/

/-- A key as the table compares it. -/
def sameKey (ignoreCase : Bool) (key : Bytes) : Bytes := if ignoreCase then key.map toupper else key

theorem sameText_key (ignoreCase : Bool) {a b : Bytes} :
    sameText ignoreCase a b = true ↔ sameKey ignoreCase a = sameKey ignoreCase b := by
  induction a generalizing b with
  | nil => cases b <;> cases ignoreCase <;> simp [sameText, sameKey]
  | cons x a ih =>
      cases b with
      | nil => cases ignoreCase <;> simp [sameText, sameKey]
      | cons y b =>
          rw [sameText, Bool.and_eq_true, ih]
          cases ignoreCase <;> simp [sameKey, sameCh]

theorem charHashLong_sameKey (ignoreCase : Bool) (key : Bytes) :
    charHashLong key ignoreCase = charHashLong (sameKey ignoreCase key) false := by
  cases ignoreCase with
  | false => rfl
  | true =>
      show charHashLong key true = charHashLong (key.map toupper) false
      unfold charHashLong
      rw [List.foldl_map]
      rfl

/-- Equal keys have the same hash. -/
theorem bucketOf_sameKey {α : Type} (ht : Hashtable α) {a b : Bytes}
    (same : sameKey ht.m_keyIgnoreCase a = sameKey ht.m_keyIgnoreCase b) :
    ht.bucketOf a = ht.bucketOf b := by
  unfold Hashtable.bucketOf charHash
  rw [charHashLong_sameKey, same, ← charHashLong_sameKey]

/-! ## The table -/

namespace Hashtable

variable {α : Type}

/-- The keys with their values. -/
def pairs (ht : Hashtable α) : List (Bytes × α) :=
  ht.m_table.map fun hi => (sameKey ht.m_keyIgnoreCase hi.m_key.m_cstr, hi.m_value)

/-- Every entry is in the chain of its hash, and the table has counted them. -/
structure Standing (ht : Hashtable α) : Prop where
  chained : ∀ hi ∈ ht.m_table, hi.bucket = ht.bucketOf hi.m_key.m_cstr
  counted : ht.m_count = ht.m_table.length

variable {ht : Hashtable α}

theorem hits_iff {hi : HashItem α} (chained : hi.bucket = ht.bucketOf hi.m_key.m_cstr) (key : Bytes) :
    ht.hits key hi = true ↔
      sameKey ht.m_keyIgnoreCase hi.m_key.m_cstr = sameKey ht.m_keyIgnoreCase key := by
  rw [hits, Bool.and_eq_true, beq_iff_eq, stringIsEqual, sameText_key, chained]
  exact and_iff_right_of_imp (bucketOf_sameKey ht)

/-- The entries of a table, or of its end, found by key. -/
theorem find_latest (key : Bytes) {table : List (HashItem α)}
    (chained : ∀ hi ∈ table, hi.bucket = ht.bucketOf hi.m_key.m_cstr) :
    (table.find? (ht.hits key)).map (·.m_value) =
      latest (table.map fun hi => (sameKey ht.m_keyIgnoreCase hi.m_key.m_cstr, hi.m_value))
        (sameKey ht.m_keyIgnoreCase key) := by
  induction table with
  | nil => rfl
  | cons hi rest ih =>
      have first := hits_iff (chained hi List.mem_cons_self) key
      have others := ih fun hi' mem => chained hi' (List.mem_cons_of_mem _ mem)
      rw [List.map_cons, latest, ← others]
      by_cases hit : ht.hits key hi = true
      · rw [List.find?_cons_of_pos hit, if_pos (first.mp hit)]
        rfl
      · rw [List.find?_cons_of_neg hit, if_neg fun same => hit (first.mpr same)]

theorem get_latest (standing : ht.Standing) (key : Bytes) :
    ht.hashtableGet key = latest ht.pairs (sameKey ht.m_keyIgnoreCase key) :=
  find_latest key standing.chained

theorem contains_latest (standing : ht.Standing) (key : Bytes) :
    ht.hashtableContainsKey key = (latest ht.pairs (sameKey ht.m_keyIgnoreCase key)).isSome := by
  rw [← get_latest standing, hashtableGet, Option.isSome_map]
  rfl

theorem setFirst_length (hit : HashItem α → Bool) (f : α → α) (table : List (HashItem α)) :
    (setFirst hit f table).length = table.length := by
  induction table with
  | nil => rfl
  | cons hi rest ih =>
      rw [setFirst]
      split
      · rfl
      · rw [List.length_cons, ih, List.length_cons]

theorem mem_setFirst {hit : HashItem α → Bool} {f : α → α} {table : List (HashItem α)}
    {hi : HashItem α} (mem : hi ∈ setFirst hit f table) :
    ∃ hi' ∈ table, hi.bucket = hi'.bucket ∧ hi.m_key = hi'.m_key := by
  induction table with
  | nil => cases mem
  | cons first rest ih =>
      rw [setFirst] at mem
      split at mem
      · rcases List.mem_cons.mp mem with rfl | mem
        · exact ⟨first, List.mem_cons_self, rfl, rfl⟩
        · exact ⟨hi, List.mem_cons_of_mem _ mem, rfl, rfl⟩
      · rcases List.mem_cons.mp mem with rfl | mem
        · exact ⟨hi, List.mem_cons_self, rfl, rfl⟩
        · obtain ⟨hi', mem, same⟩ := ih mem
          exact ⟨hi', List.mem_cons_of_mem _ mem, same⟩

theorem setFirst_replace (key : Bytes) (val : α) {table : List (HashItem α)}
    (chained : ∀ hi ∈ table, hi.bucket = ht.bucketOf hi.m_key.m_cstr) :
    ((setFirst (ht.hits key) (fun _ => val) table).map fun hi =>
        (sameKey ht.m_keyIgnoreCase hi.m_key.m_cstr, hi.m_value)) =
      replace (sameKey ht.m_keyIgnoreCase key) val
        (table.map fun hi => (sameKey ht.m_keyIgnoreCase hi.m_key.m_cstr, hi.m_value)) := by
  induction table with
  | nil => rfl
  | cons hi rest ih =>
      have first := hits_iff (chained hi List.mem_cons_self) key
      have others := ih fun hi' mem => chained hi' (List.mem_cons_of_mem _ mem)
      rw [setFirst, List.map_cons, replace]
      by_cases hit : ht.hits key hi = true
      · rw [if_pos hit, if_pos (first.mp hit)]
        rfl
      · rw [if_neg hit, if_neg fun same => hit (first.mpr same), List.map_cons, others]

section Put

variable [Copying] (exact : Copying.Exact) (standing : ht.Standing) (key : Bytes) (val : α)

theorem put_ignoreCase : (ht.hashtablePut key val).m_keyIgnoreCase = ht.m_keyIgnoreCase := by
  unfold hashtablePut
  split <;> rfl

theorem put_bucketOf (cp : Bytes) : (ht.hashtablePut key val).bucketOf cp = ht.bucketOf cp := by
  unfold bucketOf
  rw [put_ignoreCase]

include exact standing

/-- A put changes the value of the key, or adds an entry in front. -/
theorem put_pairs :
    (ht.hashtablePut key val).pairs = put (sameKey ht.m_keyIgnoreCase key) val ht.pairs := by
  unfold Theory.put
  rw [← contains_latest standing]
  unfold hashtablePut
  split
  case isTrue => exact setFirst_replace key val standing.chained
  case isFalse =>
    unfold pairs
    rw [List.map_cons, stringNew_exact exact]
    rfl

theorem Standing.put : (ht.hashtablePut key val).Standing where
  chained hi mem := by
    rw [put_bucketOf]
    unfold hashtablePut at mem
    split at mem
    case isTrue =>
      obtain ⟨hi', mem, bucket, same⟩ := mem_setFirst mem
      rw [bucket, same]
      exact standing.chained hi' mem
    case isFalse =>
      rcases List.mem_cons.mp mem with rfl | mem
      · rw [stringNew_exact exact]
        rfl
      · exact standing.chained hi mem
  counted := by
    unfold hashtablePut
    split
    case isTrue =>
      rw [setFirst_length]
      exact standing.counted
    case isFalse =>
      rw [List.length_cons]
      exact congrArg (· + 1) standing.counted

end Put

end Hashtable

/-! ## Calls -/

inductive TableCall (α : Type) where
  | put (key : Bytes) (val : α)
  | get (key : Bytes)
  | containsKey (key : Bytes)
  | count

/-- What a call answers. -/
inductive TableAnswer (α : Type) where
  | done
  | value (found : Option α)
  | known (found : Bool)
  | counted (n : Nat)
  deriving DecidableEq

variable {α : Type}

/-- The answers of the calls, one after the other. -/
def answers [Copying] (ht : Hashtable α) : List (TableCall α) → List (TableAnswer α)
  | [] => []
  | .put key val :: rest => .done :: answers (ht.hashtablePut key val) rest
  | .get key :: rest => .value (ht.hashtableGet key) :: answers ht rest
  | .containsKey key :: rest => .known (ht.hashtableContainsKey key) :: answers ht rest
  | .count :: rest => .counted ht.hashtableCount :: answers ht rest

/-- The answers of a map, from what was put so far, the last first. -/
def mapAnswers (ignoreCase : Bool) (history : List (Bytes × α)) : List (TableCall α) →
    List (TableAnswer α)
  | [] => []
  | .put key val :: rest =>
      .done :: mapAnswers ignoreCase ((sameKey ignoreCase key, val) :: history) rest
  | .get key :: rest =>
      .value (latest history (sameKey ignoreCase key)) :: mapAnswers ignoreCase history rest
  | .containsKey key :: rest =>
      .known (decide (sameKey ignoreCase key ∈ history.map Prod.fst)) ::
        mapAnswers ignoreCase history rest
  | .count :: rest =>
      .counted (history.map Prod.fst).dedup.length :: mapAnswers ignoreCase history rest

/-- From a table that stands for what was put, the calls are answered as by a map. -/
theorem answers_spec [Copying] (exact : Copying.Exact) (calls : List (TableCall α)) {ht : Hashtable α}
    {history : List (Bytes × α)} (standing : ht.Standing) (stands : Stands ht.pairs history) :
    answers ht calls = mapAnswers ht.m_keyIgnoreCase history calls := by
  induction calls generalizing ht history with
  | nil => rfl
  | cons call rest ih =>
      cases call with
      | put key val =>
          have stands' : Stands (ht.hashtablePut key val).pairs
              ((sameKey ht.m_keyIgnoreCase key, val) :: history) := by
            rw [Hashtable.put_pairs exact standing]
            exact stands.put (sameKey ht.m_keyIgnoreCase key) val
          rw [answers, mapAnswers, ih (Hashtable.Standing.put exact standing key val) stands',
            Hashtable.put_ignoreCase]
      | get key =>
          rw [answers, mapAnswers, ih standing stands, Hashtable.get_latest standing, stands.answers]
      | containsKey key =>
          have known : ht.hashtableContainsKey key =
              decide (sameKey ht.m_keyIgnoreCase key ∈ history.map Prod.fst) := by
            rw [Hashtable.contains_latest standing, stands.answers, Bool.eq_iff_iff, decide_eq_true_iff]
            exact latest_isSome_iff
          rw [answers, mapAnswers, ih standing stands, known]
      | count =>
          have size : ht.pairs.length = ht.m_table.length := List.length_map _
          rw [answers, mapAnswers, ih standing stands, Hashtable.hashtableCount, standing.counted, ← size,
            stands.length]

/-- The hash table is a map, with or without regard to the case of its keys. -/
theorem hashtable_map [Copying] (exact : Copying.Exact) (ignoreCase : Bool)
    (calls : List (TableCall α)) :
    answers (hashtableNew ignoreCase) calls = mapAnswers ignoreCase [] calls :=
  answers_spec exact calls ⟨(fun _ mem => nomatch mem), rfl⟩ Stands.nil

/-- Two keys that differ in case alone, and a count. -/
theorem hashtable_map_case :
    @answers Nat copyingAll (hashtableNew true)
        [.put (lit "ann") 1, .put (lit "ANN") 2, .get (lit "Ann"), .count] =
      mapAnswers true [] [.put (lit "ann") 1, .put (lit "ANN") 2, .get (lit "Ann"), .count] :=
  @hashtable_map Nat copyingAll copyingAll_exact true _

end Jspp.Splc
