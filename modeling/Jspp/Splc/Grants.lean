/-
# Splc.Grants -- what the tables know of the permissions granted

`usersAddPerm` keeps three tables in step: the permissions of each user, made
when the user is new, and the permissions of all.  What they should know is the
list of the calls: a user has what it was granted, and a permission is known if
anyone was granted it, both up to case.

A table keys its entries by a copy, and the copy lacks the last character.  So
the longest user and the longest permission of all the calls are never found.

* `Grants`: a run of calls, and those of them that returned true.
* `usersAddPerm_users`: what one call does to the tables, `granted_users` all of them.
* `Agree`, `granted_agree_iff`: the tables agree with the calls exactly if all arguments are empty.
-/
import Jspp.Splc.Agreement
import Jspp.Splc.TableMap

namespace Jspp.Splc

open Jspp.Theory
open Jspp.Theory.Act
open Srv

set_option autoImplicit false

variable {W : Type}

def Users.usersIsPerm (u : Users) (perm : Str) : Bool := u.m_perms.hashtableContainsKey perm.m_cstr

/-! ## One call -/

/-- The act ends, and leaves the users alone. -/
def Still {α : Type} (m : Srv W α) : Prop := ∀ s, Ends m s fun _ s' => s'.users = s.users

section Still

variable {α β : Type}

theorem Still.pure (a : α) : Still (W := W) (Pure.pure a) := fun _ => Ends.pure rfl

theorem Still.bind {m : Srv W α} {f : α → Srv W β} (first : Still m) (second : ∀ a, Still (f a)) :
    Still (m >>= f) := fun s =>
  (first s).bind fun a s' kept => ((second a) s').weaken fun _ _ kept' => kept'.trans kept

theorem Still.ite {c : Prop} [Decidable c] {m m' : Srv W α} (yes : Still m) (no : Still m') :
    Still (if c then m else m') := fun s => Ends.ite (fun _ => yes s) fun _ => no s

theorem call_still (f : W → α × W) : Still (call f) := fun _ => Ends.update rfl

end Still

section Calls

variable [Copying] (host : Host W)

theorem command_still (sql : String) : Still (sqliteconnCreateCommand host sql) :=
  Still.bind (call_still _) fun _ => Still.pure _

omit [Copying] in
theorem read_still (cmd : Sqlitecommand) : Still (sqlitereaderRead host cmd) :=
  Still.bind (call_still _) fun stepped => by cases stepped <;> exact Still.pure _

omit [Copying] in
theorem permMissing_still (cmd : Sqlitecommand) (uid perm : Bytes) :
    Still (permMissing host cmd uid perm) :=
  Still.bind (call_still _) fun _ => Still.ite
    (Still.bind (call_still _) fun _ =>
      Still.ite (Still.bind (read_still host cmd) fun _ => Still.pure _) (Still.pure _))
    (Still.pure _)

theorem insertPerm_still (uid perm : Bytes) : Still (insertPerm host uid perm) := by
  refine Still.bind (command_still host _) fun made => ?_
  cases made with
  | none => exact Still.pure _
  | some cmd =>
      refine Still.bind (call_still _) fun _ => Still.ite ?_ (Still.pure _)
      refine Still.bind (call_still _) fun _ => Still.ite ?_ (Still.pure _)
      refine Still.bind (call_still _) fun stepped => ?_
      refine Still.bind (fun _ => Ends.tell rfl) fun _ => ?_
      cases stepped <;> exact Still.pure _

theorem insertIf_still (insert : Bool) (uid perm : Bytes) : Still (insertIf host insert uid perm) :=
  Still.ite (insertPerm_still host uid perm) (Still.pure _)

/-- A call always returns; the tables in memory change when it returns true. -/
theorem usersAddPerm_users (uid perm : Bytes) (s : Server W) :
    Ends (usersAddPerm host uid perm) s fun ok s' =>
      s'.users = if ok then s.users.putPerm uid perm else s.users := by
  refine Ends.bind (P := fun _ s' => s'.users = s.users) (Ends.tell rfl) fun _ s₁ kept₁ => ?_
  refine (call_still host.sqlite3_open s₁).bind fun opened s₂ kept₂ => ?_
  refine Ends.ite (fun _ => Ends.pure (kept₂.trans kept₁)) fun _ => ?_
  refine (command_still host _ s₂).bind fun made s₃ kept₃ => ?_
  have kept := kept₃.trans (kept₂.trans kept₁)
  cases made with
  | none => exact Ends.pure kept
  | some cmd =>
      refine (permMissing_still host cmd uid perm s₃).bind fun insert s₄ kept₄ => ?_
      refine (insertIf_still host insert uid perm s₄).bind fun ok s₅ kept₅ => ?_
      have kept := kept₅.trans (kept₄.trans kept)
      refine Ends.ite (fun _ => Ends.pure kept) fun _ => ?_
      refine Ends.bind (P := fun _ s' => s'.users = s.users) (Ends.tell kept) fun _ s₆ kept₆ => ?_
      refine Ends.bind (P := fun _ s' => s'.users = s.users.putPerm uid perm)
        (Ends.modify (by rw [← kept₆])) fun _ s₇ put => ?_
      exact Ends.pure put

/-! ## A run of calls -/

/-- The calls that returned true, in turn; one that returned false is passed by. -/
inductive Grants : Server W → List (Bytes × Bytes) → Server W → Prop where
  | done (s : Server W) : Grants s [] s
  | granted {s s' : Server W} {uid perm : Bytes} {calls : List (Bytes × Bytes)}
      (returned : (usersAddPerm host uid perm).result s = some true)
      (rest : Grants ((usersAddPerm host uid perm).final s) calls s') :
      Grants s ((uid, perm) :: calls) s'
  | refused {s s' : Server W} {uid perm : Bytes} {calls : List (Bytes × Bytes)}
      (returned : (usersAddPerm host uid perm).result s = some false)
      (rest : Grants ((usersAddPerm host uid perm).final s) calls s') : Grants s calls s'

variable {host}

theorem granted_users {s s' : Server W} {calls : List (Bytes × Bytes)}
    (run : Grants host s calls s') :
    s'.users = calls.foldl (fun u c => u.putPerm c.1 c.2) s.users := by
  induction run with
  | done => rfl
  | @granted s s' uid perm calls returned rest ih =>
      obtain ⟨ok, ended, users⟩ := usersAddPerm_users host uid perm s
      cases ended.symm.trans returned
      rw [ih, users]
      rfl
  | @refused s s' uid perm calls returned rest ih =>
      obtain ⟨ok, ended, users⟩ := usersAddPerm_users host uid perm s
      cases ended.symm.trans returned
      rw [ih, users]
      rfl

variable (host)

/-- The tables know exactly what the calls granted. -/
structure Agree (s : Server W) (calls : List (Bytes × Bytes)) : Prop where
  users : ∀ uid perm : Str, (usersIsAdmin host uid).result s = some false →
    ((usersHasPerm host uid perm).result s = some true ↔ ∃ c ∈ calls,
      sameText true c.1 uid.m_cstr = true ∧ sameText true c.2 perm.m_cstr = true)
  perms : ∀ perm : Str, s.users.usersIsPerm perm = true ↔ ∃ c ∈ calls,
    sameText true c.2 perm.m_cstr = true

/-- Of a user that is no administrator the table alone is asked. -/
theorem usersHasPerm_table {s : Server W} {uid : Str}
    (user : (usersIsAdmin host uid).result s = some false) (perm : Str) :
    (usersHasPerm host uid perm).result s = some (s.users.hasPerm uid.m_cstr perm.m_cstr) := by
  have read : (Act.get : Srv W (Server W)) s = (some s, s, []) := rfl
  rw [usersHasPerm, Act.result, bind_quiet read]
  cases known : s.users.hasPerm uid.m_cstr perm.m_cstr with
  | true => rfl
  | false => exact user

end Calls

/-! ## Keys that are stored -/

namespace Hashtable

variable {α : Type} {ht : Hashtable α}

/-- The keys of the entries, as they are stored. -/
def keys (ht : Hashtable α) : List Bytes := ht.m_table.map (·.m_key.m_cstr)

theorem mem_keys_setFirst {hit : HashItem α → Bool} {f : α → α} {table : List (HashItem α)}
    {key : Bytes} (mem : key ∈ (setFirst hit f table).map (·.m_key.m_cstr)) :
    key ∈ table.map (·.m_key.m_cstr) := by
  obtain ⟨hi, inside, rfl⟩ := List.mem_map.mp mem
  obtain ⟨hi', inside', -, same⟩ := mem_setFirst inside
  exact List.mem_map.mpr ⟨hi', inside', by rw [same]⟩

theorem mem_keys_put {cp key : Bytes} {val : α} (mem : key ∈ (ht.hashtablePut cp val).keys) :
    key = cp.dropLast ∨ key ∈ ht.keys := by
  unfold hashtablePut at mem
  split at mem
  · exact .inr (mem_keys_setFirst mem)
  · rw [keys, List.map_cons, stringNew_cstr] at mem
    exact List.mem_cons.mp mem

theorem key_of_item {cp : Bytes} (known : (ht.getItem cp).isSome = true) :
    ∃ key ∈ ht.keys, key.length = cp.length := by
  obtain ⟨hi, mem, hit⟩ := List.find?_isSome.mp known
  rw [hits, Bool.and_eq_true] at hit
  exact ⟨_, List.mem_map.mpr ⟨hi, mem, rfl⟩, sameText_length hit.2⟩

end Hashtable

theorem key_of_hasPerm {u : Users} {uid perm : Bytes} (known : u.hasPerm uid perm = true) :
    ∃ key ∈ u.m_uid2perms.keys, key.length = uid.length := by
  refine Hashtable.key_of_item ?_
  unfold Users.hasPerm Hashtable.hashtableGet at known
  cases found : u.m_uid2perms.getItem uid with
  | none =>
      rw [found] at known
      cases known
  | some item => rfl

/-- The keys behind some calls come from these calls, each without its last character. -/
theorem fold_keys {keys : Users → List Bytes} {arg : Bytes × Bytes → Bytes}
    (step : ∀ u c key, key ∈ keys (u.putPerm c.1 c.2) → key = (arg c).dropLast ∨ key ∈ keys u)
    (calls : List (Bytes × Bytes)) {u : Users} {key : Bytes}
    (mem : key ∈ keys (calls.foldl (fun u c => u.putPerm c.1 c.2) u)) :
    (∃ c ∈ calls, key = (arg c).dropLast) ∨ key ∈ keys u := by
  induction calls generalizing u with
  | nil => exact .inr mem
  | cons c calls ih =>
      rcases ih mem with ⟨c', inside, same⟩ | mem
      · exact .inl ⟨c', List.mem_cons_of_mem _ inside, same⟩
      · exact (step u c key mem).imp (fun same => ⟨c, List.mem_cons_self, same⟩) id

theorem putPerm_perms (u : Users) (c : Bytes × Bytes) (key : Bytes)
    (mem : key ∈ (u.putPerm c.1 c.2).m_perms.keys) : key = c.2.dropLast ∨ key ∈ u.m_perms.keys := by
  unfold Users.putPerm at mem
  split at mem
  · dsimp only at mem
    split at mem
    · exact .inr mem
    · exact Hashtable.mem_keys_put mem
  · split at mem <;> exact .inr mem

theorem putPerm_users (u : Users) (c : Bytes × Bytes) (key : Bytes)
    (mem : key ∈ (u.putPerm c.1 c.2).m_uid2perms.keys) :
    key = c.1.dropLast ∨ key ∈ u.m_uid2perms.keys := by
  unfold Users.putPerm at mem
  split at mem
  · dsimp only at mem
    split at mem <;> exact Hashtable.mem_keys_put mem
  · split at mem
    · exact .inr mem
    · exact .inr (Hashtable.mem_keys_setFirst mem)

theorem longest (arg : Bytes × Bytes → Bytes) {calls : List (Bytes × Bytes)} (some : calls ≠ []) :
    ∃ c ∈ calls, ∀ c' ∈ calls, (arg c').length ≤ (arg c).length := by
  induction calls with
  | nil => exact absurd rfl some
  | cons first rest ih =>
      by_cases alone : rest = []
      · exact ⟨first, List.mem_cons_self, by simp [alone]⟩
      · obtain ⟨c, mem, most⟩ := ih alone
        by_cases more : (arg c).length ≤ (arg first).length
        · refine ⟨first, List.mem_cons_self, fun c' mem' => ?_⟩
          rcases List.mem_cons.mp mem' with rfl | mem'
          · exact le_rfl
          · exact (most c' mem').trans more
        · refine ⟨c, List.mem_cons_of_mem _ mem, fun c' mem' => ?_⟩
          rcases List.mem_cons.mp mem' with rfl | mem'
          · omega
          · exact most c' mem'

/-- The longest argument that is not empty is no key behind the calls. -/
theorem longest_missing (keys : Users → List Bytes) (arg : Bytes × Bytes → Bytes)
    (step : ∀ u c key, key ∈ keys (u.putPerm c.1 c.2) → key = (arg c).dropLast ∨ key ∈ keys u)
    {calls : List (Bytes × Bytes)} {c : Bytes × Bytes} (mem : c ∈ calls) (filled : arg c ≠ [])
    (none : keys noUsers = []) : ∃ c' ∈ calls, ∀ key ∈ keys (calls.foldl
      (fun u c => u.putPerm c.1 c.2) noUsers), key.length ≠ (arg c').length := by
  obtain ⟨c', mem', most⟩ := longest arg (List.ne_nil_of_mem mem)
  have size := most c mem
  have pos := List.length_pos_iff.mpr filled
  refine ⟨c', mem', fun key inside same => ?_⟩
  rcases fold_keys step calls inside with ⟨c'', mem'', rfl⟩ | there
  · rw [List.length_dropLast] at same
    have := most c'' mem''
    omega
  · rw [none] at there
    cases there

/-! ## Calls without a character -/

/-- The tables behind a call for the empty user and the empty permission. -/
def emptyGrant : Users := noUsers.putPerm [] []

theorem no_item {α : Type} {ht : Hashtable α} (empty : ht.keys = [[]]) {c : UInt8} {cp : Bytes} :
    ht.getItem (c :: cp) = none := by
  by_contra known
  obtain ⟨key, mem, same⟩ := Hashtable.key_of_item (Option.isSome_iff_ne_none.mpr known)
  rw [empty, List.mem_singleton] at mem
  rw [mem] at same
  cases same

theorem emptyGrant_hasPerm (uid perm : Bytes) :
    emptyGrant.hasPerm uid perm = true ↔ uid = [] ∧ perm = [] := by
  cases uid with
  | nil =>
      cases perm with
      | nil => exact iff_of_true rfl ⟨rfl, rfl⟩
      | cons c perm =>
          have miss := @no_item _ ((hashtableNew false).hashtablePut [] ()) rfl c perm
          refine iff_of_false (fun known => ?_) (fun empty => nomatch empty.2)
          have found : (Hashtable.getItem _ (c :: perm)).isSome = true := known
          rw [miss] at found
          cases found
  | cons c uid =>
      have miss := @no_item _ emptyGrant.m_uid2perms rfl c uid
      refine iff_of_false (fun known => ?_) (fun empty => nomatch empty.1)
      rw [Users.hasPerm, Hashtable.hashtableGet, miss] at known
      cases known

theorem emptyGrant_isPerm (perm : Str) :
    emptyGrant.usersIsPerm perm = true ↔ perm.m_cstr = [] := by
  unfold Users.usersIsPerm
  cases perm.m_cstr with
  | nil => exact iff_of_true rfl rfl
  | cons c cp =>
      refine iff_of_false (fun known => ?_) (List.cons_ne_nil _ _)
      rw [Hashtable.hashtableContainsKey, @no_item _ emptyGrant.m_perms rfl c cp] at known
      cases known

theorem sameText_nil {cp : Bytes} : sameText true [] cp = true ↔ cp = [] := by
  cases cp <;> simp [sameText]

/-- The tables behind such calls: untouched without a call. -/
theorem empty_fold {calls : List (Bytes × Bytes)} (empty : ∀ c ∈ calls, c = ([], [])) :
    calls.foldl (fun u c => u.putPerm c.1 c.2) noUsers =
      if calls = [] then noUsers else emptyGrant := by
  cases calls with
  | nil => rfl
  | cons first rest =>
      rw [if_neg (List.cons_ne_nil _ _), List.foldl_cons, empty first List.mem_cons_self]
      have others : ∀ c ∈ rest, c = ([], []) := fun c mem => empty c (List.mem_cons_of_mem _ mem)
      show rest.foldl (fun u c => u.putPerm c.1 c.2) emptyGrant = emptyGrant
      induction rest with
      | nil => rfl
      | cons c rest ih =>
          rw [List.foldl_cons, others c List.mem_cons_self]
          refine ih (fun c' mem => ?_) fun c' mem => others c' (List.mem_cons_of_mem _ mem)
          rcases List.mem_cons.mp mem with rfl | mem
          · exact empty _ List.mem_cons_self
          · exact others c' (List.mem_cons_of_mem _ mem)

theorem agree_of_empty (host : Host W) {s s' : Server W} {calls : List (Bytes × Bytes)}
    (fresh : s.users = noUsers) (run : Grants host s calls s') (empty : ∀ c ∈ calls, c = ([], [])) :
    Agree host s' calls := by
  have users : s'.users = if calls = [] then noUsers else emptyGrant := by
    rw [granted_users run, fresh, empty_fold empty]
  have all (P : Bytes × Bytes → Prop) : (∃ c ∈ calls, P c) ↔ calls ≠ [] ∧ P ([], []) := by
    constructor
    · rintro ⟨c, mem, holds⟩
      exact ⟨List.ne_nil_of_mem mem, empty c mem ▸ holds⟩
    · rintro ⟨some, holds⟩
      obtain ⟨c, mem⟩ := List.exists_mem_of_ne_nil calls some
      exact ⟨c, mem, empty c mem ▸ holds⟩
  refine ⟨fun uid perm user => ?_, fun perm => ?_⟩
  · rw [usersHasPerm_table host user, Option.some_inj, all, users]
    by_cases none : calls = []
    · rw [if_pos none]
      exact iff_of_false (fun known => nomatch known) fun some => some.1 none
    · rw [if_neg none, emptyGrant_hasPerm, sameText_nil, sameText_nil]
      exact (and_iff_right none).symm
  · rw [all, users]
    by_cases none : calls = []
    · rw [if_pos none]
      exact iff_of_false (fun known => nomatch known) fun some => some.1 none
    · rw [if_neg none, emptyGrant_isPerm, sameText_nil]
      exact (and_iff_right none).symm

/-! ## A host that knows every permission -/

/-- SQLite with a row for each permission that is looked up, and without users. -/
def granting : Host Unit := { insertless with
  sqlite3_step := fun cmd w =>
    (if (lit "SELECT * FROM PERMS").isPrefixOf cmd.m_sql then .row [] else .done, w) }

theorem granting_call (uid perm : Bytes) (s : Server Unit) :
    (usersAddPerm granting uid perm).result s = some true := by
  rfl

theorem granting_user (uid : Str) (s : Server Unit) :
    (usersIsAdmin granting uid).result s = some false := by
  rfl

theorem granting_run (calls : List (Bytes × Bytes)) (s : Server Unit) :
    ∃ s', Grants granting s calls s' := by
  induction calls generalizing s with
  | nil => exact ⟨s, .done s⟩
  | cons c calls ih =>
      obtain ⟨s', rest⟩ := ih ((usersAddPerm granting c.1 c.2).final s)
      exact ⟨s', .granted (granting_call c.1 c.2 s) rest⟩

/-- Where an argument has a character, the longest one is not known. -/
theorem granting_disagrees {s s' : Server Unit} {calls : List (Bytes × Bytes)}
    (fresh : s.users = noUsers) (run : Grants granting s calls s')
    (agree : Agree granting s' calls) : ∀ c ∈ calls, c = ([], []) := by
  have users : s'.users = calls.foldl (fun u c => u.putPerm c.1 c.2) noUsers := by
    rw [granted_users run, fresh]
  rintro ⟨uid, perm⟩ mem
  by_contra some
  by_cases perms : perm = []
  · have filled : uid ≠ [] := fun empty => some (by rw [empty, perms])
    obtain ⟨c, mem', missing⟩ :=
      longest_missing (fun u => u.m_uid2perms.keys) Prod.fst putPerm_users mem filled rfl
    have known := (agree.users (stringTakeOwnership c.1) (stringTakeOwnership c.2)
      (granting_user _ _)).mpr ⟨c, mem', sameText_refl _ _, sameText_refl _ _⟩
    rw [usersHasPerm_table granting (granting_user _ _), Option.some_inj, users] at known
    obtain ⟨key, inside, size⟩ := key_of_hasPerm known
    exact missing key inside size
  · obtain ⟨c, mem', missing⟩ :=
      longest_missing (fun u => u.m_perms.keys) Prod.snd putPerm_perms mem perms rfl
    have known := (agree.perms (stringTakeOwnership c.2)).mpr ⟨c, mem', sameText_refl _ _⟩
    rw [Users.usersIsPerm, users] at known
    obtain ⟨key, inside, size⟩ := Hashtable.key_of_item known
    exact missing key inside size

/-- The tables agree with the calls behind every run of them exactly if no argument has a
character. -/
theorem granted_agree_iff (calls : List (Bytes × Bytes)) :
    (∀ (W : Type) (host : Host W) (s s' : Server W), s.users = noUsers → Grants host s calls s' →
      Agree host s' calls) ↔ ∀ c ∈ calls, c = ([], []) := by
  constructor
  · intro all
    obtain ⟨s', run⟩ := granting_run calls (emptyServer ())
    exact granting_disagrees rfl run (all Unit granting _ s' rfl run)
  · exact fun empty W host s s' fresh run => agree_of_empty host fresh run empty

/-- `ann` is granted `a.b`, and has it not. -/
theorem ann_not_granted : ∃ s', Grants granting (emptyServer ()) [(lit "ann", lit "a.b")] s' ∧
    (usersIsAdmin granting (text "ann")).result s' = some false ∧
    (usersHasPerm granting (text "ann") (text "a.b")).result s' = some false ∧
    ¬ Agree granting s' [(lit "ann", lit "a.b")] := by
  obtain ⟨s', run⟩ := granting_run [(lit "ann", lit "a.b")] (emptyServer ())
  refine ⟨s', run, granting_user _ _, ?_, fun agree => ?_⟩
  · rw [usersHasPerm_table granting (granting_user _ _), granted_users run]
    decide +kernel
  · have empty := granting_disagrees rfl run agree _ List.mem_cons_self
    exact absurd (congrArg Prod.fst empty) (by decide)

end Jspp.Splc
