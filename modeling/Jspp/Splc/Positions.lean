/-
# Splc.Positions -- the items of a request by position and by name

New items go to the front of `m_items`, in front of the item without a name that
`_requestNew` has linked there.  `requestGetItemAt` walks along the list, but nothing counts
its `x`: it walks not at all or off the end.

* `Built`: a request that was made of items, in the order of the message or the text.
* `Found`: every item is found by its position, and one of each name by the name.
* `found_iff`: so it is exactly when there is one item at most.
-/
import Jspp.Splc.Encoding
import Jspp.Splc.Sqllex
import Jspp.Splc.TableMap

namespace Jspp.Splc

set_option autoImplicit false

/-! ## requestGetItemAt -/

/-- `m_items` as it is linked: the last item, `none`, has no name and no value. -/
def Request.chain (req : Request) : List (Option RequestItem) := req.m_items.map some ++ [none]

/-- The loop of `requestGetItemAt`, which leaves `x` alone. -/
def walk (itemCount idx x : Int) : List (Option RequestItem) → List (Option RequestItem)
  | [] => []
  | item :: next => if x < itemCount ∧ x < idx then walk itemCount idx x next else item :: next

/-- The item, or NULL; an inner `none` is the item without a name. -/
def requestGetItemAt (req : Request) (idx : Int) : Option (Option RequestItem) :=
  let x : Int := 0
  let item := walk req.m_itemCount idx x req.chain
  if x < req.m_itemCount then item.head? else none

theorem walk_stays {itemCount idx x : Int} (stays : ¬ (x < itemCount ∧ x < idx))
    (chain : List (Option RequestItem)) : walk itemCount idx x chain = chain := by
  cases chain with
  | nil => rfl
  | cons item next => rw [walk, if_neg stays]

theorem walk_leaves {itemCount idx x : Int} (goes : x < itemCount ∧ x < idx)
    (chain : List (Option RequestItem)) : walk itemCount idx x chain = [] := by
  induction chain with
  | nil => rfl
  | cons item next ih => rw [walk, if_pos goes, ih]

/-- Position 0 is the front of the list. -/
theorem getItemAt_zero (req : Request) (some : 0 < req.m_itemCount) :
    requestGetItemAt req 0 = req.chain.head? := by
  have counted : (0 : Int) < req.m_itemCount := Int.natCast_pos.mpr some
  rw [requestGetItemAt, walk_stays (fun goes => Int.lt_irrefl 0 goes.2)]
  exact if_pos counted

/-- No other position is found. -/
theorem getItemAt_succ (req : Request) (k : Nat) :
    requestGetItemAt req ((k + 1 : Nat) : Int) = none := by
  have forth : (0 : Int) < ((k + 1 : Nat) : Int) := Int.natCast_pos.mpr k.succ_pos
  by_cases counted : (0 : Int) < req.m_itemCount
  · rw [requestGetItemAt, walk_leaves ⟨counted, forth⟩]
    exact if_pos counted
  · exact if_neg counted

/-! ## Requests and their items -/

def RequestItem.Named (item : RequestItem) (name : Bytes) : Prop :=
  ∃ s, item.m_name = some s ∧ s.m_cstr = name

/-- Requests with their items, in the order of the message or of the EXEC text. -/
inductive Built : Request → List RequestItem → Prop where
  | message {pun : Value → Int} {buf : Bytes} {e : Message} (cut : e.Cut buf) :
      Built (e.request pun buf.length) (e.items.map WireItem.item)
  | exec {sql : Str} {req : Request} (read : requestNewFromExecSql sql = some (some req)) :
      Built req req.m_items.reverse

theorem built_of_message {pun : Value → Int} {buf : Bytes} {req : Request}
    (read : requestNew pun buf = some req) : ∃ items, Built req items := by
  obtain ⟨e, cut, rfl⟩ := (requestNew_reads pun buf req).mp read
  exact ⟨_, .message cut⟩

/-- Every item is found by its position, and one of each name by the name. -/
structure Found (req : Request) (items : List RequestItem) : Prop where
  position : ∀ k : Nat, requestGetItemAt req k = (items[k]?).map some
  named : ∀ name, (∃ item ∈ items, item.Named name) →
    ∃ item ∈ items, requestGetItem req name = some item ∧ item.Named name

theorem execItems_unnamed {n : Nat} {items read : List RequestItem} {lex : Sqllex}
    (reads : execItems n items lex = some (some read))
    (unnamed : ∀ item ∈ items, item.m_name = none) :
    ∀ item ∈ read, item.m_name = none := by
  induction n generalizing items lex with
  | zero =>
      cases reads
      exact unnamed
  | succ n ih =>
      rw [execItems] at reads
      split at reads
      case isTrue =>
          cases reads
          exact unnamed
      case isFalse =>
          simp only [Option.bind_eq_bind] at reads
          split at reads
          all_goals
            obtain ⟨⟨ok, lex₁⟩, -, reads⟩ := Option.bind_eq_some_iff.mp reads
            dsimp only at reads
            split at reads
            · cases reads
            · obtain ⟨data, -, reads⟩ := Option.bind_eq_some_iff.mp reads
              split at reads
              · cases reads
              · obtain ⟨⟨_, lex₂⟩, -, reads⟩ := Option.bind_eq_some_iff.mp reads
                refine ih (reads : execItems n _ lex₂ = _) fun item mem => ?_
                rcases List.mem_cons.mp mem with rfl | mem
                · rfl
                · exact unnamed item mem

theorem exec_items {sql : Str} {req : Request}
    (read : requestNewFromExecSql sql = some (some req)) :
    (∀ item ∈ req.m_items, item.m_name = none) ∧ req.m_itemCount = req.m_items.length := by
  obtain ⟨lex, -, read⟩ := Option.bind_eq_some_iff.mp read
  obtain ⟨⟨ok, lex⟩, -, read⟩ := Option.bind_eq_some_iff.mp read
  simp only at read
  split at read
  · cases read
  · obtain ⟨name, -, read⟩ := Option.bind_eq_some_iff.mp read
    obtain ⟨⟨ok, lex⟩, -, read⟩ := Option.bind_eq_some_iff.mp read
    simp only at read
    split at read
    · cases read
    · obtain ⟨named, -, read⟩ := Option.bind_eq_some_iff.mp read
      cases named with
      | none => cases read
      | some named =>
          obtain ⟨name, lex⟩ := named
          obtain ⟨items, reads, read⟩ := Option.bind_eq_some_iff.mp read
          cases items with
          | none => cases read
          | some items =>
              cases read
              exact ⟨execItems_unnamed reads (fun _ mem => nomatch mem), rfl⟩

/-- What a request is that was made of items. -/
theorem Built.items {req : Request} {items : List RequestItem} (built : Built req items) :
    req.m_items = items.reverse ∧ req.m_itemCount = items.length ∧
      ((∀ item ∈ items, item.m_name ≠ none) ∨ ∀ item ∈ items, item.m_name = none) := by
  cases built with
  | @message pun buf e cut =>
      refine ⟨rfl, List.length_reverse, .inl fun item mem => ?_⟩
      obtain ⟨wire, -, rfl⟩ := List.mem_map.mp mem
      exact Option.some_ne_none _
  | exec read =>
      obtain ⟨unnamed, count⟩ := exec_items read
      refine ⟨List.reverse_reverse _ |>.symm, ?_, .inr fun item mem => ?_⟩
      · rw [count, List.length_reverse]
      · exact unnamed item (List.mem_reverse.mp mem)

/-! ## What is found -/

/-- Where all items have names, the search comes to the first one of the name. -/
theorem getItem_named {items : List RequestItem} {name : Bytes}
    (named : ∀ item ∈ items, item.m_name ≠ none) (there : ∃ item ∈ items, item.Named name) :
    ∃ item ∈ items, getItem items name = some item ∧ item.Named name := by
  induction items with
  | nil =>
      obtain ⟨_, mem, -⟩ := there
      cases mem
  | cons first rest ih =>
      obtain ⟨s, own⟩ := Option.ne_none_iff_exists'.mp (named first List.mem_cons_self)
      rw [getItem, own]
      by_cases same : stringIsEqual s name false = true
      · refine ⟨first, List.mem_cons_self, if_pos same, s, own, ?_⟩
        simpa [sameKey] using (sameText_key false).mp same
      · have behind : ∃ item ∈ rest, item.Named name := by
          obtain ⟨item, mem, s', own', rfl⟩ := there
          rcases List.mem_cons.mp mem with rfl | mem
          · cases own.symm.trans own'
            exact absurd (sameText_refl false _) same
          · exact ⟨item, mem, s', own', rfl⟩
        obtain ⟨item, mem, found, is⟩ :=
          ih (fun item mem => named item (List.mem_cons_of_mem _ mem)) behind
        exact ⟨item, List.mem_cons_of_mem _ mem, (if_neg same).trans found, is⟩

/-- Items are always found by their names. -/
theorem Built.named {req : Request} {items : List RequestItem} (built : Built req items)
    {name : Bytes} (there : ∃ item ∈ items, item.Named name) :
    ∃ item ∈ items, requestGetItem req name = some item ∧ item.Named name := by
  obtain ⟨order, -, named | unnamed⟩ := built.items
  · have named' : ∀ item ∈ req.m_items, item.m_name ≠ none := fun item mem =>
      named item (List.mem_reverse.mp (order ▸ mem))
    obtain ⟨item, mem, is⟩ := there
    obtain ⟨item', mem', found⟩ :=
      getItem_named named' ⟨item, order ▸ List.mem_reverse.mpr mem, is⟩
    exact ⟨item', List.mem_reverse.mp (order ▸ mem'), found⟩
  · obtain ⟨item, mem, s, own, -⟩ := there
    cases (unnamed item mem).symm.trans own

/-- All items of a request are found by position and by name exactly when there is one at most. -/
theorem found_iff {req : Request} {items : List RequestItem} (built : Built req items) :
    Found req items ↔ items.length ≤ 1 := by
  obtain ⟨order, count, -⟩ := built.items
  constructor
  · intro found
    by_contra more
    have second := found.position 1
    rw [getItemAt_succ req 0, List.getElem?_eq_getElem (by omega)] at second
    cases second
  · intro few
    refine ⟨fun k => ?_, fun name there => built.named there⟩
    match items, few with
    | [], _ => exact if_neg (by simp [count])
    | [item], _ =>
        cases k with
        | zero =>
            have front : req.chain = [some item, none] := by
              rw [Request.chain, order]
              rfl
            have zero := getItemAt_zero req (by simp [count])
            rw [front] at zero
            exact zero
        | succ k => exact getItemAt_succ req k

/-- Two items: a name that is empty and a number each. -/
def twoItems : Bytes :=
  [83, 0, 0, 1, 83, 0, 0, 1, 83, 0, 0, 1, 83, 0, 0, 1, 73, 0, 0, 0, 7, 83, 0, 0, 1, 73, 0, 0, 0, 8]

/-- The same with the first item alone. -/
def oneItem : Bytes := twoItems.take 21

theorem built_of_count {buf : Bytes} {n : Nat}
    (count : (requestNew (fun _ => 0) buf).map (·.m_itemCount) = some n) :
    ∃ req items, requestNew (fun _ => 0) buf = some req ∧ Built req items ∧ items.length = n := by
  obtain ⟨req, read, size⟩ := Option.map_eq_some_iff.mp count
  obtain ⟨items, built⟩ := built_of_message read
  exact ⟨req, items, read, built, built.items.2.1 ▸ size⟩

/-- The second item is at no position. -/
theorem second_not_found : ∃ req items, requestNew (fun _ => 0) twoItems = some req ∧
    Built req items ∧ items.length = 2 ∧ requestGetItemAt req 1 = none ∧ ¬ Found req items := by
  obtain ⟨req, items, read, built, size⟩ : ∃ req items, requestNew (fun _ => 0) twoItems = some req ∧
      Built req items ∧ items.length = 2 := built_of_count (by decide)
  refine ⟨req, items, read, built, size, getItemAt_succ req 0, fun found => ?_⟩
  have second := found.position 1
  rw [getItemAt_succ req 0, List.getElem?_eq_getElem (by omega)] at second
  cases second

/-- One item is found, and two are not. -/
theorem found_iff_both :
    (∃ req items, requestNew (fun _ => 0) oneItem = some req ∧ Built req items ∧ Found req items) ∧
      ∃ req items, requestNew (fun _ => 0) twoItems = some req ∧ Built req items ∧
        ¬ Found req items := by
  have one : ∃ req items, requestNew (fun _ => 0) oneItem = some req ∧ Built req items ∧
      items.length = 1 := built_of_count (by decide)
  have two : ∃ req items, requestNew (fun _ => 0) twoItems = some req ∧ Built req items ∧
      items.length = 2 := built_of_count (by decide)
  constructor
  · obtain ⟨req, items, read, built, size⟩ := one
    exact ⟨req, items, read, built, (found_iff built).mpr size.le⟩
  · obtain ⟨req, items, read, built, size⟩ := two
    exact ⟨req, items, read, built, fun found => absurd ((found_iff built).mp found) (by omega)⟩

end Jspp.Splc
