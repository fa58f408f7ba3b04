/-
# Kernel.Vectors -- the `Vector` class

A `Vector` keeps a copy of every value that is added.  The copy of a parameter that
was taken by reference is a pointer to the same variable, and `setElementAt` destroys
the old element before it has asked whether there is one.

* `Clist`: the rest of the vector of the collection library.
* `vectorCall`, `vectorRun`: the native methods, and what a sequence of them answers.
* `listCall`, `listRun`: the list that a `Vector` is to be.
* `vector_refines`: the sequences of calls that a `Vector` answers as the list does.
-/
import Jspp.Kernel.Arrays
import Jspp.Kernel.Prepare

namespace Jspp.Kernel

set_option autoImplicit false

/-! ## The vector -/

/-- What `Vector` uses of the collection library, over what `Array` uses of it. -/
structure Clist extends Cvector where
  count : V → Nat
  add : V → Variant → V
  clear : V → V

/-- A new vector is empty, one element is added behind the others, and an element outside
of the vector is NULL. -/
structure Clist.Lawful (cl : Clist) : Prop where
  count_construct : cl.count cl.construct = 0
  count_add : ∀ v x, cl.count (cl.add v x) = cl.count v + 1
  count_set : ∀ v (n : Int) x, 0 ≤ n → n < cl.count v → cl.count (cl.set v n (some x)) = cl.count v
  count_clear : ∀ v, cl.count (cl.clear v) = 0
  get_outside : ∀ v n, n < 0 ∨ (cl.count v : Int) ≤ n → cl.get v n = none
  get_add : ∀ v x (n : Int), 0 ≤ n → n < cl.count v → cl.get (cl.add v x) n = cl.get v n
  get_add_last : ∀ v x, cl.get (cl.add v x) (cl.count v) = some x
  get_set_self : ∀ v (n : Int) x, 0 ≤ n → n < cl.count v → cl.get (cl.set v n (some x)) n = some x
  get_set_ne : ∀ v (n m : Int) x, 0 ≤ n → n < cl.count v → m ≠ n →
    cl.get (cl.set v n (some x)) m = cl.get v m

/-- A list as a vector. -/
def plainClist : Clist where
  V := List Variant
  construct := []
  get v n := if 0 ≤ n then v[n.toNat]? else none
  set v n x := v.set n.toNat (x.getD .void)
  count := List.length
  add v x := v ++ [x]
  clear _ := []

theorem plainClist_lawful : plainClist.Lawful where
  count_construct := rfl
  count_add v x := List.length_append
  count_set v n x _ _ := List.length_set
  count_clear _ := rfl
  get_outside v n outside := by
    by_cases low : 0 ≤ n
    · have far : (v : List Variant).length ≤ n.toNat := by
        have high : ((v : List Variant).length : Int) ≤ n := by
          rcases outside with neg | high
          · omega
          · exact high
        omega
      exact (if_pos low).trans (List.getElem?_eq_none far)
    · exact if_neg low
  get_add v x n low high := by
    have near : n.toNat < (v : List Variant).length := by
      have below : n < (v : List Variant).length := high
      omega
    exact (if_pos low).trans ((List.getElem?_append_left near).trans (if_pos low).symm)
  get_add_last v x :=
    (if_pos (e := none) (Int.natCast_nonneg (v : List Variant).length)).trans
      List.getElem?_concat_length
  get_set_self v n x low high := by
    have near : n.toNat < (v : List Variant).length := by
      have below : n < (v : List Variant).length := high
      omega
    exact (if_pos low).trans (List.getElem?_set_self near)
  get_set_ne v n m x low _ ne := by
    by_cases pos : 0 ≤ m
    · exact (if_pos pos).trans ((List.getElem?_set_ne (by omega)).trans (if_pos pos).symm)
    · exact (if_neg pos).trans (if_neg pos).symm

/-! ## The functions -/

/-- `varConstructDup`: `varAssign` copies a pointer, and fails on a delegate. -/
def varConstructDup : Variant → Option Variant
  | .delegate => none
  | from' => some from'

/-- What the program is told: the error code, and the value that `ret` is or refers to. -/
abbrev Answer := InterpErrors × Option Variant

section

variable {cl : Clist}

def vector_add (vdp : cl.V) (varitem : Variant) : Answer × cl.V :=
  match varConstructDup varitem with
  | none => ((.outOfMem, none), vdp)
  | some newvar => ((.none, none), cl.add vdp newvar)

def vector_size (vdp : cl.V) : Answer := (.none, some (.int (cl.count vdp)))

/-- `vector_elementat`; `ret` refers to the element, so the answer is what stands there. -/
def vector_elementat (st : Store) (depth : Nat) (vdp : cl.V) (varidx : Variant) : Answer :=
  match (st.chase depth varidx).varGetInt with
  | none => (.typeMismatch, none)
  | some idx =>
      match cl.get vdp idx with
      | none => (.indexOutOfBounds, none)
      | some item => (.none, some (st.chase depth item))

/-- `vector_setelementat`; destroying an element that is NULL is not defined. -/
def vector_setelementat (st : Store) (depth : Nat) (vdp : cl.V) (varidx varitem : Variant) :
    Option (Answer × cl.V) :=
  match (st.chase depth varidx).varGetInt with
  | none => some ((.typeMismatch, none), vdp)
  | some idx =>
      match varConstructDup varitem with
      | none => some ((.outOfMem, none), vdp)
      | some newvar =>
          match cl.get vdp idx with
          | none => none
          | some _ => some ((.none, none), cl.set vdp idx (some newvar))

def vector_clear (vdp : cl.V) : Answer × cl.V := ((.none, none), cl.clear vdp)

end

/-- A call of a method, with its arguments as they stand on the operand stack. -/
inductive VectorCall where
  | add (item : Variant)
  | setElementAt (idx item : Variant)
  | elementAt (idx : Variant)
  | size
  | clear

/-- A call, or any variable of the program is written; the elements are not among them. -/
inductive Action where
  | write (l : Loc) (x : Variant)
  | call (c : VectorCall)

section

variable (cl : Clist) (depth : Nat)

/-- One call.  No argument is declared to be taken by reference, so `VARDEREF` looks
through one pointer first. -/
def vectorCall (st : Store) (vdp : cl.V) : VectorCall → Option (Answer × cl.V)
  | .add item => some (vector_add vdp (st.deref item))
  | .setElementAt idx item => vector_setelementat st depth vdp (st.deref idx) (st.deref item)
  | .elementAt idx => some (vector_elementat st depth vdp (st.deref idx), vdp)
  | .size => some (vector_size vdp, vdp)
  | .clear => some (vector_clear vdp)

def vectorRun : Store → cl.V → List Action → Option (List Answer)
  | _, _, [] => some []
  | st, vdp, .write l x :: rest => vectorRun (st.set l x) vdp rest
  | st, vdp, .call c :: rest =>
      (vectorCall cl depth st vdp c).bind fun (answer, vdp) =>
        (vectorRun st vdp rest).map (answer :: ·)

end

/-! ## The list -/

section

variable (depth : Nat)

/-- The value of an argument. -/
def Store.valueOf (st : Store) (depth : Nat) (arg : Variant) : Variant :=
  st.chase depth (st.deref arg)

/-- One call on a list of values. -/
def listCall (st : Store) (xs : List Variant) : VectorCall → Answer × List Variant
  | .add item => ((.none, none), xs ++ [st.valueOf depth item])
  | .setElementAt idx item =>
      match (st.valueOf depth idx).varGetInt with
      | none => ((.typeMismatch, none), xs)
      | some i =>
          if 0 ≤ i ∧ i < xs.length then
            ((.none, none), xs.set i.toNat (st.valueOf depth item))
          else ((.indexOutOfBounds, none), xs)
  | .elementAt idx =>
      match (st.valueOf depth idx).varGetInt with
      | none => ((.typeMismatch, none), xs)
      | some i =>
          if 0 ≤ i ∧ i < xs.length then ((.none, xs[i.toNat]?), xs)
          else ((.indexOutOfBounds, none), xs)
  | .size => ((.none, some (.int xs.length)), xs)
  | .clear => ((.none, none), [])

/-- What the list answers; writing a variable does not change it. -/
def listRun : Store → List Variant → List Action → List Answer
  | _, _, [] => []
  | st, xs, .write l x :: rest => listRun (st.set l x) xs rest
  | st, xs, .call c :: rest =>
      (listCall depth st xs c).1 :: listRun st (listCall depth st xs c).2 rest

end

/-! ## The sequences that fit -/

/-- A value that `varConstructDup` copies as a value. -/
def Variant.Copies (x : Variant) : Prop := x.isPtr = false ∧ x ≠ .delegate

section

variable {cl : Clist} {depth : Nat} {st : Store} {vdp : cl.V} {xs : List Variant}

/-- The call stores no pointer and no delegate, and replaces only an element that there is. -/
def VectorCall.Fits (cl : Clist) (depth : Nat) (st : Store) (vdp : cl.V) : VectorCall → Prop
  | .add item => (st.deref item).Copies
  | .setElementAt idx item =>
      ∀ i, (st.valueOf depth idx).varGetInt = some i →
        (0 ≤ i ∧ i < cl.count vdp) ∧ (st.deref item).Copies
  | .elementAt _ | .size | .clear => True

/-- Every call fits when it is made. -/
def Fitting (cl : Clist) (depth : Nat) : Store → cl.V → List Action → Prop
  | _, _, [] => True
  | st, vdp, .write l x :: rest => Fitting cl depth (st.set l x) vdp rest
  | st, vdp, .call c :: rest =>
      c.Fits cl depth st vdp ∧
        ∀ answer vdp', vectorCall cl depth st vdp c = some (answer, vdp') →
          Fitting cl depth st vdp' rest

/-- The vector has the elements of the list, and none of them is a pointer. -/
structure Holds (cl : Clist) (vdp : cl.V) (xs : List Variant) : Prop where
  count : cl.count vdp = xs.length
  get : ∀ n : Nat, n < xs.length → cl.get vdp n = xs[n]?
  values : ∀ x ∈ xs, x.isPtr = false

theorem chase_of_value {x : Variant} (value : x.isPtr = false) : st.chase depth x = x := by
  cases x with
  | ptr l => cases value
  | _ => cases depth <;> rfl

theorem Variant.Copies.dup {x : Variant} (copies : x.Copies) : varConstructDup x = some x := by
  cases x with
  | delegate => exact absurd rfl copies.2
  | _ => rfl

theorem Holds.add (lawful : cl.Lawful) (holds : Holds cl vdp xs) {x : Variant}
    (value : x.isPtr = false) : Holds cl (cl.add vdp x) (xs ++ [x]) where
  count := by
    rw [lawful.count_add, holds.count, List.length_append]
    rfl
  get n less := by
    rw [List.length_append, List.length_singleton] at less
    by_cases old : n < xs.length
    · rw [lawful.get_add vdp x n (by omega) (by rw [holds.count]; omega), holds.get n old,
        List.getElem?_append_left old]
    · have last : n = xs.length := by omega
      subst last
      rw [List.getElem?_concat_length, ← holds.count]
      exact lawful.get_add_last vdp x
  values y mem := by
    rcases List.mem_append.mp mem with old | new
    · exact holds.values y old
    · rw [List.mem_singleton.mp new]
      exact value

theorem Holds.set (lawful : cl.Lawful) (holds : Holds cl vdp xs) {i : Int} {x : Variant}
    (inside : 0 ≤ i ∧ i < xs.length) (value : x.isPtr = false) :
    Holds cl (cl.set vdp i (some x)) (xs.set i.toNat x) where
  count := by
    rw [lawful.count_set vdp i x inside.1 (by rw [holds.count]; exact inside.2), holds.count,
      List.length_set]
  get n less := by
    rw [List.length_set] at less
    have room : i < cl.count vdp := by
      rw [holds.count]
      exact inside.2
    by_cases same : (n : Int) = i
    · rw [same, lawful.get_set_self vdp i x inside.1 room]
      have index : i.toNat = n := by omega
      rw [index, List.getElem?_set_self less]
    · rw [lawful.get_set_ne vdp i n x inside.1 room same, holds.get n less,
        List.getElem?_set_ne (by omega)]
  values y mem := by
    rcases List.mem_or_eq_of_mem_set mem with old | new
    · exact holds.values y old
    · rw [new]
      exact value

theorem Holds.get_inside (holds : Holds cl vdp xs) {i : Int} (inside : 0 ≤ i ∧ i < xs.length) :
    ∃ x, cl.get vdp i = some x ∧ xs[i.toNat]? = some x ∧ x.isPtr = false := by
  have near : i.toNat < xs.length := by omega
  have found := holds.get i.toNat near
  rw [Int.toNat_of_nonneg inside.1, List.getElem?_eq_getElem near] at found
  exact ⟨_, found, List.getElem?_eq_getElem near, holds.values _ (List.getElem_mem near)⟩

/-- A call that fits is answered as the list answers it, and the vector holds the list. -/
theorem vectorCall_refines (lawful : cl.Lawful) (holds : Holds cl vdp xs) {c : VectorCall}
    (fits : c.Fits cl depth st vdp) :
    ∃ vdp', vectorCall cl depth st vdp c = some ((listCall depth st xs c).1, vdp') ∧
      Holds cl vdp' (listCall depth st xs c).2 := by
  cases c with
  | add item =>
      have value : st.valueOf depth item = st.deref item := chase_of_value fits.1
      refine ⟨cl.add vdp (st.deref item), ?_, ?_⟩
      · rw [vectorCall, vector_add, Variant.Copies.dup fits]
        rfl
      · rw [listCall, value]
        exact holds.add lawful fits.1
  | setElementAt idx item =>
      cases index : (st.valueOf depth idx).varGetInt with
      | none =>
          refine ⟨vdp, ?_, ?_⟩
          · simp only [vectorCall, vector_setelementat, listCall, index]
            rw [Store.valueOf] at index
            rw [index]
          · simp only [listCall, index]
            exact holds
      | some i =>
          obtain ⟨inside, copies⟩ := fits i index
          rw [holds.count] at inside
          have value : st.valueOf depth item = st.deref item := chase_of_value copies.1
          obtain ⟨x, got, _, _⟩ := holds.get_inside inside
          refine ⟨cl.set vdp i (some (st.deref item)), ?_, ?_⟩
          · simp only [listCall, index, if_pos inside]
            rw [Store.valueOf] at index
            simp only [vectorCall, vector_setelementat, index, copies.dup, got]
          · simp only [listCall, index, if_pos inside, value]
            exact holds.set lawful inside copies.1
  | elementAt idx =>
      cases index : (st.valueOf depth idx).varGetInt with
      | none =>
          refine ⟨vdp, ?_, ?_⟩
          · simp only [listCall, index]
            rw [Store.valueOf] at index
            simp only [vectorCall, vector_elementat, index]
          · simp only [listCall, index]
            exact holds
      | some i =>
          by_cases inside : 0 ≤ i ∧ i < xs.length
          · obtain ⟨x, got, there, value⟩ := holds.get_inside inside
            refine ⟨vdp, ?_, ?_⟩
            · simp only [listCall, index, if_pos inside, there]
              rw [Store.valueOf] at index
              simp only [vectorCall, vector_elementat, index, got, chase_of_value value]
            · simp only [listCall, index, if_pos inside]
              exact holds
          · have outside : cl.get vdp i = none := by
              refine lawful.get_outside vdp i ?_
              rw [holds.count]
              omega
            refine ⟨vdp, ?_, ?_⟩
            · simp only [listCall, index, if_neg inside]
              rw [Store.valueOf] at index
              simp only [vectorCall, vector_elementat, index, outside]
            · simp only [listCall, index, if_neg inside]
              exact holds
  | size =>
      refine ⟨vdp, ?_, holds⟩
      rw [vectorCall, vector_size, holds.count]
      rfl
  | clear =>
      refine ⟨cl.clear vdp, rfl, ?_, nofun, nofun⟩
      exact lawful.count_clear vdp

theorem vectorRun_refines (lawful : cl.Lawful) {actions : List Action} {st : Store} {vdp : cl.V}
    {xs : List Variant} (holds : Holds cl vdp xs) (fits : Fitting cl depth st vdp actions) :
    vectorRun cl depth st vdp actions = some (listRun depth st xs actions) := by
  induction actions generalizing st vdp xs with
  | nil => rfl
  | cons action rest ih =>
      cases action with
      | write l x => exact ih holds fits
      | call c =>
          obtain ⟨now, later⟩ := fits
          obtain ⟨vdp', answered, holds'⟩ := vectorCall_refines lawful holds now
          rw [vectorRun, answered, Option.bind_some]
          exact congrArg (Option.map _) (ih holds' (later _ _ answered))

end

/-- A new `Vector` answers a sequence of calls, with any variables written between them, as a
list of values does, when no call stores a pointer or a delegate and `setElementAt` is called
for elements that there are. -/
theorem vector_refines {cl : Clist} (lawful : cl.Lawful) {depth : Nat} {st : Store}
    {actions : List Action} (fits : Fitting cl depth st cl.construct actions) :
    vectorRun cl depth st cl.construct actions = some (listRun depth st [] actions) := by
  refine vectorRun_refines lawful ⟨lawful.count_construct, ?_, ?_⟩ fits
  · intro n less
    cases less
  · intro x mem
    cases mem

/-- The first element of an empty vector is replaced; and a parameter that was taken by
reference is added before its variable changes. -/
theorem vector_broken :
    vectorRun plainClist 3 objectSession.q.store [] [.call (.setElementAt (.int 0) (.int 5))] ≠
        some (listRun 3 objectSession.q.store [] [.call (.setElementAt (.int 0) (.int 5))]) ∧
      vectorRun plainClist 3 objectSession.q.store []
          [.write (.local 1 0) (.int 1), .write (.local 2 0) (.ptr (.local 1 0)),
            .call (.add (.ptr (.local 2 0))), .write (.local 1 0) (.int 7),
            .call (.elementAt (.int 0))] ≠
        some (listRun 3 objectSession.q.store []
          [.write (.local 1 0) (.int 1), .write (.local 2 0) (.ptr (.local 1 0)),
            .call (.add (.ptr (.local 2 0))), .write (.local 1 0) (.int 7),
            .call (.elementAt (.int 0))]) := by
  constructor
  · decide +kernel
  · decide +kernel

/-- A variable is added, and then changed. -/
def addOne : List Action :=
  [.write (.local 1 0) (.int 1), .call (.add (.ptr (.local 1 0))), .write (.local 1 0) (.int 7),
    .call (.elementAt (.int 0))]

theorem vector_refines_add :
    vectorRun plainClist 3 objectSession.q.store [] addOne =
      some [(.none, none), (.none, some (.int 1))] := by
  have fits : Fitting plainClist 3 objectSession.q.store plainClist.construct addOne :=
    ⟨⟨rfl, nofun⟩, fun _ _ _ => ⟨trivial, fun _ _ _ => trivial⟩⟩
  exact (vector_refines plainClist_lawful fits).trans (by decide +kernel)

end Jspp.Kernel
