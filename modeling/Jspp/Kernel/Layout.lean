/-
# Kernel.Layout -- where the fields of an instance are

`jsclassAddField` numbers the instance fields of every class from 0 on, and
`loadBaseFields` creates the slots of an instance class after class along the
base chain, base first.  Code and `qinterpFindField` use the number as the slot.
The two numberings agree, and the fields of a chain are kept apart, exactly when
at most one class of it has instance fields.

* `numbers_iff`: numberings from 0 on, one after another.
* `Owned`: the field operands of a method are offsets of fields of its class.
* `baseChain`, `created`: the slots in the order of their creation.
* `layout_iff`; `layout_broken`: a class with a field, derived from one with a field.
-/
import Jspp.Compiler.Fields
import Jspp.Kernel.Protocol

namespace Jspp.Kernel

open Jspp.Compiler Jspp.Theory

set_option autoImplicit false

/-! ## Numberings from 0 on -/

/-- At most one of the numbers is not 0. -/
def AtMostOne (ns : List Nat) : Prop := (ns.filter fun n => n ≠ 0).length ≤ 1

instance (ns : List Nat) : Decidable (AtMostOne ns) :=
  inferInstanceAs (Decidable ((ns.filter fun n => n ≠ 0).length ≤ 1))

theorem AtMostOne.numbers {ns : List Nat} (h : AtMostOne ns) :
    ns.flatMap List.range = List.range ns.sum := by
  induction ns with
  | nil => rfl
  | cons n ns ih =>
      by_cases zero : n = 0
      · subst zero
        simpa using ih (by simpa [AtMostOne] using h)
      · have none : ns.filter (fun n => n ≠ 0) = [] := by
          simpa [AtMostOne, zero] using h
        have zeros : ∀ m ∈ ns, m = 0 := by simpa using none
        have nothing : ns.flatMap List.range = [] := by
          simpa [List.flatMap_eq_nil_iff] using zeros
        rw [List.flatMap_cons, nothing, List.sum_cons, List.sum_eq_zero_iff_forall_eq_nat.mpr zeros, List.append_nil,
          Nat.add_zero]

theorem atMostOne_of_nodup {ns : List Nat} (h : (ns.flatMap List.range).Nodup) : AtMostOne ns := by
  induction ns with
  | nil => exact Nat.zero_le 1
  | cons n ns ih =>
      rw [List.flatMap_cons, List.nodup_append] at h
      obtain ⟨_, rest, apart⟩ := h
      by_cases zero : n = 0
      · simpa [AtMostOne, zero] using ih rest
      · have zeros : ∀ m ∈ ns, m = 0 := by
          intro m mem
          by_contra some
          exact apart 0 (List.mem_range.mpr (Nat.pos_of_ne_zero zero)) 0
            (List.mem_flatMap.mpr ⟨m, mem, List.mem_range.mpr (Nat.pos_of_ne_zero some)⟩) rfl
        have none : ns.filter (fun n => n ≠ 0) = [] := by simpa using zeros
        rw [AtMostOne, List.filter_cons_of_pos (by simpa using zero), none]
        exact Nat.le_refl 1

/-- Numberings from 0 on go on with one another, and have nothing in common, when at
most one of them is not empty. -/
theorem numbers_iff (ns : List Nat) :
    ((ns.flatMap List.range).Nodup ↔ AtMostOne ns) ∧
      (ns.flatMap List.range = List.range ns.sum ↔ AtMostOne ns) := by
  refine ⟨⟨atMostOne_of_nodup, fun one => ?_⟩, ⟨fun eq => ?_, AtMostOne.numbers⟩⟩
  · rw [one.numbers]
    exact List.nodup_range
  · apply atMostOne_of_nodup
    rw [eq]
    exact List.nodup_range

/-! ## The fields that code names -/

/-- Every method of a class is compiled against its fields. -/
def Owned (classes : List JsClass) : Prop :=
  ∀ jsp ∈ classes, ∀ mp ∈ jsp.methods, ∃ cdata, MethodOk jsp.fields cdata mp

/-- The two lists are the same but for what linking classes changes. -/
def SameBodies (classes classes' : List JsClass) : Prop :=
  classes'.map (fun jsp => (jsp.fields, jsp.methods)) =
    classes.map fun jsp => (jsp.fields, jsp.methods)

theorem sameBodies_modify {classes : List JsClass} (c : Nat) {f : JsClass → JsClass}
    (keeps : ∀ jsp, (f jsp).fields = jsp.fields ∧ (f jsp).methods = jsp.methods) :
    SameBodies classes (classes.modify c f) := by
  apply List.ext_getElem?
  intro i
  rw [List.getElem?_map, List.getElem?_map, List.getElem?_modify]
  cases classes[i]? with
  | none => rfl
  | some jsp =>
      by_cases here : c = i
      · simp [here, keeps jsp]
      · simp [here]

theorem sameBodies_initVtab {n c : Nat} {classes classes' : List JsClass}
    (init : jsclassInitVtab n c classes = some classes') : SameBodies classes classes' := by
  have added : ∀ (c : Nat) (base : Option (Table JsMethod)) (classes : List JsClass),
      SameBodies classes (addVtab c base classes) := fun c base classes =>
    sameBodies_modify c fun _ => ⟨rfl, rfl⟩
  induction n generalizing c classes classes' with
  | zero => cases init
  | succ n ih =>
      obtain ⟨jsp, found, init⟩ := Option.bind_eq_some_iff.mp init
      split at init
      case h_1 =>
          cases init
          exact added _ _ _
      case h_2 b _ =>
          obtain ⟨base, _, init⟩ := Option.bind_eq_some_iff.mp init
          split at init
          case h_1 =>
              cases init
              exact added _ _ _
          case h_2 =>
              obtain ⟨mid, initBase, init⟩ := Option.bind_eq_some_iff.mp init
              obtain ⟨base', _, rfl⟩ := Option.map_eq_some_iff.mp init
              exact (added _ _ _).trans (ih initBase)

theorem sameBodies_linkBase {pp : Program} {table : Table Nat} {c : Nat}
    {classes classes' : List JsClass} (linked : linkBase pp table c classes = some (some classes')) :
    SameBodies classes classes' := by
  obtain ⟨jsp, found, linked⟩ := Option.bind_eq_some_iff.mp linked
  split at linked
  · cases linked
    rfl
  · split at linked
    case h_1 => cases linked
    case h_2 b _ =>
        obtain ⟨mid, init, eq⟩ := Option.map_eq_some_iff.mp linked
        cases eq
        exact (sameBodies_initVtab init).trans (sameBodies_modify c fun _ => ⟨rfl, rfl⟩)

theorem Owned.same {classes classes' : List JsClass} (h : Owned classes)
    (same : SameBodies classes classes') : Owned classes' := by
  intro jsp mem mp method
  have there : (jsp.fields, jsp.methods) ∈ classes'.map fun jsp => (jsp.fields, jsp.methods) :=
    List.mem_map_of_mem mem
  rw [same] at there
  obtain ⟨old, inOld, eq⟩ := List.mem_map.mp there
  obtain ⟨fields, methods⟩ := Prod.mk.inj eq
  rw [← fields]
  exact h old inOld mp (methods ▸ method)

theorem owned_invariant : ClassInvariant Owned where
  natives := by
    intro classes natives jsp mem mp method
    obtain ⟨code, body⟩ := (natives jsp mem).codes mp method
    refine ⟨[], ?_, ?_⟩
    · rw [code, body]
      rfl
    · rw [body]
      trivial
  parse := by
    intro intrinsics text accepted h jsp mem mp method
    obtain ⟨c, found⟩ := List.mem_iff_getElem?.mp mem
    obtain ⟨i, at_i⟩ := List.mem_iff_getElem?.mp method
    rcases parseChar_settled accepted c jsp i mp found at_i with ⟨old, at_old, before⟩ | ok
    · obtain ⟨cdata, ok⟩ := h old (List.mem_of_getElem? at_old) mp (List.mem_of_getElem? before)
      obtain ⟨after, found', evolves⟩ := (parseChar_grows intrinsics text).old c old at_old
      rw [found] at found'
      cases found'
      exact ⟨cdata, ok.mono evolves.fields.subset List.prefix_rfl⟩
    · exact ⟨_, ok⟩
  link := fun _ _ _ _ _ linked h => h.same (sameBodies_linkBase linked)
  consts := fun _ c _ h => h.same (sameBodies_modify c fun _ => ⟨rfl, rfl⟩)

/-! ## The slots of an instance -/

/-- The fields of a class that its instances hold. -/
def instFields (jsp : JsClass) : List Vardef := jsp.fields.filter fun vdp => !vdp.isstatic

/-- A class behind its base classes, the last one first. -/
def baseChain (env : Env) : Nat → Nat → Option (List JsClass)
  | 0, _ => none
  | n + 1, c =>
      (env.classes[c]?).bind fun jsp =>
        (match jsp.baseclass with
          | none => some []
          | some base => baseChain env n base).map fun bases => bases ++ [jsp]

/-- The fields that `loadBaseFields` creates slots for, in their order. -/
def created (chain : List JsClass) : List Vardef := chain.flatMap instFields

/-- There are as many slots as created fields. -/
theorem loadBaseFields_eq (env : Env) (n c : Nat) :
    Qinterp.loadBaseFields env n c =
      (baseChain env n c).map fun chain => (created chain).length := by
  induction n generalizing c with
  | zero => rfl
  | succ n ih =>
      rw [Qinterp.loadBaseFields, baseChain]
      cases env.classes[c]? with
      | none => rfl
      | some jsp =>
          simp only [Option.bind_some, Option.map_map]
          cases jsp.baseclass with
          | none => simp [created, instFields]
          | some base =>
              simp only [ih, Option.map_map]
              congr 1
              funext chain
              simp [created, instFields]

/-- The field that is created in a slot is the one whose number code uses for it. -/
def OwnSlots (chain : List JsClass) : Prop :=
  ∀ (k : Nat) (vdp : Vardef), (created chain)[k]? = some vdp → vdp.offset = k

/-- No two fields of the chain have one slot. -/
def Apart (chain : List JsClass) : Prop := ((created chain).map Vardef.offset).Nodup

/-- At most one class of the chain has instance fields. -/
def OneFielded (chain : List JsClass) : Prop := AtMostOne (chain.map JsClass.instancelocations)

theorem created_offsets (chain : List JsClass) :
    (created chain).map Vardef.offset =
      (chain.map JsClass.instancelocations).flatMap List.range := by
  induction chain with
  | nil => rfl
  | cons jsp chain ih =>
      rw [created, List.flatMap_cons, List.map_append, ← created, ih, List.map_cons,
        List.flatMap_cons, instFields, jsp.laid.insts]

theorem apart_iff (chain : List JsClass) : Apart chain ↔ OneFielded chain := by
  rw [Apart, created_offsets]
  exact (numbers_iff _).1

theorem ownSlots_iff (chain : List JsClass) : OwnSlots chain ↔ OneFielded chain := by
  have total : (chain.map JsClass.instancelocations).sum = (created chain).length := by
    have len := congrArg List.length (created_offsets chain)
    rw [List.length_map, List.length_flatMap] at len
    rw [len]
    simp [Function.comp_def]
  rw [OneFielded, ← (numbers_iff _).2, ← created_offsets, total]
  constructor
  · intro own
    apply List.ext_getElem?
    intro k
    rw [List.getElem?_map]
    cases at_k : (created chain)[k]? with
    | none =>
        have past := List.getElem?_eq_none_iff.mp at_k
        simp [past]
    | some vdp =>
        have inside := (List.getElem?_eq_some_iff.mp at_k).1
        simp [own k vdp at_k, inside]
  · intro eq k vdp at_k
    obtain ⟨inside, rfl⟩ := List.getElem?_eq_some_iff.mp at_k
    have both := congrArg (fun offsets => offsets[k]?) eq
    simpa [inside] using both

/-- An operand in the mode of the instance is the number of a field of the class. -/
theorem Owned.operand {classes : List JsClass} (h : Owned classes) {jsp : JsClass}
    (mem : jsp ∈ classes) {mp : JsMethod} (method : mp ∈ jsp.methods) {offset : Int}
    (inCode : Instr.emit1 .lvalue .inst (some offset) ∈ mp.body.code) :
    ∃ vdp ∈ instFields jsp, (vdp.offset : Int) = offset := by
  obtain ⟨cdata, ok⟩ := h jsp mem mp method
  rcases ok.fieldsIn _ inCode .inst offset rfl with block | ⟨vdp, field, mode, at_vdp⟩
  · cases block
  · have modes := jsp.laid.modes vdp field
    have inst : vdp.isstatic = false := by
      cases static : vdp.isstatic with
      | false => rfl
      | true =>
          rw [mode, static] at modes
          cases modes
    exact ⟨vdp, List.mem_filter.mpr ⟨field, by simp [inst]⟩, at_vdp⟩

/-- What `qinterpFindField` answers for an instance field is the slot of its number. -/
theorem findField_slot {env : Env} {a : Act} {v : Variant} {name : List Char} {ip slot : Nat}
    (found : a.qinterpFindField env v name = some (.place (.field ip slot))) :
    ∃ inst jsp vdp, a.store.insts[ip]? = some inst ∧ env.classes[inst.myclass]? = some jsp ∧
      vdp ∈ instFields jsp ∧ vdp.name = name ∧ vdp.offset = slot := by
  unfold Act.qinterpFindField at found
  split at found
  case h_2 => cases found
  case h_1 ip' at_v =>
      obtain ⟨inst, at_ip, found⟩ := Option.bind_eq_some_iff.mp found
      obtain ⟨jsp, at_c, found⟩ := Option.bind_eq_some_iff.mp found
      split at found
      case h_1 => cases found
      case h_2 vdp field =>
          have mem := List.mem_of_find?_eq_some field
          have named : vdp.name = name := by simpa using List.find?_some field
          split at found
          case isTrue =>
              split at found <;> cases found
          case isFalse inst' =>
              split at found <;> cases found
              exact ⟨inst, jsp, vdp, at_ip, at_c,
                List.mem_filter.mpr ⟨mem, by simpa using inst'⟩, named, rfl⟩

/-- An instance has as many slots as its chain has instance fields; compiled code and
`qinterpFindField` use the number of a field as its slot.  These slots are distinct,
and the ones that were created for the fields, exactly when at most one class of the
chain has instance fields. -/
theorem layout_iff {host : Host} {s : Session} (prepared : Prepared host s) {n c : Nat}
    {chain : List JsClass} (based : baseChain (s.env host) n c = some chain) :
    Qinterp.loadBaseFields (s.env host) n c = some (created chain).length ∧
      (∀ jsp ∈ s.classes, ∀ mp ∈ jsp.methods, ∀ offset,
        Instr.emit1 .lvalue .inst (some offset) ∈ mp.body.code →
          ∃ vdp ∈ instFields jsp, (vdp.offset : Int) = offset) ∧
      (∀ (a : Act) (v : Variant) (name : List Char) (ip slot : Nat),
        a.qinterpFindField (s.env host) v name = some (.place (.field ip slot)) →
          ∃ inst jsp vdp, a.store.insts[ip]? = some inst ∧
            (s.env host).classes[inst.myclass]? = some jsp ∧
              vdp ∈ instFields jsp ∧ vdp.name = name ∧ vdp.offset = slot) ∧
      (Apart chain ∧ OwnSlots chain ↔ OneFielded chain) := by
  refine ⟨?_, ?_, fun _ _ _ _ _ found => findField_slot found, ?_⟩
  · rw [loadBaseFields_eq, based]
    rfl
  · intro jsp mem mp method offset inCode
    exact (prepared.classes owned_invariant).operand mem method inCode
  · rw [apart_iff, ownSlots_iff, and_self]

/-- A class with a field. -/
def oneFielded : List Char :=
  "class A \x7b public var x = 1; public static main() \x7b return 1; \x7d \x7d".toList

/-- The numbers of instance fields along the base chain of a class of a loaded text. -/
def chainOf (text : List Char) (c : Nat) : Option (List Nat) :=
  ((loaded text).bind fun s => baseChain (s.env plainHost) 8 c).map fun chain =>
    chain.map JsClass.instancelocations

theorem chainOf_some {text : List Char} {c : Nat} {ns : List Nat} (h : chainOf text c = some ns) :
    ∃ (s : Session) (chain : List JsClass), Prepared plainHost s ∧
      baseChain (s.env plainHost) 8 c = some chain ∧ chain.map JsClass.instancelocations = ns := by
  obtain ⟨chain, based, counts⟩ := Option.map_eq_some_iff.mp h
  obtain ⟨s, load, based⟩ := Option.bind_eq_some_iff.mp based
  exact ⟨s, chain, loaded_prepared load, based, counts⟩

theorem layout_iff_oneFielded :
    ∃ (s : Session) (chain : List JsClass), Prepared plainHost s ∧
      baseChain (s.env plainHost) 8 1 = some chain ∧ Apart chain ∧ OwnSlots chain := by
  have counts : chainOf oneFielded 1 = some [0, 1] := by
    rw [show oneFielded = _ from String.toList_ofList]
    decide +kernel
  obtain ⟨s, chain, prepared, based, counts⟩ := chainOf_some counts
  refine ⟨s, chain, prepared, based, (layout_iff prepared based).2.2.2.mpr ?_⟩
  rw [OneFielded, counts]
  decide

/-- A class with a field, and one derived from it with another. -/
def twoFielded : List Char :=
  ("class B \x7b public var x = 1; \x7d class A : B \x7b public var y = 2; " ++
    "public static main() \x7b return 1; \x7d \x7d").toList

/-- The two fields have one slot. -/
theorem layout_broken :
    ∃ (s : Session) (chain : List JsClass), Prepared plainHost s ∧
      baseChain (s.env plainHost) 8 2 = some chain ∧ ¬ Apart chain ∧ ¬ OwnSlots chain := by
  have counts : chainOf twoFielded 2 = some [0, 1, 1] := by
    rw [show twoFielded = _ from toList_literals _ _]
    decide +kernel
  obtain ⟨s, chain, prepared, based, counts⟩ := chainOf_some counts
  have two : ¬ OneFielded chain := by
    rw [OneFielded, counts]
    decide
  exact ⟨s, chain, prepared, based, fun apart => two ((apart_iff chain).mp apart),
    fun own => two ((ownSlots_iff chain).mp own)⟩

end Jspp.Kernel
