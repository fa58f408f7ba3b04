/-
# Kernel.Methods -- the methods of every session

The classes of a session come from the native classes by parsing accepted texts
and by linking.  A property of class heaps that these keep holds of every
session, and so does one of methods and virtual tables that holds of native
methods, of compiled ones, and of a table that gets one more method.

* `ClassInvariant`, `Prepared.classes`.
* `TableLogic`, `TableLogic.invariant`.
* `Prepared.keyed`: every virtual table holds a method under its own signature.
* `Prepared.compiled`: every method's code is that of its body.
-/
import Jspp.Compiler.Grows
import Jspp.Compiler.Slots
import Jspp.Kernel.Prepare

namespace Jspp.Kernel

open Jspp.Compiler Jspp.Theory

set_option autoImplicit false

/-! ## The classes of a session -/

/-- A property of class heaps that the native classes have, and that parsing and
preparing keep. -/
structure ClassInvariant (Q : List JsClass → Prop) : Prop where
  natives : ∀ classes, (∀ jsp ∈ classes, Intrinsic jsp) → Q classes
  parse : ∀ (intrinsics : Intrinsics) (text : List Char), (parseChar intrinsics text).accepted →
    Q intrinsics.heap → Q (parseChar intrinsics text).heap
  link : ∀ (pp : Program) (table : Table Nat) (c : Nat) (classes classes' : List JsClass),
    linkBase pp table c classes = some (some classes') → Q classes → Q classes'
  consts : ∀ (cdata : List Variant) (c : Nat) (classes : List JsClass), Q classes →
    Q (setConstdata cdata c classes)

section

variable {Q : List JsClass → Prop} {host : Host} {fuel : Nat} {pp : Program}

theorem prepareClass_classes (inv : ClassInvariant Q) {c : Nat} {s : Session} (h : Q s.classes) :
    Returns (prepareClass host fuel pp c s) fun r => Q r.1.classes := by
  unfold prepareClass
  split
  case h_1 => exact .fault
  case h_2 jsp found =>
      simp only
      split
      case h_1 => exact .timeout
      case h_2 => exact .pure h
      case h_3 classes linked =>
          have linkedQ := inv.link _ _ _ _ _ linked h
          refine .bind (Q := fun _ => True) (fun _ _ => trivial) fun ⟨q, err, varret⟩ _ => ?_
          simp only
          split
          · exact .fault
          · exact .pure (inv.consts _ _ _ linkedQ)

theorem prepareLoop_classes (inv : ClassInvariant Q) (cs : List Nat) {s : Session}
    (h : Q s.classes) : Returns (prepareLoop host fuel pp cs s) fun r => Q r.1.classes := by
  induction cs generalizing s with
  | nil => exact .pure h
  | cons c cs ih =>
      refine .bind (prepareClass_classes inv h) fun ⟨s', ok⟩ here => ?_
      simp only
      split
      · exact ih here
      · exact .pure here

/-- An invariant of class heaps holds of the classes of every session. -/
theorem Prepared.classes (inv : ClassInvariant Q) {s : Session} (h : Prepared host s) :
    Q s.classes := by
  induction h with
  | start s natives => exact inv.natives _ natives
  | @load s s' text fuel h accepted prepared ih =>
      have parsed : Q (parseChar s.intrinsics text).heap := inv.parse _ _ accepted ih
      obtain ⟨⟨s₁, ok⟩, looped, ended⟩ := Traced.ending_bind prepared
      have kept : Q s₁.classes := prepareLoop_classes inv _ parsed _ looped
      cases ok with
      | false => cases ended
      | true =>
          cases ended
          exact kept

end

/-! ## Methods and virtual tables -/

/-- Every method of a class satisfies `M`, and every virtual table `T`. -/
def Tables (T : Table JsMethod → Prop) (M : JsMethod → Prop) (classes : List JsClass) : Prop :=
  ∀ jsp ∈ classes, (∀ mp ∈ jsp.methods, M mp) ∧ ∀ t, jsp.vtable = some t → T t

/-- Natives and compiled methods satisfy `M`, and a table of them satisfies `T`. -/
structure TableLogic (T : Table JsMethod → Prop) (M : JsMethod → Prop) : Prop where
  empty : T []
  put : ∀ t mp, T t → M mp → T (t.put mp.sig mp)
  native : ∀ mp, mp.code = [] → mp.body = .empty → M mp
  compiled : ∀ (cls : JsClass) (cdata : List Variant) mp, MethodOk cls.fields cdata mp → M mp

section

variable {T : Table JsMethod → Prop} {M : JsMethod → Prop}

theorem TableLogic.vtableOf (logic : TableLogic T M) {base : Option (Table JsMethod)}
    (h : ∀ t, base = some t → T t) {jsp : JsClass} (methods : ∀ mp ∈ jsp.methods, M mp) :
    T (vtableOf base jsp) := by
  have start : T (base.getD []) := by
    cases base with
    | none => exact logic.empty
    | some t => exact h t rfl
  unfold Kernel.vtableOf
  generalize base.getD [] = t at start
  generalize jsp.methods = mps at methods
  induction mps generalizing t with
  | nil => exact start
  | cons mp rest ih =>
      obtain ⟨here, later⟩ := List.forall_mem_cons.mp methods
      exact ih _ (logic.put t mp start here) later

theorem Tables.modify {classes : List JsClass} (h : Tables T M classes) (c : Nat)
    {f : JsClass → JsClass}
    (keeps : ∀ jsp ∈ classes, (f jsp).methods = jsp.methods ∧ ∀ t, (f jsp).vtable = some t → T t) :
    Tables T M (classes.modify c f) := by
  intro jsp mem
  obtain ⟨i, at_i⟩ := List.mem_iff_getElem?.mp mem
  rw [List.getElem?_modify] at at_i
  obtain ⟨old, at_old, rfl⟩ := Option.map_eq_some_iff.mp at_i
  have inOld := List.mem_of_getElem? at_old
  split
  · obtain ⟨methods, vtable⟩ := keeps old inOld
    exact ⟨methods ▸ (h old inOld).1, vtable⟩
  · exact h old inOld

theorem TableLogic.addVtab (logic : TableLogic T M) {c : Nat} {base : Option (Table JsMethod)}
    {classes : List JsClass} (h : Tables T M classes) (good : ∀ t, base = some t → T t) :
    Tables T M (addVtab c base classes) := by
  refine h.modify c fun jsp mem => ⟨rfl, fun t vtable => ?_⟩
  cases vtable
  exact logic.vtableOf good (h jsp mem).1

theorem TableLogic.initVtab (logic : TableLogic T M) {n c : Nat} {classes classes' : List JsClass}
    (init : jsclassInitVtab n c classes = some classes') (h : Tables T M classes) :
    Tables T M classes' := by
  induction n generalizing c classes classes' with
  | zero => cases init
  | succ n ih =>
      obtain ⟨jsp, found, init⟩ := Option.bind_eq_some_iff.mp init
      split at init
      case h_1 =>
          cases init
          exact logic.addVtab h nofun
      case h_2 b _ =>
          obtain ⟨base, foundBase, init⟩ := Option.bind_eq_some_iff.mp init
          split at init
          case h_1 vtable ready =>
              cases init
              refine logic.addVtab h fun t eq => ?_
              cases eq
              exact (h base (List.mem_of_getElem? foundBase)).2 _ ready
          case h_2 =>
              obtain ⟨mid, initBase, init⟩ := Option.bind_eq_some_iff.mp init
              obtain ⟨base', foundBase', rfl⟩ := Option.map_eq_some_iff.mp init
              have good := ih initBase h
              refine logic.addVtab good fun t eq => ?_
              exact (good base' (List.mem_of_getElem? foundBase')).2 t eq

theorem TableLogic.linkBase (logic : TableLogic T M) {pp : Program} {table : Table Nat} {c : Nat}
    {classes classes' : List JsClass} (linked : linkBase pp table c classes = some (some classes'))
    (h : Tables T M classes) : Tables T M classes' := by
  obtain ⟨jsp, found, linked⟩ := Option.bind_eq_some_iff.mp linked
  split at linked
  · cases linked
    exact h
  · split at linked
    case h_1 => cases linked
    case h_2 b _ =>
        obtain ⟨mid, init, eq⟩ := Option.map_eq_some_iff.mp linked
        cases eq
        exact logic.initVtab init (h.modify c fun jsp mem => ⟨rfl, (h jsp mem).2⟩)

/-- Parsing an accepted text adds compiled methods and leaves the tables alone. -/
theorem TableLogic.parse (logic : TableLogic T M) {intrinsics : Intrinsics} {text : List Char}
    (accepted : (parseChar intrinsics text).accepted) (h : Tables T M intrinsics.heap) :
    Tables T M (parseChar intrinsics text).heap := by
  intro jsp mem
  have grown := parseChar_grows intrinsics text
  obtain ⟨c, found⟩ := List.mem_iff_getElem?.mp mem
  constructor
  · intro mp method
    obtain ⟨i, at_i⟩ := List.mem_iff_getElem?.mp method
    rcases parseChar_settled accepted c jsp i mp found at_i with ⟨old, at_old, before⟩ | ok
    · exact (h old (List.mem_of_getElem? at_old)).1 mp (List.mem_of_getElem? before)
    · exact logic.compiled jsp _ mp ok
  · intro t vtable
    cases old : intrinsics.heap[c]? with
    | none =>
        obtain ⟨_, _, evolves⟩ := grown.new c jsp old found
        rw [evolves.vtable] at vtable
        cases vtable
    | some before =>
        obtain ⟨after, found', evolves⟩ := grown.old c before old
        rw [found] at found'
        cases found'
        rw [evolves.vtable] at vtable
        exact (h before (List.mem_of_getElem? old)).2 t vtable

theorem TableLogic.invariant (logic : TableLogic T M) : ClassInvariant (Tables T M) where
  natives := by
    intro classes natives jsp mem
    refine ⟨fun mp method => ?_, fun t vtable => ?_⟩
    · obtain ⟨code, body⟩ := (natives jsp mem).codes mp method
      exact logic.native mp code body
    · rw [(natives jsp mem).vtable] at vtable
      cases vtable
  parse := fun _ _ accepted h => logic.parse accepted h
  link := fun _ _ _ _ _ linked h => logic.linkBase linked h
  consts := fun _ c _ h => h.modify c fun jsp mem => ⟨rfl, (h jsp mem).2⟩

end

/-! ## Tables by signature -/

/-- Every entry of a table is a method under its own signature. -/
def KeyedTable (t : Table JsMethod) : Prop := ∀ key mp, t.get key = some mp → mp.sig = key

def Keyed (classes : List JsClass) : Prop :=
  ∀ jsp ∈ classes, ∀ t, jsp.vtable = some t → KeyedTable t

theorem keyed_logic : TableLogic KeyedTable fun _ => True where
  empty := nofun
  put := by
    intro t mp h _ key m found
    by_cases same : key = mp.sig
    · subst same
      rw [Table.get_put_self] at found
      cases found
      rfl
    · rw [Table.get_put_ne t mp same] at found
      exact h key m found
  native := fun _ _ _ => trivial
  compiled := fun _ _ _ _ => trivial

theorem Prepared.keyed {host : Host} {s : Session} (h : Prepared host s) : Keyed s.classes :=
  fun jsp mem => (h.classes keyed_logic.invariant jsp mem).2

/-- A method that was looked up has the signature it was looked up by. -/
theorem findMethod_sig {env : Env} (keyed : Keyed env.classes) {c : Nat} {sig : List Char}
    {mp : JsMethod} (found : env.findMethod c sig = some mp) : mp.sig = sig := by
  obtain ⟨jsp, at_c, found⟩ := Option.bind_eq_some_iff.mp found
  unfold jsclassFindMethod at found
  split at found
  case h_1 =>
      have same := List.find?_some found
      exact (of_decide_eq_true same).symm
  case h_2 vtable eq => exact keyed jsp (List.mem_of_getElem? at_c) vtable eq sig mp found

/-! ## Compiled methods -/

/-- The code of a method is that of its body, whose operands are resolved in some class. -/
def Compiled (mp : JsMethod) : Prop :=
  ∃ fields cdata, NoBlockField fields ∧ MethodOk fields cdata mp

/-- Every entry of a table is a compiled method. -/
def CompiledTable (t : Table JsMethod) : Prop := ∀ e ∈ t, Compiled e.2

theorem compiled_logic : TableLogic CompiledTable Compiled where
  empty := nofun
  put := fun t mp h ok => List.forall_mem_cons.mpr ⟨ok, h⟩
  native := by
    intro mp code body
    refine ⟨[], [], nofun, ?_, ?_⟩
    · rw [code, body]
      rfl
    · rw [body]
      trivial
  compiled := fun cls cdata mp ok => ⟨cls.fields, cdata, cls.laid.noBlock, ok⟩

/-- A method that was looked up is compiled. -/
theorem findMethod_compiled {env : Env} (all : Tables CompiledTable Compiled env.classes) {c : Nat}
    {sig : List Char} {mp : JsMethod} (found : env.findMethod c sig = some mp) : Compiled mp := by
  obtain ⟨jsp, at_c, found⟩ := Option.bind_eq_some_iff.mp found
  obtain ⟨methods, tables⟩ := all jsp (List.mem_of_getElem? at_c)
  unfold jsclassFindMethod at found
  split at found
  case h_1 => exact methods mp (List.mem_of_find?_eq_some found)
  case h_2 vtable eq =>
      obtain ⟨pre, post, entries, _⟩ := List.lookup_eq_some_iff.mp found
      exact tables vtable eq (sig, mp) (by simp [entries])

end Jspp.Kernel
