/-
# Kernel.Programs -- adding and removing programs

`qinterpPrepare` enters the classes of a program into the class table by name, one
after the other, and nothing takes them out again when a later class fails;
`qinterpRemoveProgram` takes out whatever stands under their names.

* `prepareLoop_registers`: the class table and the classes behind any run of the loop.
* `AllOrNothing`, `prepare_all_iff`: preparing leaves no trace or everything.
* `Neutral`, `remove_neutral_iff`: removing undoes preparing.
-/
import Jspp.Kernel.Methods

namespace Jspp.Compiler

set_option autoImplicit false

namespace Table

variable {α : Type}

/-- `hashtableRemove`. -/
def remove (t : Table α) (key : List Char) : Table α := t.filter fun e => e.1 ≠ key

theorem get_cons (t : Table α) (e : List Char × α) (key : List Char) :
    Table.get (e :: t) key = if key = e.1 then some e.2 else t.get key := by
  by_cases same : key = e.1
  · rw [if_pos same, same]
    exact get_put_self t e.1 e.2
  · rw [if_neg same]
    exact get_put_ne t e.2 same

theorem get_remove (t : Table α) (key name : List Char) :
    (t.remove key).get name = if name = key then none else t.get name := by
  induction t with
  | nil => simp [remove, get]
  | cons e t ih =>
      unfold remove at ih ⊢
      rw [List.filter_cons]
      by_cases other : e.1 = key
      · subst other
        rw [if_neg (by simp), ih, get_cons]
        split <;> rfl
      · rw [if_pos (by simpa using other), get_cons, get_cons, ih]
        by_cases here : name = e.1
        · subst here
          rw [if_pos rfl, if_neg other, if_pos rfl]
        · rw [if_neg here, if_neg here]

end Table

end Jspp.Compiler

namespace Jspp.Kernel

open Jspp.Compiler Jspp.Theory

set_option autoImplicit false

/-! ## What preparing keeps of a class -/

/-- A class before and after some preparing. -/
structure Relinked (old new : JsClass) : Prop where
  name : new.name = old.name
  basename : new.basename = old.basename
  methods : new.methods = old.methods
  baseclass : old.baseclass.isSome → new.baseclass.isSome
  vtable : old.vtable.isSome → new.vtable.isSome
  root : old.basename = [] → new.baseclass = old.baseclass

theorem Relinked.refl (jsp : JsClass) : Relinked jsp jsp := ⟨rfl, rfl, rfl, id, id, fun _ => rfl⟩

theorem Relinked.trans {a b c : JsClass} (one : Relinked a b) (two : Relinked b c) :
    Relinked a c where
  name := two.name.trans one.name
  basename := two.basename.trans one.basename
  methods := two.methods.trans one.methods
  baseclass was := two.baseclass (one.baseclass was)
  vtable was := two.vtable (one.vtable was)
  root root := (two.root (one.basename.trans root)).trans (one.root root)

/-- The same classes before and after, each with what `R` says of it. -/
structure Each (R : Nat → JsClass → JsClass → Prop) (classes classes' : List JsClass) : Prop where
  length : classes'.length = classes.length
  each : ∀ (c : Nat) (jsp : JsClass), classes[c]? = some jsp →
    ∃ jsp' : JsClass, classes'[c]? = some jsp' ∧ R c jsp jsp'

section

variable {R : Nat → JsClass → JsClass → Prop}

theorem Each.refl (refl : ∀ c jsp, R c jsp jsp) (classes : List JsClass) : Each R classes classes :=
  ⟨rfl, fun c jsp found => ⟨jsp, found, refl c jsp⟩⟩

theorem Each.trans (trans : ∀ i a b c, R i a b → R i b c → R i a c) {a b c : List JsClass}
    (one : Each R a b) (two : Each R b c) : Each R a c := by
  refine ⟨two.length.trans one.length, fun i jsp found => ?_⟩
  obtain ⟨mid, found', first⟩ := one.each i jsp found
  obtain ⟨new, found'', second⟩ := two.each i mid found'
  exact ⟨new, found'', trans _ _ _ _ first second⟩

theorem Each.modify (refl : ∀ c jsp, R c jsp jsp) (classes : List JsClass) (c : Nat)
    {f : JsClass → JsClass} (changes : ∀ jsp, classes[c]? = some jsp → R c jsp (f jsp)) :
    Each R classes (classes.modify c f) := by
  refine ⟨List.length_modify .., fun i jsp found => ?_⟩
  rw [List.getElem?_modify, found]
  by_cases same : c = i
  · exact ⟨f jsp, by simp [same], same ▸ changes jsp (same ▸ found)⟩
  · exact ⟨jsp, by simp [same], refl i jsp⟩

end

abbrev Links (classes classes' : List JsClass) : Prop := Each (fun _ => Relinked) classes classes'

theorem Links.refl (classes : List JsClass) : Links classes classes :=
  Each.refl (fun _ => Relinked.refl) classes

theorem Links.trans {a b c : List JsClass} (one : Links a b) (two : Links b c) : Links a c :=
  Each.trans (fun _ _ _ _ first second => first.trans second) one two

theorem Links.modify (classes : List JsClass) (c : Nat) {f : JsClass → JsClass}
    (relinks : ∀ jsp, classes[c]? = some jsp → Relinked jsp (f jsp)) :
    Links classes (classes.modify c f) :=
  Each.modify (fun _ => Relinked.refl) classes c relinks

/-- The name of a class stays. -/
theorem Links.name {classes classes' : List JsClass} (links : Links classes classes') (c : Nat) :
    (classes'[c]?).map JsClass.name = (classes[c]?).map JsClass.name := by
  cases found : classes[c]? with
  | none =>
      rw [List.getElem?_eq_none_iff] at found
      rw [List.getElem?_eq_none_iff.mpr (links.length ▸ found)]
  | some jsp =>
      obtain ⟨jsp', found', relinked⟩ := links.each c jsp found
      rw [found']
      exact congrArg some relinked.name

theorem addVtab_links (c : Nat) (base : Option (Table JsMethod)) (classes : List JsClass) :
    Links classes (addVtab c base classes) :=
  .modify _ _ fun _ _ => ⟨rfl, rfl, rfl, id, fun _ => rfl, fun _ => rfl⟩

/-- The table of a class is built. -/
def Built (c : Nat) (classes : List JsClass) : Prop :=
  ∃ jsp : JsClass, classes[c]? = some jsp ∧ jsp.vtable.isSome

theorem addVtab_built {c : Nat} {classes : List JsClass} (base : Option (Table JsMethod))
    (lt : c < classes.length) : Built c (addVtab c base classes) := by
  unfold addVtab
  exact ⟨_, by rw [List.getElem?_modify_eq, List.getElem?_eq_getElem lt]; rfl, rfl⟩

theorem jsclassInitVtab_links {n c : Nat} {classes classes' : List JsClass}
    (init : jsclassInitVtab n c classes = some classes') :
    Links classes classes' ∧ Built c classes' := by
  induction n generalizing c classes classes' with
  | zero => cases init
  | succ n ih =>
      obtain ⟨jsp, found, init⟩ := Option.bind_eq_some_iff.mp init
      have lt := (List.getElem?_eq_some_iff.mp found).1
      split at init
      case h_1 =>
          cases init
          exact ⟨addVtab_links _ _ _, addVtab_built _ lt⟩
      case h_2 b _ =>
          obtain ⟨base, foundBase, init⟩ := Option.bind_eq_some_iff.mp init
          split at init
          case h_1 =>
              cases init
              exact ⟨addVtab_links _ _ _, addVtab_built _ lt⟩
          case h_2 =>
              obtain ⟨mid, initBase, init⟩ := Option.bind_eq_some_iff.mp init
              obtain ⟨base', -, rfl⟩ := Option.map_eq_some_iff.mp init
              obtain ⟨links, -⟩ := ih initBase
              obtain ⟨jsp', found', -⟩ := links.each c jsp found
              exact ⟨links.trans (addVtab_links _ _ _),
                addVtab_built _ (List.getElem?_eq_some_iff.mp found').1⟩

/-- The base of a class is resolved and its table built. -/
def Resolved (c : Nat) (classes : List JsClass) : Prop :=
  ∃ jsp : JsClass, classes[c]? = some jsp ∧ jsp.baseclass.isSome ∧ jsp.vtable.isSome

theorem Resolved.links {c : Nat} {classes classes' : List JsClass} (resolved : Resolved c classes)
    (links : Links classes classes') : Resolved c classes' := by
  obtain ⟨jsp, found, base, vtable⟩ := resolved
  obtain ⟨jsp', found', relinked⟩ := links.each c jsp found
  exact ⟨jsp', found', relinked.baseclass base, relinked.vtable vtable⟩

theorem linkBase_links {pp : Program} {table : Table Nat} {c : Nat} {jsp : JsClass}
    {classes classes' : List JsClass} (found : classes[c]? = some jsp)
    (linked : linkBase pp table c classes = some (some classes')) :
    Links classes classes' ∧ (jsp.basename ≠ [] → Resolved c classes') := by
  unfold linkBase at linked
  rw [found, Option.bind_some] at linked
  split at linked
  case isTrue none =>
      cases linked
      exact ⟨.refl _, fun named => absurd none named⟩
  case isFalse named =>
      split at linked
      case h_1 => cases linked
      case h_2 b _ =>
          obtain ⟨mid, init, eq⟩ := Option.map_eq_some_iff.mp linked
          cases eq
          have based : Links classes (classes.modify c fun jsp => { jsp with baseclass := some b }) :=
            .modify _ _ fun jsp' found' => by
              obtain rfl := Option.some.inj (found.symm.trans found')
              exact ⟨rfl, rfl, rfl, fun _ => rfl, id, fun none => absurd none named⟩
          obtain ⟨links, new, found', vtable⟩ := jsclassInitVtab_links init
          refine ⟨based.trans links, fun _ => ⟨new, found', ?_, vtable⟩⟩
          obtain ⟨new', found'', relinked⟩ := links.each c { jsp with baseclass := some b } (by
            rw [List.getElem?_modify_eq, found]
            rfl)
          obtain rfl := Option.some.inj (found'.symm.trans found'')
          exact relinked.baseclass rfl

theorem setConstdata_links (cdata : List Variant) (c : Nat) (classes : List JsClass) :
    Links classes (setConstdata cdata c classes) :=
  .modify _ _ fun _ _ => ⟨rfl, rfl, rfl, id, id, fun _ => rfl⟩

/-! ## The class table behind the loop -/

/-- The name of a class. -/
def nameOf (heap : List JsClass) (c : Nat) : Option (List Char) := (heap[c]?).map JsClass.name

/-- The table with the classes of a program entered under their names. -/
def register (heap : List JsClass) (cs : List Nat) (table : Table Nat) : Table Nat :=
  cs.foldl (fun t c => (nameOf heap c).elim t fun name => t.put name c) table

/-- The table without the names of these classes. -/
def unregister (heap : List JsClass) (cs : List Nat) (table : Table Nat) : Table Nat :=
  cs.foldl (fun t c => (nameOf heap c).elim t t.remove) table

theorem register_cons (heap : List JsClass) (c : Nat) (cs : List Nat) (table : Table Nat) :
    register heap (c :: cs) table =
      register heap cs ((nameOf heap c).elim table fun name => table.put name c) := rfl

theorem unregister_cons (heap : List JsClass) (c : Nat) (cs : List Nat) (table : Table Nat) :
    unregister heap (c :: cs) table =
      unregister heap cs ((nameOf heap c).elim table table.remove) := rfl

section

variable {heap : List JsClass} {cs : List Nat} {table : Table Nat} {name : List Char}

theorem register_other (other : ∀ c ∈ cs, nameOf heap c ≠ some name) :
    (register heap cs table).get name = table.get name := by
  induction cs generalizing table with
  | nil => rfl
  | cons c cs ih =>
      obtain ⟨here, later⟩ := List.forall_mem_cons.mp other
      rw [register_cons, ih later]
      cases named : nameOf heap c with
      | none => rfl
      | some name' =>
          refine Table.get_put_ne table c fun same => here ?_
          rw [named, same]

/-- A name that is registered finds a class of this name. -/
theorem register_finds {c : Nat} (mem : c ∈ cs) (named : nameOf heap c = some name) :
    ∃ d ∈ cs, nameOf heap d = some name ∧ (register heap cs table).get name = some d := by
  induction cs generalizing table c with
  | nil => cases mem
  | cons e cs ih =>
      by_cases again : ∃ d ∈ cs, nameOf heap d = some name
      · obtain ⟨d, there, same⟩ := again
        obtain ⟨d', there', same', found⟩ := ih there same
        exact ⟨d', List.mem_cons_of_mem _ there', same', found⟩
      · have first : c = e := (List.mem_cons.mp mem).resolve_right fun there =>
          again ⟨c, there, named⟩
        subst first
        refine ⟨c, List.mem_cons_self, named, ?_⟩
        rw [register_cons, register_other fun d there same => again ⟨d, there, same⟩, named]
        exact Table.get_put_self table name c

theorem unregister_get (heap : List JsClass) (cs : List Nat) (table : Table Nat)
    (name : List Char) : (unregister heap cs table).get name =
      if ∃ c ∈ cs, nameOf heap c = some name then none else table.get name := by
  induction cs generalizing table with
  | nil => rw [if_neg (by simp)]; rfl
  | cons c cs ih =>
      rw [unregister_cons, ih]
      cases named : nameOf heap c with
      | none => simp [named]
      | some name' =>
          by_cases later : ∃ c ∈ cs, nameOf heap c = some name
          · obtain ⟨d, mem, same⟩ := later
            rw [if_pos ⟨d, mem, same⟩, if_pos ⟨d, List.mem_cons_of_mem _ mem, same⟩]
          · rw [if_neg later, Option.elim_some, Table.get_remove]
            by_cases here : name = name'
            · rw [if_pos here, if_pos ⟨c, List.mem_cons_self, by rw [named, here]⟩]
            · rw [if_neg here, if_neg]
              rintro ⟨d, mem, same⟩
              rcases List.mem_cons.mp mem with rfl | mem
              · exact here (Option.some.inj (same.symm.trans named))
              · exact later ⟨d, mem, same⟩

theorem register_same {heap' : List JsClass} (same : ∀ c, nameOf heap' c = nameOf heap c) :
    register heap' cs table = register heap cs table := by
  unfold register
  simp only [same]

end

variable {host : Host} {fuel : Nat} {pp : Program} {s s' : Session}

/-- A class that is prepared: its base is known, and its static initialiser ends without an
error. -/
def Succeeds (host : Host) (fuel : Nat) (pp : Program) (c : Nat) (s s' : Session) : Prop :=
  ∃ (jsp : JsClass) (classes : List JsClass) (q : Qinterp), s.classes[c]? = some jsp ∧
    linkBase pp (s.table.put jsp.name c) c s.classes = some (some classes) ∧
    (qinterpRun (Session.env host { s with
        table := s.table.put jsp.name c
        classes := setConstdata pp.comp.cdata c classes }) fuel jsp.name "@@constructor".toList 0
      s.q).ending = .done (q, .none, none) ∧
    s' = { s with
      table := s.table.put jsp.name c
      classes := setConstdata pp.comp.cdata c classes
      q := q }

/-- Every class is prepared, one after the other. -/
inductive Passes (host : Host) (fuel : Nat) (pp : Program) : Session → List Nat → Prop where
  | nil (s : Session) : Passes host fuel pp s []
  | cons {c : Nat} {cs : List Nat} {s s' : Session} (first : Succeeds host fuel pp c s s')
      (rest : Passes host fuel pp s' cs) : Passes host fuel pp s (c :: cs)

theorem Succeeds.run {c : Nat} (succeeds : Succeeds host fuel pp c s s') :
    (prepareClass host fuel pp c s).ending = .done (s', true) := by
  obtain ⟨jsp, classes, q, found, linked, ran, rfl⟩ := succeeds
  unfold prepareClass
  rw [found]
  dsimp only
  rw [linked]
  dsimp only
  rw [Traced.bind_done ran]
  rfl

/-- One class: it is registered, whether it is prepared or not. -/
theorem prepareClass_done {c : Nat} {ok : Bool}
    (done : (prepareClass host fuel pp c s).ending = .done (s', ok)) :
    Links s.classes s'.classes ∧ s'.programs = s.programs ∧
      (∃ name, nameOf s.classes c = some name ∧ s'.table = s.table.put name c) ∧
      (ok = true → Succeeds host fuel pp c s s') ∧
      (ok = true → (∃ jsp, s.classes[c]? = some jsp ∧ jsp.basename ≠ []) →
        Resolved c s'.classes) := by
  unfold prepareClass at done
  split at done
  case h_1 => cases done
  case h_2 jsp found =>
      have named : nameOf s.classes c = some jsp.name := by rw [nameOf, found]; rfl
      dsimp only at done
      split at done
      case h_1 => cases done
      case h_2 =>
          cases done
          exact ⟨.refl _, rfl, ⟨_, named, rfl⟩, nofun, nofun⟩
      case h_3 classes linked =>
          obtain ⟨⟨q, err, varret⟩, ran, ended⟩ := Traced.ending_bind done
          obtain ⟨links, resolved⟩ := linkBase_links found linked
          have constants := setConstdata_links pp.comp.cdata c classes
          cases varret with
          | some _ => cases ended
          | none =>
              cases ended
              refine ⟨links.trans constants, rfl, ⟨_, named, rfl⟩, fun ok => ?_, fun ok based => ?_⟩
              · have none : err = .none := of_decide_eq_true ok
                subst none
                exact ⟨jsp, classes, q, found, linked, ran, rfl⟩
              · obtain ⟨jsp', found', based⟩ := based
                obtain rfl := Option.some.inj (found.symm.trans found')
                exact (resolved based).links constants

/-- What the loop leaves: the classes it has come to are registered, and where it ends well every
one of them is prepared. -/
structure Registers (host : Host) (fuel : Nat) (pp : Program) (cs : List Nat) (s s' : Session)
    (ok : Bool) : Prop where
  links : Links s.classes s'.classes
  programs : s'.programs = s.programs
  table : ∃ k, s'.table = register s.classes (cs.take k) s.table ∧ (ok = true → k = cs.length) ∧
    (ok = false → ∃ c name, c ∈ cs.take k ∧ nameOf s.classes c = some name)
  passes : ok = true ↔ Passes host fuel pp s cs
  known : ok = true → ∀ c ∈ cs, ∃ jsp : JsClass, s.classes[c]? = some jsp
  resolved : ok = true → ∀ c ∈ cs,
    (∃ jsp : JsClass, s.classes[c]? = some jsp ∧ jsp.basename ≠ []) → Resolved c s'.classes

theorem prepareLoop_registers (cs : List Nat) {ok : Bool}
    (done : (prepareLoop host fuel pp cs s).ending = .done (s', ok)) :
    Registers host fuel pp cs s s' ok := by
  induction cs generalizing s with
  | nil =>
      cases done
      exact ⟨.refl _, rfl, ⟨0, rfl, fun _ => rfl, nofun⟩, ⟨fun _ => .nil _, fun _ => rfl⟩, nofun,
        nofun⟩
  | cons c cs ih =>
      obtain ⟨⟨s₁, ok₁⟩, one, rest⟩ := Traced.ending_bind done
      obtain ⟨links, programs, ⟨name, named, table⟩, succeeds, resolved⟩ := prepareClass_done one
      have first (k : Nat) : register s.classes ((c :: cs).take (k + 1)) s.table =
          register s.classes (cs.take k) s₁.table := by
        rw [table]
        rw [List.take_succ_cons, register_cons, named]
        rfl
      cases ok₁ with
      | false =>
          cases rest
          refine ⟨links, programs, ⟨1, ?_, nofun, fun _ => ⟨c, name, by simp, named⟩⟩,
            ⟨nofun, fun passes => ?_⟩, nofun, nofun⟩
          · rw [first 0]
            rfl
          · cases passes with
            | cons first rest => cases first.run.symm.trans one
      | true =>
          have rest := ih rest
          have known : ∃ jsp : JsClass, s.classes[c]? = some jsp := by
            obtain ⟨jsp, found, -⟩ := Option.map_eq_some_iff.mp named
            exact ⟨jsp, found⟩
          obtain ⟨k, table', whole, some⟩ := rest.table
          refine ⟨links.trans rest.links, rest.programs.trans programs, ⟨k + 1, ?_, ?_, ?_⟩, ?_, ?_,
            ?_⟩
          · rw [first k, table']
            exact register_same links.name
          · exact fun ok => congrArg (· + 1) (whole ok)
          · exact fun _ => ⟨c, name, by simp, named⟩
          · rw [rest.passes]
            constructor
            · exact fun passes => .cons (succeeds rfl) passes
            · rintro (_ | ⟨first, passes⟩)
              cases first.run.symm.trans one
              exact passes
          · intro ok d mem
            rcases List.mem_cons.mp mem with rfl | mem
            · exact known
            · obtain ⟨jsp, found⟩ := rest.known ok d mem
              have lt := (List.getElem?_eq_some_iff.mp found).1
              exact ⟨_, List.getElem?_eq_getElem (links.length ▸ lt)⟩
          · intro ok d mem based
            rcases List.mem_cons.mp mem with rfl | mem
            · exact (resolved rfl based).links rest.links
            · obtain ⟨jsp, found, based⟩ := based
              obtain ⟨jsp', found', relinked⟩ := links.each d jsp found
              exact rest.resolved ok d mem ⟨jsp', found', relinked.basename ▸ based⟩

/-! ## All or nothing -/

/-- What preparing should leave: the interpreter as it was, or every class of the program
registered, with its base and its virtual table. -/
def AllOrNothing (pp : Program) (s s' : Session) : Bool → Prop
  | false => (∀ name, s'.table.get name = s.table.get name) ∧ s'.programs = s.programs ∧
      s'.q.stack = s.q.stack ∧ s'.q.frames = s.q.frames
  | true => ∀ c ∈ pp.lclasses,
      (∃ name, nameOf s'.classes c = some name ∧ s'.table.get name = some c) ∧
        Resolved c s'.classes

/-- The classes of the program are prepared without an error, each of them names a base, and no
two of them have one name. -/
structure Clean (host : Host) (fuel : Nat) (pp : Program) (s : Session) : Prop where
  passes : Passes host fuel pp { s with classes := pp.heap } pp.lclasses
  based : ∀ c ∈ pp.lclasses, ∃ jsp : JsClass, pp.heap[c]? = some jsp ∧ jsp.basename ≠ []
  named : ∀ c ∈ pp.lclasses, ∀ d ∈ pp.lclasses, nameOf pp.heap c = nameOf pp.heap d → c = d

theorem qinterpPrepare_registers {ok : Bool}
    (done : (qinterpPrepare host fuel pp s).ending = .done (s', ok)) :
    ∃ s₁, Registers host fuel pp pp.lclasses { s with classes := pp.heap } s₁ ok ∧
      s' = if ok then { s₁ with programs := s₁.programs ++ [pp.classes] } else s₁ := by
  obtain ⟨⟨s₁, ok₁⟩, looped, ended⟩ := Traced.ending_bind done
  cases ended
  exact ⟨s₁, prepareLoop_registers _ looped, rfl⟩

/-- The classes of a program that was parsed are numbered behind those of the session. -/
theorem parsed_classes {s : Session} {text : List Char} {c : Nat}
    (mem : c ∈ (parseChar s.intrinsics text).lclasses) :
    s.classes.length ≤ c ∧ ∀ jsp : JsClass, (parseChar s.intrinsics text).heap[c]? = some jsp →
      jsp.baseclass = none := by
  have new := (parseChar_newClasses s.intrinsics text).1
  rw [new, List.mem_range'_1] at mem
  refine ⟨mem.1, fun jsp found => ?_⟩
  have missing : s.intrinsics.heap[c]? = none := List.getElem?_eq_none_iff.mpr mem.1
  obtain ⟨_, _, evolves⟩ := (parseChar_grows s.intrinsics text).new c jsp missing found
  exact evolves.baseclass

/-- Preparing a program that was parsed is all or nothing exactly where it is clean. -/
theorem prepare_all_iff (host : Host) (fuel : Nat) (s s' : Session) (text : List Char) (ok : Bool)
    (valid : ∀ name c, s.table.get name = some c → c < s.classes.length)
    (done : (qinterpPrepare host fuel (parseChar s.intrinsics text) s).ending = .done (s', ok)) :
    AllOrNothing (parseChar s.intrinsics text) s s' ok ↔
      Clean host fuel (parseChar s.intrinsics text) s := by
  obtain ⟨s₁, run, rfl⟩ := qinterpPrepare_registers done
  have fresh (c : Nat) (mem : c ∈ (parseChar s.intrinsics text).lclasses) := parsed_classes mem
  generalize parseChar s.intrinsics text = pp at run fresh
  obtain ⟨k, table, whole, some⟩ := run.table
  cases ok with
  | false =>
      refine ⟨fun nothing => ?_, fun clean => absurd (run.passes.mpr clean.passes) nofun⟩
      obtain ⟨c, name, mem, named⟩ := some rfl
      obtain ⟨d, mem, -, found⟩ := @register_finds pp.heap _ s.table name c mem named
      have old : s.table.get name = Option.some d := by
        rw [← nothing.1 name]
        exact (congrArg (Table.get · name) table).trans found
      have := valid name d old
      have := (fresh d (List.mem_of_mem_take mem)).1
      omega
  | true =>
      obtain rfl := whole rfl
      rw [List.take_length] at table
      constructor
      · intro all
        refine ⟨run.passes.mp rfl, fun c mem => ?_, fun c mem d mem' same => ?_⟩
        · obtain ⟨jsp, found⟩ := run.known rfl c mem
          refine ⟨jsp, found, fun root => ?_⟩
          obtain ⟨jsp', found', relinked⟩ := run.links.each c jsp found
          obtain ⟨jsp'', found'', base, -⟩ := (all c mem).2
          obtain rfl := Option.some.inj (found'.symm.trans found'')
          rw [relinked.root root, (fresh c mem).2 jsp found] at base
          cases base
        · obtain ⟨name, named, found⟩ := (all c mem).1
          obtain ⟨name', named', found'⟩ := (all d mem').1
          have one : nameOf s₁.classes c = nameOf pp.heap c := run.links.name c
          have two : nameOf s₁.classes d = nameOf pp.heap d := run.links.name d
          have eq : Option.some name = Option.some name' := by
            rw [← named, ← named']
            exact one.trans (same.trans two.symm)
          obtain rfl := Option.some.inj eq
          exact Option.some.inj (found.symm.trans found')
      · intro clean c mem
        obtain ⟨jsp, found, based⟩ := clean.based c mem
        have named : nameOf pp.heap c = Option.some jsp.name := by rw [nameOf, found]; rfl
        refine ⟨⟨jsp.name, (run.links.name c).trans named, ?_⟩,
          run.resolved rfl c mem ⟨jsp, found, based⟩⟩
        obtain ⟨d, mem', named', there⟩ := @register_finds pp.heap _ s.table _ c mem named
        rw [clean.named c mem d mem' (named.trans named'.symm)]
        exact (congrArg (Table.get · jsp.name) table).trans there

/-! ## Removing a program -/

/-- An interpreter with the pointers of its program list; `session.programs` are the class tables
of these programs. -/
structure Loader where
  session : Session
  pointers : List Nat

def Loader.findClass (host : Host) (l : Loader) (name : List Char) : Option Nat :=
  (l.session.env host).qinterpFindClass name

/-- `qinterpPrepare` on the program at `p`. -/
def Loader.prepare (host : Host) (fuel : Nat) (pp : Program) (p : Nat) (l : Loader) :
    Traced Event (Loader × Bool) :=
  (qinterpPrepare host fuel pp l.session).bind fun (s, ok) =>
    .pure (⟨s, if ok then l.pointers ++ [p] else l.pointers⟩, ok)

/-- `qinterpRemoveProgram` on the program at `p`. -/
def qinterpRemoveProgram (pp : Program) (p : Nat) (l : Loader) : Loader where
  session := { l.session with
    programs := l.session.programs.eraseIdx (l.pointers.idxOf p)
    table := unregister l.session.classes pp.lclasses l.session.table }
  pointers := l.pointers.erase p

/-- Every name finds the class it found before, and the program list is what it was. -/
structure Neutral (host : Host) (l l' : Loader) : Prop where
  classes : ∀ name, l'.findClass host name = l.findClass host name
  pointers : l'.pointers = l.pointers

/-- No class of the program has a name that is registered, and the program is not in the list, or
all that is in the list from there on. -/
structure Unshared (host : Host) (pp : Program) (p : Nat) (l : Loader) : Prop where
  names : ∀ c ∈ pp.lclasses, ∀ name, nameOf pp.heap c = some name → l.findClass host name = none
  pointers : ∀ q ∈ l.pointers.dropWhile (· ≠ p), q = p

theorem append_eq_cons_iff {p : Nat} {l : List Nat} : l ++ [p] = p :: l ↔ ∀ q ∈ l, q = p := by
  induction l with
  | nil => simp
  | cons q l ih =>
      rw [List.cons_append, List.forall_mem_cons, ← ih]
      constructor
      · intro same
        obtain ⟨rfl, rest⟩ := List.cons.inj same
        exact ⟨rfl, rest⟩
      · rintro ⟨rfl, rest⟩
        rw [rest]

theorem erase_append_iff {p : Nat} {l : List Nat} :
    (l ++ [p]).erase p = l ↔ ∀ q ∈ l.dropWhile (· ≠ p), q = p := by
  induction l with
  | nil => simp
  | cons q l ih =>
      by_cases same : q = p
      · subst same
        rw [List.cons_append, List.erase_cons_head, List.dropWhile_cons_of_neg (by simp),
          append_eq_cons_iff]
        simp
      · rw [List.cons_append, List.erase_cons_tail (by simpa using same),
          List.dropWhile_cons_of_pos (by simpa using same), ← ih]
        simp

/-- Removing a program that was prepared is neutral exactly where it shares nothing. -/
theorem remove_neutral_iff (host : Host) (fuel : Nat) (pp : Program) (p : Nat) (l l' : Loader)
    (done : (l.prepare host fuel pp p).ending = .done (l', true)) :
    Neutral host l (qinterpRemoveProgram pp p l') ↔ Unshared host pp p l := by
  obtain ⟨⟨s, ok⟩, prepared, ended⟩ := Traced.ending_bind done
  cases ended
  obtain ⟨s₁, run, rfl⟩ := qinterpPrepare_registers prepared
  obtain ⟨k, table, whole, -⟩ := run.table
  obtain rfl := whole rfl
  rw [List.take_length] at table
  have names (c : Nat) : nameOf s₁.classes c = nameOf pp.heap c := run.links.name c
  have removed (name : List Char) : (unregister s₁.classes pp.lclasses s₁.table).get name =
      if ∃ c ∈ pp.lclasses, nameOf pp.heap c = some name then none
      else l.session.table.get name := by
    rw [unregister_get]
    simp only [names]
    split
    case isTrue => rfl
    case isFalse other =>
        rw [table]
        exact register_other fun c mem named => other ⟨c, mem, named⟩
  constructor
  · intro neutral
    refine ⟨fun c mem name named => ?_, erase_append_iff.mp neutral.pointers⟩
    refine (neutral.classes name).symm.trans ((removed name).trans (if_pos ⟨c, mem, named⟩))
  · intro apart
    refine ⟨fun name => (removed name).trans ?_, erase_append_iff.mpr apart.pointers⟩
    split
    case isTrue named =>
        obtain ⟨c, mem, named⟩ := named
        exact (apart.names c mem name named).symm
    case isFalse => rfl

/-! ## Small programs -/

/-- How preparing a text ended. -/
def prepares (s : Session) (text : String) : Option (Session × Bool) :=
  (qinterpPrepare plainHost 64 (parseChar s.intrinsics text.toList) s).result?

theorem of_prepares {s s' : Session} {text : String} {ok : Bool}
    (ran : prepares s text = some (s', ok)) :
    (qinterpPrepare plainHost 64 (parseChar s.intrinsics text.toList) s).ending =
      .done (s', ok) := by
  unfold prepares Traced.result? at ran
  split at ran
  case h_1 ending =>
      cases ran
      exact ending
  case h_2 => cases ran

theorem objectSession_valid (name : List Char) (c : Nat)
    (found : objectSession.table.get name = some c) : c < objectSession.classes.length := by
  have one : objectSession.table.get name = if name = "Object".toList then some 0 else none :=
    Table.get_cons [] ("Object".toList, 0) name
  rw [one] at found
  split at found
  · cases found
    exact Nat.one_pos
  · cases found

/-- A class without methods. -/
theorem prepare_all_empty : ∃ s' ok,
    (qinterpPrepare plainHost 64 (parseChar objectSession.intrinsics "class A { }".toList)
      objectSession).ending = .done (s', ok) ∧
    (AllOrNothing (parseChar objectSession.intrinsics "class A { }".toList) objectSession s' ok ↔
      Clean plainHost 64 (parseChar objectSession.intrinsics "class A { }".toList)
        objectSession) := by
  have ran : (prepares objectSession "class A { }").isSome := by decide +kernel
  obtain ⟨⟨s', ok⟩, ran⟩ := Option.isSome_iff_exists.mp ran
  exact ⟨s', ok, of_prepares ran, prepare_all_iff plainHost 64 objectSession s'
    "class A { }".toList ok objectSession_valid (of_prepares ran)⟩

/-- A class whose base is unknown stays registered. -/
theorem unknownBase_registered : ¬ ∀ (host : Host) (fuel : Nat) (s s' : Session)
    (text : List Char) (ok : Bool), (∀ name c, s.table.get name = some c → c < s.classes.length) →
      (qinterpPrepare host fuel (parseChar s.intrinsics text) s).ending = .done (s', ok) →
      AllOrNothing (parseChar s.intrinsics text) s s' ok := by
  intro untouched
  have ran : (prepares objectSession "class A : B { }").map (fun r => (r.2, r.1.table.get ['A'])) =
      some (false, some 1) := by decide +kernel
  obtain ⟨⟨s', ok⟩, ran, same⟩ := Option.map_eq_some_iff.mp ran
  obtain ⟨rfl, found⟩ := Prod.mk.inj same
  have nothing := untouched plainHost 64 objectSession s' "class A : B { }".toList false
    objectSession_valid (of_prepares ran)
  have other : objectSession.table.get ['A'] = none := by decide
  cases (found.symm.trans (nothing.1 ['A'])).trans other

theorem of_loaded {s s' : Session} {text : String} {ptrs : List Nat} {p : Nat}
    (ran : prepares s text = some (s', true)) :
    (Loader.prepare plainHost 64 (parseChar s.intrinsics text.toList) p ⟨s, ptrs⟩).ending =
      .done (⟨s', ptrs ++ [p]⟩, true) := by
  unfold Loader.prepare
  rw [Traced.bind_done (of_prepares ran)]
  rfl

/-- The first program. -/
theorem remove_neutral_first : ∃ s',
    (Loader.prepare plainHost 64 (parseChar objectSession.intrinsics "class A { }".toList) 1
      ⟨objectSession, [0]⟩).ending = .done (⟨s', [0, 1]⟩, true) ∧
    (Neutral plainHost ⟨objectSession, [0]⟩ (qinterpRemoveProgram
        (parseChar objectSession.intrinsics "class A { }".toList) 1 ⟨s', [0, 1]⟩) ↔
      Unshared plainHost (parseChar objectSession.intrinsics "class A { }".toList) 1
        ⟨objectSession, [0]⟩) := by
  have ran : (prepares objectSession "class A { }").map Prod.snd = some true := by decide +kernel
  obtain ⟨⟨s', ok⟩, ran, rfl⟩ := Option.map_eq_some_iff.mp ran
  exact ⟨s', of_loaded ran,
    remove_neutral_iff plainHost 64 _ 1 ⟨objectSession, [0]⟩ _ (of_loaded ran)⟩

/-- A second program with a class of the same name. -/
theorem remove_takes_first : ¬ ∀ (host : Host) (fuel : Nat) (pp : Program) (p : Nat)
    (l l' : Loader), (l.prepare host fuel pp p).ending = .done (l', true) →
      Neutral host l (qinterpRemoveProgram pp p l') := by
  intro removal
  have ran : ((prepares objectSession "class A { }").bind fun r =>
      (prepares r.1 "class A { }").map fun r' => (r'.2, r.1.table.get ['A'],
        (qinterpRemoveProgram (parseChar r.1.intrinsics "class A { }".toList) 2
          ⟨r'.1, [0, 1, 2]⟩).session.table.get ['A'])) = some (true, some 1, none) := by
    decide +kernel
  obtain ⟨⟨s, _⟩, -, ran⟩ := Option.bind_eq_some_iff.mp ran
  obtain ⟨⟨s', ok⟩, ran, same⟩ := Option.map_eq_some_iff.mp ran
  obtain ⟨rfl, before, after⟩ : ok = true ∧ s.table.get ['A'] = some 1 ∧
      (qinterpRemoveProgram (parseChar s.intrinsics "class A { }".toList) 2
        ⟨s', [0, 1, 2]⟩).session.table.get ['A'] = none := by simpa using same
  have neutral := removal plainHost 64 (parseChar s.intrinsics "class A { }".toList) 2 ⟨s, [0, 1]⟩ _
    (of_loaded ran)
  cases (after.symm.trans (neutral.classes ['A'])).trans before

end Jspp.Kernel
