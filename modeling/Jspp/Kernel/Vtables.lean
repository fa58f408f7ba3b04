/-
# Kernel.Vtables -- virtual tables and the order of declarations

A class gets its virtual table when its turn in `qinterpPrepare` comes: the table of
its base, as it is then, with its own methods over it.  A base that is declared
behind the class has no base itself at that time, so its table is its own methods.

* `Nearest`: what the table of a class should find, the nearest declaration of its chain.
* `Sees`: what it does find.
* `prepareLoop_sees`: every class of a program that is prepared finds what it sees.
* `Hidden`, `tables_nearest_iff`: the two agree unless a declaration is hidden.
-/
import Jspp.Kernel.Programs

namespace Jspp.Kernel

open Jspp.Compiler Jspp.Theory

set_option autoImplicit false

/-! ## Declarations -/

def Declares (jsp : JsClass) (sig : List Char) (mp : JsMethod) : Prop :=
  mp ∈ jsp.methods ∧ mp.sig = sig

def Lacks (jsp : JsClass) (sig : List Char) : Prop := ∀ mp ∈ jsp.methods, mp.sig ≠ sig

/-- The nearest declaration in the chain of a class, `none` where there is none.  The classes
from `start` on are those of the program; one in front of them is there with its whole table. -/
inductive Nearest (classes : List JsClass) (start : Nat) (sig : List Char) :
    Nat → Option JsMethod → Prop where
  | outside {d : Nat} {jsp : JsClass} {t : Table JsMethod} (old : d < start)
      (found : classes[d]? = some jsp) (vtable : jsp.vtable = some t) :
      Nearest classes start sig d (t.get sig)
  | own {c : Nat} {jsp : JsClass} {mp : JsMethod} (new : start ≤ c)
      (found : classes[c]? = some jsp) (declares : Declares jsp sig mp) :
      Nearest classes start sig c (some mp)
  | base {c b : Nat} {jsp : JsClass} {r : Option JsMethod} (new : start ≤ c)
      (found : classes[c]? = some jsp) (lacks : Lacks jsp sig) (base : jsp.baseclass = some b)
      (rest : Nearest classes start sig b r) : Nearest classes start sig c r
  | root {c : Nat} {jsp : JsClass} (new : start ≤ c) (found : classes[c]? = some jsp)
      (lacks : Lacks jsp sig) (top : jsp.baseclass = Option.none) : Nearest classes start sig c none

/-- What a class sees: of a base that is declared behind it, no more than its own methods. -/
inductive Sees (classes : List JsClass) (start : Nat) (sig : List Char) :
    Nat → Option JsMethod → Prop where
  | outside {d : Nat} {jsp : JsClass} {t : Table JsMethod} (old : d < start)
      (found : classes[d]? = some jsp) (vtable : jsp.vtable = some t) :
      Sees classes start sig d (t.get sig)
  | own {c : Nat} {jsp : JsClass} {mp : JsMethod} (new : start ≤ c)
      (found : classes[c]? = some jsp) (declares : Declares jsp sig mp) :
      Sees classes start sig c (some mp)
  | base {c b : Nat} {jsp : JsClass} {r : Option JsMethod} (new : start ≤ c)
      (found : classes[c]? = some jsp) (lacks : Lacks jsp sig) (base : jsp.baseclass = some b)
      (before : b < c) (rest : Sees classes start sig b r) : Sees classes start sig c r
  | late {c b : Nat} {jsp jsp' : JsClass} {mp : JsMethod} (new : start ≤ c)
      (found : classes[c]? = some jsp) (lacks : Lacks jsp sig) (base : jsp.baseclass = some b)
      (behind : c ≤ b) (found' : classes[b]? = some jsp') (declares : Declares jsp' sig mp) :
      Sees classes start sig c (some mp)
  | unseen {c b : Nat} {jsp jsp' : JsClass} (new : start ≤ c)
      (found : classes[c]? = some jsp) (lacks : Lacks jsp sig) (base : jsp.baseclass = some b)
      (behind : c ≤ b) (found' : classes[b]? = some jsp') (lacks' : Lacks jsp' sig) :
      Sees classes start sig c none
  | root {c : Nat} {jsp : JsClass} (new : start ≤ c) (found : classes[c]? = some jsp)
      (lacks : Lacks jsp sig) (top : jsp.baseclass = Option.none) : Sees classes start sig c none

/-! ## Tables -/

/-- A table that was built finds the last own method of the signature, or what the base finds. -/
theorem vtableOf_get (base : Option (Table JsMethod)) (jsp : JsClass) (sig : List Char) :
    (∃ mp, Declares jsp sig mp ∧ (vtableOf base jsp).get sig = some mp) ∨
      (Lacks jsp sig ∧ (vtableOf base jsp).get sig = (base.getD []).get sig) := by
  unfold vtableOf Declares Lacks
  generalize base.getD [] = t
  generalize jsp.methods = mps
  induction mps generalizing t with
  | nil => exact .inr ⟨nofun, rfl⟩
  | cons m mps ih =>
      rcases ih (t.put m.sig m) with ⟨mp, ⟨mem, same⟩, found⟩ | ⟨lacks, found⟩
      · exact .inl ⟨mp, ⟨List.mem_cons_of_mem _ mem, same⟩, found⟩
      · by_cases here : m.sig = sig
        · refine .inl ⟨m, ⟨List.mem_cons_self, here⟩, found.trans ?_⟩
          rw [← here]
          exact Table.get_put_self t m.sig m
        · refine .inr ⟨List.forall_mem_cons.mpr ⟨here, lacks⟩, found.trans ?_⟩
          exact Table.get_put_ne t m fun same => here same.symm

/-- The methods that are searched where there is no table. -/
theorem findMethods_get {jsp : JsClass} (none : jsp.vtable = none) (sig : List Char) :
    (∃ mp, Declares jsp sig mp ∧ jsclassFindMethod jsp sig = some mp) ∨
      (Lacks jsp sig ∧ jsclassFindMethod jsp sig = Option.none) := by
  unfold jsclassFindMethod
  rw [none]
  dsimp only
  cases found : jsp.methods.find? fun mp => sig = mp.sig with
  | none =>
      refine .inr ⟨fun mp mem same => ?_, rfl⟩
      exact List.find?_eq_none.mp found mp mem (decide_eq_true same.symm)
  | some mp =>
      have same := List.find?_some found
      exact .inl ⟨mp, ⟨List.mem_of_find?_eq_some found, (of_decide_eq_true same).symm⟩, rfl⟩

theorem jsclassFindMethod_table {jsp : JsClass} {t : Table JsMethod} (vtable : jsp.vtable = some t)
    (sig : List Char) : jsclassFindMethod jsp sig = t.get sig := by
  unfold jsclassFindMethod
  rw [vtable]

/-! ## What preparing a class keeps of the others -/

/-- The class `d` before and after the class `k` is prepared. -/
structure Remains (start k : Nat) (d : Nat) (jsp jsp' : JsClass) : Prop where
  methods : jsp'.methods = jsp.methods
  baseclass : d ≠ k → jsp'.baseclass = jsp.baseclass
  outside : d < start → ∀ t, jsp.vtable = some t → jsp'.vtable = some t
  inside : start ≤ d → d ≠ k → jsp'.vtable = jsp.vtable ∨
    jsp.vtable = none ∧ jsp.baseclass = none ∧ jsp'.vtable = some (vtableOf none jsp)

variable {start k n : Nat} {classes classes' : List JsClass} {sig : List Char}

theorem Remains.refl (d : Nat) (jsp : JsClass) : Remains start k d jsp jsp :=
  ⟨rfl, fun _ => rfl, fun _ _ same => same, fun _ _ => .inl rfl⟩

theorem vtableOf_methods {jsp jsp' : JsClass} (same : jsp'.methods = jsp.methods)
    (base : Option (Table JsMethod)) : vtableOf base jsp' = vtableOf base jsp := by
  unfold vtableOf
  rw [same]

theorem Remains.trans {d : Nat} {a b c : JsClass} (one : Remains start k d a b)
    (two : Remains start k d b c) : Remains start k d a c where
  methods := two.methods.trans one.methods
  baseclass other := (two.baseclass other).trans (one.baseclass other)
  outside old t vtable := two.outside old t (one.outside old t vtable)
  inside new other := by
    rcases two.inside new other with same | ⟨none, root, built⟩
    · rcases one.inside new other with same' | ⟨none, root, built⟩
      · exact .inl (same.trans same')
      · exact .inr ⟨none, root, same.trans built⟩
    · rcases one.inside new other with same' | ⟨-, -, built'⟩
      · refine .inr ⟨same' ▸ none, one.baseclass other ▸ root, built.trans ?_⟩
        rw [vtableOf_methods one.methods]
      · rw [built'] at none
        cases none

/-- A class of the program without a base, which has no table or its own. -/
theorem sees_root {d : Nat} {jsp : JsClass} (new : start ≤ d) (found : classes[d]? = some jsp)
    (root : jsp.baseclass = none)
    (vtable : jsp.vtable = none ∨ jsp.vtable = some (vtableOf none jsp)) :
    Sees classes start sig d (jsclassFindMethod jsp sig) := by
  rcases vtable with none | built
  · rcases findMethods_get none sig with ⟨mp, declares, same⟩ | ⟨lacks, same⟩
    · exact same ▸ .own new found declares
    · exact same ▸ .root new found lacks root
  · rw [jsclassFindMethod_table built]
    rcases vtableOf_get none jsp sig with ⟨mp, declares, same⟩ | ⟨lacks, same⟩
    · exact same ▸ .own new found declares
    · exact same ▸ .root new found lacks root

/-- What a class in front of `k` sees it sees afterwards. -/
theorem Sees.keep {d : Nat} {r : Option JsMethod} (each : Each (Remains start k) classes classes')
    (sees : Sees classes start sig d r) (before : d < k) : Sees classes' start sig d r := by
  induction sees with
  | outside old found vtable =>
      obtain ⟨jsp', found', kept⟩ := each.each _ _ found
      exact .outside old found' (kept.outside old _ vtable)
  | own new found declares =>
      obtain ⟨jsp', found', kept⟩ := each.each _ _ found
      exact .own new found' ⟨kept.methods ▸ declares.1, declares.2⟩
  | base new found lacks base before' _ ih =>
      obtain ⟨jsp', found', kept⟩ := each.each _ _ found
      exact .base new found' (fun mp mem => lacks mp (kept.methods ▸ mem))
        ((kept.baseclass (by omega)).trans base) before' (ih (by omega))
  | late new found lacks base behind found₁ declares =>
      obtain ⟨jsp', found', kept⟩ := each.each _ _ found
      obtain ⟨jsp₁', found₁', kept₁⟩ := each.each _ _ found₁
      exact .late new found' (fun mp mem => lacks mp (kept.methods ▸ mem))
        ((kept.baseclass (by omega)).trans base) behind found₁'
        ⟨kept₁.methods ▸ declares.1, declares.2⟩
  | unseen new found lacks base behind found₁ lacks' =>
      obtain ⟨jsp', found', kept⟩ := each.each _ _ found
      obtain ⟨jsp₁', found₁', kept₁⟩ := each.each _ _ found₁
      exact .unseen new found' (fun mp mem => lacks mp (kept.methods ▸ mem))
        ((kept.baseclass (by omega)).trans base) behind found₁'
        fun mp mem => lacks' mp (kept₁.methods ▸ mem)
  | root new found lacks top =>
      obtain ⟨jsp', found', kept⟩ := each.each _ _ found
      exact .root new found' (fun mp mem => lacks mp (kept.methods ▸ mem))
        ((kept.baseclass (by omega)).trans top)

/-! ## Preparing one class -/

/-- The classes when the turn of the class `k` has come. -/
structure Stage (start k : Nat) (classes : List JsClass) : Prop where
  closed : ∀ d jsp b, d < start → classes[d]? = some jsp → jsp.baseclass = some b → b < start
  sees : ∀ d jsp, start ≤ d → d < k → classes[d]? = some jsp →
    ∀ sig, Sees classes start sig d (jsclassFindMethod jsp sig)
  rooted : ∀ d jsp, start ≤ d → d < k → classes[d]? = some jsp → jsp.vtable = none →
    jsp.baseclass = none
  ahead : ∀ d jsp, k ≤ d → classes[d]? = some jsp → jsp.baseclass = none ∧
    (jsp.vtable = none ∨ jsp.vtable = some (vtableOf none jsp))

theorem getElem?_addVtab_ne {c d : Nat} (base : Option (Table JsMethod)) (other : d ≠ c) :
    (addVtab c base classes)[d]? = classes[d]? := by
  unfold addVtab
  simp [Ne.symm other]

theorem getElem?_addVtab {c : Nat} {jsp : JsClass} (base : Option (Table JsMethod))
    (found : classes[c]? = some jsp) : ∃ jsp' : JsClass,
      (addVtab c base classes)[c]? = some jsp' ∧ jsp'.methods = jsp.methods ∧
        jsp'.baseclass = jsp.baseclass ∧ jsp'.vtable = some (vtableOf base jsp) := by
  refine ⟨{ jsp with
    vtable := some (vtableOf base jsp)
    spare := jsp.spare + (jsp.fields.filter fun vdp => vdp.isstatic).length }, ?_, rfl, rfl, rfl⟩
  rw [addVtab, List.getElem?_modify_eq, found]
  rfl

theorem length_addVtab (c : Nat) (base : Option (Table JsMethod)) (classes : List JsClass) :
    (addVtab c base classes).length = classes.length := List.length_modify ..

/-- A class when tables of classes in front of `start` are built. -/
structure Filled (start d : Nat) (jsp jsp' : JsClass) : Prop where
  methods : jsp'.methods = jsp.methods
  baseclass : jsp'.baseclass = jsp.baseclass
  outside : ∀ t, jsp.vtable = some t → jsp'.vtable = some t
  inside : start ≤ d → jsp'.vtable = jsp.vtable

theorem Filled.refl (d : Nat) (jsp : JsClass) : Filled start d jsp jsp :=
  ⟨rfl, rfl, fun _ same => same, fun _ => rfl⟩

/-- One more table, of a class that had none. -/
theorem Each.fill {d : Nat} {jsp : JsClass} {mid : List JsClass}
    (each : Each (Filled start) classes mid) (old : d < start) (found : classes[d]? = some jsp)
    (bare : jsp.vtable = none) (base : Option (Table JsMethod)) :
    Each (Filled start) classes (addVtab d base mid) := by
  refine ⟨(length_addVtab ..).trans each.length, fun i jsp₁ found₁ => ?_⟩
  obtain ⟨jsp₂, found₂, filled⟩ := each.each i jsp₁ found₁
  by_cases here : i = d
  · subst here
    obtain rfl := Option.some.inj (found.symm.trans found₁)
    obtain ⟨jsp₃, found₃, methods, baseclass, -⟩ := getElem?_addVtab base found₂
    refine ⟨jsp₃, found₃, methods.trans filled.methods, baseclass.trans filled.baseclass, ?_, ?_⟩
    · intro t vtable
      rw [bare] at vtable
      cases vtable
    · exact fun new => absurd old (by omega)
  · exact ⟨jsp₂, (getElem?_addVtab_ne base here).trans found₂, filled⟩

/-- The tables of classes in front of `start`: nothing else changes. -/
theorem initVtab_outside {d : Nat} {jsp : JsClass}
    (closed : ∀ d jsp b, d < start → classes[d]? = some jsp → jsp.baseclass = some b → b < start)
    (old : d < start) (found : classes[d]? = some jsp) (bare : jsp.vtable = none)
    (init : jsclassInitVtab n d classes = some classes') :
    Each (Filled start) classes classes' ∧
      ∃ (jsp' : JsClass) (t : Table JsMethod), classes'[d]? = some jsp' ∧ jsp'.vtable = some t := by
  induction n generalizing d jsp classes' with
  | zero => cases init
  | succ n ih =>
      obtain ⟨jsp₁, found₁, init⟩ := Option.bind_eq_some_iff.mp init
      obtain rfl := Option.some.inj (found.symm.trans found₁)
      have none := Each.refl (R := Filled start) Filled.refl classes
      split at init
      case h_1 =>
          cases init
          obtain ⟨jsp₃, found₃, -, -, vtable⟩ := getElem?_addVtab Option.none found
          exact ⟨none.fill old found bare _, jsp₃, _, found₃, vtable⟩
      case h_2 b based =>
          obtain ⟨base, foundBase, init⟩ := Option.bind_eq_some_iff.mp init
          split at init
          case h_1 vtable ready =>
              cases init
              obtain ⟨jsp₃, found₃, -, -, vtable⟩ := getElem?_addVtab (some vtable) found
              exact ⟨none.fill old found bare _, jsp₃, _, found₃, vtable⟩
          case h_2 bareBase =>
              obtain ⟨mid, initBase, init⟩ := Option.bind_eq_some_iff.mp init
              obtain ⟨base', foundBase', rfl⟩ := Option.map_eq_some_iff.mp init
              have each := (ih (closed d jsp b old found based) foundBase bareBase initBase).1
              obtain ⟨jsp₂, found₂, -⟩ := each.each d jsp found
              obtain ⟨jsp₃, found₃, -, -, vtable⟩ := getElem?_addVtab base'.vtable found₂
              exact ⟨each.fill old found bare _, jsp₃, _, found₃, vtable⟩

/-- The table of a class that is its own base is never built. -/
theorem initVtab_self {c : Nat} {jsp : JsClass} (found : classes[c]? = some jsp)
    (base : jsp.baseclass = some c) (bare : jsp.vtable = none) :
    jsclassInitVtab n c classes = none := by
  induction n with
  | zero => rfl
  | succ n ih =>
      unfold jsclassInitVtab
      rw [found, Option.bind_some]
      split
      case h_1 none =>
          rw [base] at none
          cases none
      case h_2 b based =>
          obtain rfl := Option.some.inj (base.symm.trans based)
          rw [found, Option.bind_some]
          split
          case h_1 ready =>
              rw [bare] at ready
              cases ready
          case h_2 => rw [ih, Option.bind_none]

theorem Each.mono {R R' : Nat → JsClass → JsClass → Prop} (each : Each R classes classes')
    (imp : ∀ d a b, R d a b → R' d a b) : Each R' classes classes' := by
  refine ⟨each.length, fun d jsp found => ?_⟩
  obtain ⟨jsp', found', holds⟩ := each.each d jsp found
  exact ⟨jsp', found', imp d jsp jsp' holds⟩

theorem Each.back {R : Nat → JsClass → JsClass → Prop} (each : Each R classes classes') {d : Nat}
    {jsp' : JsClass} (found' : classes'[d]? = some jsp') :
    ∃ jsp : JsClass, classes[d]? = some jsp ∧ R d jsp jsp' := by
  have lt := (List.getElem?_eq_some_iff.mp found').1
  rw [each.length] at lt
  obtain ⟨jsp₁, found₁, holds⟩ := each.each d _ (List.getElem?_eq_getElem lt)
  obtain rfl := Option.some.inj (found'.symm.trans found₁)
  exact ⟨_, List.getElem?_eq_getElem lt, holds⟩

theorem Remains.chain {a b c : List JsClass} (one : Each (Remains start k) a b)
    (two : Each (Remains start k) b c) : Each (Remains start k) a c :=
  Each.trans (fun _ _ _ _ first second => first.trans second) one two

theorem Filled.remains {d : Nat} {jsp jsp' : JsClass} (filled : Filled start d jsp jsp') :
    Remains start k d jsp jsp' :=
  ⟨filled.methods, fun _ => filled.baseclass, fun _ => filled.outside, fun new _ =>
    .inl (filled.inside new)⟩

/-- Whatever happens to the class itself. -/
theorem remains_modify (le : start ≤ k) (classes : List JsClass) {f : JsClass → JsClass}
    (methods : ∀ jsp, (f jsp).methods = jsp.methods) :
    Each (Remains start k) classes (classes.modify k f) :=
  Each.modify Remains.refl classes k fun jsp _ =>
    ⟨methods jsp, fun other => absurd rfl other, fun old => absurd old (by omega),
      fun _ other => absurd rfl other⟩

/-- A class that was prepared has its methods over the table its base has then. -/
def Derived (k b : Nat) (jsp : JsClass) (classes' : List JsClass) : Prop :=
  ∃ (jsp' base' : JsClass) (v : Table JsMethod), classes'[k]? = some jsp' ∧
    jsp'.methods = jsp.methods ∧ jsp'.baseclass = some b ∧
    jsp'.vtable = some (vtableOf (some v) jsp) ∧ classes'[b]? = some base' ∧
    (b < k ∧ base'.vtable = some v ∨ k ≤ b ∧ v = vtableOf none base')

theorem init_derived {b : Nat} {jsp : JsClass} (stage : Stage start k classes) (le : start ≤ k)
    (found : classes[k]? = some jsp)
    (init : jsclassInitVtab n k (classes.modify k fun jsp => { jsp with baseclass := some b }) =
      some classes') :
    Each (Remains start k) classes classes' ∧ Derived k b jsp classes' := by
  have based := remains_modify (f := fun jsp => { jsp with baseclass := some b }) le classes
    fun _ => rfl
  have other (d : Nat) (ne : d ≠ k) :
      (classes.modify k fun jsp => { jsp with baseclass := some b })[d]? = classes[d]? := by
    simp [Ne.symm ne]
  have here : (classes.modify k fun jsp => { jsp with baseclass := some b })[k]? =
      some { jsp with baseclass := some b } := by
    rw [List.getElem?_modify_eq, found]
    rfl
  generalize classes.modify k (fun jsp => { jsp with baseclass := some b }) = classes₁
    at init based other here
  have own (mid : List JsClass) (base : Option (Table JsMethod)) :
      Each (Remains start k) mid (addVtab k base mid) := remains_modify le mid fun _ => rfl
  cases n with
  | zero => cases init
  | succ n =>
  obtain ⟨jsp₁, found₁, init⟩ := Option.bind_eq_some_iff.mp init
  obtain rfl := Option.some.inj (here.symm.trans found₁)
  obtain ⟨base, foundBase, init⟩ := Option.bind_eq_some_iff.mp init
  split at init
  case h_1 v ready =>
      cases init
      obtain ⟨jsp', found', methods, baseclass, vtable⟩ := getElem?_addVtab (some v) here
      refine ⟨Remains.chain based (own _ _), ?_⟩
      by_cases self : b = k
      · subst self
        obtain rfl := Option.some.inj (here.symm.trans foundBase)
        refine ⟨jsp', jsp', v, found', methods, baseclass, vtable, found', .inr ⟨Nat.le_refl _, ?_⟩⟩
        rcases (stage.ahead b jsp (Nat.le_refl _) found).2 with none | built
        · cases none.symm.trans ready
        · rw [vtableOf_methods methods]
          exact Option.some.inj (ready.symm.trans built)
      · refine ⟨jsp', base, v, found', methods, baseclass, vtable,
          (getElem?_addVtab_ne _ self).trans foundBase, ?_⟩
        rcases Nat.lt_or_ge b k with before | behind
        · exact .inl ⟨before, ready⟩
        · refine .inr ⟨behind, ?_⟩
          have found₀ : classes[b]? = some base := (other b self).symm.trans foundBase
          rcases (stage.ahead b base behind found₀).2 with none | built
          · cases none.symm.trans ready
          · exact Option.some.inj (ready.symm.trans built)
  case h_2 bare =>
      obtain ⟨mid, initBase, init⟩ := Option.bind_eq_some_iff.mp init
      obtain ⟨base', foundBase', rfl⟩ := Option.map_eq_some_iff.mp init
      have self : b ≠ k := by
        rintro rfl
        obtain rfl := Option.some.inj (here.symm.trans foundBase)
        cases (initVtab_self here rfl bare).symm.trans initBase
      have foundBase₀ : classes[b]? = some base := (other b self).symm.trans foundBase
      have there : (addVtab k base'.vtable mid)[b]? = some base' :=
        (getElem?_addVtab_ne _ self).trans foundBase'
      -- the tables of earlier programs, or the own methods of the base
      have built : Each (Remains start k) classes₁ mid ∧
          (∃ jsp₂ : JsClass, mid[k]? = some jsp₂ ∧ jsp₂.methods = jsp.methods ∧
            jsp₂.baseclass = some b) ∧
          ∃ v, base'.vtable = some v ∧ (b < k ∨ k ≤ b ∧ v = vtableOf none base') := by
        rcases Nat.lt_or_ge b start with old | new
        · have closed (d : Nat) (jsp : JsClass) (c : Nat) (old : d < start)
              (found : classes₁[d]? = some jsp) (based : jsp.baseclass = some c) : c < start :=
            stage.closed d jsp c old ((other d (by omega)).symm.trans found) based
          obtain ⟨filled, base₁, t, found₁, vtable⟩ :=
            initVtab_outside closed old foundBase bare initBase
          obtain rfl := Option.some.inj (foundBase'.symm.trans found₁)
          obtain ⟨jsp₂, found₂, same⟩ := filled.each k _ here
          exact ⟨filled.mono fun _ _ _ => Filled.remains,
            ⟨jsp₂, found₂, same.methods, same.baseclass⟩,
            t, vtable, .inl (by omega)⟩
        · have root : base.baseclass = none := by
            rcases Nat.lt_or_ge b k with before | behind
            · exact stage.rooted b base new before foundBase₀ bare
            · exact (stage.ahead b base behind foundBase₀).1
          cases n with
          | zero => cases initBase
          | succ n =>
          unfold jsclassInitVtab at initBase
          rw [foundBase, Option.bind_some, root] at initBase
          obtain rfl := Option.some.inj initBase
          obtain ⟨base₁, found₁, methods, -, vtable⟩ := getElem?_addVtab none foundBase
          obtain rfl := Option.some.inj (foundBase'.symm.trans found₁)
          refine ⟨Each.modify Remains.refl _ b fun jsp found => ?_, ⟨_, (getElem?_addVtab_ne _
            (Ne.symm self)).trans here, rfl, rfl⟩, _, vtable, ?_⟩
          · obtain rfl := Option.some.inj (foundBase.symm.trans found)
            exact ⟨rfl, fun _ => rfl, fun old => absurd old (by omega), fun _ _ =>
              .inr ⟨bare, root, rfl⟩⟩
          · rw [vtableOf_methods methods]
            exact (Nat.lt_or_ge b k).imp_right fun behind => ⟨behind, rfl⟩
      obtain ⟨each, ⟨jsp₂, found₂, methods₂, base₂⟩, v, vtable, place⟩ := built
      obtain ⟨jsp', found', methods, baseclass, vtable'⟩ := getElem?_addVtab base'.vtable found₂
      refine ⟨Remains.chain (Remains.chain based each) (own _ _), jsp', base', v, found',
        methods.trans methods₂, baseclass.trans base₂, ?_, there,
        place.imp_left fun before => ⟨before, vtable⟩⟩
      rw [vtable', vtable, vtableOf_methods methods₂]

/-- The class that was prepared sees what its table finds. -/
theorem Derived.sees {b : Nat} {jsp : JsClass} (derived : Derived k b jsp classes')
    (le : start ≤ k)
    (before : ∀ jsp, start ≤ b → b < k → classes'[b]? = some jsp →
      Sees classes' start sig b (jsclassFindMethod jsp sig)) :
    ∃ jsp' : JsClass, classes'[k]? = some jsp' ∧ jsp'.vtable.isSome ∧
      Sees classes' start sig k (jsclassFindMethod jsp' sig) := by
  obtain ⟨jsp', base', v, found', methods, baseclass, vtable, foundBase, place⟩ := derived
  refine ⟨jsp', found', vtable ▸ rfl, ?_⟩
  rw [jsclassFindMethod_table vtable]
  rcases vtableOf_get (some v) jsp sig with ⟨mp, declares, same⟩ | ⟨lacks, same⟩
  · exact same ▸ .own le found' ⟨methods ▸ declares.1, declares.2⟩
  have lacks' : Lacks jsp' sig := fun mp mem => lacks mp (methods ▸ mem)
  rw [same]
  rcases place with ⟨before', ready⟩ | ⟨behind, rfl⟩
  · refine .base le found' lacks' baseclass before' ?_
    rcases Nat.lt_or_ge b start with old | new
    · exact .outside old foundBase ready
    · have sees := before base' new before' foundBase
      rwa [jsclassFindMethod_table ready] at sees
  · rcases vtableOf_get none base' sig with ⟨mp, declares, own⟩ | ⟨lacks, own⟩
    · exact own ▸ .late le found' lacks' baseclass behind foundBase declares
    · exact own ▸ .unseen le found' lacks' baseclass behind foundBase lacks

theorem find_alike {jsp jsp' : JsClass} (methods : jsp'.methods = jsp.methods)
    (vtable : jsp'.vtable = jsp.vtable) (sig : List Char) :
    jsclassFindMethod jsp' sig = jsclassFindMethod jsp sig := by
  unfold jsclassFindMethod
  rw [methods, vtable]

/-- The classes in front see what they find. -/
theorem Stage.earlier {d : Nat} {jsp' : JsClass} (stage : Stage start k classes)
    (each : Each (Remains start k) classes classes') (new : start ≤ d) (before : d < k)
    (found' : classes'[d]? = some jsp') :
    Sees classes' start sig d (jsclassFindMethod jsp' sig) := by
  obtain ⟨jsp, found, kept⟩ := each.back found'
  rcases kept.inside new (by omega) with same | ⟨bare, root, built⟩
  · rw [find_alike kept.methods same]
    exact (stage.sees d jsp new before found sig).keep each before
  · refine sees_root new found' ((kept.baseclass (by omega)).trans root) (.inr ?_)
    rw [built, vtableOf_methods kept.methods]

/-- The turn of the next class. -/
theorem Stage.next (stage : Stage start k classes) (le : start ≤ k)
    (each : Each (Remains start k) classes classes')
    (here : ∀ jsp', classes'[k]? = some jsp' →
      (jsp'.vtable = none → jsp'.baseclass = none) ∧
        ∀ sig, Sees classes' start sig k (jsclassFindMethod jsp' sig)) :
    Stage start (k + 1) classes' where
  closed d jsp' b old found' base := by
    obtain ⟨jsp, found, kept⟩ := each.back found'
    exact stage.closed d jsp b old found ((kept.baseclass (by omega)).symm.trans base)
  sees d jsp' new before found' sig := by
    rcases Nat.lt_succ_iff_lt_or_eq.mp before with before | rfl
    · exact stage.earlier each new before found'
    · exact (here jsp' found').2 sig
  rooted d jsp' new before found' bare := by
    rcases Nat.lt_succ_iff_lt_or_eq.mp before with before | rfl
    · obtain ⟨jsp, found, kept⟩ := each.back found'
      rw [kept.baseclass (by omega)]
      rcases kept.inside new (by omega) with same | ⟨-, root, -⟩
      · exact stage.rooted d jsp new before found (same ▸ bare)
      · exact root
    · exact (here jsp' found').1 bare
  ahead d jsp' behind found' := by
    obtain ⟨jsp, found, kept⟩ := each.back found'
    obtain ⟨root, vtable⟩ := stage.ahead d jsp (by omega) found
    refine ⟨(kept.baseclass (by omega)).trans root, ?_⟩
    rw [vtableOf_methods kept.methods]
    rcases kept.inside (by omega) (by omega) with same | ⟨-, -, built⟩
    · rw [same]
      exact vtable
    · exact .inr built

theorem Derived.consts {b : Nat} {jsp : JsClass} (derived : Derived k b jsp classes)
    (cdata : List Variant) : Derived k b jsp (setConstdata cdata k classes) := by
  obtain ⟨jsp', base', v, found', methods, baseclass, vtable, foundBase, place⟩ := derived
  have here : (setConstdata cdata k classes)[k]? = some { jsp' with constdata := some cdata } := by
    rw [setConstdata, List.getElem?_modify_eq, found']
    rfl
  by_cases self : b = k
  · subst self
    obtain rfl := Option.some.inj (found'.symm.trans foundBase)
    exact ⟨_, _, v, here, methods, baseclass, vtable, here, place⟩
  · refine ⟨_, base', v, here, methods, baseclass, vtable, ?_, place⟩
    rw [← foundBase]
    simp [setConstdata, Ne.symm self]

/-! ## Preparing a program -/

variable {host : Host} {fuel : Nat} {pp : Program} {s s' : Session}

theorem linkBase_next {table : Table Nat} (stage : Stage start k classes) (le : start ≤ k)
    (linked : linkBase pp table k classes = some (some classes')) (cdata : List Variant) :
    Stage start (k + 1) (setConstdata cdata k classes') := by
  obtain ⟨jsp, found, linked⟩ := Option.bind_eq_some_iff.mp linked
  have consts (classes : List JsClass) :
      Each (Remains start k) classes (setConstdata cdata k classes) :=
    remains_modify le classes fun _ => rfl
  split at linked
  case isTrue =>
      cases linked
      refine stage.next le (consts classes) fun jsp' found' => ?_
      obtain ⟨root, vtable⟩ := stage.ahead k jsp (Nat.le_refl _) found
      have same : jsp' = { jsp with constdata := some cdata } := by
        rw [setConstdata, List.getElem?_modify_eq, found] at found'
        exact (Option.some.inj found').symm
      have root' : jsp'.baseclass = none := by rw [same]; exact root
      exact ⟨fun _ => root', fun sig => sees_root le found' root' (by rw [same]; exact vtable)⟩
  case isFalse =>
      split at linked
      case h_1 => cases linked
      case h_2 b _ =>
          obtain ⟨mid, init, eq⟩ := Option.map_eq_some_iff.mp linked
          obtain rfl := Option.some.inj eq
          obtain ⟨each, derived⟩ := init_derived stage le found init
          have each := Remains.chain each (consts mid)
          refine stage.next le each fun jsp' found' => ?_
          have sees (sig : List Char) := @Derived.sees start k _ sig b jsp (derived.consts cdata) le
            fun jsp new before found => stage.earlier each new before found
          constructor
          · intro bare
            obtain ⟨jsp₁, found₁, some, -⟩ := sees []
            obtain rfl := Option.some.inj (found'.symm.trans found₁)
            rw [bare] at some
            cases some
          · intro sig
            obtain ⟨jsp₁, found₁, -, sees⟩ := sees sig
            obtain rfl := Option.some.inj (found'.symm.trans found₁)
            exact sees

theorem prepareLoop_stage {m : Nat} (stage : Stage start k s.classes) (le : start ≤ k)
    (done : (prepareLoop host fuel pp (List.range' k m) s).ending = .done (s', true)) :
    Stage start (k + m) s'.classes := by
  induction m generalizing k s with
  | zero =>
      cases done
      exact stage
  | succ m ih =>
      obtain ⟨⟨s₁, ok⟩, one, rest⟩ := Traced.ending_bind done
      cases ok with
      | false => cases rest
      | true =>
          obtain ⟨jsp, classes, q, -, linked, -, rfl⟩ := (prepareClass_done one).2.2.2.1 rfl
          have next := ih (linkBase_next stage le linked pp.comp.cdata) (by omega) rest
          rwa [Nat.add_right_comm] at next

/-- The base of a class of a session is a class of the session. -/
def Closed (classes : List JsClass) : Prop :=
  ∀ (d : Nat) (jsp : JsClass) (b : Nat), classes[d]? = some jsp → jsp.baseclass = some b →
    b < classes.length

/-- Every class of a program that was prepared finds what it sees. -/
theorem qinterpPrepare_sees {text : List Char} (closed : Closed s.classes)
    (done : (qinterpPrepare host fuel (parseChar s.intrinsics text) s).ending = .done (s', true))
    {c : Nat} (mem : c ∈ (parseChar s.intrinsics text).lclasses) :
    ∃ jsp : JsClass, s'.classes[c]? = some jsp ∧
      ∀ sig, Sees s'.classes s.classes.length sig c (jsclassFindMethod jsp sig) := by
  obtain ⟨⟨s₁, ok⟩, looped, ended⟩ := Traced.ending_bind done
  obtain ⟨new, length⟩ := parseChar_newClasses s.intrinsics text
  have grown := parseChar_grows s.intrinsics text
  have stage : Stage s.classes.length s.classes.length (parseChar s.intrinsics text).heap := by
    refine ⟨fun d jsp b old found base => ?_, fun d jsp new before => absurd before (by omega),
      fun d jsp new before => absurd before (by omega), fun d jsp behind found => ?_⟩
    · obtain ⟨jsp', found', evolves⟩ := grown.old d _ (List.getElem?_eq_getElem old)
      obtain rfl := Option.some.inj (found.symm.trans found')
      exact closed d _ b (List.getElem?_eq_getElem old) (evolves.baseclass.symm.trans base)
    · obtain ⟨_, _, evolves⟩ := grown.new d jsp (List.getElem?_eq_none_iff.mpr behind) found
      exact ⟨evolves.baseclass, .inl evolves.vtable⟩
  have each := (prepareLoop_registers _ looped).links
  generalize parseChar s.intrinsics text = pp at *
  cases ok with
  | false => cases ended
  | true =>
      rw [new] at looped
      have all := prepareLoop_stage stage (Nat.le_refl _) looped
      rw [new, List.mem_range'_1] at mem
      have lt : c < s₁.classes.length := by
        rw [each.length]
        exact length ▸ mem.2
      cases ended
      exact ⟨_, List.getElem?_eq_getElem lt, fun sig =>
        all.sees c _ mem.1 mem.2 (List.getElem?_eq_getElem lt) sig⟩

/-! ## What is hidden -/

/-- A declaration that a class does not see: it does not declare the method, and its chain leads
to a base that is declared behind the class in front of it, does not declare it either, and has
it from above. -/
inductive Hidden (classes : List JsClass) (start : Nat) (sig : List Char) : Nat → Prop where
  | late {c b : Nat} {jsp jsp' : JsClass} {mp : JsMethod} (new : start ≤ c)
      (found : classes[c]? = some jsp) (lacks : Lacks jsp sig) (base : jsp.baseclass = some b)
      (behind : c ≤ b) (found' : classes[b]? = some jsp') (lacks' : Lacks jsp' sig)
      (above : Nearest classes start sig b (some mp)) : Hidden classes start sig c
  | base {c b : Nat} {jsp : JsClass} (new : start ≤ c) (found : classes[c]? = some jsp)
      (lacks : Lacks jsp sig) (base : jsp.baseclass = some b) (before : b < c)
      (hidden : Hidden classes start sig b) : Hidden classes start sig c

/-- The chain of a class ends, at a class without a base or in front of `start`. -/
inductive Grounded (classes : List JsClass) (start : Nat) : Nat → Prop where
  | outside {d : Nat} {jsp : JsClass} {t : Table JsMethod} (old : d < start)
      (found : classes[d]? = some jsp) (vtable : jsp.vtable = some t) : Grounded classes start d
  | root {c : Nat} {jsp : JsClass} (new : start ≤ c) (found : classes[c]? = some jsp)
      (top : jsp.baseclass = none) : Grounded classes start c
  | base {c b : Nat} {jsp : JsClass} (new : start ≤ c) (found : classes[c]? = some jsp)
      (base : jsp.baseclass = some b) (rest : Grounded classes start b) : Grounded classes start c

theorem declares_or_lacks (jsp : JsClass) (sig : List Char) :
    (∃ mp, Declares jsp sig mp) ∨ Lacks jsp sig := by
  by_cases some : ∃ mp, Declares jsp sig mp
  · exact .inl some
  · exact .inr fun mp mem same => some ⟨mp, mem, same⟩

theorem Grounded.of_base {c b : Nat} {jsp : JsClass} (ends : Grounded classes start c)
    (new : start ≤ c) (found : classes[c]? = some jsp) (base : jsp.baseclass = some b) :
    Grounded classes start b := by
  cases ends with
  | outside old => omega
  | root _ found' top =>
      obtain rfl := Option.some.inj (found.symm.trans found')
      rw [base] at top
      cases top
  | base _ found' base' rest =>
      obtain rfl := Option.some.inj (found.symm.trans found')
      obtain rfl := Option.some.inj (base.symm.trans base')
      exact rest

theorem Grounded.nearest {c : Nat} (ends : Grounded classes start c) (sig : List Char) :
    ∃ r, Nearest classes start sig c r := by
  induction ends with
  | outside old found vtable => exact ⟨_, .outside old found vtable⟩
  | root new found top =>
      rcases declares_or_lacks _ sig with ⟨mp, declares⟩ | lacks
      · exact ⟨_, .own new found declares⟩
      · exact ⟨_, .root new found lacks top⟩
  | base new found base _ ih =>
      rcases declares_or_lacks _ sig with ⟨mp, declares⟩ | lacks
      · exact ⟨_, .own new found declares⟩
      · obtain ⟨r, nearest⟩ := ih
        exact ⟨r, .base new found lacks base nearest⟩

/-- Whether there is a declaration is determined. -/
theorem Nearest.isSome_eq {c : Nat} {r r' : Option JsMethod}
    (one : Nearest classes start sig c r) (two : Nearest classes start sig c r') :
    r.isSome = r'.isSome := by
  induction one with
  | outside old found vtable =>
      cases two with
      | outside _ found' vtable' =>
          obtain rfl := Option.some.inj (found.symm.trans found')
          rw [Option.some.inj (vtable.symm.trans vtable')]
      | _ => omega
  | own new found declares =>
      cases two with
      | outside old => omega
      | own => rfl
      | _ _ found' lacks =>
          obtain rfl := Option.some.inj (found.symm.trans found')
          exact absurd declares.2 (lacks _ declares.1)
  | base new found lacks base rest ih =>
      cases two with
      | outside old => omega
      | own _ found' declares =>
          obtain rfl := Option.some.inj (found.symm.trans found')
          exact absurd declares.2 (lacks _ declares.1)
      | base _ found' _ base' rest' =>
          obtain rfl := Option.some.inj (found.symm.trans found')
          obtain rfl := Option.some.inj (base.symm.trans base')
          exact ih rest'
      | root _ found' _ top =>
          obtain rfl := Option.some.inj (found.symm.trans found')
          rw [base] at top
          cases top
  | root new found lacks top =>
      cases two with
      | outside old => omega
      | own _ found' declares =>
          obtain rfl := Option.some.inj (found.symm.trans found')
          exact absurd declares.2 (lacks _ declares.1)
      | base _ found' _ base' rest' =>
          obtain rfl := Option.some.inj (found.symm.trans found')
          rw [top] at base'
          cases base'
      | root => rfl

/-- A declaration that is hidden is there, and is not found. -/
theorem Hidden.above {c : Nat} (hidden : Hidden classes start sig c) :
    ∃ mp, Nearest classes start sig c (some mp) := by
  induction hidden with
  | late new found lacks base _ _ _ above => exact ⟨_, .base new found lacks base above⟩
  | base new found lacks base _ _ ih =>
      obtain ⟨mp, above⟩ := ih
      exact ⟨mp, .base new found lacks base above⟩

theorem Hidden.unseen {c : Nat} {r : Option JsMethod} (hidden : Hidden classes start sig c)
    (sees : Sees classes start sig c r) : r = none := by
  induction hidden generalizing r with
  | late new found lacks base behind found₁ lacks₁ _ =>
      cases sees with
      | outside old => omega
      | own _ found' declares =>
          obtain rfl := Option.some.inj (found.symm.trans found')
          exact absurd declares.2 (lacks _ declares.1)
      | base _ found' _ base' before _ =>
          obtain rfl := Option.some.inj (found.symm.trans found')
          obtain rfl := Option.some.inj (base.symm.trans base')
          omega
      | late _ found' _ base' _ found₁' declares =>
          obtain rfl := Option.some.inj (found.symm.trans found')
          obtain rfl := Option.some.inj (base.symm.trans base')
          obtain rfl := Option.some.inj (found₁.symm.trans found₁')
          exact absurd declares.2 (lacks₁ _ declares.1)
      | unseen => rfl
      | root => rfl
  | base new found lacks base before hidden ih =>
      cases sees with
      | outside old => omega
      | own _ found' declares =>
          obtain rfl := Option.some.inj (found.symm.trans found')
          exact absurd declares.2 (lacks _ declares.1)
      | base _ found' _ base' _ rest =>
          obtain rfl := Option.some.inj (found.symm.trans found')
          obtain rfl := Option.some.inj (base.symm.trans base')
          exact ih rest
      | late _ found' _ base' behind _ _ =>
          obtain rfl := Option.some.inj (found.symm.trans found')
          obtain rfl := Option.some.inj (base.symm.trans base')
          omega
      | unseen => rfl
      | root => rfl

/-- What is seen is the nearest where nothing is hidden. -/
theorem Sees.nearest {c : Nat} {r : Option JsMethod} (sees : Sees classes start sig c r)
    (clear : ¬ Hidden classes start sig c) (ends : Grounded classes start c) :
    Nearest classes start sig c r := by
  induction sees with
  | outside old found vtable => exact .outside old found vtable
  | own new found declares => exact .own new found declares
  | root new found lacks top => exact .root new found lacks top
  | base new found lacks base before _ ih =>
      refine .base new found lacks base (ih (fun hidden => clear ?_) ?_)
      · exact .base new found lacks base before hidden
      · exact ends.of_base new found base
  | late new found lacks base behind found' declares =>
      exact .base new found lacks base (.own (by omega) found' declares)
  | unseen new found lacks base behind found' lacks' =>
      obtain ⟨r, nearest⟩ := (ends.of_base new found base).nearest sig
      cases r with
      | none => exact .base new found lacks base nearest
      | some mp => exact absurd (.late new found lacks base behind found' lacks' nearest) clear

/-- After a text was prepared whose chains end, every class finds the nearest declaration of its
chain exactly where no declaration is hidden. -/
theorem tables_nearest_iff (host : Host) (fuel : Nat) (s s' : Session) (text : List Char)
    (closed : Closed s.classes)
    (done : (qinterpPrepare host fuel (parseChar s.intrinsics text) s).ending = .done (s', true))
    (ends : ∀ c ∈ (parseChar s.intrinsics text).lclasses, Grounded s'.classes s.classes.length c) :
    (∀ c ∈ (parseChar s.intrinsics text).lclasses, ∀ sig,
        Nearest s'.classes s.classes.length sig c ((s'.env host).findMethod c sig)) ↔
      ∀ c ∈ (parseChar s.intrinsics text).lclasses, ∀ sig,
        ¬ Hidden s'.classes s.classes.length sig c := by
  have finds (c : Nat) (mem : c ∈ (parseChar s.intrinsics text).lclasses) (sig : List Char) :
      Sees s'.classes s.classes.length sig c ((s'.env host).findMethod c sig) := by
    obtain ⟨jsp, found, sees⟩ := qinterpPrepare_sees closed done mem
    have same : (s'.env host).findMethod c sig = jsclassFindMethod jsp sig := by
      show (s'.classes[c]?).bind _ = _
      rw [found]
      rfl
    exact same ▸ sees sig
  constructor
  · intro nearest c mem sig hidden
    obtain ⟨mp, above⟩ := hidden.above
    have none := hidden.unseen (finds c mem sig)
    have some := (nearest c mem sig).isSome_eq above
    rw [none] at some
    cases some
  · exact fun clear c mem sig => (finds c mem sig).nearest (clear c mem sig) (ends c mem)

/-! ## Small programs -/

/-- What a class is linked to, whether it has a table, and whether it declares `m`. -/
def outline (jsp : JsClass) : Option Nat × Bool × Bool :=
  (jsp.baseclass, jsp.vtable.isSome, jsp.methods.any fun mp => mp.sig = "m:Sv".toList)

theorem of_outline {c : Nat} {base : Option Nat} {built declared : Bool}
    (seen : (classes.map outline)[c]? = some (base, built, declared)) :
    ∃ jsp : JsClass, classes[c]? = some jsp ∧ jsp.baseclass = base ∧ jsp.vtable.isSome = built ∧
      (declared = true → ∃ mp, Declares jsp "m:Sv".toList mp) ∧
      (declared = false → Lacks jsp "m:Sv".toList) := by
  rw [List.getElem?_map] at seen
  obtain ⟨jsp, found, same⟩ := Option.map_eq_some_iff.mp seen
  obtain ⟨rfl, rest⟩ := Prod.mk.inj same
  obtain ⟨rfl, rfl⟩ := Prod.mk.inj rest
  refine ⟨jsp, found, rfl, rfl, fun some => ?_, fun none => ?_⟩
  · obtain ⟨mp, mem, same⟩ := List.any_eq_true.mp some
    exact ⟨mp, mem, of_decide_eq_true same⟩
  · intro mp mem same
    exact absurd (decide_eq_true same) (List.any_eq_false.mp none mp mem)

theorem objectSession_closed : Closed objectSession.classes := by
  intro d jsp b found base
  rw [List.mem_singleton.mp (List.mem_of_getElem? found : jsp ∈ [objectClass])] at base
  cases base

theorem ends_outside {d : Nat} {declared : Bool} {base : Option Nat} (old : d < start)
    (seen : (classes.map outline)[d]? = some (base, true, declared)) :
    Grounded classes start d := by
  obtain ⟨jsp, found, -, built, -⟩ := of_outline seen
  obtain ⟨t, vtable⟩ := Option.isSome_iff_exists.mp built
  exact .outside old found vtable

/-- A class below Object. -/
theorem tables_nearest_object : ∃ s' : Session,
    (qinterpPrepare plainHost 64 (parseChar objectSession.intrinsics "class A { }".toList)
      objectSession).ending = .done (s', true) ∧
    ((∀ c ∈ (parseChar objectSession.intrinsics "class A { }".toList).lclasses, ∀ sig,
        Nearest s'.classes objectSession.classes.length sig c
          ((s'.env plainHost).findMethod c sig)) ↔
      ∀ c ∈ (parseChar objectSession.intrinsics "class A { }".toList).lclasses, ∀ sig,
        ¬ Hidden s'.classes objectSession.classes.length sig c) := by
  have ran : (prepares objectSession "class A { }").map (fun r => (r.2, r.1.classes.map outline)) =
      some (true, [(none, true, false), (some 0, true, false)]) := by decide +kernel
  have new : (parseChar objectSession.intrinsics "class A { }".toList).lclasses = [1] := by
    decide +kernel
  obtain ⟨⟨s', ok⟩, ran, same⟩ := Option.map_eq_some_iff.mp ran
  obtain ⟨rfl, outlines⟩ := Prod.mk.inj same
  have outlines : s'.classes.map outline = _ := outlines
  refine ⟨s', of_prepares ran, tables_nearest_iff plainHost 64 objectSession s' "class A { }".toList
    objectSession_closed (of_prepares ran) fun c mem => ?_⟩
  rw [new, List.mem_singleton] at mem
  subst mem
  obtain ⟨jsp, found, base, -⟩ := of_outline (c := 1) (by rw [outlines]; rfl)
  exact .base (Nat.le_refl 1) found base (ends_outside Nat.one_pos (by rw [outlines]; rfl))

/-- The text in which a class comes in front of its base, and the base in front of its own. -/
def derivedFirst : String := "class D : C { } class C : B { } class B { public static m() { } }"

/-- D does not find the method of B. -/
theorem derived_first_misses : ¬ ∀ (host : Host) (fuel : Nat) (s s' : Session) (text : List Char),
    Closed s.classes →
      (qinterpPrepare host fuel (parseChar s.intrinsics text) s).ending = .done (s', true) →
      (∀ c ∈ (parseChar s.intrinsics text).lclasses, Grounded s'.classes s.classes.length c) →
      ∀ c ∈ (parseChar s.intrinsics text).lclasses, ∀ sig,
        Nearest s'.classes s.classes.length sig c ((s'.env host).findMethod c sig) := by
  intro tables
  have ran : (prepares objectSession derivedFirst).map (fun r => (r.2, r.1.classes.map outline,
        ((r.1.env plainHost).findMethod 1 "m:Sv".toList).isSome)) =
      some (true, [(none, true, false), (some 2, true, false), (some 3, true, false),
        (some 0, true, true)], false) := by decide +kernel
  have new : (parseChar objectSession.intrinsics derivedFirst.toList).lclasses = [1, 2, 3] := by
    decide +kernel
  obtain ⟨⟨s', ok⟩, ran, same⟩ := Option.map_eq_some_iff.mp ran
  obtain ⟨rfl, same⟩ := Prod.mk.inj same
  obtain ⟨outlines, missing⟩ := Prod.mk.inj same
  have outlines : s'.classes.map outline = _ := outlines
  obtain ⟨b, foundB, baseB, -, declares, -⟩ := of_outline (c := 3) (by rw [outlines]; rfl)
  obtain ⟨c, foundC, baseC, -, -, lacksC⟩ := of_outline (c := 2) (by rw [outlines]; rfl)
  obtain ⟨d, foundD, baseD, -, -, lacksD⟩ := of_outline (c := 1) (by rw [outlines]; rfl)
  have endsB : Grounded s'.classes 1 3 :=
    .base (by omega) foundB baseB (ends_outside Nat.one_pos (by rw [outlines]; rfl))
  have endsC : Grounded s'.classes 1 2 := .base (by omega) foundC baseC endsB
  have endsD : Grounded s'.classes 1 1 := .base (Nat.le_refl 1) foundD baseD endsC
  have nearest := tables plainHost 64 objectSession s' derivedFirst.toList objectSession_closed
    (of_prepares ran) (fun c mem => by
      rw [new] at mem
      rcases List.mem_cons.mp mem with rfl | mem
      · exact endsD
      rcases List.mem_pair.mp mem with rfl | rfl
      · exact endsC
      · exact endsB) 1 (by rw [new]; exact List.mem_cons_self) "m:Sv".toList
  obtain ⟨mp, declares⟩ := declares rfl
  have above : Nearest s'.classes 1 "m:Sv".toList 1 (some mp) :=
    .base (Nat.le_refl 1) foundD (lacksD rfl) baseD
      (.base (by omega) foundC (lacksC rfl) baseC (.own (by omega) foundB declares))
  cases missing.symm.trans (nearest.isSome_eq above)

end Jspp.Kernel
