/-
# Sql.Rejected -- the rejections that set no error code

`parseLit` and `parseField` give up in front of a token they do not take without a
word in `*errcode`; every other way out of the parser stores a code.  Their callers
have looked at the token first, but for three:

* ELSE of a CASE, with whatever follows it;
* AVG, MAX, MIN and SUM, with whatever follows the parenthesis;
* the parenthesis in front of a predicate.

`Silent` is a run that comes to one of the three with another token behind it, and
`rejected_coded_iff` says that these are the rejections without a code.
-/
import Jspp.Sql.Reading
import Jspp.Theory.Enters

namespace Jspp.Sql

open Jspp.Splc (Bytes lit)
open Jspp.Theory
open Jspp.Theory.Attempt (Enters Passes Traces modify loop)
open Jspp.Sql.Parser

set_option autoImplicit false

/-- `*errcode` behind the call: the code that is stored, or what it held before; `none` is
`ERR_NONE`. -/
def errcodeAfter (errcode : Option Sqlparseerror) : Except Fail Unit → Option Sqlparseerror
  | .error (.error (some code)) => some code
  | _ => errcode

/-- The text has `tok` behind the current token. -/
structure Behind (G : Given) (s : Parse) (tok : Sqltoken) : Prop where
  read : (sqltokenizer G.src s.cursor).1 = true
  token : (s.next G).cursor.token = tok

/-- The run of `m` from `s` comes to a place that wants a literal or a field, and the text has
another token there. -/
inductive Silent (G : Given) {α : Type} (m : Parser α) (s : Parse) : Prop where
  /-- No literal behind the ELSE of a CASE. -/
  | elseValue {select : Parser Unit} {rounds cell : Nat} {s' : Parse} {tok : Sqltoken}
      (enters : Enters (branch G select rounds cell 0) s' m s) (token : s'.cursor.token = .else)
      (behind : Behind G s' tok) (other : tok ≠ .strlit ∧ tok ≠ .num)
  /-- No field behind the parenthesis of AVG, MAX, MIN or SUM. -/
  | aggregate {lexum : Bytes} {s' : Parse} {tok : Sqltoken}
      (enters : Enters (functionCall G lexum) s' m s) (name : lexum ∈ aggregates.map lit)
      (lpar : Behind G s' .lpar) (behind : Behind G (s'.next G) tok) (other : tok ≠ .id)
  /-- No field behind the parenthesis in front of a predicate. -/
  | opening {select : Parser Unit} {rounds cell : Nat} {allowFunctions ignoreTrailingRpar : Bool}
      {paradepth : Nat} {expect tok : Sqltoken} {s' : Parse}
      (enters : Enters (condition G select rounds cell allowFunctions ignoreTrailingRpar paradepth
        expect) s' m s)
      (token : s'.cursor.token = .lpar) (behind : Behind G s' tok) (other : tok ≠ .id)

variable {G : Given} {α β τ ρ : Type}

instance : Passes (σ := Parse) (ε := Fail) (Silent G) where
  first
    | .elseValue enters token behind other => .elseValue enters.first token behind other
    | .aggregate enters name lpar behind other => .aggregate enters.first name lpar behind other
    | .opening enters token behind other => .opening enters.first token behind other
  second run
    | .elseValue enters token behind other => .elseValue (enters.second run) token behind other
    | .aggregate enters name lpar behind other =>
        .aggregate (enters.second run) name lpar behind other
    | .opening enters token behind other => .opening (enters.second run) token behind other

/-! ## The three places -/

variable {s : Parse}

/-- A literal that is missing is refused without a code. -/
theorem parseLit_none {inlike : Bool} (other : s.cursor.token ≠ .strlit ∧ s.cursor.token ≠ .num) :
    parseLit G inlike s = (.error (.error none), s) := by
  unfold parseLit
  rw [token_run]
  generalize s.cursor.token = tok at other
  cases tok with
  | strlit => exact absurd rfl other.1
  | num => exact absurd rfl other.2
  | _ => rfl

/-- So is a field. -/
theorem parseField_none {inselect : Option Nat} (other : s.cursor.token ≠ .id) :
    parseField G inselect s = (.error (.error none), s) := by
  show (if s.cursor.token ≠ .id then _ else _ : Parser Unit) s = _
  rw [if_pos other]
  rfl

/-- ELSE without a literal. -/
theorem branch_silent {select : Parser Unit} {rounds cell : Nat} {tok : Sqltoken}
    (token : s.cursor.token = .else) (behind : Behind G s tok)
    (other : tok ≠ .strlit ∧ tok ≠ .num) :
    (branch G select rounds cell 0 s).1 = .error (.error none) := by
  let s₁ := ((s.put (.text (lit " "))).put (.text s.cursor.lexum)).put (.text (lit " "))
  have run : branch G select rounds cell 0 s = (do
      next G
      parseLit G false
      pure 1 : Parser Nat) s₁ := by
    show (if s.cursor.token = .else then _ else _ : Parser Nat) _ = _
    rw [if_pos token]
    rfl
  have read : next G s₁ = (.ok (), s₁.next G) := next_ok behind.read
  have value : parseLit G false (s₁.next G) = (.error (.error none), s₁.next G) :=
    parseLit_none (behind.token.symm ▸ other)
  rw [run, Attempt.bind_ok read, Attempt.bind_error value]

/-- An aggregate without a field. -/
theorem functionCall_silent {lexum : Bytes} {tok : Sqltoken} (name : lexum ∈ aggregates.map lit)
    (lpar : Behind G s .lpar) (behind : Behind G (s.next G) tok) (other : tok ≠ .id) :
    (functionCall G lexum s).1 = .error (.error none) := by
  let s₁ := (s.put (.text s.cursor.lexum)).put (.text (lit "("))
  have one : next G s₁ = (.ok (), s₁.next G) := next_ok lpar.read
  have opened : expect .lpar .expLpar (s₁.next G) = (.ok (), s₁.next G) := expect_run lpar.token
  have two : next G (s₁.next G) = (.ok (), (s₁.next G).next G) := next_ok behind.read
  have field : parseField G none ((s₁.next G).next G) =
      (.error (.error none), (s₁.next G).next G) :=
    parseField_none (behind.token.symm ▸ other)
  rw [functionCall_aggregate name, Attempt.bind_ok one, Attempt.bind_ok opened,
    Attempt.bind_ok two, Attempt.bind_error field]

/-- A condition that opens a parenthesis and has no field. -/
theorem condition_silent {select : Parser Unit} {rounds cell : Nat}
    {allowFunctions ignoreTrailingRpar : Bool} {paradepth : Nat} {expect tok : Sqltoken}
    (token : s.cursor.token = .lpar) (behind : Behind G s tok) (other : tok ≠ .id) :
    (condition G select rounds cell allowFunctions ignoreTrailingRpar paradepth expect s).1 =
      .error (.error none) := by
  let s₁ := s.put (.text (lit "("))
  have opened : opening G paradepth s = (.ok (paradepth + 1), s₁.next G) := by
    show (if s.cursor.token = .lpar then _ else _ : Parser Nat) s = _
    rw [if_pos token]
    exact Attempt.bind_ok (f := fun _ => pure (paradepth + 1)) (m := next G) (s := s₁)
      (next_ok behind.read)
  have field : parseField G none (s₁.next G) = (.error (.error none), s₁.next G) :=
    parseField_none (behind.token.symm ▸ other)
  rw [condition, Attempt.bind_ok opened, Attempt.bind_error field]

/-- A run that comes to one of the places ends there, without a code. -/
theorem Silent.error {m : Parser α} (silent : Silent G m s) :
    (m s).1 = .error (.error none) := by
  cases silent with
  | elseValue enters token behind other => exact enters.error (branch_silent token behind other)
  | aggregate enters name lpar behind other =>
      exact enters.error (functionCall_silent name lpar behind other)
  | opening enters token behind other => exact enters.error (condition_silent token behind other)

/-! ## Every other exit stores a code -/

/-- Where `m` fails without a code, `P` holds of it. -/
abbrev Reports (P : {α : Type} → Parser α → Parse → Prop) (m : Parser α) (s : Parse) : Prop :=
  Traces (.error none) P m s

/-- A failure of `m` without a code is one of the three. -/
abbrev Coded (G : Given) (m : Parser α) (s : Parse) : Prop := Reports (Silent G) m s

section Steps

variable {P : {α : Type} → Parser α → Parse → Prop}

/-- An error that has a code. -/
theorem Reports.of_ne {m : Parser α} (other : (m s).1 ≠ .error (.error none)) :
    Reports (@P) m s :=
  Traces.of_ne other

/-- Both branches. -/
theorem Reports.ite {c : Prop} [Decidable c] {m m' : Parser α} (yes : c → Reports (@P) m s)
    (no : ¬ c → Reports (@P) m' s) : Reports (@P) (if c then m else m') s :=
  Traces.ite yes no

theorem pure_reports (a : α) (s : Parse) : Reports (@P) (pure a : Parser α) s := .of_ne nofun

/-- `stop` stores the code it is given. -/
theorem stop_reports (errcode : Sqlparseerror) (s : Parse) :
    Reports (@P) (stop errcode : Parser α) s :=
  .of_ne nofun

theorem modify_reports (g : Parse → Parse) (s : Parse) :
    Reports (@P) (modify g : Parser Unit) s :=
  .of_ne nofun

theorem cursor_reports (s : Parse) : Reports (@P) cursor s := .of_ne nofun

theorem text_reports (t : String) (s : Parse) : Reports (@P) (text t) s := modify_reports _ s

/-- A token that cannot be read has a code. -/
theorem next_reports (s : Parse) : Reports (@P) (next G) s := by
  by_cases ok : (sqltokenizer G.src s.cursor).1 = true
  · exact .of_ne (by rw [next_ok ok]; nofun)
  · exact .of_ne (by rw [next_failed ok]; nofun)

theorem only_reports {c : Bool} {m : Parser Unit} (reports : c = true → Reports (@P) m s) :
    Reports (@P) (only c m) s :=
  .ite reports fun _ => pure_reports _ s

variable [Passes (@P)]

/-- Two functions, one behind the other. -/
theorem Reports.bind {m : Parser α} {f : α → Parser β} (head : Reports (@P) m s)
    (tail : ∀ a s', m s = (.ok a, s') → Reports (@P) (f a) s') : Reports (@P) (m >>= f) s :=
  Traces.bind head tail

/-- In front of the rest, where any state may be the next. -/
theorem Reports.seq {m : Parser α} {f : α → Parser β} (head : Reports (@P) m s)
    (tail : ∀ a s', Reports (@P) (f a) s') : Reports (@P) (m >>= f) s :=
  head.bind fun a s' _ => tail a s'

/-- A look at the current token in front of the rest. -/
theorem Reports.look {f : Sqltoken → Parser β} (tail : Reports (@P) (f s.cursor.token) s) :
    Reports (@P) (token >>= f) s :=
  Reports.bind (.of_ne nofun) fun a s' same => by
    have ended := Prod.mk.inj (same.symm.trans (rfl : token s = (.ok s.cursor.token, s)))
    obtain rfl := Except.ok.inj ended.1
    exact ended.2 ▸ tail

theorem Reports.change {g : Parse → Parse} {f : Unit → Parser β}
    (tail : Reports (@P) (f ()) (g s)) : Reports (@P) (modify g >>= f) s :=
  Reports.bind (modify_reports g s) fun _ s' same => by
    obtain rfl : g s = s' := (Prod.mk.inj same).2
    exact tail

theorem next_read {s s' : Parse} {a : Unit} (run : next G s = (.ok a, s')) :
    (sqltokenizer G.src s.cursor).1 = true ∧ s' = s.next G := by
  have step := (next_ok_iff.mp run).1
  exact ⟨congrArg Prod.fst step, (congrArg Prod.snd ((next_ok (congrArg Prod.fst step)).symm.trans
    run)).symm⟩

theorem Reports.read {f : Unit → Parser β}
    (tail : (sqltokenizer G.src s.cursor).1 = true → Reports (@P) (f ()) (s.next G)) :
    Reports (@P) (next G >>= f) s :=
  (next_reports s).bind fun _ _ run => (next_read run).2 ▸ tail (next_read run).1

theorem Reports.expect {tok : Sqltoken} {errcode : Sqlparseerror} {f : Unit → Parser β}
    (tail : s.cursor.token = tok → Reports (@P) (f ()) s) :
    Reports (@P) (expect tok errcode >>= f) s := by
  by_cases token : s.cursor.token = tok
  · intro ends
    rw [Attempt.bind_ok (expect_run token)] at ends
    exact Passes.second (expect_run token) (tail token ends)
  · exact .of_ne (by rw [Attempt.bind_error (expect_failed token)]; nofun)

/-- The token that is expected, or its code. -/
theorem expect_reports (tok : Sqltoken) (errcode : Sqlparseerror) (s : Parse) :
    Reports (@P) (expect tok errcode) s :=
  .look (.ite (fun _ => pure_reports _ s) fun _ => stop_reports _ s)

/-- A loop, by its rounds. -/
theorem repeats_reports {rounds : Nat} {round : τ → Parser (Round τ ρ)}
    (body : ∀ t s, Reports (@P) (round t) s) (t : τ) (s : Parse) :
    Reports (@P) (repeats rounds round t) s := by
  refine Traces.loop (nofun : Fail.rounds ≠ .error none) (fun t s => ?_) rounds t s
  refine (cursor_reports s).seq fun before s₁ => (body t s₁).seq fun r s₂ => ?_
  cases r with
  | again t => exact .change (pure_reports _ _)
  | leave r => exact pure_reports _ s₂

/-- A loop over the current token. -/
theorem loopWhile_reports {rounds : Nat} {holds : Sqltoken → Bool} {round : Parser Unit}
    (body : ∀ s, holds s.cursor.token = true → Reports (@P) round s) (s : Parse) :
    Reports (@P) (loopWhile rounds holds round) s :=
  repeats_reports (fun _ s => .look (.ite (fun starts => (body s starts).seq fun _ s' =>
    pure_reports _ s') fun _ => pure_reports _ s)) () s

/-! ## Literals, fields and functions -/

/-- A literal, where there is one. -/
theorem parseLit_reports {inlike : Bool}
    (starts : s.cursor.token = .strlit ∨ s.cursor.token = .num) :
    Reports (@P) (parseLit G inlike) s := by
  refine .look ?_
  rcases starts with token | token
  · rw [token]
    refine .change (.change ((only_reports fun _ => text_reports _ _).seq fun _ s₁ => ?_))
    exact .change (next_reports _)
  · rw [token]
    exact .change (next_reports _)

/-- A field, where there is one. -/
theorem parseField_reports {inselect : Option Nat} (token : s.cursor.token = .id) :
    Reports (@P) (parseField G inselect) s := by
  refine .look (.ite (fun other => absurd token other) fun _ => ?_)
  have pushed : Reports (@P) (inselect.elim (pure ()) pushField : Parser Unit) s := by
    cases inselect with
    | none => exact pure_reports _ s
    | some cell => exact modify_reports _ s
  refine pushed.seq fun _ s₁ => .change (.read fun _ => .look (.ite (fun _ => pure_reports _ _)
    fun _ => ?_))
  refine .change ((only_reports fun _ => modify_reports _ _).seq fun _ s₃ => .read fun _ => ?_)
  refine (only_reports fun _ => modify_reports _ _).seq fun _ s₅ => .expect fun _ => ?_
  exact .change (next_reports _)

end Steps

/-- Only the aggregates lead to a field. -/
theorem functionCall_coded (lexum : Bytes) (s : Parse) : Coded G (functionCall G lexum) s := by
  by_cases name : lexum ∈ aggregates.map lit
  case neg =>
    refine .ite (fun _ => .change (.read fun _ => expect_reports _ _ _)) fun _ =>
      .ite (fun _ => ?_) fun _ => .ite (fun same => absurd same name) fun _ => stop_reports _ _
    exact .change (.read fun _ => .expect fun _ => .read fun _ => expect_reports _ _ _)
  by_cases silent : Behind G s .lpar ∧ (sqltokenizer G.src (s.next G).cursor).1 = true ∧
      ((s.next G).next G).cursor.token ≠ .id
  case pos => exact fun _ => .aggregate .here name silent.1 ⟨silent.2.1, rfl⟩ silent.2.2
  rw [Coded, Reports, Traces, functionCall_aggregate name]
  refine fun ends => False.elim ?_
  refine (?_ : Reports (fun _ _ => False) (do
    next G
    expect .lpar .expLpar
    next G
    parseField G none
    text ")" : Parser Unit) _) ends
  refine .read fun read => .expect fun lpar => .read fun read' =>
    (parseField_reports ?_).seq fun _ s₅ => text_reports _ s₅
  by_contra other
  exact silent ⟨⟨read, lpar⟩, read', other⟩

/-- A function has codes for its name and its parentheses. -/
theorem parseFunction_coded (s : Parse) : Coded G (parseFunction G) s :=
  .expect fun _ => .change ((cursor_reports _).seq fun _ _ =>
    (functionCall_coded _ _).seq fun _ _ => .read fun _ => .expect fun _ => next_reports _)

theorem fieldOrFunction_coded (s : Parse) : Coded G (fieldOrFunction G) s :=
  .look (.ite parseField_reports fun _ => parseFunction_coded s)

theorem parseFieldFnList_coded (rounds : Nat) (s : Parse) :
    Coded G (parseFieldFnList G rounds) s := by
  refine .look (.ite (fun _ => stop_reports _ _) fun _ => loopWhile_reports (fun s _ => ?_) s)
  refine (fieldOrFunction_coded s).seq fun _ s₁ => .look (.ite (fun _ => pure_reports _ _)
    fun _ => .change (.read fun _ => .look (.ite (fun _ => stop_reports _ _) fun _ => ?_)))
  exact pure_reports _ _

/-- GROUP BY is refused with a code. -/
theorem parseGroupBy_coded (rounds : Nat) (s : Parse) : Coded G (parseGroupBy G rounds) s :=
  .look (.ite (fun _ => pure_reports _ _) fun _ => .read fun _ => .expect fun _ =>
    .read fun _ => .change (parseFieldFnList_coded rounds _))

theorem direction_coded (s : Parse) : Coded G (direction G) s := by
  refine .look ?_
  split
  · exact .change (next_reports _)
  · exact .change (next_reports _)
  · exact text_reports _ _

/-- ORDER BY asks for its field with a code. -/
theorem parseOrderBy_coded (rounds : Nat) (s : Parse) : Coded G (parseOrderBy G rounds) s := by
  refine .look (.ite (fun _ => pure_reports _ _) fun _ => .read fun _ => .expect fun _ =>
    .read fun _ => .change (.expect fun _ => loopWhile_reports (fun s _ => ?_) _))
  refine (fieldOrFunction_coded s).seq fun _ s₁ => (direction_coded s₁).seq fun _ s₂ =>
    .look (.ite (fun _ => pure_reports _ _) fun _ => .read fun _ => .change (.look ?_))
  exact .ite (fun _ => stop_reports _ _) fun _ => pure_reports _ _

/-! ## Conditions -/

/-- The parenthesis behind IN. -/
theorem inHead_coded (s : Parse) : Coded G (inHead G) s :=
  (cursor_reports s).seq fun _ _ => .read fun _ => .expect fun _ => .read fun _ =>
    modify_reports _ _

section Conditions

variable {select : Parser Unit} (sub : ∀ s, Coded G select s)
include sub

/-- The items of an IN list. -/
theorem inItems_coded (rounds : Nat) (s : Parse) : Coded G (inItems G select rounds) s := by
  refine .look (.ite (fun _ => sub s) fun _ => loopWhile_reports (fun s starts => ?_) s)
  have starts : s.cursor.token = .num ∨ s.cursor.token = .strlit := by simpa using starts
  refine (parseLit_reports starts.symm).seq fun _ s₁ => .look (.ite (fun _ => pure_reports _ _)
    fun _ => .read fun _ => .change (.look ?_))
  exact .ite (fun _ => pure_reports _ _) fun _ => stop_reports _ _

/-- The list up to its end. -/
theorem parseInList_coded (rounds : Nat) (s : Parse) : Coded G (parseInList G select rounds) s :=
  .look (.ite (fun _ => pure_reports _ _) fun _ => (inHead_coded s).seq fun _ _ =>
    .change ((inItems_coded sub rounds _).seq fun _ _ => .expect fun _ => .read fun _ =>
      text_reports _ _))

omit sub in
/-- An undeclared variable has a code of its own. -/
theorem placeholder_coded (cell : Nat) (inlike : Bool) (s : Parse) :
    Coded G (placeholder G cell inlike) s := by
  refine .of_ne ?_
  unfold placeholder
  split
  · nofun
  · split <;> nofun

omit sub in
/-- An operand that is none. -/
theorem operand_coded (cell : Nat) (inlike allowFunctions : Bool) (s : Parse) :
    Coded G (operand G cell inlike allowFunctions) s := by
  refine .look ?_
  split
  case h_1 => exact (placeholder_coded cell inlike s).seq fun _ _ => next_reports _
  case h_2 token => exact parseLit_reports (.inl token)
  case h_3 token => exact parseLit_reports (.inr token)
  case h_4 token => exact parseField_reports token
  case h_5 => exact .ite (fun _ => parseFunction_coded s) fun _ => stop_reports _ _
  case h_6 => exact .change (next_reports _)
  case h_7 => exact stop_reports _ _

omit sub in
/-- An operator that is none. -/
theorem comparison_coded (s : Parse) : Coded G comparison s := by
  refine .look ?_
  split
  case h_9 => exact stop_reports _ _
  all_goals exact .change (pure_reports _ _)

omit sub in
/-- What does not go behind IS. -/
theorem expected_coded (expect : Sqltoken) (s : Parse) : Coded G (expected G expect) s :=
  .look (.ite (fun _ => pure_reports _ _) fun _ => .ite (fun _ => .change (next_reports _))
    fun _ => stop_reports _ _)

omit sub in
/-- AND and OR cannot fail. -/
theorem logic_coded (paradepth : Nat) (expect : Sqltoken) (s : Parse) :
    Coded G (logic G paradepth expect) s :=
  .look (.ite (fun _ => .change (.read fun _ => .change (pure_reports _ _)))
    fun _ => pure_reports _ _)

omit sub in
/-- A parenthesis too many. -/
theorem closing_coded (ignoreTrailingRpar : Bool) (paradepth : Nat) (expect : Sqltoken)
    (s : Parse) : Coded G (closing G ignoreTrailingRpar paradepth expect) s := by
  refine .look (.ite (fun _ => logic_coded _ _ _) fun _ => .ite (fun _ => ?_) fun _ => ?_)
  · exact .ite (fun _ => pure_reports _ _) fun _ => stop_reports _ _
  · exact .change (.read fun _ => logic_coded _ _ _)

theorem inPredicate_coded (rounds : Nat) (s : Parse) : Coded G (inPredicate G select rounds) s :=
  .look ((only_reports fun _ => .change (next_reports _)).seq fun _ _ =>
    parseInList_coded sub rounds _)

omit sub in
/-- A comparison, step by step. -/
theorem predicate_coded (cell : Nat) (allowFunctions ignoreTrailingRpar : Bool) (paradepth : Nat)
    (expect : Sqltoken) (s : Parse) :
    Coded G (predicate G cell allowFunctions ignoreTrailingRpar paradepth expect) s :=
  .look ((comparison_coded s).seq fun inlike _ => .read fun _ => (expected_coded _ _).seq
    fun _ _ => (operand_coded cell inlike allowFunctions _).seq fun _ _ =>
      (only_reports fun _ => text_reports _ _).seq fun _ _ => .change (closing_coded _ _ _ _))

/-- Behind its parenthesis a predicate starts with a field, or the place is recorded. -/
theorem condition_coded (rounds cell : Nat) (allowFunctions ignoreTrailingRpar : Bool)
    (paradepth : Nat) (expect : Sqltoken) {s : Parse}
    (starts : s.cursor.token = .id ∨ s.cursor.token = .lpar) :
    Coded G (condition G select rounds cell allowFunctions ignoreTrailingRpar paradepth expect)
      s := by
  have rest (paradepth : Nat) {s₁ : Parse} (field : s₁.cursor.token = .id) : Coded G (do
      parseField G none
      let tok ← token
      if tok = .not ∨ tok = .in then do
        inPredicate G select rounds
        pure (.again (paradepth, expect))
      else predicate G cell allowFunctions ignoreTrailingRpar paradepth expect :
        Parser (Round (Nat × Sqltoken) Unit)) s₁ := by
    refine (parseField_reports field).seq fun _ s₂ => .look (.ite (fun _ => ?_)
      fun _ => predicate_coded _ _ _ _ _ _)
    exact (inPredicate_coded sub rounds s₂).seq fun _ _ => pure_reports _ _
  have opened (lpar : s.cursor.token = .lpar) : opening G paradepth s = (do
      next G
      pure (paradepth + 1) : Parser Nat) (s.put (.text (lit "("))) := by
    show (if s.cursor.token = .lpar then _ else _ : Parser Nat) s = _
    rw [if_pos lpar]
    rfl
  rcases starts with field | lpar
  · have closed : opening G paradepth s = (.ok paradepth, s) := by
      show (if s.cursor.token = .lpar then _ else _ : Parser Nat) s = _
      rw [field, if_neg nofun]
      rfl
    refine Reports.bind (.of_ne (by rw [closed]; nofun)) fun n s₁ run => ?_
    obtain ⟨-, rfl⟩ := Prod.mk.inj (closed.symm.trans run)
    exact rest n field
  · by_cases read : (sqltokenizer G.src s.cursor).1 = true
    case neg =>
      have failed := opened lpar
      rw [Attempt.bind_error (next_failed (s := s.put (.text (lit "("))) read)] at failed
      exact .of_ne (by rw [condition, Attempt.bind_error failed]; nofun)
    by_cases field : (s.next G).cursor.token = .id
    case neg => exact fun _ => .opening .here lpar ⟨read, rfl⟩ field
    have entered := opened lpar
    rw [Attempt.bind_ok (next_ok (s := s.put (.text (lit "("))) read)] at entered
    refine Reports.bind (.of_ne (by rw [entered]; nofun)) fun n s₁ run => ?_
    obtain ⟨-, rfl⟩ := Prod.mk.inj (entered.symm.trans run)
    exact rest n field

/-- A parenthesis too few, behind the rounds. -/
theorem parseConditions_coded (rounds cell : Nat) (allowFunctions ignoreTrailingRpar : Bool)
    (s : Parse) : Coded G (parseConditions G select rounds cell allowFunctions ignoreTrailingRpar)
      s := by
  refine repeats_reports (fun ⟨paradepth, expect⟩ s => .look (.ite (fun starts => ?_) fun _ =>
    .ite (fun _ => stop_reports _ _) fun _ => pure_reports _ _)) _ s
  exact condition_coded sub rounds cell _ _ _ _ starts

omit sub in
/-- The value behind THEN. -/
theorem thenValue_coded (s : Parse) : Coded G (thenValue G) s := by
  refine .look ?_
  split
  case h_1 literal => exact parseLit_reports (.inl literal)
  case h_2 literal => exact parseLit_reports (.inr literal)
  case h_3 => exact parseFunction_coded s
  case h_4 => exact stop_reports _ _

omit sub in
theorem only_stop {c : Bool} {errcode : Sqlparseerror} {s s' : Parse} {a : Unit}
    (run : only c (stop errcode) s = (.ok a, s')) : c = false ∧ s' = s := by
  cases c with
  | true => cases (Prod.mk.inj run).1
  | false => exact ⟨rfl, (Prod.mk.inj run).2.symm⟩

/-- Behind ELSE there is a literal, or the place is recorded. -/
theorem branch_coded (rounds cell elsecount : Nat) (s : Parse) :
    Coded G (branch G select rounds cell elsecount) s := by
  by_cases silent : s.cursor.token = .else ∧ elsecount = 0 ∧
      (sqltokenizer G.src s.cursor).1 = true ∧
        ((s.next G).cursor.token ≠ .strlit ∧ (s.next G).cursor.token ≠ .num)
  case pos =>
    obtain ⟨isElse, rfl, read, other⟩ := silent
    exact fun _ => .elseValue .here isElse ⟨read, rfl⟩ other
  refine .look (.change (.change (.ite (fun isElse => ?_) fun _ => .change (.read fun _ => ?_))))
  · refine (only_reports fun _ => stop_reports _ _).bind fun _ s₁ run => ?_
    obtain ⟨first, rfl⟩ := only_stop run
    refine .change (.read fun read => (parseLit_reports ?_).seq fun _ _ => pure_reports _ _)
    by_contra other
    exact silent ⟨isElse, by simpa using first, read, not_or.mp other⟩
  · refine (parseConditions_coded sub rounds cell _ _ _).seq fun _ _ => .expect fun _ =>
      .change (.read fun _ => ?_)
    exact (thenValue_coded _).seq fun _ _ => pure_reports _ _

/-- CASE with its words. -/
theorem parseCase_coded (rounds cell : Nat) (s : Parse) :
    Coded G (parseCase G select rounds cell) s := by
  refine .change (.read fun _ => .expect fun _ => (repeats_reports (fun elsecount s => ?_) _ _).seq
    fun _ _ => .expect fun _ => .change (next_reports _))
  exact .look (.ite (fun _ => (branch_coded sub rounds cell elsecount s).seq
    fun _ _ => pure_reports _ _) fun _ => pure_reports _ _)

/-- A condition behind WHERE. -/
theorem parseWhere_coded (rounds cell : Nat) (ignoreTrailingRpar : Bool) (s : Parse) :
    Coded G (parseWhere G select rounds cell ignoreTrailingRpar) s :=
  .look (.ite (fun _ => pure_reports _ _) fun _ => .change (.read fun _ =>
    parseConditions_coded sub rounds cell _ _ _))

theorem parseHaving_coded (rounds cell : Nat) (s : Parse) :
    Coded G (parseHaving G select rounds cell) s :=
  .look (.ite (fun _ => pure_reports _ _) fun _ => .change (.read fun _ =>
    parseConditions_coded sub rounds cell _ _ _))

/-! ## Tables and items -/

/-- A join with its words. -/
theorem parseJoinLhs_coded (rounds cell : Nat) (s : Parse) :
    Coded G (parseJoinLhs G select rounds cell) s := by
  refine .change (.change (.read fun _ => .expect fun _ => .read fun _ => .expect fun _ =>
    .change (.change (.change (.read fun _ => .expect fun _ => .change (.read fun _ => ?_))))))
  exact (parseConditions_coded sub rounds cell _ _ _).seq fun _ _ => text_reports _ _

theorem fromTable_coded (rounds cell : Nat) (s : Parse) :
    Coded G (fromTable G select rounds cell) s := by
  refine .change (.change (.change (.change (.read fun _ => .look (.ite (fun _ => ?_) fun _ =>
    .ite (fun _ => ?_) fun _ => pure_reports _ _)))))
  · exact .change (.read fun _ => .expect fun _ => pure_reports _ _)
  · exact (parseJoinLhs_coded sub rounds cell _).seq fun _ _ => pure_reports _ _

/-- The tables of a select. -/
theorem parseFrom_coded (rounds cell : Nat) (s : Parse) :
    Coded G (parseFrom G select rounds cell) s := by
  refine .change (.expect fun _ => .read fun _ => .expect fun _ =>
    (repeats_reports (fun _ s => ?_) _ _).seq fun _ _ =>
      loopWhile_reports (fun s _ => parseJoinLhs_coded sub rounds cell s) _)
  exact .look (.ite (fun _ => fromTable_coded sub rounds cell s) fun _ => pure_reports _ _)

/-- The items have been looked at before. -/
theorem itemBody_coded (rounds cell : Nat) {s : Parse} (starts : startsItem s.cursor.token = true) :
    Coded G (itemBody G select rounds cell) s := by
  refine .look ?_
  split
  case h_1 => exact (parseFunction_coded s).seq fun _ _ => pure_reports _ _
  case h_2 => exact (parseCase_coded sub rounds cell s).seq fun _ _ => pure_reports _ _
  case h_3 => exact .change (.change (.change (.read fun _ => pure_reports _ _)))
  case h_4 field => exact (parseField_reports field).seq fun _ _ => pure_reports _ _
  case h_5 func case' strlit id =>
    refine (parseLit_reports (.inr ?_)).seq fun _ _ => pure_reports _ _
    simp only [startsItem, decide_eq_true_eq] at starts
    tauto

omit sub in
theorem itemName_coded (cell : Nat) (addedfieldname : Bool) (s : Parse) :
    Coded G (itemName G cell addedfieldname) s := by
  refine .look (.ite (fun _ => ?_) fun _ => ?_)
  · exact .read fun _ => .expect fun _ => .change (next_reports _)
  · exact .ite (fun _ => pure_reports _ _) fun _ => modify_reports _ _

/-- An item of a select. -/
theorem item_coded (rounds cell : Nat) {s : Parse} (starts : startsItem s.cursor.token = true) :
    Coded G (item G select rounds cell) s := by
  refine (itemBody_coded sub rounds cell starts).seq fun addedfieldname s₁ =>
    (itemName_coded cell addedfieldname s₁).seq fun _ s₂ => .look ?_
  exact (only_reports fun _ => .read fun _ => text_reports _ _).seq fun _ _ => text_reports _ _

theorem fieldList_coded (rounds cell : Nat) (s : Parse) :
    Coded G (fieldList G select rounds cell) s := by
  refine .look (.ite (fun _ => stop_reports _ _) fun _ => .ite (fun _ => ?_) fun _ => ?_)
  · exact .read fun _ => text_reports _ _
  · exact loopWhile_reports (fun s starts => item_coded sub rounds cell starts) s

/-- The clauses of a select, in their order. -/
theorem selectBody_coded (rounds cell : Nat) (s : Parse) :
    Coded G (selectBody G select rounds cell) s := by
  refine .look ((only_reports fun _ => .change (next_reports _)).seq fun _ s₁ => ?_)
  refine (fieldList_coded sub rounds cell s₁).seq fun _ s₂ =>
    (parseFrom_coded sub rounds cell s₂).seq fun _ s₃ =>
      (parseWhere_coded sub rounds cell true s₃).seq fun _ s₄ =>
        (parseGroupBy_coded rounds s₄).seq fun _ s₅ =>
          (parseHaving_coded sub rounds cell s₅).seq fun _ s₆ =>
            (parseOrderBy_coded rounds s₆).seq fun _ s₇ => text_reports _ s₇

end Conditions

/-! ## Statements -/

theorem called_coded {caller : Cursor} {select : Parser α} (sub : ∀ s, Coded G select s)
    (s : Parse) : Coded G (called caller select) s :=
  .change (sub _)

theorem newCell_reports (s : Parse) : Coded G newCell s := .of_ne nofun

/-- A select and those behind UNION, by induction on the rounds. -/
theorem parseSelect_coded (rounds : Nat) (ignoreTrailingRpar : Bool) (s : Parse) :
    Coded G (parseSelect G rounds ignoreTrailingRpar) s := by
  induction rounds generalizing ignoreTrailingRpar s with
  | zero => exact .of_ne nofun
  | succ rounds ih =>
      refine (cursor_reports s).seq fun caller s₁ => (newCell_reports s₁).seq fun cell s₂ =>
        .change (.change (.read fun _ => ?_))
      refine (selectBody_coded (called_coded (ih true)) rounds cell _).seq fun _ s₃ =>
        .look (.ite (fun _ => ?_) fun _ => pure_reports _ _)
      exact .change (.read fun _ => called_coded (ih ignoreTrailingRpar) _)

theorem insertFields_coded (rounds : Nat) (s : Parse) : Coded G (insertFields G rounds) s :=
  loopWhile_reports (fun _ _ => .change (.read fun _ => .look (.ite (fun _ => pure_reports _ _)
    fun _ => .read fun _ => .expect fun _ => text_reports _ _))) s

/-- A value of INSERT. -/
theorem insertValue_coded (s : Parse) : Coded G (insertValue G) s := by
  refine .look ?_
  split
  case h_1 => exact parseFunction_coded s
  case h_2 => exact .change (next_reports _)
  case h_3 => exact .change (.change (.change (next_reports _)))
  case h_4 => exact .change (next_reports _)

theorem insertValues_coded (rounds : Nat) (s : Parse) : Coded G (insertValues G rounds) s := by
  refine loopWhile_reports (fun s _ => (insertValue_coded s).seq fun _ s₁ => .look ?_) s
  refine .ite (fun _ => pure_reports _ _) fun _ => .read fun _ => .look ?_
  exact .ite (fun _ => text_reports _ _) fun _ => stop_reports _ _

/-- INSERT with its words. -/
theorem parseInsert_coded (rounds : Nat) (s : Parse) : Coded G (parseInsert G rounds) s := by
  refine .change (.expect fun _ => .read fun _ => .expect fun _ => .read fun _ => .expect fun _ =>
    .change (.change (.read fun _ => .expect fun _ => .change (.read fun _ => ?_))))
  refine (insertFields_coded rounds _).seq fun _ s₁ => .expect fun _ => .change (.read fun _ =>
    .expect fun _ => .read fun _ => .expect fun _ => .change (.read fun _ => ?_))
  exact (insertValues_coded rounds _).seq fun _ s₂ => .expect fun _ => .change (next_reports _)

/-- The value of an assignment. -/
theorem assigned_coded (s : Parse) : Coded G (assigned G) s := by
  refine .look ?_
  split
  case h_1 => exact modify_reports _ _
  case h_2 => exact .change (.change (text_reports _ _))
  case h_3 => exact modify_reports _ _
  case h_4 => exact parseFunction_coded s
  case h_5 => exact stop_reports _ _

/-- An assignment of UPDATE. -/
theorem assignment_coded {s : Parse} (field : s.cursor.token = .id) : Coded G (assignment G) s := by
  refine (parseField_reports field).seq fun _ s₁ => .expect fun _ => .change (.read fun _ => ?_)
  refine (assigned_coded _).seq fun _ s₂ => .change (.read fun _ => .look ?_)
  exact .ite (fun _ => pure_reports _ _) fun _ => .change (.read fun _ => expect_reports _ _ _)

theorem subSelect_coded (rounds : Nat) (caller : Cursor) (s : Parse) :
    Coded G (subSelect G rounds caller) s :=
  called_coded (parseSelect_coded rounds true) s

/-- UPDATE with its words. -/
theorem parseUpdate_coded (rounds : Nat) (s : Parse) : Coded G (parseUpdate G rounds) s := by
  refine (cursor_reports s).seq fun caller s₁ => (newCell_reports s₁).seq fun cell s₂ =>
    .change (.expect fun _ => .change (.read fun _ => .expect fun _ => .change (.read fun _ =>
      .expect fun _ => .change (.read fun _ => ?_))))
  refine (loopWhile_reports (fun s starts => assignment_coded ?_) _).seq fun _ s₃ =>
    parseWhere_coded (subSelect_coded rounds caller) rounds cell false s₃
  simpa using starts

/-- DELETE with its words. -/
theorem parseDelete_coded (rounds : Nat) (s : Parse) : Coded G (parseDelete G rounds) s := by
  refine (cursor_reports s).seq fun caller s₁ => (newCell_reports s₁).seq fun cell s₂ =>
    .change (.expect fun _ => .read fun _ => .change ?_)
  exact (parseFrom_coded (subSelect_coded rounds caller) rounds cell _).seq fun _ s₃ =>
    parseWhere_coded (subSelect_coded rounds caller) rounds cell false s₃

theorem addParam_coded (s : Parse) : Coded G (addParam G) s := by
  refine .of_ne ?_
  unfold addParam
  split <;> nofun

/-- The type of a parameter. -/
theorem paramType_coded (s : Parse) : Coded G (paramType G) s := by
  refine .look ?_
  split
  case h_4 =>
    exact .read fun _ => .expect fun _ => .read fun _ => .expect fun _ => .change (.read fun _ =>
      expect_reports _ _ _)
  case h_5 => exact stop_reports _ _
  all_goals exact modify_reports _ _

/-- A parameter, which may be there already. -/
theorem param_coded (s : Parse) : Coded G (param G) s := by
  refine (addParam_coded s).seq fun _ s₁ => .read fun _ => (paramType_coded _).seq fun _ s₂ =>
    .read fun _ => .look ?_
  exact .ite (fun _ => next_reports _) fun _ => pure_reports _ _

theorem parseParamList_coded (rounds : Nat) (s : Parse) : Coded G (parseParamList G rounds) s := by
  refine .read fun _ => .look ((only_reports fun _ => next_reports _).seq fun _ s₁ => ?_)
  refine (loopWhile_reports (fun s _ => param_coded s) s₁).seq fun _ s₂ => ?_
  refine (only_reports fun _ => .expect fun _ => next_reports _).seq fun _ s₃ => ?_
  exact .expect fun _ => next_reports _

/-- The head of the procedure. -/
theorem parseHead_coded (rounds : Nat) (s : Parse) : Coded G (parseHead G rounds) s := by
  refine .read fun _ => .expect fun _ => .read fun _ => .expect fun _ => .read fun _ =>
    .expect fun _ => .change (.read fun _ => .expect fun _ => .read fun _ => .look ?_)
  refine (only_reports fun _ => stop_reports _ _).seq fun _ s₁ => .change ?_
  exact (parseParamList_coded rounds _).seq fun _ s₂ => modify_reports _ s₂

/-- The statement of the procedure. -/
theorem parseCode_coded (rounds : Nat) (s : Parse) : Coded G (parseCode G rounds) s := by
  have statements (tok : Sqltoken) : Coded G (statement G rounds tok) s := by
    unfold statement
    split
    · exact parseSelect_coded rounds false s
    · exact parseInsert_coded rounds s
    · exact parseUpdate_coded rounds s
    · exact parseDelete_coded rounds s
    · exact stop_reports _ _
  refine .look (.ite (fun _ => pure_reports _ _) fun _ => (statements _).seq fun _ s₁ => .look ?_)
  exact (only_reports fun _ => modify_reports _ _).seq fun _ s₂ => expect_reports _ _ s₂

/-! ## parseSQL -/

/-- What `parseSQL` runs. -/
def parsing (G : Given) (rounds : Nat) : Parser Unit := do
  parseHead G rounds
  parseCode G rounds

theorem parsing_coded (rounds : Nat) (s : Parse) : Coded G (parsing G rounds) s :=
  (parseHead_coded rounds s).seq fun _ s₁ => parseCode_coded rounds s₁

/-- Every rejection stores a code other than `ERR_NONE`, whatever `*errcode` held, exactly for
the texts whose run comes to none of the three places. -/
theorem rejected_coded_iff (G : Given) (more : Nat) :
    (∀ errcode, (parseSQL G (2 * G.src.length + 2 + more)).1 ≠ .ok () →
      errcodeAfter errcode (parseSQL G (2 * G.src.length + 2 + more)).1 ≠ none) ↔
    ¬ Silent G (parsing G (2 * G.src.length + 2 + more)) Parser.start := by
  constructor
  · intro answers silent
    have failed : (parseSQL G (2 * G.src.length + 2 + more)).1 = .error (.error none) :=
      silent.error
    exact answers none (by rw [failed]; nofun) (by rw [failed]; rfl)
  · intro loud errcode rejected
    have coded := parsing_coded (G := G) (2 * G.src.length + 2 + more) Parser.start
    have enough := (@parseSQL_runs G (2 * G.src.length + 2 + more) (by omega)).error
    cases outcome : (parseSQL G (2 * G.src.length + 2 + more)).1 with
    | ok a => exact absurd outcome rejected
    | error fail =>
        cases fail with
        | rounds => exact absurd rfl (enough _ outcome)
        | error code =>
            cases code with
            | none => exact absurd (coded outcome) loud
            | some code => nofun

/-- Two parentheses in front of a predicate: the second is no field. -/
theorem rejected_uncoded : ¬ ∀ (G : Given) (more : Nat) (errcode : Option Sqlparseerror),
    (parseSQL G (2 * G.src.length + 2 + more)).1 ≠ .ok () →
      errcodeAfter errcode (parseSQL G (2 * G.src.length + 2 + more)).1 ≠ none := by
  intro rejections
  have failed : (parseSQL (firstNamed "create procedure a.b as delete from t where ((f = 1))")
      (2 * (lit "create procedure a.b as delete from t where ((f = 1))").length + 2)).1 =
        .error (.error none) := by
    decide +kernel
  have coded := rejections (firstNamed "create procedure a.b as delete from t where ((f = 1))") 0 none
  exact coded (fun accepted => nomatch failed.symm.trans accepted)
    ((congrArg (errcodeAfter none) failed).trans rfl)

end Jspp.Sql
