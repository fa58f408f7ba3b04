/-
# Sql.Through -- what parseConditions gets through

`Through` says which conditions the loop of `parseConditions` runs through from the
beginning to the end, round by round; `Passable` says the same of a condition as a
whole, part by part.

* `closing_reads`, `closing_at`: the end of a round.
* `among_round`, `isNull_round`, `compare_round`: one round.
* `through_reads`, `through_of_read`: the loop, by induction on the condition.
* `conditions_through_iff`, `through_iff`: what is read to the end is passable.
-/
import Jspp.Sql.Conditions
import Jspp.Sql.Updates

namespace Jspp.Sql

open Jspp.Splc (Bytes lit toupper)
open Jspp.Theory
open Jspp.Theory.Attempt (modify fail)
open Jspp.Sql.Parser

set_option autoImplicit false

variable {G : Given} {s s' s₀ : Parse} {rounds cell : Nat}

/-! ## How far a part reaches -/

section Reaching

variable {src : Bytes} {c c' : Cursor}

theorem OperandAt.reached {o : Operand} (at' : OperandAt src c o c') : Reached src c c' := by
  cases at' with
  | var _ step => exact step.reached
  | literal literal => exact literal.step.reached
  | field field => exact field.passed.reached
  | call call => exact call.passed.reached
  | null _ step => exact step.reached

theorem NotAt.reached {negated : Bool} (at' : NotAt src c negated c') : Reached src c c' := by
  cases at' with
  | not _ step => exact step.reached
  | none => exact Reached.refl _ _

theorem TakenTo.reached {o : Operand} (taken : TakenTo src o c c') : Reached src c c' := by
  unfold TakenTo at taken
  split at taken
  · exact taken.2.reached
  · rw [taken]
    exact Reached.refl _ _

theorem PredicateAt.passed {p : Predicate} (at' : PredicateAt src c p c') : Passed src c c' := by
  cases at' with
  | compare field _ step operand => exact field.passed.trans (step.reached.trans operand.reached)
  | isNull field _ step not _ last =>
      exact field.passed.trans (step.reached.trans (not.reached.trans last.reached))
  | among field not _ step _ step' list _ last =>
      have along := list.reached fun _ _ _ at' => at'.step.reached
      exact field.passed.trans (not.reached.trans (step.reached.trans (step'.reached.trans
        (along.trans last.reached))))

theorem PredicateAt.id {p : Predicate} (at' : PredicateAt src c p c') : c.token = .id := by
  cases at' with
  | compare field => exact field.id
  | isNull field => exact field.id
  | among field => exact field.id

theorem TokensAt.reached {tok : Sqltoken} {n : Nat} (at' : TokensAt src tok n c c') :
    Reached src c c' := by
  induction at' with
  | none => exact Reached.refl _ _
  | one _ step _ ih => exact step.reached.trans ih

theorem TokensAt.passed {tok : Sqltoken} {n : Nat} (at' : TokensAt src tok (n + 1) c c')
    (some : tok ≠ .eos) : Passed src c c' := by
  cases at' with
  | one token step rest => exact (step.passed (by rw [token]; exact some)).trans rest.reached

theorem LogicAt.reached {op : Option Bytes} (at' : LogicAt src c op c') : Reached src c c' := by
  cases at' with
  | logic _ step => exact step.reached
  | bare => exact Reached.refl _ _

theorem LogicAt.passed {op : Bytes} (at' : LogicAt src c (some op) c') : Passed src c c' := by
  cases at' with
  | logic token step => exact step.passed (by rcases token with h | h <;> rw [h] <;> nofun)

theorem ConditionsAt.reached {ts : List Term} (at' : ConditionsAt src c ts c') :
    Reached src c c' := by
  induction at' with
  | nil => exact Reached.refl _ _
  | cons opens predicate closes logic _ ih =>
      exact opens.reached.trans (predicate.passed.reached.trans
        (closes.reached.trans (logic.reached.trans ih)))

/-- A condition begins with a field or a parenthesis. -/
theorem ConditionsAt.starts {t : Term} {ts : List Term} (at' : ConditionsAt src c (t :: ts) c') :
    c.token = .id ∨ c.token = .lpar := by
  cases at' with
  | cons opens predicate _ _ _ =>
      generalize t.opens = n at opens
      cases opens with
      | none => exact .inl predicate.id
      | one token => exact .inr token

theorem ConditionsAt.passed {t : Term} {ts : List Term} (at' : ConditionsAt src c (t :: ts) c') :
    Passed src c c' := by
  cases at' with
  | cons opens predicate closes logic rest =>
      exact opens.reached.passed (predicate.passed.trans
        (closes.reached.trans (logic.reached.trans rest.reached)))

/-- Nothing that has gone past a cursor is still there. -/
theorem Passed.ne {d : Cursor} (passed : Passed src c d) : d ≠ c := by
  rintro rfl
  exact Nat.lt_irrefl _ passed.left

end Reaching

/-! ## Closing parentheses -/

/-- Behind the predicates of a condition, in its parentheses: at most one is closed, and it is
open; without AND or OR the condition ends here, and where it is in another list a parenthesis of
its own must not be left open. -/
structure Shut (enclosed : Prop) (depth closes : Nat) (op : Option Bytes) (ts : List Term) :
    Prop where
  one : closes ≤ 1
  fits : closes ≤ depth
  last : op = none → ts = []
  outer : op = none → enclosed → depth = 0 ∨ closes = 1

def shutText (closes : Nat) : Bytes := (List.replicate closes (lit ") ")).flatten

def logicText (op : Option Bytes) : Bytes := op.elim [] (· ++ lit " ")

/-- How a round ends. -/
def roundOf (op : Option Bytes) (depth : Nat) (expect : Sqltoken) :
    Round (Nat × Sqltoken) Unit :=
  if op.isSome then .again (depth, expect) else .leave ()

variable {depth : Nat} {expect : Sqltoken} {ignoreTrailingRpar : Bool}

theorem logic_reads {op : Option Bytes} {h : Cursor} (at' : LogicAt G.src s.cursor op h)
    (ends : op = none → s.cursor.token ≠ .and ∧ s.cursor.token ≠ .or) :
    ∃ s', logic G depth expect s = (.ok (roundOf op depth expect), s') ∧
      Writes s h (logicText op) s' := by
  cases at' with
  | logic token step =>
      refine ⟨((s.put (.text s.cursor.lexum)).seek h).put (.text (lit " ")), ?_,
        ((Writes.put s (.text s.cursor.lexum)).seek h).append (.text (lit " "))⟩
      show (if s.cursor.token = .and ∨ s.cursor.token = .or then _ else _ : Parser _) s = _
      rw [if_pos token]
      exact (Attempt.bind_ok (next_reads (s := s.put (.text s.cursor.lexum)) step)).trans rfl
  | bare =>
      refine ⟨s, ?_, Writes.refl s⟩
      show (if s.cursor.token = .and ∨ s.cursor.token = .or then _ else _ : Parser _) s = _
      rw [if_neg (not_or.mpr (ends rfl))]
      rfl

/-- What stands behind a predicate and its parentheses, where no AND or OR is read. -/
theorem LogicAt.ends {src : Bytes} {g h c' : Cursor} {op : Option Bytes} {ts : List Term}
    (logic : LogicAt src g op h) (rest : ConditionsAt src h ts c')
    (follows : Follows ignoreTrailingRpar c') (none : op = none) :
    g.token ≠ .and ∧ g.token ≠ .or := by
  subst none
  cases logic
  cases ts with
  | nil =>
      cases rest
      exact ⟨follows.and, follows.or⟩
  | cons => rcases rest.starts with h | h <;> rw [h] <;> exact ⟨nofun, nofun⟩

theorem LogicAt.not_rpar {src : Bytes} {g h c' : Cursor} {op : Option Bytes} {ts : List Term}
    (logic : LogicAt src g op h) (rest : ConditionsAt src h ts c') (rpar : g.token = .rpar) :
    op = none ∧ ts = [] ∧ g = c' := by
  cases logic with
  | logic token => rcases token with h | h <;> exact nomatch h.symm.trans rpar
  | bare =>
      cases ts with
      | nil =>
          cases rest
          exact ⟨rfl, rfl, rfl⟩
      | cons => rcases rest.starts with h | h <;> exact nomatch h.symm.trans rpar

section Closing

variable {closes : Nat} {op : Option Bytes} {ts : List Term} {g h c' : Cursor}
  (shuts : TokensAt G.src .rpar closes s.cursor g) (logic' : LogicAt G.src g op h)
  (rest : ConditionsAt G.src h ts c') (follows : Follows ignoreTrailingRpar c')
include shuts logic' rest follows

theorem closing_reads (shut : Shut (c'.token = .rpar) depth closes op ts) :
    ∃ s', closing G ignoreTrailingRpar depth expect s =
        (.ok (roundOf op (depth - closes) expect), s') ∧
      Writes s h (shutText closes ++ logicText op) s' := by
  unfold closing
  rw [token_run]
  cases shuts with
  | none =>
      by_cases rpar : s.cursor.token = .rpar
      · obtain ⟨rfl, rfl, here⟩ := logic'.not_rpar rest rpar
        cases logic'
        have zero : depth = 0 := (shut.outer rfl (here ▸ rpar)).resolve_right nofun
        rw [if_neg (not_not.mpr rpar), if_pos zero, if_pos (follows.rpar (here ▸ rpar))]
        exact ⟨s, rfl, Writes.refl s⟩
      · rw [if_pos rpar]
        exact logic_reads logic' fun bare => logic'.ends rest follows bare
  | @one n _ y _ token step more =>
      have one := shut.one
      have fits := shut.fits
      obtain rfl : n = 0 := by omega
      cases more
      let s₁ := (s.put (.text (lit ") "))).seek g
      have first : Writes s g (lit ") ") s₁ := (Writes.put s (.text (lit ") "))).seek g
      obtain ⟨s', run, writes⟩ := @logic_reads G s₁ (depth - 1) expect op h logic'
        fun bare => logic'.ends rest follows bare
      refine ⟨s', ?_, first.trans writes⟩
      rw [if_neg (not_not.mpr token), if_neg (by omega)]
      exact (Attempt.bind_ok (next_reads (s := s.put (.text (lit ") "))) step)).trans run

/-- A predicate that is read to the end of the condition, or on with it, is shut. -/
theorem closing_at {r : Round (Nat × Sqltoken) Unit}
    (run : closing G ignoreTrailingRpar depth expect s = (.ok r, s'))
    (stays : ¬ Passed G.src c' s'.cursor) (leaves : r = .leave () → s'.cursor = c') :
    Shut (c'.token = .rpar) depth closes op ts := by
  unfold closing at run
  rw [token_run] at run
  have left {x : Cursor} {d : Nat} {s₁ : Parse} (reached : Reached G.src x c')
      (neither : x.token ≠ .and ∧ x.token ≠ .or) (here : s₁.cursor = x)
      (run : logic G d expect s₁ = (.ok r, s')) : x = c' := by
    have run : (if s₁.cursor.token = .and ∨ s₁.cursor.token = .or then _ else _ : Parser _) s₁ =
      _ := run
    rw [here, if_neg (not_or.mpr neither)] at run
    obtain ⟨leave, rfl⟩ := Prod.mk.inj run
    exact here.symm.trans (leaves (Except.ok.inj leave).symm)
  -- behind a parenthesis that is passed only what follows the condition may end it
  have behind {x y : Cursor} {s₁ : Parse} (rpar : x.token = .rpar) (step : Step G.src x y)
      (here : s₁.cursor = x) (run : (do
        text ") "
        next G
        logic G (depth - 1) expect : Parser _) s₁ = (.ok r, s')) :
      ∃ s₂, s₂.cursor = y ∧ logic G (depth - 1) expect s₂ = (.ok r, s') := by
    obtain ⟨_, s₂, put, run⟩ := bind_ok_iff.mp run
    obtain rfl := (Prod.mk.inj put).2
    obtain ⟨z, step', run⟩ := read_ok_iff.mp run
    have same : s₁.cursor = x := here
    exact ⟨_, Step.unique (same ▸ step') step, run⟩
  have ended (same : h = c') : ts = [] := by
    cases ts with
    | nil => rfl
    | cons t ts => exact absurd same.symm rest.passed.ne
  cases shuts with
  | none =>
      have last (bare : op = none) : ts = [] := by
        by_cases rpar : s.cursor.token = .rpar
        · exact (logic'.not_rpar rest rpar).2.1
        · rw [if_pos rpar] at run
          have neither := logic'.ends rest follows bare
          subst bare
          cases logic'
          exact ended (left rest.reached neither rfl run)
      refine ⟨Nat.zero_le _, Nat.zero_le _, last, fun bare enclosed => .inl ?_⟩
      obtain rfl := last bare
      subst bare
      cases logic'
      cases rest
      by_contra deep
      rw [if_neg (not_not.mpr enclosed), if_neg deep] at run
      obtain ⟨_, s₁, put, run⟩ := bind_ok_iff.mp run
      obtain rfl := (Prod.mk.inj put).2
      obtain ⟨y, step, run⟩ := read_ok_iff.mp run
      have passed : Passed G.src s.cursor y := step.passed (by rw [enclosed]; nofun)
      exact stays (passed.trans (logic_goes.reached run))
  | @one n _ y _ token step more =>
      rw [if_neg (not_not.mpr token)] at run
      have first : Passed G.src s.cursor y := step.passed (by rw [token]; nofun)
      have whole : Reached G.src y c' := more.reached.trans (logic'.reached.trans rest.reached)
      by_cases zero : depth = 0
      · rw [if_pos zero] at run
        split at run
        · obtain ⟨leave, rfl⟩ := Prod.mk.inj run
          exact absurd (leaves (Except.ok.inj leave).symm).symm (first.trans whole).ne
        · cases (Prod.mk.inj run).1
      · rw [if_neg zero] at run
        obtain ⟨s₂, here, run⟩ := behind token step rfl run
        cases more with
        | none =>
            have last (bare : op = none) : ts = [] := by
              have neither := logic'.ends rest follows bare
              subst bare
              cases logic'
              exact ended (left rest.reached neither here run)
            exact ⟨Nat.le_refl _, Nat.one_le_iff_ne_zero.mpr zero, last, fun _ _ => .inr rfl⟩
        | one token' step' more' =>
            have same := left whole (by rw [token']; exact ⟨nofun, nofun⟩) here run
            have second : Passed G.src y c' := (step'.passed (by rw [token']; nofun)).trans
              (more'.reached.trans (logic'.reached.trans rest.reached))
            exact absurd same.symm second.ne

end Closing

/-! ## Rounds -/

def openText (opens : Nat) : Bytes := (List.replicate opens (lit "(")).flatten

variable {select : Parser Unit} {allowFunctions isnull : Bool} {r : Round (Nat × Sqltoken) Unit}

/-- A round behind its first field. -/
def behindField (G : Given) (select : Parser Unit) (rounds cell : Nat)
    (allowFunctions ignoreTrailingRpar : Bool) (depth : Nat) (expect : Sqltoken) :
    Parser (Round (Nat × Sqltoken) Unit) := do
  let tok ← token
  if tok = .not ∨ tok = .in then do
    inPredicate G select rounds
    pure (.again (depth, expect))
  else predicate G cell allowFunctions ignoreTrailingRpar depth expect

theorem opening_none (other : s.cursor.token ≠ .lpar) : opening G depth s = (.ok depth, s) := by
  unfold opening
  rw [token_run, if_neg other]
  rfl

theorem opening_one {d : Cursor} (lpar : s.cursor.token = .lpar) (step : Step G.src s.cursor d) :
    opening G depth s = (.ok (depth + 1), (s.put (.text (lit "("))).seek d) := by
  unfold opening
  rw [token_run, if_pos lpar]
  exact (Attempt.bind_ok (next_reads (s := s.put (.text (lit "("))) step)).trans rfl

theorem condition_opens {opens : Nat} {d e : Cursor} {f : Field}
    (at' : TokensAt G.src .lpar opens s.cursor d) (field : FieldAt G.src d f e)
    (one : opens ≤ 1) :
    ∃ s₁, Writes s e (openText opens ++ f.text) s₁ ∧
      condition G select rounds cell allowFunctions ignoreTrailingRpar depth expect s =
        behindField G select rounds cell allowFunctions ignoreTrailingRpar (depth + opens) expect
          s₁ := by
  cases at' with
  | none =>
      obtain ⟨s₁, run, writes⟩ := parseField_reads field
      refine ⟨s₁, writes, (Attempt.bind_ok (opening_none ?_)).trans (Attempt.bind_ok run)⟩
      rw [field.id]
      nofun
  | @one n _ _ _ token step more =>
      obtain rfl : n = 0 := by omega
      cases more
      let s₁ := (s.put (.text (lit "("))).seek d
      have first : Writes s d (lit "(") s₁ := (Writes.put s (.text (lit "("))).seek d
      obtain ⟨s₂, run, writes⟩ := parseField_reads (s := s₁) field
      exact ⟨s₂, first.trans writes,
        (Attempt.bind_ok (opening_one token step)).trans (Attempt.bind_ok run)⟩

/-- At most one parenthesis is taken in front of a field. -/
theorem condition_few {opens : Nat} {d : Cursor} (at' : TokensAt G.src .lpar opens s.cursor d)
    (run : condition G select rounds cell allowFunctions ignoreTrailingRpar depth expect s =
      (.ok r, s')) : opens ≤ 1 := by
  cases at' with
  | none => exact Nat.zero_le 1
  | one token step more =>
      cases more with
      | none => exact Nat.le_refl 1
      | one token' =>
          have run := (Attempt.bind_ok (opening_one token step)).symm.trans run
          obtain ⟨_, s₂, read, -⟩ := bind_ok_iff.mp run
          obtain ⟨f, field⟩ := parseField_at read
          exact nomatch token'.symm.trans field.id

theorem behindField_in {n : Cursor} {negated : Bool} (not : NotAt G.src s.cursor negated n)
    (isIn : n.token = .in) {s₁ : Parse} (run : inPredicate G select rounds s = (.ok (), s₁)) :
    behindField G select rounds cell allowFunctions ignoreTrailingRpar depth expect s =
      (.ok (.again (depth, expect)), s₁) := by
  have starts : s.cursor.token = .not ∨ s.cursor.token = .in := by
    cases not with
    | not not => exact .inl not
    | none => exact .inr isIn
  unfold behindField
  rw [token_run, if_pos starts]
  exact (Attempt.bind_ok run).trans rfl

theorem behindField_other (not : s.cursor.token ≠ .not) (isIn : s.cursor.token ≠ .in) :
    behindField G select rounds cell allowFunctions ignoreTrailingRpar depth expect s =
      predicate G cell allowFunctions ignoreTrailingRpar depth expect s := by
  unfold behindField
  rw [token_run, if_neg (not_or.mpr ⟨not, isIn⟩)]

theorem repeats_ok_cases {τ ρ : Type} {round : τ → Parser (Round τ ρ)} {t : τ} {a : ρ}
    (run : repeats rounds round t s = (.ok a, s')) :
    ∃ n s₁, rounds = n + 1 ∧ (round t s = (.ok (.leave a), s₁) ∧ s' = s₁ ∨
      ∃ t', round t s = (.ok (.again t'), s₁) ∧
        repeats n round t' (s₁.lapped s.cursor) = (.ok a, s')) := by
  cases rounds with
  | zero => cases (Prod.mk.inj run).1
  | succ n =>
      rcases once : round t s with ⟨outcome, s₁⟩
      refine ⟨n, s₁, rfl, ?_⟩
      match outcome with
      | .error e =>
          rw [repeats_error once] at run
          cases (Prod.mk.inj run).1
      | .ok (.leave b) =>
          rw [repeats_leave once] at run
          obtain ⟨same, rfl⟩ := Prod.mk.inj run
          exact .inl ⟨by rw [Except.ok.inj same], rfl⟩
      | .ok (.again t') =>
          rw [repeats_again once] at run
          exact .inr ⟨t', rfl, run⟩

/-- The loop of `parseConditions`, from any of its rounds on. -/
def conditionLoop (G : Given) (select : Parser Unit) (rounds cell : Nat)
    (allowFunctions ignoreTrailingRpar : Bool) (n depth : Nat) (expect : Sqltoken) :
    Parser Unit :=
  repeats n
    (fun (depth, expect) => do
      let tok ← token
      if tok = .id ∨ tok = .lpar then
        condition G select rounds cell allowFunctions ignoreTrailingRpar depth expect
      else if depth ≠ 0 then stop .expRpar
      else pure (.leave ()))
    ((depth, expect) : Nat × Sqltoken)

section Loop

variable {n : Nat}

theorem conditionLoop_again {depth' : Nat} {expect' : Sqltoken} {s₁ : Parse}
    (starts : s.cursor.token = .id ∨ s.cursor.token = .lpar)
    (run : condition G select rounds cell allowFunctions ignoreTrailingRpar depth expect s =
      (.ok (.again (depth', expect')), s₁)) :
    conditionLoop G select rounds cell allowFunctions ignoreTrailingRpar (n + 1) depth expect s =
      conditionLoop G select rounds cell allowFunctions ignoreTrailingRpar n depth' expect'
        (s₁.lapped s.cursor) := by
  refine repeats_again ?_
  show (if _ then _ else _ : Parser _) s = _
  rw [if_pos starts]
  exact run

theorem conditionLoop_leave {s₁ : Parse} (starts : s.cursor.token = .id ∨ s.cursor.token = .lpar)
    (run : condition G select rounds cell allowFunctions ignoreTrailingRpar depth expect s =
      (.ok (.leave ()), s₁)) :
    conditionLoop G select rounds cell allowFunctions ignoreTrailingRpar (n + 1) depth expect s =
      (.ok (), s₁) := by
  refine repeats_leave ?_
  show (if _ then _ else _ : Parser _) s = _
  rw [if_pos starts]
  exact run

theorem conditionLoop_end (id : s.cursor.token ≠ .id) (lpar : s.cursor.token ≠ .lpar) :
    conditionLoop G select rounds cell allowFunctions ignoreTrailingRpar (n + 1) 0 expect s =
      (.ok (), s) := by
  refine repeats_leave ?_
  show (if _ then _ else _ : Parser _) s = _
  rw [if_neg (not_or.mpr ⟨id, lpar⟩)]
  rfl

theorem conditionLoop_ended (id : s.cursor.token ≠ .id) (lpar : s.cursor.token ≠ .lpar)
    (run : conditionLoop G select rounds cell allowFunctions ignoreTrailingRpar n depth expect s =
      (.ok (), s')) : depth = 0 ∧ s' = s := by
  obtain ⟨_, s₁, rfl, ⟨once, rfl⟩ | ⟨t', once, -⟩⟩ := repeats_ok_cases run
  all_goals
    have once : (if _ then _ else _ : Parser _) s = _ := once
    rw [if_neg (not_or.mpr ⟨id, lpar⟩)] at once
    split at once
  · cases (Prod.mk.inj once).1
  · exact ⟨of_not_not ‹_›, (Prod.mk.inj once).2.symm⟩
  · cases (Prod.mk.inj once).1
  · cases Except.ok.inj (Prod.mk.inj once).1

theorem conditionLoop_cases (starts : s.cursor.token = .id ∨ s.cursor.token = .lpar)
    (run : conditionLoop G select rounds cell allowFunctions ignoreTrailingRpar n depth expect s =
      (.ok (), s')) :
    ∃ m s₁ r, n = m + 1 ∧
      condition G select rounds cell allowFunctions ignoreTrailingRpar depth expect s =
        (.ok r, s₁) ∧
      (r = .leave () → s' = s₁) ∧
      ∀ depth' expect', r = .again (depth', expect') →
        conditionLoop G select rounds cell allowFunctions ignoreTrailingRpar m depth' expect'
          (s₁.lapped s.cursor) = (.ok (), s') := by
  obtain ⟨m, s₁, rfl, once⟩ := repeats_ok_cases run
  rcases once with ⟨once, rfl⟩ | ⟨t', once, more⟩
  · have once : (if _ then _ else _ : Parser _) s = _ := once
    rw [if_pos starts] at once
    exact ⟨m, s', _, rfl, once, fun _ => rfl, nofun⟩
  · have once : (if _ then _ else _ : Parser _) s = _ := once
    rw [if_pos starts] at once
    refine ⟨m, s₁, _, rfl, once, nofun, fun depth' expect' same => ?_⟩
    obtain rfl := Round.again.inj same
    exact more

end Loop

/-! ## What the loop gets through -/

/-- The closing parentheses an operand takes beside its own. -/
def Operand.extra (o : Operand) : Nat := if o.isAggregate then 1 else 0

/-- The loop runs through a condition: `depth` parentheses are open, an IS has been read where
`isnull` holds, and the parameters `used` have got placeholders. -/
inductive Through (G : Given) (s : Parse) (allowFunctions : Bool) (enclosed : Prop) :
    Nat → Bool → List Nat → List Term → Prop where
  | done {isnull : Bool} {used : List Nat} :
      Through G s allowFunctions enclosed 0 isnull used []
  | among {depth opens : Nat} {isnull : Bool} {used : List Nat} {f : Field} {negated : Bool}
      {ls : List Literal} {ts : List Term} (one : opens ≤ 1)
      (rest : Through G s allowFunctions enclosed (depth + opens) isnull used ts) :
      Through G s allowFunctions enclosed depth isnull used
        (⟨opens, .among f negated ls, 0, none⟩ :: ts)
  | isNull {depth opens closes : Nat} {isnull : Bool} {used : List Nat} {f : Field}
      {negated : Bool} {op : Option Bytes} {ts : List Term} (one : opens ≤ 1)
      (shut : Shut enclosed (depth + opens) closes op ts)
      (rest : op.isSome →
        Through G s allowFunctions enclosed (depth + opens - closes) true used ts) :
      Through G s allowFunctions enclosed depth isnull used
        (⟨opens, .isNull f negated, closes, op⟩ :: ts)
  | compare {depth opens closes : Nat} {isnull : Bool} {used more : List Nat} {f : Field}
      {comparator : Comparator} {o : Operand} {op : Option Bytes} {ts : List Term}
      (one : opens ≤ 1) (null : isnull = true → o = .null)
      (accepts : Accepts G s allowFunctions used o more)
      (shut : Shut enclosed (depth + opens) closes op ts)
      (rest : op.isSome →
        Through G s allowFunctions enclosed (depth + opens - closes) isnull (used ++ more) ts) :
      Through G s allowFunctions enclosed depth isnull used
        (⟨opens, .compare f comparator o, closes + o.extra, op⟩ :: ts)

/-- What the loop writes: the parenthesis an aggregate takes is lost. -/
def Term.written (t : Term) : Bytes :=
  match t.predicate with
  | .compare _ _ o => { t with closes := t.closes - o.extra }.text
  | _ => t.text

theorem TokensAt.taken {src : Bytes} {o : Operand} {closes : Nat} {e g : Cursor}
    (at' : TokensAt src .rpar (closes + o.extra) e g) :
    ∃ x, TakenTo src o e x ∧ TokensAt src .rpar closes x g := by
  unfold Operand.extra at at'
  unfold TakenTo
  by_cases aggregate : o.isAggregate = true
  · rw [if_pos aggregate] at at'
    cases at' with
    | one token step rest => exact ⟨_, by rw [if_pos aggregate]; exact ⟨token, step⟩, rest⟩
  · rw [if_neg aggregate] at at'
    exact ⟨e, by rw [if_neg aggregate], at'⟩

theorem TakenTo.unique {src : Bytes} {o : Operand} {c x y : Cursor} (one : TakenTo src o c x)
    (two : TakenTo src o c y) : x = y := by
  unfold TakenTo at one two
  split at one
  · rw [if_pos ‹_›] at two
    exact one.2.unique two.2
  · rw [if_neg ‹_›] at two
    rw [one, two]

/-- The parenthesis an aggregate takes is one that is written behind the predicate, or the one
behind the condition. -/
theorem TokensAt.extra_le {src : Bytes} {o : Operand} {closes : Nat} {e g x : Cursor}
    (at' : TokensAt src .rpar closes e g) (taken : TakenTo src o e x)
    (beyond : g.token = .rpar → Step src g x → False) : ∃ k, closes = k + o.extra := by
  unfold Operand.extra
  by_cases aggregate : o.isAggregate = true
  · unfold TakenTo at taken
    rw [if_pos aggregate] at taken ⊢
    cases at' with
    | none => exact (beyond taken.1 taken.2).elim
    | @one n _ _ _ _ _ _ => exact ⟨n, rfl⟩
  · rw [if_neg aggregate]
    exact ⟨closes, rfl⟩

theorem compare_written (opens closes : Nat) (f : Field) (comparator : Comparator) (o : Operand)
    (op : Option Bytes) :
    openText opens ++ f.text ++ compareText comparator o ++ (shutText closes ++ logicText op) =
      Term.written ⟨opens, .compare f comparator o, closes + o.extra, op⟩ := by
  simp [Term.written, Term.text, Predicate.text, openText, compareText, shutText, logicText]

theorem isNull_written (opens closes : Nat) (f : Field) (negated : Bool) (op : Option Bytes) :
    openText opens ++ f.text ++ nullText negated ++ (shutText closes ++ logicText op) =
      Term.written ⟨opens, .isNull f negated, closes, op⟩ := by
  simp [Term.written, Term.text, Predicate.text, openText, nullText, shutText, logicText]

theorem among_written (opens : Nat) (f : Field) (negated : Bool) (ls : List Literal) :
    openText opens ++ f.text ++ amongText negated ls =
      Term.written ⟨opens, .among f negated ls, 0, none⟩ := by
  simp [Term.written, Term.text, Predicate.text, openText, amongText]

theorem Went.lapped {c : Cursor} {text : Bytes} {used : List Nat} (went : Went s₀ c text used s)
    (before : Cursor) : Went s₀ c text used (s.lapped before) :=
  ⟨went.cursor, went.written, went.names, went.room, went.cells⟩

section Term

variable {opens closes : Nat} {op : Option Bytes} {ts : List Term} {f : Field}
  {c d k e g h c' : Cursor} {used : List Nat} {text : Bytes}
  (opened : TokensAt G.src .lpar opens s.cursor d) (one : opens ≤ 1) (field : FieldAt G.src d f k)
  (rest : ConditionsAt G.src h ts c') (follows : Follows ignoreTrailingRpar c')
  (went : Went s₀ c text used s)
include opened one field went

theorem among_round {negated : Bool} {ls : List Literal} {n e q r : Cursor}
    (not : NotAt G.src k negated n) (isIn : n.token = .in) (step : Step G.src n e)
    (lpar : e.token = .lpar) (step' : Step G.src e q)
    (list : ListAt G.src (LiteralAt G.src) q ls r) (rpar : r.token = .rpar)
    (last : Step G.src r h) (room : left G.src s.cursor < rounds) :
    ∃ s₁, condition G select rounds cell allowFunctions ignoreTrailingRpar depth
        (expectation isnull) s = (.ok (.again (depth + opens, expectation isnull)), s₁) ∧
      Went s₀ h (text ++ Term.written ⟨opens, .among f negated ls, 0, none⟩) used s₁ := by
  have inside : left G.src q < rounds := Nat.lt_of_le_of_lt (opened.reached.trans
    (field.passed.reached.trans (not.reached.trans (step.reached.trans step'.reached)))).left room
  obtain ⟨s₁, first, run⟩ := @condition_opens G s rounds cell depth (expectation isnull)
    ignoreTrailingRpar select allowFunctions opens d k f opened field one
  have not' : NotAt G.src s₁.cursor negated n := first.cursor.symm ▸ not
  obtain ⟨s₂, run', second⟩ := among_reads not' isIn step lpar step' list rpar last inside
  refine ⟨s₂, run.trans (behindField_in not' isIn run'), ?_⟩
  rw [← among_written]
  simpa using (went.write first).write second

include rest follows

theorem isNull_round {negated : Bool} {e n : Cursor} (is : k.token = .is) (step : Step G.src k e)
    (not : NotAt G.src e negated n) (null : n.token = .null) {m : Cursor} (last : Step G.src n m)
    (shuts : TokensAt G.src .rpar closes m g) (logic' : LogicAt G.src g op h)
    (shut : Shut (c'.token = .rpar) (depth + opens) closes op ts) :
    ∃ s₁, condition G select rounds cell allowFunctions ignoreTrailingRpar depth
        (expectation isnull) s =
          (.ok (roundOf op (depth + opens - closes) (expectation true)), s₁) ∧
      Went s₀ h (text ++ Term.written ⟨opens, .isNull f negated, closes, op⟩) used s₁ := by
  obtain ⟨s₁, first, run⟩ := @condition_opens G s rounds cell depth (expectation isnull)
    ignoreTrailingRpar select allowFunctions opens d k f opened field one
  rw [← first.cursor] at is step
  have other := @behindField_other G s₁ rounds cell (depth + opens) (expectation isnull)
    ignoreTrailingRpar select allowFunctions (by rw [is]; nofun) (by rw [is]; nofun)
  obtain ⟨s₂, run₂, second⟩ := @isNull_reads G s₁ cell allowFunctions ignoreTrailingRpar
    (depth + opens) (expectation isnull) e n m negated is step not null last
  obtain ⟨s₃, run₃, third⟩ := @closing_reads G s₂ (depth + opens) .null ignoreTrailingRpar closes
    op ts g h c' (second.cursor.symm ▸ shuts) logic' rest follows shut
  refine ⟨s₃, run.trans (other.trans (run₂.trans run₃)), ?_⟩
  rw [← isNull_written]
  simpa using ((went.write first).write second).write third

theorem compare_round {comparator : Comparator} {o : Operand} {e m : Cursor} {more : List Nat}
    (token : k.token = comparator.token) (step : Step G.src k e) (operand : OperandAt G.src e o m)
    (shuts : TokensAt G.src .rpar (closes + o.extra) m g) (logic' : LogicAt G.src g op h)
    (cells : cell < s₀.cells.length) (null : isnull = true → o = .null)
    (accepts : Accepts G s₀ allowFunctions used o more)
    (shut : Shut (c'.token = .rpar) (depth + opens) closes op ts) :
    ∃ s₁, condition G select rounds cell allowFunctions ignoreTrailingRpar depth
        (expectation isnull) s =
          (.ok (roundOf op (depth + opens - closes) (expectation isnull)), s₁) ∧
      Went s₀ h (text ++ Term.written ⟨opens, .compare f comparator o, closes + o.extra, op⟩)
        (used ++ more) s₁ := by
  obtain ⟨s₁, first, run⟩ := @condition_opens G s rounds cell depth (expectation isnull)
    ignoreTrailingRpar select allowFunctions opens d k f opened field one
  rw [← first.cursor] at token step
  have other := @behindField_other G s₁ rounds cell (depth + opens) (expectation isnull)
    ignoreTrailingRpar select allowFunctions (by rw [token]; exact comparator.token_ne.2.1)
    (by rw [token]; exact comparator.token_ne.2.2)
  obtain ⟨x, taken, shuts⟩ := shuts.taken
  obtain ⟨s₂, run₂, second⟩ := @compare_reads G s₁ s₀ cell used more _ e m x _ comparator o
    allowFunctions ignoreTrailingRpar isnull (depth + opens) (went.write first) cells token step
    operand null accepts taken
  obtain ⟨s₃, run₃, third⟩ := @closing_reads G s₂ (depth + opens) (expectation isnull)
    ignoreTrailingRpar closes op ts g h c' (second.cursor.symm ▸ shuts) logic' rest follows shut
  refine ⟨s₃, run.trans (other.trans (run₂.trans run₃)), ?_⟩
  rw [← compare_written]
  simpa using ((went.write first).trans second).write third

end Term

/-- The loop reads what it gets through to the end. -/
theorem through_reads {c c' : Cursor} {ts : List Term} {n : Nat} {used : List Nat}
    {text : Bytes} (conditions : ConditionsAt G.src c ts c')
    (follows : Follows ignoreTrailingRpar c')
    (through : Through G s₀ allowFunctions (c'.token = .rpar) depth isnull used ts)
    (went : Went s₀ c text used s) (cells : cell < s₀.cells.length)
    (room : left G.src c < rounds) (enough : left G.src c < n) :
    ∃ s' more, conditionLoop G select rounds cell allowFunctions ignoreTrailingRpar n depth
        (expectation isnull) s = (.ok (), s') ∧
      Went s₀ c' (text ++ ts.flatMap Term.written) (used ++ more) s' := by
  obtain ⟨n, rfl⟩ : ∃ m, n = m + 1 := ⟨n - 1, by omega⟩
  induction conditions generalizing s depth isnull used text n with
  | nil c =>
      cases through
      have here := went.cursor
      refine ⟨s, [], conditionLoop_end (here ▸ follows.id) (here ▸ follows.lpar), ?_⟩
      simpa using went
  | @cons t ts c d e g h c' opens predicate closes logic rest ih =>
      have starts := (ConditionsAt.cons opens predicate closes logic rest).starts
      have here := went.cursor
      rw [← here] at starts opens
      have less : left G.src h < left G.src c := (here ▸ opens.reached.passed
        (predicate.passed.trans (closes.reached.trans logic.reached))).left
      obtain ⟨n, rfl⟩ : ∃ m, n = m + 1 := ⟨n - 1, by omega⟩
      -- what is left to do behind a round that ends with the term
      have behind {depth' : Nat} {isnull' : Bool} {more : List Nat} {s₁ : Parse}
          (round : condition G select rounds cell allowFunctions ignoreTrailingRpar depth
            (expectation isnull) s = (.ok (roundOf t.op depth' (expectation isnull')), s₁))
          (whole : Went s₀ h (text ++ t.written) (used ++ more) s₁)
          (last : t.op = none → ts = [])
          (through : t.op.isSome → Through G s₀ allowFunctions (c'.token = .rpar) depth' isnull'
            (used ++ more) ts) :
          ∃ s' more, conditionLoop G select rounds cell allowFunctions ignoreTrailingRpar
              (n + 1 + 1) depth (expectation isnull) s = (.ok (), s') ∧
            Went s₀ c' (text ++ (t :: ts).flatMap Term.written) (used ++ more) s' := by
        cases op : t.op with
        | none =>
            obtain rfl := last op
            rw [op] at logic
            cases rest
            rw [op] at round
            refine ⟨s₁, more, conditionLoop_leave starts round, ?_⟩
            simpa using whole
        | some b =>
            rw [op] at round
            obtain ⟨s₂, more', run, went'⟩ := ih follows (through (by rw [op]; rfl))
              (whole.lapped s.cursor) (by omega) n (by omega)
            refine ⟨s₂, more ++ more', (conditionLoop_again starts round).trans run, ?_⟩
            simpa using went'
      cases through with
      | among one rest' =>
          cases predicate with
          | among field not isIn step lpar step' list rpar last =>
              cases closes
              cases logic
              obtain ⟨s₁, round, whole⟩ := @among_round G s s₀ rounds cell depth ignoreTrailingRpar
                select allowFunctions isnull _ _ c d _ _ used text opens one field went _ _ _ _ _ _
                not isIn step lpar step' list rpar last (here ▸ room)
              obtain ⟨s₂, more', run, went'⟩ := ih follows rest' (whole.lapped s.cursor) (by omega)
                n (by omega)
              refine ⟨s₂, more', (conditionLoop_again starts round).trans run, ?_⟩
              simpa using went'
      | isNull one shut rest' =>
          cases predicate with
          | isNull field is step not null last =>
              obtain ⟨s₁, round, whole⟩ := isNull_round opens one field rest follows went is step
                not null last closes logic shut
              rw [← List.append_nil used] at whole
              exact behind round whole shut.last fun op => by simpa using rest' op
      | compare one null accepts shut rest' =>
          cases predicate with
          | compare field token step operand =>
              obtain ⟨s₁, round, whole⟩ := compare_round opens one field rest follows went token
                step operand closes logic cells null accepts shut
              exact behind round whole shut.last rest'

/-- The loop goes on, and no way back. -/
theorem conditionLoop_reached {caller : Cursor} {n : Nat} (before : Reached G.src caller s.cursor)
    (room : left G.src caller < rounds) (enough : left G.src s.cursor < n)
    (run : conditionLoop G (subSelect G rounds caller) rounds cell allowFunctions
      ignoreTrailingRpar n depth expect s = (.ok (), s')) :
    Reached G.src s.cursor s'.cursor := by
  refine Goes.reached ?_ run
  refine repeats_runs (I := fun _ c => Reached G.src s.cursor c) (Reached.refl _ _) enough
    fun ⟨paradepth, expect⟩ s₁ reached => token_then (Attempt.Does.ite (fun _ => ?_) fun _ =>
      Attempt.Does.ite (fun _ => stop_runs) fun _ => Attempt.Does.pure trivial)
  refine (condition_takes (subSelect_goes room) (before.trans reached)
    (Nat.lt_of_le_of_lt (before.trans reached).left room)).weaken fun r s₂ _ passed => ?_
  cases r with
  | again => exact ⟨reached.trans passed.reached, passed⟩
  | leave => trivial

/-- The loop gets through what it reads to the end. -/
theorem through_of_read {caller c c' : Cursor} {ts : List Term} {n : Nat} {used : List Nat}
    {text : Bytes} (conditions : ConditionsAt G.src c ts c')
    (follows : Follows ignoreTrailingRpar c') (went : Went s₀ c text used s)
    (cells : cell < s₀.cells.length) (before : Reached G.src caller c)
    (room : left G.src caller < rounds) (enough : left G.src c < n)
    (run : conditionLoop G (subSelect G rounds caller) rounds cell allowFunctions
      ignoreTrailingRpar n depth (expectation isnull) s = (.ok (), s')) (ended : s'.cursor = c') :
    Through G s₀ allowFunctions (c'.token = .rpar) depth isnull used ts := by
  induction conditions generalizing s depth isnull used text n with
  | nil c =>
      have here := went.cursor
      obtain ⟨rfl, -⟩ := conditionLoop_ended (here ▸ follows.id) (here ▸ follows.lpar) run
      exact .done
  | @cons t ts c d e g h c' opens predicate closes logic rest ih =>
      have starts := (ConditionsAt.cons opens predicate closes logic rest).starts
      have here := went.cursor
      have along : Passed G.src c h := opens.reached.passed
        (predicate.passed.trans (closes.reached.trans logic.reached))
      have less := along.left
      rw [← here] at starts opens
      obtain ⟨m, s₁, r, rfl, round, leave, again⟩ := conditionLoop_cases starts run
      have one := condition_few opens round
      -- what a round that ends with the term leaves to the others
      have behind {depth' : Nat} {isnull' : Bool} {more : List Nat} {s₂ : Parse} {text' : Bytes}
          (round' : condition G (subSelect G rounds caller) rounds cell allowFunctions
            ignoreTrailingRpar depth (expectation isnull) s =
              (.ok (roundOf t.op depth' (expectation isnull')), s₂))
          (whole : Went s₀ h text' (used ++ more) s₂) (op : t.op.isSome) :
          Through G s₀ allowFunctions (c'.token = .rpar) depth' isnull' (used ++ more) ts := by
        obtain ⟨same, rfl⟩ := Prod.mk.inj (round.symm.trans round')
        rw [roundOf, if_pos op] at same
        exact ih follows (whole.lapped s.cursor) (before.trans along.reached) (by omega)
          (again _ _ (Except.ok.inj same)) ended
      have leaves (left : r = .leave ()) : s₁.cursor = c' := leave left ▸ ended
      have reached : Reached G.src caller s.cursor := here ▸ before
      have stays : ¬ Passed G.src c' s₁.cursor := by
        intro beyond
        have takes := @condition_takes G s rounds _ cell caller (subSelect_goes room)
          allowFunctions ignoreTrailingRpar depth (expectation isnull) reached
          (Nat.lt_of_le_of_lt reached.left room)
        have passed := takes.result r (congrArg Prod.fst round)
        rw [round] at passed
        match r with
        | .leave () => exact beyond.ne (leaves rfl)
        | .again (depth', expect') =>
            have less' : left G.src s₁.cursor < left G.src c := here ▸ passed.left
            have back := (conditionLoop_reached (s := s₁.lapped s.cursor)
              (reached.trans passed.reached) room (by show left G.src s₁.cursor < m; omega)
              (again _ _ rfl)).left
            rw [ended] at back
            exact Nat.lt_irrefl _ (Nat.lt_of_lt_of_le beyond.left back)
      obtain ⟨opens', p, closes', op⟩ := t
      dsimp only at one opens predicate closes logic behind
      cases predicate with
      | among field not isIn step lpar step' list rpar last =>
          obtain ⟨s₂, round', whole⟩ := @among_round G s s₀ rounds cell depth ignoreTrailingRpar
            (subSelect G rounds caller) allowFunctions isnull _ _ c d _ _ used text opens one field
            went _ _ _ _ _ _ not isIn step lpar step' list rpar last
            (Nat.lt_of_le_of_lt reached.left room)
          obtain ⟨same, rfl⟩ := Prod.mk.inj (round.symm.trans round')
          have run' := again _ _ (Except.ok.inj same)
          -- the loop ends where a parenthesis, AND or OR stands behind the list
          have stops (id : e.token ≠ .id) (lpar : e.token ≠ .lpar) : s'.cursor = e := by
            rw [(conditionLoop_ended (s := s₁.lapped s.cursor) (whole.cursor.symm ▸ id)
              (whole.cursor.symm ▸ lpar) run').2]
            exact whole.cursor
          have stuck (id : e.token ≠ .id) (lpar : e.token ≠ .lpar) (passed : Passed G.src e c') :
              False := passed.ne (ended.symm.trans (stops id lpar))
          cases closes with
          | one token step rest' =>
              exact (stuck (by rw [token]; nofun) (by rw [token]; nofun)
                ((step.passed (by rw [token]; nofun)).trans
                  (rest'.reached.trans (logic.reached.trans rest.reached)))).elim
          | none =>
              cases logic with
              | logic token step =>
                  have passed : Passed G.src e c' := (LogicAt.logic token step).passed.trans
                    rest.reached
                  rcases token with token | token
                  · exact (stuck (by rw [token]; nofun) (by rw [token]; nofun) passed).elim
                  · exact (stuck (by rw [token]; nofun) (by rw [token]; nofun) passed).elim
              | bare =>
                  exact .among one (ih follows (whole.lapped s.cursor)
                    (before.trans along.reached) (by omega) run' ended)
      | isNull field is step not null last =>
          obtain ⟨s₂, first, run₂⟩ := @condition_opens G s rounds cell depth (expectation isnull)
            ignoreTrailingRpar (subSelect G rounds caller) allowFunctions _ d _ _ opens field one
          have is' := first.cursor.symm ▸ is
          have other := @behindField_other G s₂ rounds cell (depth + opens') (expectation isnull)
            ignoreTrailingRpar (subSelect G rounds caller) allowFunctions (by rw [is']; nofun)
            (by rw [is']; nofun)
          obtain ⟨s₃, run₃, second⟩ := @isNull_reads G s₂ cell allowFunctions ignoreTrailingRpar
            (depth + opens') (expectation isnull) _ _ e _ is' (first.cursor.symm ▸ step) not null
            last
          have closed := ((run₂.trans other).trans run₃).symm.trans round
          have shut := closing_at (second.cursor.symm ▸ closes) logic rest follows closed stays
            leaves
          obtain ⟨s₄, round', whole⟩ := isNull_round opens one field rest follows went is step not
            null last closes logic shut
          rw [← List.append_nil used] at whole
          exact .isNull one shut fun some => by simpa using behind round' whole some
      | @compare f comparator o _ k _ field token step operand =>
          obtain ⟨s₂, first, run₂⟩ := @condition_opens G s rounds cell depth (expectation isnull)
            ignoreTrailingRpar (subSelect G rounds caller) allowFunctions _ d _ _ opens field one
          have token' := first.cursor.symm ▸ token
          have step' := first.cursor.symm ▸ step
          have other := @behindField_other G s₂ rounds cell (depth + opens') (expectation isnull)
            ignoreTrailingRpar (subSelect G rounds caller) allowFunctions
            (by rw [token']; exact comparator.token_ne.2.1)
            (by rw [token']; exact comparator.token_ne.2.2)
          have taken := (run₂.trans other).symm.trans round
          obtain ⟨null, ⟨more, accepts⟩, x, taken'⟩ :=
            compare_at (went.write first) token' step' operand taken
          obtain ⟨s₃, run₃, second⟩ := @compare_reads G s₂ s₀ cell used more _ _ e x _ comparator o
            allowFunctions ignoreTrailingRpar isnull (depth + opens') (went.write first) cells
            token' step' operand null accepts taken'
          have closed := run₃.symm.trans taken
          obtain ⟨k, rfl⟩ : ∃ k, closes' = k + o.extra := by
            refine closes.extra_le taken' fun rpar step => ?_
            obtain ⟨-, -, same⟩ := logic.not_rpar rest rpar
            have beyond : Passed G.src c' x := same ▸ step.passed (by rw [rpar]; nofun)
            have on := closing_goes.reached closed
            exact stays (beyond.trans (second.cursor ▸ on))
          obtain ⟨y, taken'', shuts⟩ := closes.taken
          obtain rfl := taken'.unique taken''
          have shut := closing_at (second.cursor.symm ▸ shuts) logic rest follows closed stays
            leaves
          obtain ⟨s₄, round', whole⟩ := compare_round opens one field rest follows went token step
            operand closes logic cells null accepts shut
          exact .compare one null accepts shut (behind round' whole)

/-- The loop reads a condition to its end exactly where it gets through it; what it has written
then is that of its terms. -/
theorem conditions_through_iff {caller c' : Cursor} {ts : List Term}
    (conditions : ConditionsAt G.src s.cursor ts c') (follows : Follows ignoreTrailingRpar c')
    (cells : cell < s.cells.length) (before : Reached G.src caller s.cursor)
    (room : left G.src caller < rounds) :
    ((∃ s', parseConditions G (subSelect G rounds caller) rounds cell allowFunctions
        ignoreTrailingRpar s = (.ok (), s') ∧ s'.cursor = c') ↔
      Through G s allowFunctions (c'.token = .rpar) 0 false [] ts) ∧
    ∀ s', parseConditions G (subSelect G rounds caller) rounds cell allowFunctions
      ignoreTrailingRpar s = (.ok (), s') → s'.cursor = c' →
        s'.written = s.written ++ ts.flatMap Term.written := by
  have enough : left G.src s.cursor < rounds := Nat.lt_of_le_of_lt before.left room
  have gets (s' : Parse) (run : parseConditions G (subSelect G rounds caller) rounds cell
      allowFunctions ignoreTrailingRpar s = (.ok (), s')) (ended : s'.cursor = c') :
      Through G s allowFunctions (c'.token = .rpar) 0 false [] ts :=
    through_of_read conditions follows (Writes.refl s).went cells before room enough run ended
  have reads (through : Through G s allowFunctions (c'.token = .rpar) 0 false [] ts) :
      ∃ s' more, parseConditions G (subSelect G rounds caller) rounds cell allowFunctions
        ignoreTrailingRpar s = (.ok (), s') ∧
          Went s c' ([] ++ ts.flatMap Term.written) ([] ++ more) s' :=
    through_reads conditions follows through (Writes.refl s).went cells enough enough
  refine ⟨⟨fun ⟨s', run, ended⟩ => gets s' run ended, fun through => ?_⟩, fun s' run ended => ?_⟩
  · obtain ⟨s', more, run, went⟩ := reads through
    exact ⟨s', run, went.cursor⟩
  · obtain ⟨s₁, more, run', went⟩ := reads (gets s' run ended)
    obtain rfl := (Prod.mk.inj (run'.symm.trans run)).2
    exact went.written

/-! ## What gets through, part by part -/

def Predicate.isAmong : Predicate → Bool
  | .among .. => true
  | _ => false

def Predicate.isIs : Predicate → Bool
  | .isNull .. => true
  | _ => false

/-- A predicate that may stand behind an IS. -/
def Predicate.nullOnly : Predicate → Bool
  | .compare _ _ o => o = .null
  | _ => true

/-- The operand is accepted: a variable has a parameter with room for a placeholder, a call stands
where calls are allowed. -/
def Predicate.Known (G : Given) (s : Parse) (allowFunctions : Bool) : Predicate → Prop
  | .compare _ _ o => ∃ more, Accepts G s allowFunctions [] o more
  | _ => True

/-- The parameter a predicate numbers a placeholder for. -/
def Predicate.param (G : Given) (s : Parse) : Predicate → Option Nat
  | .compare _ _ (.var lexum) => G.hashtableGetChar (names s) lexum
  | _ => none

def Term.extra (t : Term) : Nat :=
  match t.predicate with
  | .compare _ _ o => o.extra
  | _ => 0

def uses (G : Given) (s : Parse) (ts : List Term) : List Nat :=
  ts.filterMap fun t => t.predicate.param G s

/-- No parameter gets more placeholders than it has room for. -/
def Roomy (G : Given) (s : Parse) (used : List Nat) (ts : List Term) : Prop :=
  ∀ x ∈ uses G s ts, ∀ prm, s.dp.uparams[x]? = some prm →
    prm.idxs.length + used.count x + (uses G s ts).count x ≤ PRMIDXLEN

/-- A term the loop takes: at most one parenthesis on either side, an aggregate's beside them, and
behind IN neither a parenthesis nor an operator. -/
structure Term.Fits (G : Given) (s : Parse) (allowFunctions : Bool) (t : Term) : Prop where
  opens : t.opens ≤ 1
  least : t.extra ≤ t.closes
  closes : t.closes ≤ 1 + t.extra
  among : t.predicate.isAmong = true → t.closes = 0 ∧ t.op = none
  known : t.predicate.Known G s allowFunctions

/-- Nothing is closed that is not open; what ends in an operator or an IN list leaves nothing
open, and in another list the last parenthesis is not taken for one of the condition. -/
def Held (enclosed : Prop) : Nat → List Term → Prop
  | depth, [] => depth = 0
  | depth, t :: ts => t.closes ≤ depth + t.opens + t.extra ∧
      if t.predicate.isAmong ∨ t.op.isSome then
        Held enclosed (depth + t.opens + t.extra - t.closes) ts
      else enclosed → depth + t.opens = 0 ∨ t.closes = 1 + t.extra

/-- What the loop gets through from a state on. -/
structure Passable (G : Given) (s : Parse) (allowFunctions : Bool) (enclosed : Prop) (depth : Nat)
    (isnull : Bool) (used : List Nat) (ts : List Term) : Prop where
  fits : ∀ t ∈ ts, t.Fits G s allowFunctions
  linked : ts.Pairwise fun t _ => t.predicate.isAmong = true ∨ t.op.isSome
  first : isnull = true → ∀ t ∈ ts, t.predicate.nullOnly = true
  null : ts.Pairwise fun t u => t.predicate.isIs = true → u.predicate.nullOnly = true
  room : Roomy G s used ts
  held : Held enclosed depth ts

/-- The parameter of the term has room for another placeholder. -/
def HasRoom (G : Given) (s : Parse) (used : List Nat) (p : Predicate) : Prop :=
  ∀ x, p.param G s = some x → ∀ prm, s.dp.uparams[x]? = some prm →
    prm.idxs.length + used.count x < PRMIDXLEN

theorem roomy_cons {used : List Nat} {t : Term} {ts : List Term} :
    Roomy G s used (t :: ts) ↔ HasRoom G s used t.predicate ∧
      Roomy G s (used ++ (t.predicate.param G s).toList) ts := by
  unfold Roomy HasRoom
  cases param : t.predicate.param G s with
  | none =>
      have same : uses G s (t :: ts) = uses G s ts := List.filterMap_cons_none param
      simp [same]
  | some x =>
      have same : uses G s (t :: ts) = x :: uses G s ts := List.filterMap_cons_some param
      rw [same]
      simp only [List.count_cons, List.count_append, Option.toList_some, List.count_nil,
        Option.some.injEq, List.mem_cons]
      constructor
      · intro room
        constructor
        · rintro _ rfl prm found
          have := room x (.inl rfl) prm found
          simp only [beq_self_eq_true, if_true] at this
          omega
        · intro y mem prm found
          have := room y (.inr mem) prm found
          omega
      · rintro ⟨head, tail⟩ y mem prm found
        by_cases later : y ∈ uses G s ts
        · have := tail y later prm found
          omega
        · obtain rfl := mem.resolve_right later
          have := head y rfl prm found
          rw [List.count_eq_zero_of_not_mem later]
          simp only [beq_self_eq_true, if_true]
          omega

/-- What a term and what is behind it must be. -/
theorem passable_cons {enclosed : Prop} {used : List Nat} {t : Term} {ts : List Term} :
    Passable G s allowFunctions enclosed depth isnull used (t :: ts) ↔
      t.Fits G s allowFunctions ∧ (isnull = true → t.predicate.nullOnly = true) ∧
      HasRoom G s used t.predicate ∧ t.closes ≤ depth + t.opens + t.extra ∧
      if t.predicate.isAmong ∨ t.op.isSome then
        Passable G s allowFunctions enclosed (depth + t.opens + t.extra - t.closes)
          (isnull || t.predicate.isIs) (used ++ (t.predicate.param G s).toList) ts
      else ts = [] ∧ (enclosed → depth + t.opens = 0 ∨ t.closes = 1 + t.extra) := by
  constructor
  · rintro ⟨fits, linked, first, null, room, closed, held⟩
    rw [List.forall_mem_cons] at fits
    rw [List.pairwise_cons] at linked null
    rw [roomy_cons] at room
    refine ⟨fits.1, fun is => first is t List.mem_cons_self, room.1, closed, ?_⟩
    split
    next more =>
      rw [if_pos more] at held
      refine ⟨fits.2, linked.2, fun is u mem => ?_, null.2, room.2, held⟩
      rcases Bool.or_eq_true_iff.mp is with is | is
      · exact first is u (List.mem_cons_of_mem _ mem)
      · exact null.1 u mem is
    next more =>
      rw [if_neg more] at held
      refine ⟨?_, held⟩
      cases ts with
      | nil => rfl
      | cons u ts => exact absurd (linked.1 u List.mem_cons_self) more
  · rintro ⟨fits, first, room, closed, held⟩
    split at held
    next more =>
      refine ⟨List.forall_mem_cons.mpr ⟨fits, held.fits⟩,
        List.pairwise_cons.mpr ⟨fun _ _ => more, held.linked⟩, fun is => ?_,
        List.pairwise_cons.mpr ⟨fun u mem is => ?_, held.null⟩, roomy_cons.mpr ⟨room, held.room⟩,
        closed, by rw [if_pos more]; exact held.held⟩
      · exact List.forall_mem_cons.mpr ⟨first is, held.first (by rw [is]; rfl)⟩
      · exact held.first (by rw [is, Bool.or_true]) u mem
    next more =>
      obtain ⟨rfl, outer⟩ := held
      refine ⟨List.forall_mem_cons.mpr ⟨fits, nofun⟩, List.pairwise_cons.mpr ⟨nofun, .nil⟩,
        fun is => List.forall_mem_cons.mpr ⟨first is, nofun⟩,
        List.pairwise_cons.mpr ⟨nofun, .nil⟩, roomy_cons.mpr ⟨room, nofun⟩,
        closed, by rw [if_neg more]; exact outer⟩

theorem Predicate.accepts_iff {f : Field} {comparator : Comparator} {o : Operand}
    {used : List Nat} :
    ((Predicate.compare f comparator o).Known G s allowFunctions ∧
        HasRoom G s used (.compare f comparator o)) ↔
      Accepts G s allowFunctions used o
        ((Predicate.compare f comparator o).param G s).toList := by
  cases o with
  | var lexum =>
      constructor
      · rintro ⟨⟨_, x, ⟨found, prm, at', -⟩, -⟩, room⟩
        exact ⟨x, ⟨found, prm, at', room x found prm at'⟩, by rw [Predicate.param, found]; rfl⟩
      · rintro ⟨x, ⟨found, prm, at', room⟩, -⟩
        refine ⟨⟨[x], x, ⟨found, prm, at', Nat.lt_of_le_of_lt ?_ room⟩, rfl⟩, ?_⟩
        · exact Nat.le_add_right _ _
        · intro y found' prm' at''
          obtain rfl := Option.some.inj (found.symm.trans found')
          obtain rfl := Option.some.inj (at'.symm.trans at'')
          exact room
  | call fn =>
      exact ⟨fun both => ⟨both.1.choose_spec.1, rfl⟩, fun accepts => ⟨⟨[], accepts.1, rfl⟩, nofun⟩⟩
  | _ => exact ⟨fun _ => rfl, fun _ => ⟨⟨[], rfl⟩, nofun⟩⟩

theorem Accepts.param (f : Field) (comparator : Comparator) {o : Operand} {used more : List Nat}
    (accepts : Accepts G s allowFunctions used o more) :
    more = ((Predicate.compare f comparator o).param G s).toList := by
  cases o with
  | var lexum =>
      obtain ⟨x, ⟨found, -⟩, rfl⟩ := accepts
      rw [Predicate.param, found]
      rfl
  | call fn => exact accepts.2
  | _ => exact accepts

/-- The loop gets through what is passable. -/
theorem through_iff {enclosed : Prop} {used : List Nat} {ts : List Term} :
    Through G s allowFunctions enclosed depth isnull used ts ↔
      Passable G s allowFunctions enclosed depth isnull used ts := by
  induction ts generalizing depth isnull used with
  | nil =>
      constructor
      · intro through
        cases through
        exact ⟨nofun, .nil, fun _ => nofun, .nil, nofun, rfl⟩
      · rintro ⟨-, -, -, -, -, rfl⟩
        exact .done
  | cons t ts ih =>
      rw [passable_cons, ← ih]
      constructor
      · intro through
        cases through with
        | among one rest =>
            exact ⟨⟨one, Nat.le_refl 0, Nat.zero_le _, fun _ => ⟨rfl, rfl⟩, trivial⟩, fun _ => rfl,
              nofun, Nat.zero_le _, by simpa [Predicate.isAmong, Predicate.isIs, Predicate.param,
                Term.extra] using rest⟩
        | @isNull _ opens closes _ _ f negated op _ one shut rest =>
            refine ⟨⟨one, Nat.zero_le _, shut.one, nofun, trivial⟩, fun _ => rfl, nofun, shut.fits,
              ?_⟩
            cases op with
            | some b => simpa [Predicate.isIs, Predicate.param, Term.extra] using rest rfl
            | none => exact ⟨shut.last rfl, shut.outer rfl⟩
        | @compare _ opens closes _ _ more f comparator o op _ one null accepts shut rest =>
            obtain rfl := accepts.param f comparator
            obtain ⟨known, room⟩ := Predicate.accepts_iff.mpr accepts
            have one' := shut.one
            have fits := shut.fits
            refine ⟨⟨one, Nat.le_add_left _ _, ?_, nofun, known⟩,
              fun is => decide_eq_true (null is), room, ?_, ?_⟩
            · show closes + o.extra ≤ 1 + o.extra
              omega
            · show closes + o.extra ≤ _ + opens + o.extra
              omega
            · cases op with
              | some b =>
                  have same : depth + opens + o.extra - (closes + o.extra) =
                      depth + opens - closes := by omega
                  simpa [Predicate.isIs, Term.extra, same] using rest rfl
              | none =>
                  refine ⟨shut.last rfl, fun inside => (shut.outer rfl inside).imp_right ?_⟩
                  rintro rfl
                  rfl
      · rintro ⟨fits, null, room, closed, held⟩
        obtain ⟨opens, p, closes, op⟩ := t
        have one := fits.opens
        cases p with
        | among f negated ls =>
            obtain ⟨zero, none⟩ := fits.among rfl
            dsimp only at zero none
            subst zero none
            exact .among one (by simpa [Predicate.isAmong, Predicate.isIs, Predicate.param,
              Term.extra] using held)
        | isNull f negated =>
            cases op with
            | some b =>
                exact .isNull one ⟨fits.closes, closed, nofun, nofun⟩ fun _ => by
                  simpa [Predicate.isIs, Predicate.param, Term.extra] using held
            | none =>
                exact .isNull one ⟨fits.closes, closed, fun _ => held.1, fun _ => held.2⟩ nofun
        | compare f comparator o =>
            have accepts := Predicate.accepts_iff.mp ⟨fits.known, room⟩
            have least : o.extra ≤ closes := fits.least
            have closes' : closes ≤ 1 + o.extra := fits.closes
            have closed' : closes ≤ depth + opens + o.extra := closed
            obtain ⟨k, rfl⟩ : ∃ k, closes = k + o.extra := ⟨closes - o.extra, by omega⟩
            have single : k ≤ 1 := by omega
            have fewer : k ≤ depth + opens := by omega
            cases op with
            | some b =>
                have same : depth + opens + o.extra - (k + o.extra) = depth + opens - k := by omega
                exact .compare one (fun is => of_decide_eq_true (null is)) accepts
                  ⟨single, fewer, nofun, nofun⟩ fun _ => by
                    simpa [Predicate.isIs, Term.extra, same] using held
            | none =>
                refine .compare one (fun is => of_decide_eq_true (null is)) accepts
                  ⟨single, fewer, fun _ => held.1, fun _ inside => (held.2 inside).imp_right ?_⟩
                  nofun
                intro same
                have same : k + o.extra = 1 + o.extra := same
                omega

end Jspp.Sql
