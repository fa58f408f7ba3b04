/-
# Sql.Runs -- every function of the parser is a chain of moves

One lemma for each function: from any state it makes a chain of moves, it does not
use up its rounds where they exceed what is before the cursor, and where it
succeeds it has passed the token it began with, unless it may leave that token
alone.
-/
import Jspp.Sql.Moves

namespace Jspp.Sql

open Jspp.Splc (Bytes lit isdigit isalnum toupper)
open Jspp.Theory
open Jspp.Theory.Attempt (Does Chain fail modify loop)
open Jspp.Sql.Parser

set_option autoImplicit false

variable {G : Given} {α β τ ρ : Type} {s : Parse} {m : Parser α} {f : α → Parser β}
  {Q : β → Parse → Prop} {P : α → Parse → Prop}

/-- The triple of the parser. -/
abbrev Runs (G : Given) (m : Parser α) (s : Parse) (Q : α → Parse → Prop) : Prop :=
  Does (Move G) (· ≠ .rounds) m s Q

/-- A function from which nothing more is wanted. -/
abbrev Goes (G : Given) (m : Parser α) (s : Parse) : Prop := Runs G m s fun _ _ => True

/-- A success has passed the token at hand. -/
abbrev Takes (G : Given) (m : Parser α) (s : Parse) : Prop :=
  Runs G m s fun _ s' => Passed G.src s.cursor s'.cursor

theorem Takes.goes (takes : Takes G m s) : Goes G m s := takes.weaken fun _ _ _ _ => trivial

/-- What has been passed once stays passed. -/
theorem Goes.passed {c : Cursor} (goes : Goes G m s) (first : Passed G.src c s.cursor) :
    Runs G m s fun _ s' => Passed G.src c s'.cursor :=
  goes.weaken fun _ _ chain _ => first.trans (chain_reached chain)

/-- Two functions, one behind the other. -/
theorem Runs.seq (first : Goes G m s)
    (second : ∀ a s', Reached G.src s.cursor s'.cursor → Runs G (f a) s' Q) :
    Runs G (m >>= f) s Q :=
  Does.bind first fun a s' chain _ => second a s' (chain_reached chain)

/-! ## Single steps -/

/-- A token is passed, unless there was none. -/
theorem next_passed (some : s.cursor.token ≠ .eos ∨ (s.next G).cursor.token ≠ .eos) :
    Passed G.src s.cursor (s.next G).cursor :=
  sqltokenizer_passed some

theorem next_reached : Reached G.src s.cursor (s.next G).cursor := sqltokenizer_reached _ _

/-- An error of the code ends the run. -/
theorem stop_runs {errcode : Sqlparseerror} : Runs G (stop errcode : Parser α) s P :=
  Does.fail nofun

theorem fail_runs {errcode : Option Sqlparseerror} :
    Runs G (fail (.error errcode) : Parser α) s P :=
  Does.fail nofun

/-- The token at hand is read, and nothing moves. -/
theorem token_then {f : Sqltoken → Parser β} (more : Runs G (f s.cursor.token) s Q) :
    Runs G (token >>= f) s Q :=
  ⟨more.chain, more.error, more.result⟩

theorem cursor_then {f : Cursor → Parser β} (more : Runs G (f s.cursor) s Q) :
    Runs G (cursor >>= f) s Q :=
  ⟨more.chain, more.error, more.result⟩

theorem pure_then {a : α} (more : Runs G (f a) s Q) : Runs G (pure a >>= f) s Q :=
  ⟨more.chain, more.error, more.result⟩

/-- A call of the tokenizer is one move. -/
theorem next_runs : Runs G (next G) s fun _ s' => s' = s.next G where
  chain := .single (.read s)
  error := fun e same => by
    simp only [next] at same
    split at same
    · cases same
    · rw [← Except.error.inj same]
      nofun
  result := fun _ _ => rfl

theorem next_then {f : Unit → Parser β} (more : Runs G (f ()) (s.next G) Q) :
    Runs G (next G >>= f) s Q :=
  next_runs.bind fun _ s' _ same => by
    subst same
    exact more

theorem next_goes : Goes G (next G) s := next_runs.weaken fun _ _ _ _ => trivial

/-- Before the end of the text it passes a token. -/
theorem next_takes (some : s.cursor.token ≠ .eos) : Takes G (next G) s :=
  next_runs.weaken fun _ _ _ same => same ▸ next_passed (.inl some)

/-- Behind the test the token is known. -/
theorem expect_then {tok : Sqltoken} {errcode : Sqlparseerror} {f : Unit → Parser β}
    (more : s.cursor.token = tok → Runs G (f ()) s Q) :
    Runs G (expect tok errcode >>= f) s Q := by
  refine Does.bind (P := fun _ s' => s' = s ∧ s.cursor.token = tok) ?_ fun _ s' _ same => by
    obtain ⟨rfl, same⟩ := same
    exact more same
  refine token_then (Does.ite (fun same => ?_) fun _ => stop_runs)
  exact Does.pure ⟨rfl, same⟩

theorem expect_goes {tok : Sqltoken} {errcode : Sqlparseerror} :
    Goes G (expect tok errcode) s :=
  token_then (Does.ite (fun _ => Does.pure trivial) fun _ => stop_runs)

/-- An `if` without `else` in front of the rest. -/
theorem only_then {c : Bool} {m : Parser Unit} {f : Unit → Parser β}
    (yes : c = true → Runs G (m >>= f) s Q) (no : c = false → Runs G (f ()) s Q) :
    Runs G (only c m >>= f) s Q := by
  cases c with
  | true => exact yes rfl
  | false => exact pure_then (no rfl)

theorem only_goes {c : Bool} {m : Parser Unit} (yes : c = true → Goes G m s) :
    Goes G (only c m) s := by
  cases c with
  | true => exact yes rfl
  | false => exact Does.pure trivial

/-- An update that is one move, in front of the rest. -/
theorem modify_then {g : Parse → Parse} {f : Unit → Parser β} (move : Move G s (g s))
    (more : Runs G (f ()) (g s) Q) : Runs G (modify g >>= f) s Q :=
  (Does.move (Q := fun _ s' => s' = g s) move rfl).bind fun _ s' _ same => by
    subst same
    exact more

/-- A fixed text is one piece. -/
theorem text_then {t : String} {f : Unit → Parser β} (more : Runs G (f ()) (s.put (.text (lit t))) Q) :
    Runs G (text t >>= f) s Q :=
  modify_then (.text s _) more

theorem text_goes {t : String} : Goes G (text t) s := Does.move (.text s _) trivial

theorem plain_then {f : Unit → Parser β}
    (more : Runs G (f ()) (s.put (.text s.cursor.lexum)) Q) : Runs G (plain >>= f) s Q :=
  modify_then (.text s _) more

/-- A field or a literal is a piece with its place. -/
theorem word_then {f : Unit → Parser β}
    (token : s.cursor.token = .id ∨ s.cursor.token = .num ∨ s.cursor.token = .strlit)
    (more : Runs G (f ()) (s.put (.word s.cursor.start s.cursor.lexum)) Q) :
    Runs G (word >>= f) s Q :=
  modify_then (.word s token) more

/-- So is an operator, by the token it stands for. -/
theorem operator_then {op : Operator} {t : String} {f : Unit → Parser β}
    (token : operatorOf s.cursor.token = some op) (spelled : t ∈ spellings op)
    (more : Runs G (f ()) (s.put (.operator s.cursor.start op (lit t))) Q) :
    Runs G (operator op t >>= f) s Q :=
  modify_then (.operator s op t token spelled) more

/-! ## Loops -/

/-- A round is recorded where the loop goes on. -/
theorem lap_runs {round : Parser (Round τ ρ)} {I : τ → Cursor → Prop} {R : ρ → Parse → Prop}
    (body : Runs G round s fun r s' =>
      match r with
      | .again t => I t s'.cursor ∧ Passed G.src s.cursor s'.cursor
      | .leave r => R r s') :
    Runs G (lap round) s fun r s' =>
      match r with
      | .again t => I t s'.cursor ∧ Passed G.src s.cursor s'.cursor
      | .leave r => R r s' := by
  refine cursor_then (body.bind fun r s' _ ended => ?_)
  cases r with
  | again t => exact modify_then (.lap s' s.cursor ended.2) (Does.pure ended)
  | leave r => exact Does.pure ended

/-- A loop whose rounds keep `I` and pass the token they begin with. -/
theorem repeats_runs {rounds : Nat} {round : τ → Parser (Round τ ρ)} {I : τ → Cursor → Prop}
    {R : ρ → Parse → Prop} {t : τ} (start : I t s.cursor) (room : left G.src s.cursor < rounds)
    (body : ∀ t s, I t s.cursor → Runs G (round t) s fun r s' =>
      match r with
      | .again t => I t s'.cursor ∧ Passed G.src s.cursor s'.cursor
      | .leave r => R r s') :
    Runs G (repeats rounds round t) s R := by
  refine Does.loop (I := fun t s => I t s.cursor) (m := fun s => left G.src s.cursor)
    (fun t s holds => ?_) start room
  refine (lap_runs (body t s holds)).weaken fun r s' _ ended => ?_
  cases r with
  | again t => exact ⟨ended.1, ended.2.left⟩
  | leave r => exact ended

/-- A loop over the current token ends where each round passes it. -/
theorem loopWhile_goes {rounds : Nat} {holds : Sqltoken → Bool} {round : Parser Unit}
    (room : left G.src s.cursor < rounds)
    (body : ∀ s', Reached G.src s.cursor s'.cursor → holds s'.cursor.token = true →
      Takes G round s') :
    Goes G (loopWhile rounds holds round) s := by
  refine repeats_runs (I := fun _ c => Reached G.src s.cursor c) (Reached.refl _ _) room
    fun _ s' reached => token_then (Does.ite (fun yes => ?_) fun _ => Does.pure trivial)
  refine (body s' reached yes).bind fun _ s'' _ passed => Does.pure ?_
  exact ⟨reached.trans passed.reached, passed⟩

/-! ## Literals, fields and functions -/

/-- A literal, the text with its quotes. -/
theorem parseLit_takes (inlike : Bool) : Takes G (parseLit G inlike) s := by
  refine token_then ?_
  split
  case h_1 token =>
    have ending {s' : Parse} (same : s'.cursor = s.cursor) :
        Runs G (do text "'"; next G : Parser Unit) s'
          fun _ s'' => Passed G.src s.cursor s''.cursor :=
      text_then (same ▸ next_takes (by rw [Parse.put_cursor, same, token]; nofun))
    refine text_then (word_then (.inr (.inr token)) (only_then (fun _ => ?_) fun _ => ?_))
    · exact text_then (ending rfl)
    · exact ending rfl
  case h_2 token =>
    exact word_then (.inr (.inl token)) (next_takes (by rw [Parse.put_cursor, token]; nofun))
  case h_3 => exact fail_runs

theorem getLast?_changeLast {γ : Type} (g : γ → γ) (l : List γ) :
    (changeLast g l).getLast? = l.getLast?.map g := by
  induction l with
  | nil => rfl
  | cons a l ih =>
      cases l with
      | nil => rfl
      | cons b l =>
          have more : changeLast g (b :: l) ≠ [] := by cases l <;> simp [changeLast]
          obtain ⟨c, rest, same⟩ := List.exists_cons_of_ne_nil more
          show (a :: changeLast g (b :: l)).getLast? = _
          rw [same, List.getLast?_cons_cons, ← same, ih, List.getLast?_cons_cons]

/-- The last item is a field of the select `cell`, still without an alias. -/
def Open (cell : Nat) (s : Parse) : Prop :=
  ∃ name, s.items.getLast? = some (cell, { field := some name, named := none })

/-- The name of the last item grows. -/
theorem extendField_then {cp : Cursor → Bytes} {cell : Nat} {f : Unit → Parser β} (last : Open cell s)
    (more : ∀ s', s'.cursor = s.cursor → Open cell s' → Runs G (f ()) s' Q) :
    Runs G (extendField cp >>= f) s Q := by
  obtain ⟨name, last⟩ := last
  refine modify_then (.extend s (cp s.cursor) cell name last)
    (more _ rfl ⟨name ++ cp s.cursor, ?_⟩)
  show (changeLast _ s.items).getLast? = _
  rw [getLast?_changeLast, last]
  rfl

/-- A field behind its first name. -/
theorem dotted_runs {inselect : Option Nat} {c : Cursor} (passed : Passed G.src c s.cursor)
    (last : ∀ cell ∈ inselect, Open cell s) :
    Runs G (do
      let tok ← token
      if tok ≠ .dot then pure ()
      else do
        text "."
        only inselect.isSome (extendField fun _ => lit ".")
        next G
        only inselect.isSome (extendField fun c => c.lexum)
        expect .id .expDotField
        word
        next G : Parser Unit) s fun _ s' =>
      Passed G.src c s'.cursor ∧ ∀ cell ∈ inselect, Open cell s' := by
  refine token_then (Does.ite (fun _ => Does.pure ⟨passed, last⟩) fun _ => ?_)
  have ending {s' : Parse} (passed : Passed G.src c s'.cursor) (last : ∀ cell ∈ inselect, Open cell s') :
      Runs G (do
        expect .id .expDotField
        word
        next G : Parser Unit) s' fun _ s'' =>
        Passed G.src c s''.cursor ∧ ∀ cell ∈ inselect, Open cell s'' :=
    expect_then fun token => word_then (.inl token) (next_runs.weaken fun _ s'' _ same => by
      subst same
      exact ⟨passed.trans next_reached, last⟩)
  refine text_then ?_
  cases inselect with
  | none => exact only_then nofun fun _ => next_then (only_then nofun fun _ =>
      ending (passed.trans next_reached) nofun)
  | some cell =>
      have last := last cell rfl
      refine only_then (fun _ => extendField_then last fun s₁ same last => ?_) nofun
      refine next_then (only_then (fun _ => extendField_then last fun s₂ same₂ last => ?_) nofun)
      refine ending ?_ fun cell' mem => Option.mem_some_iff.mp mem ▸ last
      rw [same₂]
      have here : Passed G.src c s₁.cursor := by rw [same]; exact passed
      exact here.trans next_reached

/-- A field is passed, and named in the list of its select. -/
theorem parseField_runs (inselect : Option Nat) :
    Runs G (parseField G inselect) s fun _ s' =>
      Passed G.src s.cursor s'.cursor ∧ ∀ cell ∈ inselect, Open cell s' := by
  refine token_then (Does.ite (fun _ => fail_runs) fun token => ?_)
  have token : s.cursor.token = .id := not_not.mp token
  have some : s.cursor.token ≠ .eos := by rw [token]; nofun
  cases inselect with
  | none =>
      exact pure_then (word_then (.inl token) (next_then
        (dotted_runs (next_passed (.inl some)) nofun)))
  | some cell =>
      refine modify_then (.field s cell) (word_then (.inl token) (next_then ?_))
      refine dotted_runs (next_passed (.inl some)) fun cell' mem => ?_
      obtain rfl := Option.mem_some_iff.mp mem
      exact ⟨s.cursor.lexum, List.getLast?_concat ..⟩

theorem parseField_takes (inselect : Option Nat) : Takes G (parseField G inselect) s :=
  (parseField_runs inselect).weaken fun _ _ _ ended => ended.1

/-- The name of a function and what is in its parentheses. -/
theorem functionCall_goes (lexum : Bytes) : Goes G (functionCall G lexum) s := by
  refine Does.ite (fun _ => ?_) fun _ => Does.ite (fun _ => ?_) fun _ =>
    Does.ite (fun _ => ?_) fun _ => stop_runs
  · exact text_then (next_then expect_goes)
  · exact text_then (next_then (expect_then fun _ => next_then expect_goes))
  · exact plain_then (text_then (next_then (expect_then fun _ => next_then
      (Runs.seq (parseField_takes none).goes fun _ _ _ => text_goes))))

/-- A function is passed with its parenthesis. -/
theorem parseFunction_takes : Takes G (parseFunction G) s := by
  refine expect_then fun token => modify_then (.raise s token) (cursor_then ?_)
  refine Runs.seq (functionCall_goes _) fun _ s₁ raised => ?_
  have reached : Reached G.src s.cursor s₁.cursor := ⟨raised.pos, raised.left⟩
  -- the call behind the function's name cannot be at the end of the text
  refine next_then (expect_then fun close => ?_)
  have passed : Passed G.src s₁.cursor (s₁.next G).cursor :=
    next_passed (.inr (by rw [close]; nofun))
  exact next_goes.passed (reached.passed passed)

theorem fieldOrFunction_takes : Takes G (fieldOrFunction G) s :=
  token_then (Does.ite (fun _ => parseField_takes none) fun _ => parseFunction_takes)

/-- What may follow an item of a list: a comma, and what is read behind it. -/
theorem comma_goes {m : Parser Unit} (more : ∀ s' : Parse, s'.cursor = s.cursor → Goes G m s') :
    Goes G (do
      let tok ← token
      if tok ≠ .comma then pure ()
      else m : Parser Unit) s :=
  token_then (Does.ite (fun _ => Does.pure trivial) fun _ => more s rfl)

variable {rounds : Nat}

/-- The list that is always refused. -/
theorem parseFieldFnList_goes : Goes G (parseFieldFnList G rounds) s := by
  refine token_then (Does.ite (fun _ => stop_runs) fun both => ?_)
  have id : s.cursor.token = .id := by by_contra other; exact both (.inl other)
  exact absurd (.inr (by rw [id]; nofun)) both

/-- GROUP BY may be missing. -/
theorem parseGroupBy_goes : Goes G (parseGroupBy G rounds) s :=
  token_then (Does.ite (fun _ => Does.pure trivial) fun _ =>
    next_then (expect_then fun _ => next_then (text_then parseFieldFnList_goes)))

/-- The direction may be missing. -/
theorem direction_goes : Goes G (direction G) s := by
  refine token_then ?_
  split
  · exact text_then next_goes
  · exact text_then next_goes
  · exact text_goes

/-- ORDER BY: each round passes an element. -/
theorem parseOrderBy_goes (room : left G.src s.cursor < rounds) : Goes G (parseOrderBy G rounds) s := by
  refine token_then (Does.ite (fun _ => Does.pure trivial) fun _ =>
    next_then (expect_then fun _ => next_then (text_then (expect_then fun _ => ?_))))
  have reached : Reached G.src s.cursor ((s.next G).next G).cursor := next_reached.trans next_reached
  refine loopWhile_goes (Nat.lt_of_le_of_lt reached.left room) fun s₁ _ _ => ?_
  refine fieldOrFunction_takes.bind fun _ s₂ _ passed => Goes.passed ?_ passed
  refine Runs.seq direction_goes fun _ _ _ => comma_goes fun _ _ =>
    next_then (text_then (token_then (Does.ite (fun _ => stop_runs) fun _ => Does.pure trivial)))

/-! ## Conditions -/

theorem next_ok (ok : (sqltokenizer G.src s.cursor).1 = true) : next G s = (.ok (), s.next G) := by
  simp [next, Parse.next, ok]

theorem next_failed (failed : ¬ (sqltokenizer G.src s.cursor).1 = true) :
    next G s = (.error (.error (some .errSyntax)), s.next G) := by
  simp [next, Parse.next, failed]

/-- IN is appended when the parenthesis behind it has been read. -/
theorem inHead_runs (token : s.cursor.token = .in) : Runs G (inHead G) s fun _ s' =>
    s' = ((s.next G).next G).put (.operator s.cursor.start .in (lit " IN ")) := by
  have one : Chain (Move G) s (s.next G) := .single (.read s)
  have failing {e : Sqlparseerror} {s' : Parse} (chain : Chain (Move G) s s')
      (run : inHead G s = (.error (.error (some e)), s')) : Runs G (inHead G) s fun _ s' =>
        s' = ((s.next G).next G).put (.operator s.cursor.start .in (lit " IN ")) := {
    chain := by rw [run]; exact chain
    error := fun e' same => by
      rw [run] at same
      rw [← Except.error.inj same]
      nofun
    result := fun _ same => by rw [run] at same; cases same }
  have run : inHead G s = (do
      next G
      expect .lpar .expLpar
      next G
      append fun _ => .operator s.cursor.start .in (lit " IN ") : Parser Unit) s := rfl
  by_cases ok : (sqltokenizer G.src s.cursor).1 = true
  case neg => exact failing one (run.trans (Attempt.bind_error (next_failed ok)))
  rw [Attempt.bind_ok (next_ok ok)] at run
  by_cases lpar : (s.next G).cursor.token = .lpar
  case neg =>
    have other : expect .lpar .expLpar (s.next G) = (.error (.error (some .expLpar)), s.next G) := by
      show (if _ then _ else _ : Parser Unit) (s.next G) = _
      rw [if_neg lpar]
      rfl
    exact failing one (run.trans (Attempt.bind_error other))
  have open' : expect .lpar .expLpar (s.next G) = (.ok (), s.next G) := by
    show (if _ then _ else _ : Parser Unit) (s.next G) = _
    rw [if_pos lpar]
    rfl
  rw [Attempt.bind_ok open'] at run
  by_cases ok' : (sqltokenizer G.src (s.next G).cursor).1 = true
  case neg =>
    exact failing (one.tail (.read _)) (run.trans (Attempt.bind_error (next_failed ok')))
  rw [Attempt.bind_ok (next_ok ok')] at run
  have move : Move G s (((s.next G).next G).put (.operator s.cursor.start .in (lit " IN "))) :=
    .list s token
  exact {
    chain := by rw [run]; exact .single move
    error := fun _ same => by rw [run] at same; cases same
    result := fun _ _ => by rw [run]; rfl }

/-- IN and its parenthesis. -/
theorem inHead_takes (token : s.cursor.token = .in) : Takes G (inHead G) s :=
  (inHead_runs token).weaken fun _ s' _ same => by
    have first : Passed G.src s.cursor (s.next G).cursor :=
      next_passed (.inl (by rw [token]; nofun))
    rw [same]
    exact first.trans next_reached

section Conditions

variable {select : Parser Unit} {cell : Nat} {caller : Cursor}
variable (sub : ∀ s, Passed G.src caller s.cursor → Goes G select s)
include sub

/-- A sub-select or literals. -/
theorem inItems_goes (passed : Passed G.src caller s.cursor) (room : left G.src s.cursor < rounds) :
    Goes G (inItems G select rounds) s := by
  refine token_then (Does.ite (fun _ => sub s passed) fun _ => ?_)
  refine loopWhile_goes room fun s₁ _ _ => ?_
  refine (parseLit_takes false).bind fun _ s₂ _ passed => Goes.passed ?_ passed
  exact comma_goes fun _ _ => next_then (text_then (token_then
    (Does.ite (fun _ => Does.pure trivial) fun _ => stop_runs)))

/-- The whole IN list, if there is one. -/
theorem parseInList_goes (here : Reached G.src caller s.cursor) (room : left G.src s.cursor < rounds) :
    Goes G (parseInList G select rounds) s := by
  refine token_then (Does.ite (fun _ => Does.pure trivial) fun token => ?_)
  refine (inHead_takes (not_not.mp token)).bind fun _ s₁ _ passed => text_then ?_
  refine Runs.seq (inItems_goes sub (here.passed passed) (Nat.lt_trans passed.left room)) fun _ _ _ =>
    expect_then fun _ => next_then text_goes

omit sub in
/-- A variable is numbered, or it is undeclared. -/
theorem placeholder_runs {inlike : Bool} (token : s.cursor.token = .var) :
    Runs G (placeholder G cell inlike) s fun _ s' => s'.cursor = s.cursor := by
  cases found : G.hashtableGetChar (names s) s.cursor.lexum with
  | none =>
      have same : placeholder G cell inlike s = (.error (.error (some .expUndefparam)), s) := by
        simp [placeholder, found]
      exact {
        chain := by rw [same]
        error := fun _ eq => by
          rw [same] at eq
          rw [← Except.error.inj eq]
          simp
        result := fun _ eq => by rw [same] at eq; cases eq }
  | some x =>
      cases numbered : setPrmIdx cell x inlike s with
      | none =>
          have same : placeholder G cell inlike s = (.error (.error (some .outOfMem)), s) := by
            simp [placeholder, found, numbered]
          exact {
            chain := by rw [same]
            error := fun _ eq => by
              rw [same] at eq
              rw [← Except.error.inj eq]
              simp
            result := fun _ eq => by rw [same] at eq; cases eq }
      | some s' =>
          have same : placeholder G cell inlike s = (.ok (), s') := by
            simp [placeholder, found, numbered]
          exact {
            chain := by
              rw [same]
              exact .single (.number s s' cell x inlike token found numbered)
            error := fun _ eq => by rw [same] at eq; cases eq
            result := fun _ _ => by rw [same]; exact setPrmIdx_cursor numbered }

omit sub in
/-- The right-hand side of a comparison. -/
theorem operand_takes {inlike allowFunctions : Bool} :
    Takes G (operand G cell inlike allowFunctions) s := by
  refine token_then ?_
  split
  case h_1 token =>
    refine (placeholder_runs token).bind fun _ s₁ _ same => ?_
    have some : s₁.cursor.token ≠ .eos := by rw [same, token]; nofun
    exact same ▸ next_takes some
  case h_2 => exact parseLit_takes _
  case h_3 => exact parseLit_takes _
  case h_4 => exact parseField_takes none
  case h_5 => exact Does.ite (fun _ => parseFunction_takes) fun _ => stop_runs
  case h_6 token => exact text_then (next_takes (by rw [Parse.put_cursor, token]; nofun))
  case h_7 => exact stop_runs

omit sub in
/-- The operator is appended as it was read. -/
theorem comparison_runs : Runs G comparison s fun _ s' =>
    ∃ op, ∃ t ∈ spellings op, operatorOf s.cursor.token = some op ∧
      s' = s.put (.operator s.cursor.start op (lit t)) := by
  refine token_then ?_
  split
  case h_9 => exact stop_runs
  all_goals
    rename_i token
    have operator := congrArg operatorOf token
    exact operator_then operator (List.mem_singleton_self _)
      (Does.pure ⟨_, _, List.mem_singleton_self _, operator, rfl⟩)

omit sub in
theorem comparison_goes : Goes G comparison s := comparison_runs.weaken fun _ _ _ _ => trivial

omit sub in
/-- What stands behind IS. -/
theorem expected_goes {expect : Sqltoken} : Goes G (expected G expect) s := by
  refine token_then (Does.ite (fun _ => Does.pure trivial) fun _ => Does.ite (fun both => ?_)
    fun _ => stop_runs)
  exact operator_then (by rw [both.2]; rfl) (by decide) next_goes

omit sub in
/-- AND or OR, if one follows. -/
theorem logic_goes {paradepth : Nat} {expect : Sqltoken} : Goes G (logic G paradepth expect) s :=
  token_then (Does.ite (fun _ => plain_then (next_then (text_then (Does.pure trivial))))
    fun _ => Does.pure trivial)

omit sub in
/-- A parenthesis may close in front of it. -/
theorem closing_goes {ignoreTrailingRpar : Bool} {paradepth : Nat} {expect : Sqltoken} :
    Goes G (closing G ignoreTrailingRpar paradepth expect) s := by
  refine token_then (Does.ite (fun _ => logic_goes) fun _ => Does.ite (fun _ => ?_) fun _ => ?_)
  · exact Does.ite (fun _ => Does.pure trivial) fun _ => stop_runs
  · exact text_then (next_then logic_goes)

omit sub in
/-- A comparison behind its field. -/
theorem predicate_goes {allowFunctions ignoreTrailingRpar : Bool} {paradepth : Nat}
    {expect : Sqltoken} :
    Goes G (predicate G cell allowFunctions ignoreTrailingRpar paradepth expect) s := by
  refine token_then (Runs.seq comparison_goes fun inlike _ _ => next_then
    (Runs.seq expected_goes fun _ _ _ => Runs.seq operand_takes.goes fun _ _ _ => ?_))
  exact only_then (fun _ => text_then (text_then closing_goes)) fun _ => text_then closing_goes

/-- NOT and the IN list. -/
theorem inPredicate_goes (here : Reached G.src caller s.cursor)
    (room : left G.src s.cursor < rounds) : Goes G (inPredicate G select rounds) s := by
  refine token_then (only_then (fun token => ?_) fun _ => parseInList_goes sub here room)
  have token : s.cursor.token = .not := by simpa using token
  have negated : Goes G (do operator .not " NOT "; next G : Parser Unit) s :=
    operator_then (by rw [token]; rfl) (by decide) next_goes
  exact Runs.seq negated fun _ _ reached =>
    parseInList_goes sub (here.trans reached) (Nat.lt_of_le_of_lt reached.left room)

/-- A condition passes the field it begins with. -/
theorem condition_takes {allowFunctions ignoreTrailingRpar : Bool} {paradepth : Nat}
    {expect : Sqltoken} (here : Reached G.src caller s.cursor)
    (room : left G.src s.cursor < rounds) :
    Takes G (condition G select rounds cell allowFunctions ignoreTrailingRpar paradepth expect)
      s := by
  have opened : Goes G (opening G paradepth) s :=
    token_then (Does.ite (fun _ => text_then (next_then (Does.pure trivial)))
      fun _ => Does.pure trivial)
  refine Runs.seq opened fun _ s₁ reached => ?_
  refine (parseField_takes none).bind fun _ s₂ _ passed => Goes.passed ?_ (reached.passed passed)
  refine token_then (Does.ite (fun _ => ?_) fun _ => predicate_goes)
  have behind := reached.trans passed.reached
  exact Runs.seq (inPredicate_goes sub (here.trans behind) (Nat.lt_of_le_of_lt behind.left room))
    fun _ _ _ => Does.pure trivial

/-- Each round passes the field of its predicate. -/
theorem parseConditions_goes {allowFunctions ignoreTrailingRpar : Bool}
    (here : Reached G.src caller s.cursor) (room : left G.src s.cursor < rounds) :
    Goes G (parseConditions G select rounds cell allowFunctions ignoreTrailingRpar) s := by
  refine repeats_runs (I := fun _ c => Reached G.src s.cursor c) (Reached.refl _ _) room
    fun ⟨paradepth, expect⟩ s₁ reached => token_then (Does.ite (fun _ => ?_) fun _ =>
      Does.ite (fun _ => stop_runs) fun _ => Does.pure trivial)
  refine (condition_takes sub (here.trans reached) (Nat.lt_of_le_of_lt reached.left room)).weaken
    fun r s₂ _ passed => ?_
  cases r with
  | again => exact ⟨reached.trans passed.reached, passed⟩
  | leave => trivial

omit sub in
theorem thenValue_goes : Goes G (thenValue G) s := by
  refine token_then ?_
  split
  · exact (parseLit_takes false).goes
  · exact (parseLit_takes false).goes
  · exact parseFunction_takes.goes
  · exact stop_runs

/-- A branch of CASE passes its first word. -/
theorem branch_takes {elsecount : Nat} (some : s.cursor.token ≠ .eos)
    (here : Reached G.src caller s.cursor) (room : left G.src s.cursor < rounds) :
    Takes G (branch G select rounds cell elsecount) s := by
  refine token_then (text_then (plain_then (Does.ite (fun _ => ?_) fun _ => ?_)))
  · have rest (s' : Parse) (same : s'.cursor = s.cursor) : Runs G
        (do text " "; next G; parseLit G false; pure (elsecount + 1) : Parser Nat) s'
        fun _ s'' => Passed G.src s.cursor s''.cursor := by
      refine text_then (next_then (Goes.passed ?_ (same ▸ next_passed (.inl (same ▸ some)))))
      exact Runs.seq (parseLit_takes false).goes fun _ _ _ => Does.pure trivial
    refine only_then (fun _ => ?_) fun _ => rest _ rfl
    exact stop_runs.bind fun _ _ _ no => False.elim no
  · have first : Passed G.src s.cursor (s.next G).cursor := next_passed (.inl some)
    refine text_then (next_then (Goes.passed ?_ first))
    refine Runs.seq (parseConditions_goes sub (here.trans first.reached)
      (Nat.lt_trans first.left room)) fun _ _ _ => expect_then fun _ => text_then (next_then ?_)
    exact Runs.seq thenValue_goes fun _ _ _ => Does.pure trivial

/-- CASE with its branches. -/
theorem parseCase_takes (some : s.cursor.token ≠ .eos) (here : Reached G.src caller s.cursor)
    (room : left G.src s.cursor < rounds) : Takes G (parseCase G select rounds cell) s := by
  have first : Passed G.src s.cursor (s.next G).cursor := next_passed (.inl some)
  refine text_then (next_then (Goes.passed (expect_then fun _ => ?_) first))
  refine Runs.seq ?_ fun _ _ _ => expect_then fun _ => text_then next_goes
  refine repeats_runs (I := fun _ c => Reached G.src s.cursor c) first.reached
    (Nat.lt_trans first.left room) fun elsecount s₁ reached =>
      token_then (Does.ite (fun token => ?_) fun _ => Does.pure trivial)
  have some : s₁.cursor.token ≠ .eos := by rcases token with token | token <;> rw [token] <;> nofun
  refine (branch_takes sub some (here.trans reached) (Nat.lt_of_le_of_lt reached.left room)).bind
    fun _ s₂ _ passed => Does.pure ⟨reached.trans passed.reached, passed⟩

/-- WHERE may be missing. -/
theorem parseWhere_goes {ignoreTrailingRpar : Bool} (here : Reached G.src caller s.cursor)
    (room : left G.src s.cursor < rounds) :
    Goes G (parseWhere G select rounds cell ignoreTrailingRpar) s :=
  token_then (Does.ite (fun _ => Does.pure trivial) fun _ => text_then (next_then
    (parseConditions_goes sub (here.trans next_reached)
      (Nat.lt_of_le_of_lt next_reached.left room))))

/-- So may HAVING. -/
theorem parseHaving_goes (here : Reached G.src caller s.cursor)
    (room : left G.src s.cursor < rounds) : Goes G (parseHaving G select rounds cell) s :=
  token_then (Does.ite (fun _ => Does.pure trivial) fun _ => text_then (next_then
    (parseConditions_goes sub (here.trans next_reached)
      (Nat.lt_of_le_of_lt next_reached.left room))))

/-! ## Tables -/

omit sub in
theorem isJoin_ne {tok : Sqltoken} (join : isJoin tok = true) : tok ≠ .eos := by
  rintro rfl
  cases join

omit sub in
theorem define_then {f : Unit → Parser β} (more : ∀ t, Runs G (f ()) (s.put (.text t)) Q) :
    Runs G (define >>= f) s Q :=
  modify_then (.text s _) (more _)

omit sub in
theorem defineAlias_then {f : Unit → Parser β} (more : ∀ t, Runs G (f ()) (s.put (.text t)) Q) :
    Runs G (defineAlias >>= f) s Q :=
  modify_then (.text s _) (more _)

/-- A join passes its first word. -/
theorem parseJoinLhs_takes (some : s.cursor.token ≠ .eos) (here : Reached G.src caller s.cursor)
    (room : left G.src s.cursor < rounds) : Takes G (parseJoinLhs G select rounds cell) s := by
  have first : Passed G.src s.cursor (s.next G).cursor := next_passed (.inl some)
  refine plain_then (text_then (next_then (Goes.passed ?_ first)))
  refine expect_then fun _ => next_then (expect_then fun _ => define_then fun _ => text_then
    (defineAlias_then fun _ => next_then (expect_then fun _ => text_then (next_then ?_))))
  have behind := ((first.reached.trans next_reached).trans next_reached).trans
    (next_reached (G := G) (s := ((s.next G).next G).next G))
  exact Runs.seq (parseConditions_goes sub (here.trans behind)
    (Nat.lt_of_le_of_lt behind.left room)) fun _ _ _ => text_goes

/-- A table passes its name. -/
theorem fromTable_takes (some : s.cursor.token ≠ .eos) (here : Reached G.src caller s.cursor)
    (room : left G.src s.cursor < rounds) : Takes G (fromTable G select rounds cell) s := by
  have first : Passed G.src s.cursor (s.next G).cursor := next_passed (.inl some)
  refine define_then fun _ => text_then (defineAlias_then fun _ => text_then (next_then
    (Goes.passed (token_then (Does.ite (fun _ => ?_) fun _ => Does.ite (fun join => ?_)
      fun _ => Does.pure trivial)) first)))
  · exact text_then (next_then (expect_then fun _ => Does.pure trivial))
  · exact Runs.seq (parseJoinLhs_takes sub (isJoin_ne join) (here.trans first.reached)
      (Nat.lt_trans first.left room)).goes fun _ _ _ => Does.pure trivial

/-- The tables, and the joins behind them. -/
theorem parseFrom_goes (here : Reached G.src caller s.cursor)
    (room : left G.src s.cursor < rounds) : Goes G (parseFrom G select rounds cell) s := by
  refine text_then (expect_then fun _ => next_then (expect_then fun _ => ?_))
  refine Runs.seq ?_ fun _ s₁ reached => ?_
  · refine repeats_runs (I := fun _ c => Reached G.src s.cursor c) next_reached
      (Nat.lt_of_le_of_lt next_reached.left room) fun _ s₁ reached =>
        token_then (Does.ite (fun token => ?_) fun _ => Does.pure trivial)
    refine (fromTable_takes sub (by rw [token]; nofun) (here.trans reached)
      (Nat.lt_of_le_of_lt reached.left room)).weaken fun r s₂ _ passed => ?_
    cases r with
    | again => exact ⟨reached.trans passed.reached, passed⟩
    | leave => trivial
  · have reached : Reached G.src s.cursor s₁.cursor :=
      next_reached.trans reached
    refine loopWhile_goes (Nat.lt_of_le_of_lt reached.left room) fun s₂ more join => ?_
    have reached := reached.trans more
    exact parseJoinLhs_takes sub (isJoin_ne join) (here.trans reached)
      (Nat.lt_of_le_of_lt reached.left room)

/-! ## SELECT -/

/-- A field is left open for its alias. -/
theorem itemBody_takes (here : Reached G.src caller s.cursor) (room : left G.src s.cursor < rounds) :
    Runs G (itemBody G select rounds cell) s fun addedfieldname s' =>
      Passed G.src s.cursor s'.cursor ∧ (addedfieldname = true → Open cell s') := by
  have done {s' : Parse} (passed : Passed G.src s.cursor s'.cursor) :
      Runs G (pure false : Parser Bool) s' fun addedfieldname s'' =>
        Passed G.src s.cursor s''.cursor ∧ (addedfieldname = true → Open cell s'') :=
    Does.pure ⟨passed, nofun⟩
  refine token_then ?_
  split
  case h_1 => exact parseFunction_takes.bind fun _ _ _ passed => done passed
  case h_2 token =>
    exact (parseCase_takes sub (by rw [token]; nofun) here room).bind fun _ _ _ passed =>
      done passed
  case h_3 token =>
    refine text_then (word_then (.inr (.inr token)) (text_then (next_then (done ?_))))
    exact next_passed (s := s) (.inl (by rw [token]; nofun))
  case h_4 =>
    exact (parseField_runs (some cell)).bind fun _ _ _ ended =>
      Does.pure ⟨ended.1, fun _ => ended.2 cell rfl⟩
  case h_5 => exact (parseLit_takes false).bind fun _ _ _ passed => done passed

omit sub in
theorem itemName_goes {addedfieldname : Bool} (last : addedfieldname = true → Open cell s) :
    Goes G (itemName G cell addedfieldname) s := by
  refine token_then (Does.ite (fun _ => next_then (expect_then fun _ => ?_)) fun _ =>
    Does.ite (fun _ => Does.pure trivial) fun _ => Does.move (.generated s cell) trivial)
  cases addedfieldname with
  | true =>
      obtain ⟨name, last⟩ := last rfl
      exact modify_then (.rename _ cell name last) next_goes
  | false => exact modify_then (.entitle _ cell) next_goes

/-- An item of a select passes its first token. -/
theorem item_takes (here : Reached G.src caller s.cursor) (room : left G.src s.cursor < rounds) :
    Takes G (item G select rounds cell) s := by
  refine (itemBody_takes sub here room).bind fun _ s₁ _ ended => Goes.passed ?_ ended.1
  refine Runs.seq (itemName_goes ended.2) fun _ s₂ _ => token_then ?_
  have comma : Goes G (do next G; text ", " : Parser Unit) s₂ := next_then text_goes
  exact only_then (fun _ => Runs.seq comma fun _ _ _ => text_goes) fun _ => text_goes

/-- The list passes a token where the statement has one. -/
theorem fieldList_goes (here : Reached G.src caller s.cursor) (room : left G.src s.cursor < rounds) :
    Goes G (fieldList G select rounds cell) s := by
  refine token_then (Does.ite (fun _ => stop_runs) fun _ => Does.ite (fun _ => ?_) fun _ => ?_)
  · exact next_then text_goes
  · exact loopWhile_goes room fun s₁ reached _ => item_takes sub (here.trans reached)
      (Nat.lt_of_le_of_lt reached.left room)

/-- The clauses of a select, in their order. -/
theorem selectBody_goes (here : Reached G.src caller s.cursor) (room : left G.src s.cursor < rounds) :
    Goes G (selectBody G select rounds cell) s := by
  have clauses {s₁ : Parse} (reached : Reached G.src s.cursor s₁.cursor) : Goes G (do
      fieldList G select rounds cell
      parseFrom G select rounds cell
      parseWhere G select rounds cell true
      parseGroupBy G rounds
      parseHaving G select rounds cell
      parseOrderBy G rounds
      text " FOR BROWSE ACCESS " : Parser Unit) s₁ := by
    have roomy {s' : Parse} (reached : Reached G.src s.cursor s'.cursor) :
        left G.src s'.cursor < rounds := Nat.lt_of_le_of_lt reached.left room
    refine Runs.seq (fieldList_goes sub (here.trans reached) (roomy reached)) fun _ s₂ two => ?_
    have reached := reached.trans two
    refine Runs.seq (parseFrom_goes sub (here.trans reached) (roomy reached)) fun _ s₃ three => ?_
    have reached := reached.trans three
    refine Runs.seq (parseWhere_goes sub (here.trans reached) (roomy reached)) fun _ s₄ four => ?_
    have reached := reached.trans four
    refine Runs.seq parseGroupBy_goes fun _ s₅ five => ?_
    have reached := reached.trans five
    refine Runs.seq (parseHaving_goes sub (here.trans reached) (roomy reached)) fun _ s₆ six => ?_
    exact Runs.seq (parseOrderBy_goes (roomy (reached.trans six))) fun _ _ _ => text_goes
  have distinct : Goes G (do text "DISTINCT "; next G : Parser Unit) s := text_then next_goes
  exact token_then (only_then (fun _ => Runs.seq distinct fun _ _ reached => clauses reached)
    fun _ => clauses (Reached.refl _ _))

end Conditions

theorem called_goes {caller : Cursor} {select : Parser α} (passed : Passed G.src caller s.cursor)
    (goes : ∀ s' : Parse, s'.cursor = s.cursor → Goes G select s') :
    Goes G (called caller select) s :=
  modify_then (.call s caller passed) (goes _ rfl)

theorem newCell_then {f : Nat → Parser β}
    (more : Runs G (f s.cells.length) { s with cells := s.cells ++ [0] } Q) :
    Runs G (newCell >>= f) s Q :=
  ⟨(Relation.ReflTransGen.single (.cell s)).trans more.chain, more.error, more.result⟩

theorem setType_then {op : Sqlop} {f : Unit → Parser β}
    (more : Runs G (f ()) { s with dp := { s.dp with stmttype := op } } Q) :
    Runs G (setType op >>= f) s Q :=
  modify_then (.define s _ ⟨rfl, rfl, rfl⟩) more

/-- The rounds left to a nested select suffice, since it starts behind its caller. -/
theorem parseSelect_goes (rounds : Nat) : ∀ (ignoreTrailingRpar : Bool) (s : Parse),
    left G.src s.cursor + 1 < rounds → Goes G (parseSelect G rounds ignoreTrailingRpar) s := by
  induction rounds with
  | zero => exact fun _ _ room => absurd room (Nat.not_lt_zero _)
  | succ rounds ih =>
      intro ignoreTrailingRpar s room
      have nested (ignore : Bool) (s' : Parse) (passed : Passed G.src s.cursor s'.cursor) :
          Goes G (called s.cursor (parseSelect G rounds ignore)) s' :=
        called_goes passed fun s'' same => ih ignore s'' (by
          have := passed.left
          rw [same]
          omega)
      have first : Reached G.src s.cursor (s.next G).cursor := next_reached
      refine cursor_then (newCell_then (setType_then (text_then (next_then ?_))))
      refine Runs.seq (selectBody_goes (nested true) first
        (Nat.lt_of_le_of_lt first.left (by omega)))
        fun _ s₁ reached => token_then (Does.ite (fun both => ?_) fun _ => Does.pure trivial)
      have some : s₁.cursor.token ≠ .eos := by rw [both.2]; nofun
      exact text_then (next_then (nested ignoreTrailingRpar _
        ((first.trans reached).passed (next_passed (.inl some)))))

/-! ## INSERT, UPDATE and DELETE -/

/-- The columns of INSERT. -/
theorem insertFields_goes (room : left G.src s.cursor < rounds) :
    Goes G (insertFields G rounds) s := by
  refine loopWhile_goes room fun s₁ _ token => ?_
  have token : s₁.cursor.token = .id := by simpa using token
  refine word_then (.inl token) (next_then (Goes.passed (comma_goes fun _ _ => ?_)
    (next_passed (s := s₁) (.inl (by rw [token]; nofun)))))
  exact next_then (expect_then fun _ => text_goes)

/-- A value, for a token that starts one. -/
theorem insertValue_takes (starts : startsValue s.cursor.token = true) :
    Takes G (insertValue G) s := by
  refine token_then ?_
  split
  case h_1 => exact parseFunction_takes
  case h_2 token =>
    exact modify_then (.free s token) (next_takes (by show s.cursor.token ≠ _; rw [token]; nofun))
  case h_3 token =>
    exact text_then (word_then (.inr (.inr token)) (text_then
      (next_takes (by show s.cursor.token ≠ _; rw [token]; nofun))))
  case h_4 func var strlit =>
    have token : s.cursor.token = .id ∨ s.cursor.token = .num := by
      simp only [startsValue, decide_eq_true_eq] at starts
      tauto
    refine word_then (by tauto) (next_takes ?_)
    show s.cursor.token ≠ _
    rcases token with token | token <;> rw [token] <;> nofun

/-- Its values. -/
theorem insertValues_goes (room : left G.src s.cursor < rounds) :
    Goes G (insertValues G rounds) s := by
  refine loopWhile_goes room fun s₁ _ starts => ?_
  refine (insertValue_takes starts).bind fun _ s₂ _ passed =>
    Goes.passed (comma_goes fun _ _ => ?_) passed
  exact next_then (token_then (Does.ite (fun _ => text_goes) fun _ => stop_runs))

/-- INSERT as a whole. -/
theorem parseInsert_goes (room : left G.src s.cursor < rounds) : Goes G (parseInsert G rounds) s := by
  refine setType_then (expect_then fun _ => next_then (expect_then fun _ => next_then
    (expect_then fun _ => text_then (define_then fun _ => next_then (expect_then fun _ =>
      text_then (next_then ?_))))))
  have reached := (next_reached.trans (next_reached.trans (next_reached.trans
    (next_reached (G := G) (s := ((s.next G).next G).next G)))) :
      Reached G.src s.cursor ((((s.next G).next G).next G).next G).cursor)
  refine Runs.seq (insertFields_goes (Nat.lt_of_le_of_lt reached.left room)) fun _ s₁ one => ?_
  refine expect_then fun _ => text_then (next_then (expect_then fun _ => next_then
    (expect_then fun _ => text_then (next_then ?_))))
  have reached := (reached.trans one).trans (next_reached.trans (next_reached.trans
    (next_reached (G := G) (s := (s₁.next G).next G))))
  exact Runs.seq (insertValues_goes (Nat.lt_of_le_of_lt reached.left room)) fun _ _ _ =>
    expect_then fun _ => text_then next_goes

theorem assigned_goes : Goes G (assigned G) s := by
  refine token_then ?_
  split
  case h_1 token => exact Does.move (.word s (.inr (.inl token))) trivial
  case h_2 token => exact text_then (word_then (.inr (.inr token)) text_goes)
  case h_3 token => exact Does.move (.free s token) trivial
  case h_4 => exact parseFunction_takes.goes
  case h_5 => exact stop_runs

/-- An assignment of UPDATE passes its field. -/
theorem assignment_takes : Takes G (assignment G) s := by
  refine (parseField_takes none).bind fun _ s₁ _ passed => Goes.passed ?_ passed
  refine expect_then fun _ => text_then (next_then (Runs.seq assigned_goes fun _ s₂ _ =>
    text_then (next_then (comma_goes fun _ _ => ?_))))
  exact text_then (next_then expect_goes)

theorem subSelect_goes {caller : Cursor} (room : left G.src caller < rounds) (s' : Parse)
    (passed : Passed G.src caller s'.cursor) : Goes G (subSelect G rounds caller) s' :=
  called_goes passed fun s'' same => parseSelect_goes rounds true s'' (by
    have := passed.left
    rw [same]
    omega)

/-- UPDATE, with the condition behind its assignments. -/
theorem parseUpdate_goes (room : left G.src s.cursor < rounds) : Goes G (parseUpdate G rounds) s := by
  refine cursor_then (newCell_then (setType_then (expect_then fun _ => text_then (next_then
    (expect_then fun _ => define_then fun _ => next_then (expect_then fun _ => text_then
      (next_then ?_)))))))
  have reached := (next_reached.trans (next_reached.trans
    (next_reached (G := G) (s := (s.next G).next G))) :
      Reached G.src s.cursor (((s.next G).next G).next G).cursor)
  refine Runs.seq (loopWhile_goes (Nat.lt_of_le_of_lt reached.left room)
    fun _ _ _ => assignment_takes) fun _ s₁ one => ?_
  have reached := reached.trans one
  exact parseWhere_goes (subSelect_goes room) reached (Nat.lt_of_le_of_lt reached.left room)

/-- DELETE, with its tables and condition. -/
theorem parseDelete_goes (room : left G.src s.cursor < rounds) : Goes G (parseDelete G rounds) s := by
  refine cursor_then (newCell_then (setType_then (expect_then fun _ => next_then (text_then ?_))))
  have first : Reached G.src s.cursor (s.next G).cursor := next_reached
  refine Runs.seq (parseFrom_goes (subSelect_goes room) first
    (Nat.lt_of_le_of_lt first.left room)) fun _ s₁ one => ?_
  have reached := first.trans one
  exact parseWhere_goes (subSelect_goes room) reached (Nat.lt_of_le_of_lt reached.left room)

/-! ## CREATE PROCEDURE -/

theorem addParam_goes : Goes G (addParam G) s := by
  have same : addParam G s = if G.hashtableAdd (names s) s.cursor.lexum then _ else _ := rfl
  by_cases added : G.hashtableAdd (names s) s.cursor.lexum = true
  · rw [if_pos added] at same
    exact {
      chain := by
        rw [same]
        exact .single (.param s .int 0)
      error := fun _ eq => by rw [same] at eq; cases eq
      result := fun _ _ => trivial }
  · rw [if_neg added] at same
    exact {
      chain := by rw [same]
      error := fun _ eq => by
        rw [same] at eq
        rw [← Except.error.inj eq]
        nofun
      result := fun _ _ => trivial }

theorem setParam_goes {type : Datatype} {len : Cursor → Int} : Goes G (setParam type len) s :=
  Does.move (.type s type (len s.cursor)) trivial

theorem paramType_goes : Goes G (paramType G) s := by
  refine token_then ?_
  split
  case h_4 =>
    exact next_then (expect_then fun _ => next_then (expect_then fun _ =>
      Runs.seq setParam_goes fun _ _ _ => next_then expect_goes))
  case h_5 => exact stop_runs
  all_goals exact setParam_goes

/-- A parameter of the procedure passes its name. -/
theorem param_takes (token : s.cursor.token = .var) : Takes G (param G) s := by
  have added : Runs G (addParam G) s fun _ s' => s'.cursor = s.cursor := by
    refine ⟨addParam_goes.chain, addParam_goes.error, fun _ same => ?_⟩
    unfold addParam at same ⊢
    split at same
    · rename_i added
      simp only [added, if_true]
    · cases same
  refine added.bind fun _ s₁ _ same => ?_
  have first : Passed G.src s.cursor (s₁.next G).cursor :=
    same ▸ next_passed (.inl (by rw [same, token]; nofun))
  refine next_then (Goes.passed (Runs.seq paramType_goes fun _ _ _ => next_then ?_) first)
  exact token_then (Does.ite (fun _ => next_goes) fun _ => Does.pure trivial)

theorem parseParamList_goes (room : left G.src s.cursor < rounds) :
    Goes G (parseParamList G rounds) s := by
  refine next_then (token_then ?_)
  have first : Reached G.src s.cursor (s.next G).cursor := next_reached
  have list {s₁ : Parse} {c : Bool} (reached : Reached G.src s.cursor s₁.cursor) : Goes G (do
      loopWhile rounds (fun tok => tok = .var) (param G)
      only c do
        expect .rpar .expRpar
        next G
      expect .as .expAs
      next G : Parser Unit) s₁ := by
    refine Runs.seq (loopWhile_goes (Nat.lt_of_le_of_lt reached.left room)
      fun _ _ token => param_takes (by simpa using token)) fun _ s₂ _ => ?_
    refine Runs.seq (only_goes fun _ => expect_then fun _ => next_goes) fun _ _ _ => ?_
    exact expect_then fun _ => next_goes
  refine only_then (fun _ => next_then (list (first.trans next_reached))) fun _ => list first

/-- The head of the procedure. -/
theorem parseHead_goes (room : left G.src s.cursor < rounds) : Goes G (parseHead G rounds) s := by
  refine next_then (expect_then fun _ => next_then (expect_then fun _ => next_then
    (expect_then fun _ => modify_then (.define _ _ ⟨rfl, rfl, rfl⟩) (next_then (expect_then
      fun _ => next_then (token_then ?_))))))
  have reached := (next_reached.trans (next_reached.trans (next_reached.trans (next_reached.trans
    (next_reached (G := G) (s := (((s.next G).next G).next G).next G))))) :
      Reached G.src s.cursor (((((s.next G).next G).next G).next G).next G).cursor)
  have list {s₁ : Parse} (same : s₁.cursor = (((((s.next G).next G).next G).next G).next G).cursor) :
      Goes G (do
        parseParamList G rounds
        modify fun s => { s with dp := { s.dp with codepos := s.cursor.pos } } : Parser Unit) s₁ :=
    Runs.seq (parseParamList_goes (Nat.lt_of_le_of_lt (same ▸ reached.left) room)) fun _ _ _ =>
      Does.move (.define _ _ ⟨rfl, rfl, rfl⟩) trivial
  refine only_then (fun _ => stop_runs.bind fun _ _ _ no => False.elim no) fun _ => ?_
  exact modify_then (.define _ _ ⟨rfl, rfl, rfl⟩) (list rfl)

theorem skip_goes : Goes G (skip G) s := Does.move (.read s) trivial

/-- The statement, which may be missing. -/
theorem parseCode_goes (room : left G.src s.cursor + 1 < rounds) : Goes G (parseCode G rounds) s := by
  have room' : left G.src s.cursor < rounds := by omega
  have statements (tok : Sqltoken) : Goes G (statement G rounds tok) s := by
    unfold statement
    split
    · exact parseSelect_goes rounds false s room
    · exact parseInsert_goes room'
    · exact parseUpdate_goes room'
    · exact parseDelete_goes room'
    · exact stop_runs
  refine token_then (Does.ite (fun _ => Does.pure trivial) fun _ => ?_)
  refine Runs.seq (statements _) fun _ s₁ _ => token_then ?_
  exact Runs.seq (only_goes fun _ => skip_goes) fun _ _ _ => expect_goes

/-- The whole run, with enough rounds. -/
theorem parseSQL_runs (room : 2 * G.src.length + 1 < rounds) :
    Goes G (fun _ => parseSQL G rounds) Parser.start := by
  have start : left G.src Parser.start.cursor = 2 * G.src.length := by
    simp [left, Parser.start]
  have run : Goes G (do parseHead G rounds; parseCode G rounds : Parser Unit) Parser.start :=
    Runs.seq (parseHead_goes (by omega)) fun _ s₁ reached =>
      parseCode_goes (by have := reached.left; omega)
  exact ⟨run.chain, run.error, run.result⟩

/-! ## The parser ends inside its text -/

/-- From `c` to `c'` a token is consumed: the position has moved on, or the token at `c` was
the last one. -/
def Consumed (c c' : Cursor) : Prop := c.pos < c'.pos ∨ c.token ≠ .eos ∧ c'.token = .eos

theorem Passed.consumed {src : Bytes} {c c' : Cursor} (passed : Passed src c c') :
    Consumed c c' := by
  obtain ⟨pos, less⟩ := passed
  rcases Nat.lt_or_eq_of_le pos with further | same
  · exact .inl further
  · rw [Sql.left, Sql.left, same] at less
    refine .inr ⟨?_, ?_⟩
    · intro token
      rw [if_pos token] at less
      omega
    · by_contra token
      rw [if_neg token] at less
      split at less <;> omega

/-- What holds in every state of a run: the position is inside the text, and the rounds and
nested selects so far have consumed tokens. -/
structure Inside (src : Bytes) (s : Parse) : Prop where
  pos : s.cursor.pos ≤ src.length
  laps : ∀ lap ∈ s.laps, Consumed lap.1 lap.2
  calls : ∀ call ∈ s.calls, Consumed call.1 call.2

theorem setPrmIdx_records {cell x : Nat} {inlike : Bool} {s s' : Parse}
    (numbered : setPrmIdx cell x inlike s = some s') : s'.laps = s.laps ∧ s'.calls = s.calls := by
  unfold setPrmIdx at numbered
  split at numbered
  case h_1 =>
    split at numbered
    · exact Option.some.inj numbered ▸ ⟨rfl, rfl⟩
    · cases numbered
  case h_2 => cases numbered

theorem Move.inside {s s' : Parse} (move : Move G s s') (inside : Inside G.src s) :
    Inside G.src s' := by
  have more {list : List (Cursor × Cursor)} {c c' : Cursor} (passed : Passed G.src c c')
      (all : ∀ p ∈ list, Consumed p.1 p.2) : ∀ p ∈ list ++ [(c, c')], Consumed p.1 p.2 := by
    intro p mem
    rcases List.mem_append.mp mem with old | new
    · exact all p old
    · rw [List.mem_singleton.mp new]
      exact passed.consumed
  cases move with
  | read => exact ⟨sqltokenizer_inside inside.pos, inside.laps, inside.calls⟩
  | list token =>
      exact ⟨sqltokenizer_inside (sqltokenizer_inside inside.pos), inside.laps, inside.calls⟩
  | number s' cell x inlike token found numbered =>
      have records := setPrmIdx_records numbered
      exact ⟨setPrmIdx_cursor numbered ▸ inside.pos, records.1 ▸ inside.laps,
        records.2 ▸ inside.calls⟩
  | lap before passed => exact ⟨inside.pos, more passed inside.laps, inside.calls⟩
  | call caller passed => exact ⟨inside.pos, inside.laps, more passed inside.calls⟩
  | _ => exact ⟨inside.pos, inside.laps, inside.calls⟩

theorem parseSQL_inside (room : 2 * G.src.length + 1 < rounds) :
    Inside G.src (parseSQL G rounds).2 := by
  have first : Inside G.src Parser.start := {
    pos := Nat.zero_le _
    laps := fun _ mem => nomatch mem
    calls := fun _ mem => nomatch mem }
  exact Chain.invariant (I := Inside G.src) (fun _ _ move => move.inside)
    (parseSQL_runs room).chain first

end Jspp.Sql
