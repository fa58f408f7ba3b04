/-
# Splc.Arguments -- EXEC statements and their arguments

A text `EXEC name l1, l2, …` with literals in the order they are given, read
where strings are copied exactly (`Copying.Exact`).

The request has the arguments of the text in few cases only.  An empty string
has no lexeme, and a number is one run of digits: a sign or a dot is punctuation,
and every run of digits passes for a fraction.  Punctuation is glued together, so
a comma is one only with a blank behind it; and behind the last token the text
must end, for blanks are no token.

* `Literal`, `Argument`, `ExecText`: the texts.
* `reads_plain`, `reads_digits`, `reads_sign`: what the lexer makes of a literal.
* `argument_iff`: one round of the loop on an argument, and the rounds behind it.
* `delivered_iff`: exactly which texts deliver their arguments.
-/
import Jspp.Splc.Lexing

namespace Jspp.Splc

set_option autoImplicit false

/-! ## The texts -/

/-- The characters `isspace` takes. -/
def Spaces (text : Bytes) : Prop := ∀ c ∈ text, c ∈ ([9, 10, 11, 12, 13, 32] : Bytes)

def Digits (text : Bytes) : Prop := text ≠ [] ∧ ∀ c ∈ text, isdigit c = true

inductive Literal where
  /-- A string between two quotes. -/
  | string (quote : UInt8) (content : Bytes)
  | integer (negative : Bool) (digits : Bytes)
  | fraction (negative : Bool) (whole decimals : Bytes)

namespace Literal

def sign (negative : Bool) : Bytes := if negative then [45] else []

def text : Literal → Bytes
  | string quote content => quote :: (content ++ [quote])
  | integer negative digits => sign negative ++ digits
  | fraction negative whole decimals => sign negative ++ (whole ++ 46 :: decimals)

def decimal (digits : Bytes) : Nat := digits.foldl (fun n c => n * 10 + (c.toNat - 48)) 0

/-- The value of the literal, with its type. -/
def value : Literal → Value
  | string _ content => .str (stringTakeOwnership content)
  | integer negative digits =>
      .int (if negative then -(decimal digits : Int) else (decimal digits : Int))
  | fraction negative whole decimals => .real (sign negative ++ (whole ++ 46 :: decimals))

def item (l : Literal) : RequestItem := { m_name := none, m_data := l.value }

def WellFormed : Literal → Prop
  | string quote content => (quote = 39 ∨ quote = 34) ∧ quote ∉ content ∧ 0 ∉ content
  | integer negative digits =>
      Digits digits ∧ (decimal digits : Int) ≤ if negative then 2 ^ 31 else 2 ^ 31 - 1
  | fraction _ whole decimals => Digits whole ∧ Digits decimals

/-- A string that is not empty. -/
def Plain : Literal → Prop
  | string _ content => content ≠ []
  | _ => False

end Literal

/-- A literal, the blanks before it and those before the comma; the first has no comma. -/
structure Argument where
  comma : Bytes
  before : Bytes
  literal : Literal

/-- The text of the arguments behind the first, up to the end. -/
def behindText (last : Bytes) : List Argument → Bytes
  | [] => last
  | a :: rest => a.comma ++ 44 :: (a.before ++ (a.literal.text ++ behindText last rest))

structure ExecText where
  /-- The blanks before EXEC, behind it, and at the end. -/
  lead : Bytes
  gap : Bytes
  last : Bytes
  /-- The name, one word or two with a dot between them. -/
  name : Bytes
  member : Option Bytes
  arguments : List Argument

namespace ExecText

def fullName (t : ExecText) : Bytes := t.name ++ t.member.elim [] (46 :: ·)

def argumentText (t : ExecText) : Bytes :=
  match t.arguments with
  | [] => t.last
  | a :: rest => a.before ++ (a.literal.text ++ behindText t.last rest)

def sql (t : ExecText) : Str :=
  stringTakeOwnership (t.lead ++ (lit "EXEC" ++ (t.gap ++ (t.fullName ++ t.argumentText))))

/-- Names are words, and what would run into the word before it stands behind a blank. -/
structure WellFormed (t : ExecText) : Prop where
  blank : Spaces t.lead ∧ Spaces t.gap ∧ Spaces t.last
  apart : t.gap ≠ []
  named : t.name ≠ [] ∧ ∀ c ∈ t.name, Sqllex.wordCh c = true
  member : ∀ word ∈ t.member, word ≠ [] ∧ ∀ c ∈ word, Sqllex.wordCh c = true
  arguments : ∀ a ∈ t.arguments, Spaces a.comma ∧ Spaces a.before ∧ a.literal.WellFormed
  first : ∀ a ∈ t.arguments.head?, a.before = [] → ∀ c ∈ a.literal.text.head?, isdigit c = false

/-- The name is not a keyword or a number, and a second word does not begin with `_`. -/
def Named (t : ExecText) : Prop :=
  sqlToken (stringTakeOwnership t.name) = .id ∧
    ∀ word ∈ t.member, sqlToken (stringTakeOwnership word) = .id ∧ word.headD 0 ≠ 95

/-- Every literal is a string that is not empty, every comma has a blank behind it, and
nothing stands behind the last token. -/
def Plain (t : ExecText) : Prop :=
  t.Named ∧ (∀ a ∈ t.arguments, a.literal.Plain) ∧ (∀ a ∈ t.arguments.tail, a.before ≠ []) ∧
    t.last = []

/-- The request has the name and the arguments of the text, the last one first. -/
def Delivers [Copying] (t : ExecText) : Prop :=
  ∃ req, requestNewFromExecSql t.sql = some (some req) ∧ req.m_name.m_cstr = t.fullName ∧
    req.m_itemCount = t.arguments.length ∧
      req.m_items = (t.arguments.map fun a => a.literal.item).reverse

end ExecText

/-! ## Tokens that are no words -/

/-- A space is neither a word nor punctuation. -/
theorem space_kind {c : UInt8} (space : c ∈ ([9, 10, 11, 12, 13, 32] : Bytes)) :
    Sqllex.isBlank c = true ∧ ispunct c = false ∧ Sqllex.wordCh c = false ∧ c ≠ 46 := by
  have all : ([9, 10, 11, 12, 13, 32] : Bytes).all (fun c =>
      Sqllex.isBlank c && !ispunct c && !Sqllex.wordCh c && c != 46) = true := by decide
  simpa [and_assoc] using List.all_eq_true.mp all c space

/-- Quotes and the sign are punctuation. -/
theorem symbol_kind {c : UInt8} (symbol : c ∈ ([34, 39, 45] : Bytes)) :
    ispunct c = true ∧ Sqllex.wordCh c = false ∧ c ≠ 46 ∧ c ≠ 41 ∧ c ≠ 0 := by
  have all : ([34, 39, 45] : Bytes).all (fun c =>
      ispunct c && !Sqllex.wordCh c && c != 46 && c != 41 && c != 0) = true := by decide
  simpa [and_assoc] using List.all_eq_true.mp all c symbol

theorem blank_of_spaces {text : Bytes} (spaces : Spaces text) :
    ∀ c ∈ text, Sqllex.isBlank c = true := fun c mem => (space_kind (spaces c mem)).1

theorem toupper_low {c : UInt8} (low : c.toNat < 65) : (toupper c).toNat = c.toNat := by
  rw [toNat_toupper, if_neg (by omega)]

theorem sameText_exact {a b : Bytes} (same : sameText false a b = true) : a = b := by
  induction a generalizing b with
  | nil => cases b <;> simp_all [sameText]
  | cons x a ih =>
      cases b with
      | nil => simp [sameText] at same
      | cons y b =>
          simp only [sameText, sameCh, Bool.and_eq_true] at same
          rw [ih same.2, eq_of_beq same.1]

/-- Every keyword begins with a letter, and no operator with a digit; the comma and the dot are
alone. -/
theorem token_heads : (∀ entry ∈ words, lit entry.1 ≠ [] ∧ 65 ≤ ((lit entry.1).headD 0).toNat ∧
      ((lit entry.1).headD 0).toNat ≤ 90) ∧
    ∀ entry ∈ operators, isdigit ((lit entry.1).headD 0) = false ∧ lit entry.1 ≠ [45] ∧
      ((lit entry.1).headD 0 = 44 ∨ (lit entry.1).headD 0 = 46 → (lit entry.1).length = 1) := by
  decide +kernel

/-- No keyword begins below the letters. -/
theorem sqlToken_low {c : UInt8} {cs : Bytes} (low : c.toNat < 65)
    (other : ∀ entry ∈ operators, lit entry.1 ≠ c :: cs) :
    sqlToken (stringTakeOwnership (c :: cs)) =
      if stringIsNumeric (stringTakeOwnership (c :: cs)) then .num else .id := by
  have noOperator : operators.find? (fun entry =>
      stringIsEqual (stringTakeOwnership (c :: cs)) (lit entry.1) false) = none := by
    refine List.find?_eq_none.mpr fun entry mem same => other entry mem ?_
    exact (sameText_exact same).symm
  have noWord : words.find? (fun entry =>
      stringIsEqual (stringTakeOwnership (c :: cs)) (lit entry.1) true) = none := by
    refine List.find?_eq_none.mpr fun entry mem same => ?_
    obtain ⟨some, least, most⟩ := token_heads.1 entry mem
    obtain ⟨k, ks, eq⟩ := List.exists_cons_of_ne_nil some
    rw [eq] at same least most
    have first : sameCh true c k = true := (Bool.and_eq_true _ _ ▸ same).1
    have upper : (toupper c).toNat = (toupper k).toNat :=
      congrArg UInt8.toNat (by simpa [sameCh] using first)
    have kept : (toupper k).toNat = k.toNat := by
      rw [toNat_toupper, if_neg]
      have most : k.toNat ≤ 90 := most
      omega
    rw [toupper_low low, kept] at upper
    have least : 65 ≤ k.toNat := least
    omega
  rw [sqlToken, noOperator, noWord]

theorem array_whole (cp : Bytes) :
    (stringTakeOwnership cp).array.take (stringTakeOwnership cp).m_len = cp := by
  simp [Str.array, stringTakeOwnership]

theorem floatText_digits {digits : Bytes} (all : ∀ c ∈ digits, isdigit c = true) :
    floatText false digits = true := by
  induction digits with
  | nil => rfl
  | cons c digits ih =>
      rw [floatText, if_pos (all c List.mem_cons_self)]
      exact ih fun c mem => all c (List.mem_cons_of_mem _ mem)

/-- Every run of digits passes for a fraction. -/
theorem float_of_digits {digits : Bytes} (all : ∀ c ∈ digits, isdigit c = true) :
    stringIsFloat (stringTakeOwnership digits) = true := by
  rw [stringIsFloat, array_whole]
  exact floatText_digits all

theorem sqlToken_digits {digits : Bytes} (digit : Digits digits) :
    sqlToken (stringTakeOwnership digits) = .num := by
  obtain ⟨c, cs, rfl⟩ := List.exists_cons_of_ne_nil digit.1
  have first := digit.2 c List.mem_cons_self
  have low : c.toNat < 65 := by
    simp only [isdigit, Bool.and_eq_true, decide_eq_true_eq, UInt8.le_iff_toNat_le] at first
    have most : c.toNat ≤ 57 := first.2
    omega
  have other : ∀ entry ∈ operators, lit entry.1 ≠ c :: cs := by
    intro entry mem same
    have symbol := (token_heads.2 entry mem).1
    rw [same] at symbol
    exact absurd first (by rw [show isdigit c = false from symbol]; simp)
  rw [sqlToken_low low other, stringIsNumeric, float_of_digits digit.2, Bool.or_true, if_pos rfl]

/-- Punctuation that is no operator passes for an identifier. -/
theorem sqlToken_punct {c : UInt8} {cs : Bytes} (low : c.toNat < 65) (digit : isdigit c = false)
    (other : ∀ entry ∈ operators, lit entry.1 ≠ c :: cs) (dot : c = 46 → floatText true cs = false) :
    sqlToken (stringTakeOwnership (c :: cs)) = .id := by
  have int : stringIsInt (stringTakeOwnership (c :: cs)) = false := by
    rw [stringIsInt, array_whole]
    simp [digit]
  have float : stringIsFloat (stringTakeOwnership (c :: cs)) = false := by
    rw [stringIsFloat, array_whole, floatText, digit]
    split
    case isTrue impossible => cases impossible
    case isFalse =>
      split
      case isTrue is => exact dot is.1
      case isFalse => rfl
  rw [sqlToken_low low other, stringIsNumeric, int, float]
  rfl

/-- Commas and dots that have run into something else. -/
theorem glued_other {c : UInt8} {cs : Bytes} (comma : c = 44 ∨ c = 46) (more : cs ≠ []) :
    ∀ entry ∈ operators, lit entry.1 ≠ c :: cs := by
  intro entry mem same
  have length := (token_heads.2 entry mem).2.2 (by rw [same]; exact comma)
  rw [same, List.length_cons] at length
  exact more (List.length_eq_zero_iff.mp (by omega))

/-- Punctuation ends where something else follows. -/
theorem punctRun_single {c x : UInt8} {more : Bytes} (punct : ispunct c = true)
    (other : ispunct x = false) : Sqllex.punctRun (c :: x :: more) = [c] := by
  have behind : Sqllex.punctRun (x :: more) = [] := by
    unfold Sqllex.punctRun
    rw [other]
    rfl
  rw [Sqllex.punctRun, if_pos punct]
  split
  · rfl
  · rw [behind]

/-- Punctuation runs into punctuation. -/
theorem punctRun_glued {c x : UInt8} (more : Bytes) (punct : ispunct c = true)
    (punct' : ispunct x = true) (open' : x ≠ 41) :
    ∃ run, Sqllex.punctRun (c :: x :: more) = c :: x :: run := by
  obtain ⟨run, inner⟩ : ∃ run, Sqllex.punctRun (x :: more) = x :: run := by
    unfold Sqllex.punctRun
    rw [if_pos punct']
    exact ⟨_, rfl⟩
  rw [Sqllex.punctRun, if_pos punct]
  exact ⟨run, by rw [if_neg open', inner]⟩

theorem ispunct_digit {c : UInt8} (digit : isdigit c = true) : ispunct c = false := by
  simp [ispunct, isalnum, digit]

/-- The tokens of a comma, a dot and EXEC. -/
theorem sqlToken_known : sqlToken (stringTakeOwnership (cstr [44])) = .comma ∧
    sqlToken (stringTakeOwnership (cstr [46])) = .dot ∧
    sqlToken (stringTakeOwnership (lit "EXEC")) = .exec := by
  decide +kernel

/-! ## What the lexer makes of a literal -/

/-- A literal begins with a quote or a sign, or with a digit if it is no string. -/
theorem literal_head {l : Literal} (formed : l.WellFormed) : ∃ c more, l.text = c :: more ∧
    ((isdigit c = true ∧ ¬ l.Plain) ∨ c ∈ ([34, 39, 45] : Bytes)) := by
  have signed (negative : Bool) (digits more : Bytes) (digit : Digits digits) :
      ∃ c more', Literal.sign negative ++ (digits ++ more) = c :: more' ∧
        (isdigit c = true ∨ c ∈ ([34, 39, 45] : Bytes)) := by
    cases negative with
    | true => exact ⟨45, digits ++ more, rfl, .inr (by decide)⟩
    | false =>
        obtain ⟨d, ds, rfl⟩ := List.exists_cons_of_ne_nil digit.1
        exact ⟨d, ds ++ more, rfl, .inl (digit.2 d List.mem_cons_self)⟩
  cases l with
  | string quote content =>
      refine ⟨quote, content ++ [quote], rfl, .inr ?_⟩
      rcases formed.1 with rfl | rfl <;> decide
  | integer negative digits =>
      obtain ⟨c, more, head, kind⟩ := signed negative digits [] formed.1
      rw [List.append_nil] at head
      exact ⟨c, more, head, kind.imp_left fun digit => ⟨digit, id⟩⟩
  | fraction negative whole decimals =>
      obtain ⟨c, more, head, kind⟩ := signed negative whole (46 :: decimals) formed.1
      exact ⟨c, more, head, kind.imp_left fun digit => ⟨digit, id⟩⟩

/-- The text behind a literal begins with a blank or a comma, if there is any. -/
theorem behind_outside {last : Bytes} {rest : List Argument} (blank : Spaces last)
    (blanks : ∀ a ∈ rest, Spaces a.comma) : ∀ c ∈ (behindText last rest).head?, Sqllex.wordCh c = false := by
  have spaces : ∀ c ∈ ([9, 10, 11, 12, 13, 32] : Bytes), Sqllex.wordCh c = false :=
    fun _ space => (space_kind space).2.2.1
  intro c same
  cases rest with
  | nil => exact spaces c (blank c (List.mem_of_mem_head? same))
  | cons a rest =>
      cases comma : a.comma with
      | nil =>
          rw [behindText, comma] at same
          rw [← Option.some.inj same]
          decide
      | cons b bs =>
          rw [behindText, comma] at same
          rw [← Option.some.inj same]
          exact spaces b (blanks a List.mem_cons_self b (by rw [comma]; exact List.mem_cons_self))

/-- What an argument of a text promises of itself. -/
def Argument.WellFormed (a : Argument) : Prop :=
  Spaces a.comma ∧ Spaces a.before ∧ a.literal.WellFormed

theorem behindText_length (last : Bytes) (rest : List Argument) :
    rest.length ≤ (behindText last rest).length := by
  induction rest with
  | nil => exact Nat.zero_le _
  | cons a rest ih =>
      simp only [behindText, List.length_append, List.length_cons]
      omega

/-- Behind the name comes no word and no dot. -/
theorem argument_outside {t : ExecText} (formed : t.WellFormed) :
    ∀ c ∈ t.argumentText.head?, Sqllex.wordCh c = false ∧ c ≠ 46 := by
  have spaces : ∀ c ∈ ([9, 10, 11, 12, 13, 32] : Bytes), Sqllex.wordCh c = false ∧ c ≠ 46 :=
    fun _ space => (space_kind space).2.2
  have arguments := formed.arguments
  have first := formed.first
  unfold ExecText.argumentText
  revert arguments first
  cases t.arguments with
  | nil =>
      intro _ _ c same
      exact spaces c (formed.blank.2.2 c (List.mem_of_mem_head? same))
  | cons a rest =>
      intro arguments first c same
      obtain ⟨-, before, literal⟩ := arguments a List.mem_cons_self
      have first := first a rfl
      dsimp only at same
      cases blanks : a.before with
      | cons b bs =>
          rw [blanks] at same before
          rw [← Option.some.inj same]
          exact spaces b (before b List.mem_cons_self)
      | nil =>
          obtain ⟨x, more, head, kind⟩ := literal_head literal
          rw [blanks, head] at same
          obtain rfl : x = c := Option.some.inj same
          rcases kind with ⟨digit, -⟩ | symbol
          · rw [first blanks x (by rw [head]; rfl)] at digit
            cases digit
          · exact ⟨(symbol_kind symbol).2.1, (symbol_kind symbol).2.2.1⟩

theorem arguments_room (t : ExecText) : t.arguments.length + 1 ≤ t.sql.m_len + 1 := by
  have size : t.arguments.length ≤ t.argumentText.length + 1 := by
    unfold ExecText.argumentText
    cases t.arguments with
    | nil => simp
    | cons a rest =>
        have behind := behindText_length t.last rest
        simp only [List.length_append, List.length_cons]
        omega
  have exec : (lit "EXEC").length = 4 := by decide
  simp only [ExecText.sql, stringTakeOwnership, List.length_append, exec]
  omega

section Exact

variable [Copying] (exact : Copying.Exact)

open Sqllex

variable {lex : Sqllex} {before left : Bytes}

/-- What a literal is read as that is no string of its own. -/
inductive Misread (lex : Sqllex) (l : Literal) : Prop
  /-- No lexeme. -/
  | none (token : SqlToken) (lexum : Option Str) (left : Bytes) (next : lex.Nexts false token lexum left)
  /-- A sign. -/
  | sign (lexum : Option Str) (left : Bytes) (next : lex.Nexts true .id lexum left)
  /-- Digits, taken for a number of another type or another value. -/
  | digits (digits left : Bytes) (all : ∀ c ∈ digits, isdigit c = true) (other : l.value ≠ .real digits)
      (next : lex.Nexts true .num (some (stringTakeOwnership digits)) left)

include exact

theorem reads_digits {digits : Bytes} (going : lex.m_token ≠ .eof) (blank : Spaces before)
    (digit : Digits digits) (outside : ∀ c ∈ left.head?, wordCh c = false)
    (text : lex.rest = before ++ (digits ++ left)) :
    lex.Nexts true .num (some (stringTakeOwnership digits)) left := by
  have inside : ∀ c ∈ digits, wordCh c = true := fun c mem => by
    simp [wordCh, isalnum, digit.2 c mem]
  have next := nexts_word_exact exact digits left going (blank_of_spaces blank) digit.1 inside outside
    text
  rw [sqlToken_digits digit] at next
  exact next

theorem reads_sign {digits : Bytes} (going : lex.m_token ≠ .eof) (blank : Spaces before)
    (digit : Digits digits) (text : lex.rest = before ++ 45 :: (digits ++ left)) :
    lex.Nexts true .id (some (stringTakeOwnership [45])) (digits ++ left) := by
  obtain ⟨d, ds, rfl⟩ := List.exists_cons_of_ne_nil digit.1
  have first := digit.2 d List.mem_cons_self
  have run : punctRun (45 :: (d :: ds ++ left)) = [45] :=
    punctRun_single (by decide) (ispunct_digit first)
  have next := nexts_punct going (blank_of_spaces blank) (by decide) (by decide) (by decide) (by decide)
    text
  rw [run, stringNew_exact exact] at next
  have token : sqlToken (stringTakeOwnership (cstr [45])) = .id :=
    sqlToken_punct (by decide) (by decide) (fun entry mem => (token_heads.2 entry mem).2.1) (by simp)
  rw [token] at next
  exact next

/-- A string that is not empty is read as itself, and every other literal is misread. -/
theorem literal_reads {l : Literal} (going : lex.m_token ≠ .eof) (blank : Spaces before)
    (formed : l.WellFormed) (outside : ∀ c ∈ left.head?, wordCh c = false)
    (text : lex.rest = before ++ (l.text ++ left)) :
    (l.Plain ∧ ∃ content, l.value = .str (stringTakeOwnership content) ∧
      lex.Nexts true .strlit (some (stringTakeOwnership content)) left) ∨
        (¬ l.Plain ∧ Misread lex l) := by
  cases l with
  | string quote content =>
      obtain ⟨quoted, free, whole⟩ := formed
      have text : lex.rest = before ++ quote :: (content ++ quote :: left) := by
        rw [text]
        simp [Literal.text]
      have next := nexts_string going (blank_of_spaces blank) quoted free text
      by_cases empty : content = []
      · rw [if_pos empty] at next
        exact .inr ⟨fun plain => plain empty, .none _ _ _ next⟩
      · rw [if_neg empty, cstr_whole whole, stringNew_exact exact] at next
        exact .inl ⟨empty, content, rfl, next⟩
  | integer negative digits =>
      refine .inr ⟨id, ?_⟩
      cases negative with
      | true => exact .sign _ _ (reads_sign exact going blank formed.1 text)
      | false => exact .digits _ _ formed.1.2 nofun (reads_digits exact going blank formed.1 outside text)
  | fraction negative whole decimals =>
      refine .inr ⟨id, ?_⟩
      cases negative with
      | true =>
          have text : lex.rest = before ++ 45 :: (whole ++ (46 :: decimals ++ left)) := by
            rw [text]
            simp [Literal.text, Literal.sign]
          exact .sign _ _ (reads_sign exact going blank formed.1 text)
      | false =>
          have text : lex.rest = before ++ (whole ++ (46 :: decimals ++ left)) := by
            rw [text]
            simp [Literal.text, Literal.sign]
          have dot : ∀ c ∈ (46 :: decimals ++ left).head?, wordCh c = false := by
            intro c same
            rw [← Option.some.inj same]
            decide
          have other : (Literal.fraction false whole decimals).value ≠ .real whole := by
            intro same
            have sizes := congrArg List.length (Value.real.inj same)
            simp [Literal.sign] at sizes
          exact .digits _ _ formed.1.2 other (reads_digits exact going blank formed.1 dot text)

/-- A comma with a blank behind it is one; else it may have run into the literal. -/
theorem reads_comma {comma : Bytes} {l : Literal} (going : lex.m_token ≠ .eof)
    (blank : Spaces comma) (blank' : Spaces before) (formed : l.WellFormed)
    (text : lex.rest = comma ++ 44 :: (before ++ (l.text ++ left))) :
    ((l.Plain → before ≠ []) ∧ ∃ lexum, lex.Nexts true .comma lexum (before ++ (l.text ++ left))) ∨
      (before = [] ∧ ∃ lexum behind, lex.Nexts true .id lexum behind) := by
  obtain ⟨c, more, head, kind⟩ := literal_head formed
  have next := nexts_punct going (blank_of_spaces blank) (by decide) (by decide) (by decide) (by decide)
    text
  have alone (x : UInt8) (rest : Bytes) (same : before ++ (l.text ++ left) = x :: rest)
      (other : ispunct x = false) : lex.Nexts true .comma (some (stringTakeOwnership [44]))
        (before ++ (l.text ++ left)) := by
    rw [same, punctRun_single (by decide) other, stringNew_exact exact, sqlToken_known.1] at next
    rw [same]
    exact next
  cases before with
  | cons b before =>
      exact .inl ⟨fun _ => List.cons_ne_nil _ _, _,
        alone b _ rfl ((space_kind (blank' b List.mem_cons_self)).2.1)⟩
  | nil =>
      rw [List.nil_append, head] at next alone
      rcases kind with ⟨digit, other⟩ | symbol
      · rw [List.nil_append, head]
        exact .inl ⟨fun plain => absurd plain other, _, alone c _ rfl (ispunct_digit digit)⟩
      · obtain ⟨punct, -, -, open', zero⟩ := symbol_kind symbol
        obtain ⟨run, glued⟩ := punctRun_glued (c := 44) (more ++ left) (by decide) punct open'
        have shown : cstr (44 :: c :: run) = 44 :: c :: cstr run := by
          simp [cstr, zero]
        have token : sqlToken (stringTakeOwnership (44 :: c :: cstr run)) = .id :=
          sqlToken_punct (by decide) (by decide) (glued_other (.inl rfl) (List.cons_ne_nil _ _)) (by simp)
        rw [List.cons_append, glued, stringNew_exact exact, shown, token] at next
        exact .inr ⟨rfl, _, _, next⟩

/-! ## The loop -/

/-- The next token, and the loop behind it unless there is none. -/
def argument (n : Nat) (items : List RequestItem) (lex : Sqllex) :
    Option (Option (List RequestItem)) := do
  let (ok, lex) ← lex.sqllexNext
  if ok = false then some none else execItems n items lex

omit exact

variable {n : Nat} {items : List RequestItem}

/-- The loop adds in front of the items it has. -/
theorem execItems_extends {out : List RequestItem} (ends : execItems n items lex = some (some out)) :
    ∃ new, out = new ++ items := by
  induction n generalizing items lex with
  | zero => exact ⟨[], (Option.some.inj (Option.some.inj ends)).symm⟩
  | succ n ih =>
      rw [execItems] at ends
      split at ends
      case isTrue => exact ⟨[], (Option.some.inj (Option.some.inj ends)).symm⟩
      case isFalse =>
        simp only [Option.bind_eq_bind] at ends
        split at ends
        all_goals
          obtain ⟨⟨ok, lex₁⟩, -, ends⟩ := Option.bind_eq_some_iff.mp ends
          dsimp only at ends
          split at ends
          · cases ends
          · obtain ⟨data, -, ends⟩ := Option.bind_eq_some_iff.mp ends
            split at ends
            · cases ends
            · obtain ⟨⟨_, lex₂⟩, -, ends⟩ := Option.bind_eq_some_iff.mp ends
              obtain ⟨new, rfl⟩ := ih (ends : execItems n _ lex₂ = _)
              exact ⟨new ++ [_], by rw [List.append_assoc]; rfl⟩

theorem execItems_eof (token : lex.m_token = .eof) : execItems n items lex = some (some items) := by
  cases n with
  | zero => rfl
  | succ n => rw [execItems, if_pos token]

theorem execItems_other (eof : lex.m_token ≠ .eof) (comma : lex.m_token ≠ .comma)
    (strlit : lex.m_token ≠ .strlit) (num : lex.m_token ≠ .num) :
    execItems (n + 1) items lex = some none := by
  simp [execItems, eof, comma, strlit, num]

include exact in
theorem execItems_string {content : Bytes} (token : lex.m_token = .strlit)
    (lexum : lex.m_lexum = some (stringTakeOwnership content)) :
    execItems (n + 1) items lex = lex.sqllexNext.bind fun next => execItems n
      ({ m_name := none, m_data := .str (stringTakeOwnership content) } :: items) next.2 := by
  have copied : stringNew (stringTakeOwnership content).m_cstr = stringTakeOwnership content :=
    stringNew_exact exact content
  simp [execItems, token, lexum, copied]

theorem execItems_digits (n : Nat) (items : List RequestItem) {digits : Bytes} (all : ∀ c ∈ digits, isdigit c = true)
    (token : lex.m_token = .num) (lexum : lex.m_lexum = some (stringTakeOwnership digits)) :
    execItems (n + 1) items lex = lex.sqllexNext.bind fun next => execItems n
      ({ m_name := none, m_data := .real digits } :: items) next.2 := by
  have whole : (stringTakeOwnership digits).m_cstr = digits := rfl
  simp [execItems, token, lexum, float_of_digits all, whole]

/-- Behind a comma the loop goes on in the same round. -/
theorem execItems_comma {ok : Bool} {token : SqlToken} {lexum : Option Str} {left : Bytes}
    (comma : lex.m_token = .comma) (next : lex.Nexts ok token lexum left)
    (further : ok = true → token ≠ .eof ∧ token ≠ .comma) :
    execItems (n + 1) items lex = argument (n + 1) items lex := by
  obtain ⟨lex₁, reads, rfl, -, -⟩ := next
  cases ok with
  | false => simp [execItems, argument, comma, reads]
  | true =>
      obtain ⟨eof, comma₁⟩ := further rfl
      simp [execItems, argument, comma, reads, eof, comma₁]

theorem argument_misread (n : Nat) (items : List RequestItem) {l : Literal} (misread : Misread lex l) (out : List RequestItem) :
    argument (n + 1) items lex ≠ some (some (out ++ l.item :: items)) := by
  intro ends
  cases misread with
  | none token lexum left next =>
      obtain ⟨lex₁, reads, -⟩ := next
      simp [argument, reads] at ends
  | sign lexum left next =>
      obtain ⟨lex₁, reads, token, -⟩ := next
      have refused : execItems (n + 1) items lex₁ = some none :=
        execItems_other (by simp [token]) (by simp [token]) (by simp [token]) (by simp [token])
      simp [argument, reads, refused] at ends
  | digits digits left all other next =>
      obtain ⟨lex₁, reads, token, lexum, -⟩ := next
      have round := execItems_digits n items all token lexum
      simp only [argument, reads, Option.bind_eq_bind, Option.bind_some, Bool.true_eq_false, if_false,
        round] at ends
      obtain ⟨⟨ok, lex₂⟩, -, ends⟩ := Option.bind_eq_some_iff.mp ends
      obtain ⟨new, same⟩ := execItems_extends ends
      have first := (List.append_inj' (same : out ++ _ :: items = new ++ _ :: items) rfl).2
      exact other (congrArg RequestItem.m_data (List.cons.inj first).1)

include exact in
/-- A string is pushed, and the loop goes on behind it. -/
theorem argument_plain (n : Nat) (items : List RequestItem) {l : Literal} {content : Bytes} (value : l.value = .str (stringTakeOwnership content))
    (next : lex.Nexts true .strlit (some (stringTakeOwnership content)) left) :
    ∃ lex₁ : Sqllex, lex₁.m_token ≠ .eof ∧ lex₁.rest = left ∧ argument (n + 1) items lex =
      lex₁.sqllexNext.bind fun next => execItems n (l.item :: items) next.2 := by
  obtain ⟨lex₁, reads, token, lexum, left⟩ := next
  have item : l.item = { m_name := none, m_data := .str (stringTakeOwnership content) } := by
    rw [Literal.item, value]
  refine ⟨lex₁, by simp [token], left, ?_⟩
  rw [item, ← execItems_string exact token lexum]
  simp [argument, reads]

include exact in
/-- The arguments of the text are all delivered exactly if every literal is plain, every comma
has a blank behind it, and nothing stands behind the last literal. -/
theorem argument_iff {last : Bytes} {rest : List Argument} {l : Literal} (ending : Spaces last)
    (formed : ∀ a ∈ rest, a.WellFormed) (going : lex.m_token ≠ .eof) (blank : Spaces before)
    (formed' : l.WellFormed) (text : lex.rest = before ++ (l.text ++ behindText last rest))
    (room : rest.length + 2 ≤ n) :
    argument n items lex =
        some (some ((rest.map fun a => a.literal.item).reverse ++ l.item :: items)) ↔
      l.Plain ∧ (∀ a ∈ rest, a.literal.Plain ∧ a.before ≠ []) ∧ last = [] := by
  induction rest generalizing lex l before items n with
  | nil =>
      obtain ⟨n, rfl⟩ := Nat.exists_eq_add_of_le' (show 2 ≤ n from room)
      have outside : ∀ c ∈ (behindText last []).head?, wordCh c = false :=
        behind_outside ending fun _ mem => nomatch mem
      rcases literal_reads exact going blank formed' outside text with
        ⟨plain, content, value, next⟩ | ⟨misread, next⟩
      · obtain ⟨lex₁, going₁, left, round⟩ := argument_plain exact (n + 1) items value next
        rw [round]
        by_cases ended : last = []
        · obtain ⟨lex₂, reads₂, token₂, -⟩ := nexts_eof going₁ (left.trans ended)
          simp [reads₂, execItems_eof token₂, ended, plain]
        · obtain ⟨lex₂, reads₂, token₂, -⟩ := nexts_blank going₁ ended (blank_of_spaces ending) left
          have refused (items : List RequestItem) : execItems (n + 1) items lex₂ = some none :=
            execItems_other (by simp [token₂]) (by simp [token₂]) (by simp [token₂]) (by simp [token₂])
          simp [reads₂, refused, ended]
      · exact iff_of_false (argument_misread _ _ next []) fun holds => misread holds.1
  | cons a rest ih =>
      obtain ⟨n, rfl⟩ := Nat.exists_eq_add_of_le' (show 2 ≤ n by omega)
      have inner := fun b mem => formed b (List.mem_cons_of_mem _ mem)
      obtain ⟨comma, before', formed''⟩ := formed a List.mem_cons_self
      have outside := behind_outside ending fun b mem => (formed b mem).1
      rcases literal_reads exact going blank formed' outside text with
        ⟨plain, content, value, next⟩ | ⟨misread, next⟩
      · obtain ⟨lex₁, going₁, left, round⟩ := argument_plain exact (n + 1) items value next
        rw [round]
        rcases reads_comma exact going₁ comma before' formed'' left with
          ⟨apart, lexum, lex₂, reads₂, token₂, -, left₂⟩ | ⟨glued, lexum, behind, lex₂, reads₂, token₂, -⟩
        · have going₂ : lex₂.m_token ≠ .eof := by simp [token₂]
          have through : execItems (n + 1) (l.item :: items) lex₂ =
              argument (n + 1) (l.item :: items) lex₂ := by
            have outside₂ := behind_outside ending fun b mem => (inner b mem).1
            rcases literal_reads exact going₂ before' formed'' outside₂ left₂ with
              ⟨-, content₂, -, next₂⟩ | ⟨-, misread⟩
            · exact execItems_comma token₂ next₂ (by simp)
            · cases misread with
              | none token lexum left next₂ => exact execItems_comma token₂ next₂ (by simp)
              | sign lexum left next₂ => exact execItems_comma token₂ next₂ (by simp)
              | digits digits left all other next₂ => exact execItems_comma token₂ next₂ (by simp)
          have room₂ : rest.length + 2 ≤ n + 1 := by
            simp only [List.length_cons] at room
            omega
          have behind : argument (n + 1) (l.item :: items) lex₂ = _ ↔ _ :=
            ih inner going₂ before' formed'' left₂ room₂
          rw [reads₂, Option.bind_some, through, List.map_cons, List.reverse_cons, List.append_assoc,
            List.singleton_append, behind, List.forall_mem_cons]
          constructor
          · rintro ⟨plain', all, ended⟩
            exact ⟨plain, ⟨⟨plain', apart plain'⟩, all⟩, ended⟩
          · rintro ⟨-, ⟨⟨plain', -⟩, all⟩, ended⟩
            exact ⟨plain', all, ended⟩
        · have refused (items : List RequestItem) : execItems (n + 1) items lex₂ = some none :=
            execItems_other (by simp [token₂]) (by simp [token₂]) (by simp [token₂]) (by simp [token₂])
          simp [reads₂, refused, glued]
      · refine iff_of_false ?_ fun holds => misread holds.1
        have misses := argument_misread (n + 1) items next
        exact misses _

/-! ## The statement -/

variable {t : ExecText}

/-- The arguments of a statement, from behind its name. -/
theorem arguments_iff (exact : Copying.Exact) (formed : t.WellFormed) (going : lex.m_token ≠ .eof)
    (text : lex.rest = t.argumentText) (room : t.arguments.length + 1 ≤ n) :
    argument n [] lex = some (some (t.arguments.map fun a => a.literal.item).reverse) ↔
      (∀ a ∈ t.arguments, a.literal.Plain) ∧ (∀ a ∈ t.arguments.tail, a.before ≠ []) ∧ t.last = [] := by
  have arguments := formed.arguments
  unfold ExecText.argumentText at text
  revert arguments text room
  cases t.arguments with
  | nil =>
      intro text room arguments
      by_cases ended : t.last = []
      · obtain ⟨lex₁, reads, token, -⟩ := nexts_eof going (text.trans ended)
        simp [argument, reads, execItems_eof token, ended]
      · obtain ⟨lex₁, reads, -⟩ := nexts_blank going ended (blank_of_spaces formed.blank.2.2) text
        simp [argument, reads, ended]
  | cons a rest =>
      intro text room arguments
      obtain ⟨-, before, literal⟩ := arguments a List.mem_cons_self
      have whole : argument n [] lex = _ ↔ _ := argument_iff exact formed.blank.2.2
        (fun b mem => arguments b (List.mem_cons_of_mem _ mem)) going before literal text room
      rw [List.map_cons, List.reverse_cons, whole, List.forall_mem_cons, List.tail_cons]
      constructor
      · rintro ⟨plain, all, ended⟩
        exact ⟨⟨plain, fun b mem => (all b mem).1⟩, fun b mem => (all b mem).2, ended⟩
      · rintro ⟨⟨plain, all⟩, apart, ended⟩
        exact ⟨plain, fun b mem => ⟨all b mem, apart b mem⟩, ended⟩

/-- What the request is made of. -/
def deliver (name : Str) (found : Option (Option (List RequestItem))) : Option (Option Request) :=
  found.map fun items => items.map fun items => {
    m_name := name
    m_transid := 0
    m_userId := stringNew []
    m_password := stringNew []
    m_items := items
    m_itemCount := items.length
    m_bytes := 0 }

theorem deliver_bind (name : Str) (found : Option (Option (List RequestItem))) :
    (found.bind fun items => match items with
      | none => some none
      | some items => some (some {
          m_name := name
          m_transid := 0
          m_userId := stringNew []
          m_password := stringNew []
          m_items := items
          m_itemCount := items.length
          m_bytes := 0 })) = deliver name found := by
  cases found with
  | none => rfl
  | some found => cases found <;> rfl

theorem delivers_found {name : Str} {found : Option (Option (List RequestItem))}
    (made : requestNewFromExecSql t.sql = deliver name found) (named : name.m_cstr = t.fullName) :
    t.Delivers ↔ found = some (some (t.arguments.map fun a => a.literal.item).reverse) := by
  unfold ExecText.Delivers
  rw [made]
  constructor
  · rintro ⟨req, delivered, -, -, items⟩
    cases found with
    | none => cases delivered
    | some found =>
        cases found with
        | none => cases delivered
        | some list =>
            cases delivered
            rw [← items]
  · rintro rfl
    exact ⟨_, rfl, named, by simp, rfl⟩

theorem stringCat_exact (exact : Copying.Exact) (a b : Bytes) :
    stringCat (stringTakeOwnership a) b b.length = stringTakeOwnership (a ++ b) := by
  have room : a.length ≤ a.length + b.length + 1 := by omega
  simp only [stringCat, stringTakeOwnership, exact a, StrCatLen, List.take_of_length_le room,
    Nat.add_sub_cancel]
  rw [List.take_of_length_le (by rw [List.length_append])]

/-- A statement whose name is one word. -/
theorem requestNew_word {lex lex₁ : Sqllex} {name : Bytes} {ok : Bool} {token : SqlToken}
    {lexum : Option Str} (exact : Copying.Exact) {sql : Str} (new : sqllexNew sql = some lex)
    (exec : lex.m_token = .exec) (named : lex.sqllexNext = some (true, lex₁))
    (id : lex₁.m_token = .id) (word : lex₁.m_lexum = some (stringTakeOwnership name))
    (next : lex₁.Nexts ok token lexum left) (dot : ok = true → token ≠ .dot) :
    requestNewFromExecSql sql =
      deliver (stringTakeOwnership name) (argument (sql.m_len + 1) [] lex₁) := by
  obtain ⟨lex₂, reads, rfl, -, -⟩ := next
  have copied : stringDup (stringTakeOwnership name) = stringTakeOwnership name :=
    stringNew_exact exact name
  cases ok with
  | false =>
      simp [requestNewFromExecSql, new, sqllexMatchToken, exec, named, id, word, reads, argument, deliver]
  | true =>
      have other := dot rfl
      simp only [requestNewFromExecSql, new, sqllexMatchToken, exec, named, id, word, reads, argument,
        copied, other, Option.bind_eq_bind, Option.bind_some, Option.map_some, if_true, if_false,
        Bool.true_eq_false]
      exact deliver_bind _ _

/-- A statement whose name is two words. -/
theorem requestNew_member {lex lex₁ lex₂ lex₃ : Sqllex} {name word : Bytes} {ok : Bool}
    {token : SqlToken} {lexum : Option Str} (exact : Copying.Exact) {sql : Str}
    (new : sqllexNew sql = some lex) (exec : lex.m_token = .exec)
    (named : lex.sqllexNext = some (true, lex₁)) (id : lex₁.m_token = .id)
    (first : lex₁.m_lexum = some (stringTakeOwnership name))
    (dotted : lex₁.sqllexNext = some (true, lex₂)) (dot : lex₂.m_token = .dot)
    (joined : lex₂.sqllexNext = some (true, lex₃)) (id₃ : lex₃.m_token = .id)
    (second : lex₃.m_lexum = some (stringTakeOwnership word))
    (next : lex₃.Nexts ok token lexum left) :
    requestNewFromExecSql sql =
      deliver (stringTakeOwnership (name ++ 46 :: word)) (argument (sql.m_len + 1) [] lex₃) := by
  obtain ⟨lex₄, reads, -, -, -⟩ := next
  have copied : stringDup (stringTakeOwnership name) = stringTakeOwnership name :=
    stringNew_exact exact name
  have joins : stringCat (stringCat (stringTakeOwnership name) (lit ".") 1)
      (stringTakeOwnership word).m_cstr (stringTakeOwnership word).m_len =
        stringTakeOwnership (name ++ 46 :: word) := by
    have dotted : stringCat (stringTakeOwnership name) (lit ".") 1 = stringTakeOwnership (name ++ [46]) :=
      stringCat_exact exact name [46]
    have whole := stringCat_exact exact (name ++ [46]) word
    rw [List.append_assoc, List.singleton_append] at whole
    rw [dotted]
    exact whole
  cases ok with
  | false =>
      simp [requestNewFromExecSql, new, sqllexMatchToken, exec, named, id, first, dotted, dot, joined, id₃,
        second, reads, argument, deliver]
  | true =>
      simp only [requestNewFromExecSql, new, sqllexMatchToken, exec, named, id, first, dotted, dot, joined,
        id₃, second, reads, argument, copied, joins, Option.bind_eq_bind, Option.bind_some,
        Option.map_some, if_true, if_false, Bool.true_eq_false]
      exact deliver_bind _ _

/-- Behind the name there is a next token, or none, and it is no dot. -/
theorem argument_next (exact : Copying.Exact) (formed : t.WellFormed) (going : lex.m_token ≠ .eof)
    (text : lex.rest = t.argumentText) :
    ∃ ok token lexum left, lex.Nexts ok token lexum left ∧ (ok = true → token ≠ .dot) := by
  have arguments := formed.arguments
  unfold ExecText.argumentText at text
  revert arguments text
  cases t.arguments with
  | nil =>
      intro text _
      by_cases ended : t.last = []
      · exact ⟨_, _, _, _, nexts_eof going (text.trans ended), by simp⟩
      · exact ⟨_, _, _, _, nexts_blank going ended (blank_of_spaces formed.blank.2.2) text, by simp⟩
  | cons a rest =>
      intro text arguments
      obtain ⟨-, before, literal⟩ := arguments a List.mem_cons_self
      have outside := behind_outside formed.blank.2.2 fun b mem =>
        (arguments b (List.mem_cons_of_mem _ mem)).1
      rcases literal_reads exact going before literal outside text with
        ⟨-, content, -, next⟩ | ⟨-, misread⟩
      · exact ⟨_, _, _, _, next, by simp⟩
      · cases misread with
        | none token lexum left next => exact ⟨_, _, _, _, next, by simp⟩
        | sign lexum left next => exact ⟨_, _, _, _, next, by simp⟩
        | digits digits left all other next => exact ⟨_, _, _, _, next, by simp⟩

/-- EXEC, and what stands behind it. -/
theorem exec_read (exact : Copying.Exact) (formed : t.WellFormed) : ∃ lex, sqllexNew t.sql = some lex ∧
    lex.m_token = .exec ∧ lex.rest = t.gap ++ (t.fullName ++ t.argumentText) := by
  have outside : ∀ c ∈ (t.gap ++ (t.fullName ++ t.argumentText)).head?, wordCh c = false := by
    obtain ⟨b, bs, gap⟩ := List.exists_cons_of_ne_nil formed.apart
    intro c same
    rw [gap] at same
    rw [← Option.some.inj same]
    exact (space_kind (formed.blank.2.1 b (by rw [gap]; exact List.mem_cons_self))).2.2.1
  obtain ⟨lex, new, token, -, left⟩ := sqllexNew_nexts exact
    fun lex going (same : lex.rest = t.sql.m_cstr) =>
    nexts_word_exact exact (lit "EXEC") _ going (blank_of_spaces formed.blank.1) (by decide)
      (List.all_eq_true.mp (show (lit "EXEC").all wordCh = true by decide)) outside same
  exact ⟨lex, new, token.trans sqlToken_known.2.2, left⟩

/-- The dot between two words is one if the second word does not begin with `_`. -/
theorem dot_read (exact : Copying.Exact) {word : Bytes} (going : lex.m_token ≠ .eof) (some : word ≠ [])
    (inside : ∀ c ∈ word, wordCh c = true) (text : lex.rest = 46 :: (word ++ left)) :
    (word.headD 0 ≠ 95 ∧ ∃ lexum, lex.Nexts true .dot lexum (word ++ left)) ∨
      (word.headD 0 = 95 ∧ ∃ lexum behind, lex.Nexts true .id lexum behind) := by
  obtain ⟨x, xs, rfl⟩ := List.exists_cons_of_ne_nil some
  have text : lex.rest = [] ++ 46 :: (x :: xs ++ left) := text
  have blank : ∀ b ∈ ([] : Bytes), isBlank b = true := fun _ mem => nomatch mem
  have next := nexts_punct going blank (by decide) (by decide)
    (by decide) (by decide) text
  by_cases under : x = 95
  · subst under
    obtain ⟨run, glued⟩ := punctRun_glued (c := 46) (x := 95) (xs ++ left) (by decide) (by decide)
      (by decide)
    have shown : cstr (46 :: 95 :: run) = 46 :: 95 :: cstr run := by simp [cstr]
    have token : sqlToken (stringTakeOwnership (46 :: 95 :: cstr run)) = .id := by
      refine sqlToken_punct (by decide) (by decide) (glued_other (.inr rfl) (List.cons_ne_nil _ _)) ?_
      intro _
      rw [floatText]
      simp [isdigit]
    rw [List.cons_append, glued, stringNew_exact exact, shown, token] at next
    exact .inr ⟨rfl, _, _, next⟩
  · have letter : isalnum x = true := by
      have inside := inside x List.mem_cons_self
      simpa [wordCh, under] using inside
    have single : punctRun (46 :: (x :: xs ++ left)) = [46] :=
      punctRun_single (by decide) (by simp [ispunct, letter])
    rw [single, stringNew_exact exact, sqlToken_known.2.1] at next
    exact .inl ⟨under, _, next⟩

theorem delivered_member (exact : Copying.Exact) (formed : t.WellFormed) {second : Bytes}
    (member : t.member = some second) : t.Delivers ↔ t.Plain := by
  obtain ⟨lex, new, exec, left⟩ := exec_read exact formed
  have going : lex.m_token ≠ .eof := by simp [exec]
  have room := arguments_room t
  obtain ⟨filled, inside⟩ := formed.member second (by rw [member]; rfl)
  have full : t.fullName = t.name ++ 46 :: second := by simp [ExecText.fullName, member]
  rw [full, List.append_assoc, List.cons_append] at left
  obtain ⟨lex₁, named, token₁, word, left₁⟩ := nexts_word_exact exact t.name
    (46 :: (second ++ t.argumentText)) going (blank_of_spaces formed.blank.2.1) formed.named.1
    formed.named.2 (fun c same => by rw [← Option.some.inj same]; decide) left
  have going₁ : lex₁.m_token ≠ .eof := token₁ ▸ sqlToken_ne_eof _
  by_cases id : sqlToken (stringTakeOwnership t.name) = .id
  · rcases dot_read exact going₁ filled inside left₁ with
      ⟨apart, lexum, lex₂, dotted, dot, -, left₂⟩ | ⟨under, lexum, behind, next⟩
    · have going₂ : lex₂.m_token ≠ .eof := by simp [dot]
      have left₂ : lex₂.rest = [] ++ (second ++ t.argumentText) := left₂
      have blank : ∀ b ∈ ([] : Bytes), isBlank b = true := fun _ mem => nomatch mem
      obtain ⟨lex₃, joined, token₃, word₃, left₃⟩ := nexts_word_exact exact second
        t.argumentText going₂ blank filled inside (fun c same => (argument_outside formed c same).1) left₂
      have going₃ : lex₃.m_token ≠ .eof := token₃ ▸ sqlToken_ne_eof _
      by_cases id₃ : sqlToken (stringTakeOwnership second) = .id
      · obtain ⟨ok, token, lexum, behind, next, -⟩ := argument_next exact formed going₃ left₃
        have made := requestNew_member exact new exec named (token₁.trans id) word dotted dot joined
          (token₃.trans id₃) word₃ next
        rw [delivers_found made full.symm, arguments_iff exact formed going₃ left₃ room]
        have apart : second.head?.getD 0 ≠ 95 := by
          rw [← List.headD_eq_head?_getD]
          exact apart
        simp [ExecText.Plain, ExecText.Named, id, id₃, member, apart]
      · have refused : requestNewFromExecSql t.sql = some none := by
          simp [requestNewFromExecSql, new, sqllexMatchToken, exec, named, token₁, id, word, dotted, dot,
            joined, token₃, id₃, word₃]
        simp [ExecText.Delivers, ExecText.Plain, ExecText.Named, refused, member, id₃]
    · -- the punctuation is no dot, so the loop sees it first and refuses
      have made := requestNew_word exact new exec named (token₁.trans id) word next (by simp)
      obtain ⟨lex₂, reads, token₂, -⟩ := next
      have refused : requestNewFromExecSql t.sql = some none := by
        rw [made]
        have stops : execItems (t.sql.m_len + 1) [] lex₂ = some none :=
          execItems_other (by simp [token₂]) (by simp [token₂]) (by simp [token₂]) (by simp [token₂])
        simp [argument, reads, stops, deliver]
      rw [List.headD_eq_head?_getD] at under
      simp [ExecText.Delivers, ExecText.Plain, ExecText.Named, refused, member, under]
  · have refused : requestNewFromExecSql t.sql = some none := by
      simp [requestNewFromExecSql, new, sqllexMatchToken, exec, named, token₁, id, word]
    simp [ExecText.Delivers, ExecText.Plain, ExecText.Named, refused, id]

/-- A statement delivers its arguments exactly if its name is no keyword, its literals are
strings that are not empty, and its blanks stand where the lexer needs them. -/
theorem delivered_iff (exact : Copying.Exact) (t : ExecText) (formed : t.WellFormed) :
    t.Delivers ↔ t.Plain := by
  cases member : t.member with
  | some second => exact delivered_member exact formed member
  | none =>
      obtain ⟨lex, new, exec, left⟩ := exec_read exact formed
      have going : lex.m_token ≠ .eof := by simp [exec]
      have room := arguments_room t
      have full : t.fullName = t.name := by simp [ExecText.fullName, member]
      rw [full] at left
      obtain ⟨lex₁, named, token₁, word, left₁⟩ := nexts_word_exact exact t.name t.argumentText going
        (blank_of_spaces formed.blank.2.1) formed.named.1 formed.named.2
        (fun c same => (argument_outside formed c same).1) left
      have going₁ : lex₁.m_token ≠ .eof := token₁ ▸ sqlToken_ne_eof _
      by_cases id : sqlToken (stringTakeOwnership t.name) = .id
      · obtain ⟨ok, token, lexum, behind, next, dot⟩ := argument_next exact formed going₁ left₁
        have made := requestNew_word exact new exec named (token₁.trans id) word next dot
        rw [delivers_found made full.symm, arguments_iff exact formed going₁ left₁ room]
        simp [ExecText.Plain, ExecText.Named, id, member]
      · have refused : requestNewFromExecSql t.sql = some none := by
          simp [requestNewFromExecSql, new, sqllexMatchToken, exec, named, token₁, id, word]
        simp [ExecText.Delivers, ExecText.Plain, ExecText.Named, refused, id]

end Exact

/-! ## Two strings, and a number -/

/-- EXEC s.p 'a', "b" -/
def twoStrings : ExecText where
  lead := []
  gap := [32]
  last := []
  name := lit "s"
  member := some (lit "p")
  arguments :=
    [{ comma := [], before := [32], literal := .string 39 (lit "a") },
      { comma := [], before := [32], literal := .string 34 (lit "b") }]

theorem spaces_one : Spaces [32] := by
  intro c mem
  rw [List.mem_singleton.mp mem]
  decide

theorem spaces_none : Spaces [] := fun _ mem => nomatch mem

theorem twoStrings_formed : twoStrings.WellFormed where
  blank := ⟨spaces_none, spaces_one, spaces_none⟩
  apart := by decide
  named := ⟨by decide, List.all_eq_true.mp (show (lit "s").all Sqllex.wordCh = true by decide)⟩
  member := by
    intro word same
    obtain rfl : lit "p" = word := Option.some.inj same
    exact ⟨by decide, List.all_eq_true.mp (show (lit "p").all Sqllex.wordCh = true by decide)⟩
  arguments := by
    intro a mem
    rcases List.mem_cons.mp mem with rfl | mem
    · exact ⟨spaces_none, spaces_one, .inl rfl, by decide, by decide⟩
    · rw [List.mem_singleton.mp mem]
      exact ⟨spaces_none, spaces_one, .inr rfl, by decide, by decide⟩
  first := by
    intro a same
    obtain rfl := Option.some.inj same
    exact fun glued => nomatch glued

theorem delivered_twoStrings : @ExecText.Delivers copyingAll twoStrings ↔ twoStrings.Plain :=
  @delivered_iff copyingAll copyingAll_exact twoStrings twoStrings_formed

/-- EXEC s.p 1 -/
def oneNumber : ExecText := { twoStrings with
  arguments := [{ comma := [], before := [32], literal := .integer false (lit "1") }] }

theorem oneNumber_formed : oneNumber.WellFormed := { twoStrings_formed with
  arguments := by
    intro a mem
    rw [List.mem_singleton.mp mem]
    exact ⟨spaces_none, spaces_one,
      ⟨by decide, List.all_eq_true.mp (show (lit "1").all isdigit = true by decide)⟩, by decide⟩
  first := by
    intro a same
    obtain rfl := Option.some.inj same
    exact fun glued => nomatch glued }

/-- The number comes as a fraction. -/
theorem number_undelivered : ¬ ∀ [Copying], Copying.Exact →
    ∀ t : ExecText, t.WellFormed → t.Delivers := by
  intro passes
  have delivers := @passes copyingAll copyingAll_exact oneNumber oneNumber_formed
  have plain := (@delivered_member copyingAll oneNumber copyingAll_exact oneNumber_formed _ rfl).mp delivers
  exact plain.2.1 _ List.mem_cons_self

end Jspp.Splc
