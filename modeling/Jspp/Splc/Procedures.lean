/-
# Splc.Procedures -- the head of CREATE PROCEDURE, read to its end

`sqlprocNew` splits a text in two before it reads it: `_sqlprocScanForBody`
looks for a closing parenthesis that no digit stands in front of, and what comes
before goes to the lexer, what comes behind to `_sqlprocParseBody`.  `handed` is
the call up to there: the procedure with its parameters, and the body.

The text goes through a copy, and so does every lexeme.  The lexeme of `CREATE`
is `CREAT`, an identifier, and `_sqlprocParseParameters` wants the token.

* `sqlparamNew`, `_sqlprocParseParameters`, `handed`.
* `sqlprocNew_handed`: the earlier `sqlprocNew` with this reader of the parameters.
* `Spelled`: a definition as it is written, with any spacing.
* `handed_never`: no text of a definition is ever split.
-/
import Jspp.Splc.Reach

namespace Jspp.Splc

set_option autoImplicit false

open Sqllex

structure Sqlparam where
  m_name : Str
  m_sqltyperaw : Str
  m_sqltype : Str
  m_length : Int
  m_scale : Int
  m_isout : Bool
  m_indicator : Option Str
  deriving DecidableEq, Repr

/-- `isspace` of the C locale. -/
def isspace (c : UInt8) : Bool := c == 32 || (9 ≤ c && c ≤ 13)

/-- `int32Parse` for radix 10, which is `atoi`. -/
def int32Parse (cp : Bytes) : Int :=
  match cp.dropWhile isspace with
  | 45 :: digits => Int.bmod (-atoiText digits) (2 ^ 32)
  | 43 :: digits => atoiText digits
  | digits => atoiText digits

section Parameters

variable [Copying]

/-- The size in parentheses of `sqlparamNew`, or none: the type as it was written, the
length, the scale, and the lexer behind it. -/
def sqlparamSize (buf : Bytes) (lex : Sqllex) :
    Option (Option (Bytes × Int × Int × Sqllex)) := do
  if lex.m_token ≠ .lpar then some (some (buf, 0, 0, lex))
  else
    let (ok, lex) ← lex.sqllexNext
    if ok = false then some none
    else
      let len ← lex.m_lexum
      let buf := buf ++ lit "(" ++ len.m_cstr
      if stringIsInt len = false then some none
      else
        let (ok, lex) ← lex.sqllexNext
        if ok = false then some none
        else
          let scaled : Option (Option (Bytes × Int × Sqllex)) :=
            if lex.m_token = .comma then do
              let comma ← lex.m_lexum
              let (ok, lex) ← lex.sqllexNext
              if ok = false then some none
              else
                let scale ← lex.m_lexum
                let (ok, lex) ← lex.sqllexNext
                if ok = false then some none
                else
                  let buf := buf ++ comma.m_cstr ++ scale.m_cstr
                  some (some (buf, int32Parse scale.m_cstr, lex))
            else some (some (buf, 0, lex))
          match ← scaled with
          | none => some none
          | some (buf, scale, lex) =>
              if lex.m_token ≠ .rpar then some none
              else
                let (_, lex) ← lex.sqllexNext
                some (some (buf ++ lit ")", int32Parse len.m_cstr, scale, lex))

/-- `sqlparamNew`: NULL is an inner `none`. -/
def sqlparamNew (lex : Sqllex) : Option (Option (Sqlparam × Sqllex)) := do
  if lex.m_token ≠ .id then some none
  else
    let name ← lex.m_lexum.map stringDup
    let (ok, lex) ← lex.sqllexNext
    if ok = false then some none
    else
      -- type name
      let type ← lex.m_lexum
      let (ok, lex) ← lex.sqllexNext
      if ok = false then some none
      else
        match ← sqlparamSize type.m_cstr lex with
        | none => some none
        | some (buf, length, scale, lex) =>
            let isout ← lex.lexumIs (lit "OUT")
            let lex ← if isout then lex.sqllexNext.map (·.2) else some lex
            some (some ({
              m_name := name
              m_sqltyperaw := Packet.stringbufferToString buf
              m_sqltype := stringDup type
              m_length := length
              m_scale := scale
              m_isout := isout
              m_indicator := none }, lex))

/-- The loop of `_sqlprocParseParameters`; each round moves on in the text. -/
def parameterList : Nat → List Sqlparam → Sqllex → Option (Option (List Sqlparam))
  | 0, _, _ => none
  | n + 1, prms, lex => do
      let (ok, lex) ← lex.sqllexNext
      if ok = false ∨ lex.m_token = .rpar then some (some prms)
      else
        let (ok, lex) ← if lex.m_token = .comma then lex.sqllexNext else some (true, lex)
        if ok = false then some (some prms)
        else
          match ← sqlparamNew lex with
          | none => some none
          | some (param, lex) => parameterList n (prms ++ [param]) lex

def _sqlprocParseParameters (head : Str) : Option (Option (Str × List Sqlparam)) := do
  match ← sqlprocHead head with
  | none => some none
  | some (name, lex) =>
      match ← parameterList (lex.m_text.m_len + 2) [] lex with
      | none => some none
      | some prms => some (some (name, prms))

/-- A procedure as it is when its body is read. -/
structure Parsed where
  m_name : Str
  m_text : Str
  m_prms : List Sqlparam
  deriving DecidableEq, Repr

/-- `sqlprocNew` up to the call of `_sqlprocParseBody`, with what it is handed. -/
def handed (sql : Str) : Option (Option (Parsed × Str)) :=
  let text := stringDup sql
  match _sqlprocScanForBody text with
  | none => some none
  | some pos => do
      match ← _sqlprocParseParameters (stringSubstring text 0 (pos + 1)) with
      | none => some none
      | some (name, prms) =>
          some (some ({ m_name := name, m_text := text, m_prms := prms },
            stringSubstringFrom text (pos + 1)))

/-- The reader of the parameters and the body that `sqlprocNew` goes on with. -/
def parseWith (parseBody : List Sqlparam → Str → Option Bool) (lex : Sqllex) (body : Str) :
    Option Bool := do
  match ← parameterList (lex.m_text.m_len + 2) [] lex with
  | none => some false
  | some prms => parseBody prms body

theorem sqlprocNew_handed (parseBody : List Sqlparam → Str → Option Bool) (sql : Str) :
    sqlprocNew (parseWith parseBody) sql = (handed sql).bind fun
      | none => some none
      | some (sp, body) => (parseBody sp.m_prms body).map fun ok =>
          if ok then some { m_name := sp.m_name, m_text := sp.m_text } else none := by
  simp only [sqlprocNew, handed, _sqlprocParseParameters, Option.bind_eq_bind]
  cases _sqlprocScanForBody (stringDup sql) with
  | none => rfl
  | some pos =>
    simp only
    rcases sqlprocHead (stringSubstring (stringDup sql) 0 (pos + 1)) with _ | _ | ⟨name, lex⟩
    · rfl
    · rfl
    simp only [Option.bind_some, parseWith, Option.bind_eq_bind]
    rcases parameterList (lex.m_text.m_len + 2) [] lex with _ | _ | prms
    · rfl
    · rfl
    simp only [Option.bind_some]
    rcases parseBody prms (stringSubstringFrom (stringDup sql) (pos + 1)) with _ | _ | _ <;> rfl

end Parameters

/-! ## Definitions as they are written -/

/-- A word: a keyword or a name. -/
structure Word where
  text : Bytes
  some : text ≠ []
  inside : ∀ c ∈ text, wordCh c = true
  first : ∀ c ∈ text.head?, isdigit c = false

def Word.piece (word : Word) : Piece := .word word.text word.some word.inside word.first

/-- The word is the keyword, in any case. -/
def Word.Is (word : Word) (keyword : Bytes) : Prop := sameText true word.text keyword = true

structure Numeral where
  text : Bytes
  some : text ≠ []
  inside : ∀ c ∈ text, isdigit c = true

def Numeral.piece (numeral : Numeral) : Piece := .numeral numeral.text numeral.some numeral.inside

def Numeral.value (numeral : Numeral) : Int :=
  (numeral.text.foldl (fun n c => n * 10 + (c.toNat - 48)) 0 : Nat)

def lpar : Piece := .punct [40] (by decide)

def rpar : Piece := .punct [41] (by decide)

def comma : Piece := .punct [44] (by decide)

/-- What stands behind the type of a parameter. -/
inductive Size where
  | unsized
  | sized (len : Numeral)
  | scaled (len scale : Numeral)

namespace Size

def pieces : Size → List Piece
  | unsized => []
  | sized len => [lpar, len.piece, rpar]
  | scaled len scale => [lpar, len.piece, comma, scale.piece, rpar]

def length : Size → Int
  | unsized => 0
  | sized len => len.value
  | scaled len _ => len.value

def scale : Size → Int
  | scaled _ scale => scale.value
  | _ => 0

end Size

/-- A parameter as it is declared. -/
structure Declared where
  name : Word
  type : Word
  size : Size
  out : Option Word
  isOut : ∀ word ∈ out, word.Is (lit "OUT")

namespace Declared

def pieces (prm : Declared) : List Piece :=
  prm.name.piece :: prm.type.piece :: (prm.size.pieces ++ (prm.out.map Word.piece).toList)

/-- It is recorded as it is declared. -/
structure Recorded (prm : Declared) (sqlparam : Sqlparam) : Prop where
  name : sqlparam.m_name.m_cstr = prm.name.text
  length : sqlparam.m_length = prm.size.length
  scale : sqlparam.m_scale = prm.size.scale
  isout : sqlparam.m_isout = prm.out.isSome

end Declared

/-- The head of a definition, `CREATE PROCEDURE name ( p1 , ... , pn )`. -/
structure Definition where
  create : Word
  procedure : Word
  name : Word
  prms : List Declared
  isCreate : create.Is (lit "CREATE")
  isProcedure : procedure.Is (lit "PROCEDURE")

namespace Definition

def pieces (definition : Definition) : List Piece :=
  definition.create.piece :: definition.procedure.piece :: definition.name.piece :: lpar ::
    ([comma].intercalate (definition.prms.map Declared.pieces) ++ [rpar])

/-- The text is the head up to its parenthesis, and then the body. -/
def Spelled (definition : Definition) (body text : Bytes) : Prop :=
  ∃ head, Written none definition.pieces head ∧ head.getLast? = some 41 ∧ text = head ++ body

/-- The body is handed over, up to the white space in front of it, with the parameters. -/
def Split (definition : Definition) (body : Bytes) (sql : Str) : Prop :=
  ∃ sp rest, handed sql = some (some (sp, rest)) ∧
    rest.m_cstr.dropWhile isspace = body.dropWhile isspace ∧
    List.Forall₂ Declared.Recorded definition.prms sp.m_prms

end Definition

/-! ## No definition is read -/

theorem white_blank {gap : Bytes} (white : White gap) : ∀ c ∈ gap, isBlank c = true := by
  intro c mem
  rcases white c mem with rfl | rfl | rfl | rfl <;> decide

theorem white_not_word {gap tail : Bytes} (white : White gap) (some : gap ≠ []) :
    ∃ c rest, gap ++ tail = c :: rest ∧ wordCh c = false ∧ c ≠ 41 := by
  obtain ⟨c, rest, rfl⟩ := List.exists_cons_of_ne_nil some
  refine ⟨c, rest ++ tail, rfl, ?_⟩
  rcases white c List.mem_cons_self with rfl | rfl | rfl | rfl <;> decide

/-- A text whose first word has six letters, with something behind it that is no word. -/
theorem handed_six {sql : Str} {blanks word tail : Bytes} {c : UInt8}
    (text : sql.m_cstr = blanks ++ (word ++ c :: tail)) (blank : ∀ b ∈ blanks, isBlank b = true)
    (size : word.length = 6) (inside : ∀ c ∈ word, wordCh c = true) (outside : wordCh c = false)
    (other : c ≠ 41) : handed sql = some none := by
  cases found : _sqlprocScanForBody (stringDup sql) with
  | none => simp only [handed, found]
  | some pos =>
    obtain ⟨front, behind, whole, head⟩ := head_front (by rw [text]; simp) found
    have free : 41 ∉ blanks ++ (word ++ [c]) := by
      intro mem
      rcases List.mem_append.mp mem with mem | mem
      · exact absurd (blank 41 mem) (by decide)
      · rcases List.mem_append.mp mem with mem | mem
        · exact absurd (inside 41 mem) (by decide)
        · exact other (List.mem_singleton.mp mem).symm
    have known : sql.m_cstr = (blanks ++ (word ++ [c])) ++ tail := by rw [text]; simp
    rw [known] at whole
    obtain ⟨rest, rfl⟩ := front_of_free whole free
    -- the first word of the copy is still whole, and its lexeme is not
    let start : Sqllex := fresh (stringSubstring (stringDup sql) 0 (pos + 1))
    obtain ⟨c', tail', left, outside'⟩ : ∃ c' tail',
        start.rest = blanks ++ (word ++ c' :: tail') ∧ wordCh c' = false := by
      have array : start.rest = (blanks ++ (word ++ [c]) ++ rest).dropLast ++ [0] := by
        rw [← head]
        exact array_stringDup (by rw [head]; simp)
      cases rest with
      | nil => exact ⟨0, [], by rw [array]; simp [List.dropLast_append_of_ne_nil], by decide⟩
      | cons d rest =>
          refine ⟨c, (d :: rest).dropLast ++ [0], ?_, outside⟩
          rw [array, List.dropLast_append_of_ne_nil (List.cons_ne_nil _ _)]
          simp
    have some : word ≠ [] := List.ne_nil_of_length_pos (by rw [size]; decide)
    have going : start.m_token ≠ .eof := nofun
    obtain ⟨lex, called, token, -⟩ :=
      nexts_word going blank some inside (by simpa using outside') left
    have whole : cstr word = word := cstr_whole fun mem => absurd (inside 0 mem) (by decide)
    have wrong : lex.m_token ≠ .create := by
      rw [token, whole]
      exact sqlToken_ne_create (by rw [stringNew_cstr, List.length_dropLast, size])
    have made : sqllexNew (stringSubstring (stringDup sql) 0 (pos + 1)) = .some lex := by
      rw [sqllexNew_eq]
      exact congrArg (Option.map (·.2)) called
    simp [handed, found, _sqlprocParseParameters, sqlprocHead, made, wrong]

/-- No text of a definition is handed over. -/
theorem handed_definition {definition : Definition} {body : Bytes} {sql : Str}
    (spelled : definition.Spelled body sql.m_cstr) : handed sql = some none := by
  obtain ⟨head, written, -, text⟩ := spelled
  cases written with
  | @next _ _ _ gap behind white room rest =>
    cases rest with
    | @next _ _ _ gap' behind' white' room' rest' =>
      have apart : gap' ≠ [] := by
        rcases room' with apart | beside
        · exact apart
        · exact (beside _ rfl).elim
      obtain ⟨c, tail, split, outside, other⟩ :=
        @white_not_word gap' (definition.procedure.piece.spell ++ behind' ++ body) white' apart
      refine @handed_six sql gap definition.create.text tail c ?_ (white_blank white)
        (sameText_length definition.isCreate) definition.create.inside outside other
      rw [text, ← split]
      simp [Word.piece, Piece.spell]

/-- No definition is split. -/
theorem split_never {definition : Definition} {body : Bytes} {sql : Str}
    (spelled : definition.Spelled body sql.m_cstr) : ¬ definition.Split body sql := by
  rintro ⟨sp, rest, read, -⟩
  rw [handed_definition spelled] at read
  cases read

/-! ## A definition -/

/-- Tokens may be written with a blank in front of each. -/
theorem written_blanks (before : Option Piece) (pieces : List Piece) :
    Written before pieces (pieces.flatMap fun piece => 32 :: piece.spell) := by
  induction pieces generalizing before with
  | nil => exact .done fun _ mem => nomatch mem
  | cons piece pieces ih =>
      have white : White [32] := fun c mem => .inl (List.mem_singleton.mp mem)
      exact .next white (.inl (List.cons_ne_nil _ _)) (ih (some piece))

/-- A word, checked. -/
def Word.of (text : Bytes)
    (checked : text ≠ [] ∧ text.all wordCh ∧ text.head?.all fun c => !isdigit c) : Word where
  text := text
  some := checked.1
  inside := List.all_eq_true.mp checked.2.1
  first := fun c mem => by
    have first := checked.2.2
    rw [Option.mem_def.mp mem] at first
    simpa using first

/-- `CREATE PROCEDURE P ( A INT )`. -/
def plain : Definition where
  create := .of [67, 82, 69, 65, 84, 69] (by decide)
  procedure := .of [80, 82, 79, 67, 69, 68, 85, 82, 69] (by decide)
  name := .of [80] (by decide)
  prms := [{
    name := .of [65] (by decide)
    type := .of [73, 78, 84] (by decide)
    size := .unsized
    out := none
    isOut := fun _ mem => nomatch mem }]
  isCreate := show sameText true [67, 82, 69, 65, 84, 69] (lit "CREATE") = true by decide
  isProcedure :=
    show sameText true [80, 82, 79, 67, 69, 68, 85, 82, 69] (lit "PROCEDURE") = true by decide

/-- It stands in front of the body `SELECT 1`. -/
def plainText : Bytes := lit "CREATE PROCEDURE P ( A INT ) SELECT 1"

theorem plain_spelled : plain.Spelled (lit " SELECT 1") plainText := by
  refine ⟨lit "CREATE PROCEDURE P ( A INT )", ?_, by decide, by decide⟩
  have white : White [] := fun _ mem => nomatch mem
  exact .next white (.inr fun _ mem => nomatch mem) (written_blanks _ _)

/-- Nothing is handed over of it. -/
theorem plain_not_split : plain.Spelled (lit " SELECT 1") plainText ∧
    ¬ plain.Split (lit " SELECT 1") (stringTakeOwnership plainText) := by
  refine ⟨plain_spelled, ?_⟩
  rintro ⟨sp, rest, read, -⟩
  rw [@handed_definition plain (lit " SELECT 1") _ plain_spelled] at read
  cases read

/-- The definition is not split, so that no procedure is made of it, whatever its body is. -/
theorem split_never_plain : plain.Spelled (lit " SELECT 1") (stringTakeOwnership plainText).m_cstr ∧
    ¬ plain.Split (lit " SELECT 1") (stringTakeOwnership plainText) ∧
      ∀ parseBody, sqlprocNew (parseWith parseBody) (stringTakeOwnership plainText) = some none := by
  refine ⟨plain_spelled, split_never plain_spelled, fun parseBody => ?_⟩
  rw [sqlprocNew_handed, handed_definition plain_spelled]
  rfl

end Jspp.Splc
