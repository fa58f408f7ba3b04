/-
# Splc.Procbody -- the body of a procedure, rewritten

`_sqlprocParseBody` copies a body and puts a question mark form in the place of
each reference to a parameter.  Its position runs through the text, is moved by a
search behind a reference that the word INDICATOR follows somewhere, and is
tested against `m_len` at the head of each round.

A round is undefined where it reads behind `m_len`, and where it uses the
parameter of a reference that none was found for: `prm->m_name` of NULL.

* `Body`: the characters and the byte behind them.
* `_sqlprocConvert`, `sqlprocFindParam`: names, and the parameter they are part of.
* `readReference`, `behindReference`, `bodyRound`: a round, in the order of the source.
* `bodyLoop`: the main loop.
-/
import Jspp.Splc.Procedures
import Jspp.Theory.Loop

namespace Jspp.Splc

open Jspp.Theory

set_option autoImplicit false

/-- `m_len` characters of a string, and the byte at `m_len`. -/
structure Body where
  chars : Bytes
  behind : UInt8

namespace Body

variable (body : Body)

def m_len : Nat := body.chars.length

/-- `body->m_cstr[ pos ]`. -/
def charAt (pos : Nat) : Option UInt8 := (body.chars ++ [body.behind])[pos]?

/-- The characters from `pos` on that a loop takes. -/
def run (takes : UInt8 → Bool) (pos : Nat) : Bytes := (body.chars.drop pos).takeWhile takes

/-- `stringIndexOfCh`. -/
def indexOfCh (c : UInt8) (start : Nat) : Option Nat :=
  ((body.chars.drop start).findIdx? (· == c)).map (· + start)

/-- `stringIndexOf( body, "INDICATOR", pos, true ) > -1`: the first character as it is. -/
def indicatorBehind (pos : Nat) : Bool :=
  (body.chars.drop pos).tails.any fun
    | 73 :: rest => startsText true rest (lit "NDICATOR")
    | _ => false

/-- The test for OF: the second character is read behind an O alone. -/
def ofAt (pos : Nat) : Option Bool := do
  let c ← body.charAt pos
  if c = 79 ∨ c = 111 then
    let d ← body.charAt (pos + 1)
    some (d = 70 || d = 102)
  else some false

end Body

def iswhitespace (c : UInt8) : Bool := c == 32 || c == 9 || c == 10

/-- What the first loop of a round copies. -/
def plainCh (c : UInt8) : Bool := c != 58 && c != 63 && c != 39 && c != 34

/-- What `_sqlprocReadToWs` reads. -/
def nameCh (c : UInt8) : Bool := !iswhitespace c && c != 44 && c != 41

section Convert

variable [Copying]

/-- The loop of `stringSplit` at `-`, from a span that begins at `pos` and its delimiter. -/
def splitSpans (str : Str) : Nat → Nat → Nat → List Str
  | 0, _, _ => []
  | n + 1, pos, delimpos =>
      let span := stringSubstring str pos (delimpos - pos)
      let pos := delimpos + 1
      match stringIndexOfCh str 45 pos with
      | some delimpos => span :: splitSpans str n pos delimpos
      | none => span :: if str.m_len - pos = 0 then [] else [stringSubstringFrom str pos]

def stringSplit (str : Str) : List Str :=
  match stringIndexOfCh str 45 0 with
  | none => [stringDup str]
  | some delimpos => splitSpans str (str.m_len + 1) 0 delimpos

/-- `stringReplace( s, "-", "_" )`, of a string that has a `-`. -/
def stringReplaceDash (s : Str) : Str :=
  Packet.stringbufferToString ((s.array.take s.m_len).map fun c => if c = 45 then 95 else c)

def _sqlprocConvert (name : Str) (special : Bool) : Str :=
  if special then
    match stringIndexOfCh name 45 0 with
    | none => stringCat name (lit "_") 1
    | some _ => stringReplaceDash name
  else
    match stringIndexOfCh name 45 0 with
    | none => stringDup name
    | some _ =>
        let parts := stringSplit name
        let front := if (parts.head?.any fun s => isdigit (s.m_cstr.headD 0)) then lit "_" else []
        Packet.stringbufferToString
          (front ++ parts.flatMap fun s => (s.array.take s.m_len).map toupper)

end Convert

/-- `stringIndexOf( str, cp, 0, true ) > -1`.  The first character is compared as it is.  Of an
empty `cp` that is the NUL, and the bytes behind it are compared next: `past` says how. -/
def occurs (past : Bool) (str : Str) (cp : Bytes) : Bool :=
  match cp with
  | [] => past && (str.array.take str.m_len).contains 0
  | c :: cp => str.m_cstr.tails.any fun
      | [] => false
      | d :: rest => d == c && startsText true rest cp

def sqlprocFindParam (past : Bool) (prms : List Sqlparam) (cp : Bytes) : Option Sqlparam :=
  prms.find? fun p => occurs past p.m_name cp

def sqlprocFindParam2 (past : Bool) (prms : List Sqlparam) (cp1 cp2 : Bytes) : Option Sqlparam :=
  prms.find? fun p => occurs past p.m_name cp1 && occurs past p.m_name cp2

/-! ## A round -/

/-- A position and the buffer; `indicators` are the names put into `m_indicator`, each with
its parameter, the last first. -/
structure Parse where
  pos : Nat
  buf : Bytes
  indicators : List (Sqlparam × Str)

section Rounds

variable [Copying] (past : Bool) (prms : List Sqlparam) (body : Body)

/-- The words of a reference whose mark stands at `pos`, what white space is copied, the
parameter found, and the position behind. -/
structure Reference where
  word : Bytes
  white : Bytes
  prm : Option Sqlparam
  pos : Nat

/-- A reference up to `ASSERT( prm != NULL )`. -/
def readReference (pos : Nat) : Option Reference := do
  let pos := pos + 1
  let pos := pos + (body.run iswhitespace pos).length
  let word := body.run nameCh pos
  let pos := pos + word.length
  let name := _sqlprocConvert (Packet.stringbufferToString word) false
  let white := body.run iswhitespace pos
  let pos := pos + white.length
  if ← body.ofAt pos then
    let pos := pos + 3
    let pos := pos + (body.run iswhitespace pos).length
    let word2 := body.run nameCh pos
    let name2Raw := Packet.stringbufferToString word2
    let find (special : Bool) :=
      sqlprocFindParam2 past prms name.m_cstr (_sqlprocConvert name2Raw special).m_cstr
    some { word, white, prm := (find false).or (find true), pos := pos + word2.length }
  else some { word, white, prm := sqlprocFindParam past prms name.m_cstr, pos }

/-- Where the search behind INDICATOR moves the position to. -/
def indicatorPos (pos : Nat) : Nat :=
  match body.indexOfCh 58 pos with
  | some k => k + 1
  | none =>
      -- `pos` is 0 by now
      match body.indexOfCh 63 0 with
      | some k => k + 1
      | none => 0

/-- The indicator of a parameter, read from where the search ended. -/
def readIndicator (prm : Sqlparam) (s : Parse) : Option Parse := do
  let pos := indicatorPos body s.pos
  let word := body.run nameCh pos
  let pos := pos + word.length
  let name := _sqlprocConvert (Packet.stringbufferToString word) false
  let buf := s.buf ++ lit "INDICATOR ?"
  if ← body.ofAt pos then
    let pos := pos + 3
    let word2 := body.run nameCh pos
    let name2 := _sqlprocConvert (Packet.stringbufferToString word2) false
    let both := stringCat name name2.m_cstr name2.m_len
    some { pos := pos + word2.length, buf, indicators := (prm, both) :: s.indicators }
  else some { pos, buf, indicators := (prm, name) :: s.indicators }

/-- A reference whose mark stands at the position. -/
def parseReference (s : Parse) : Option Parse := do
  let ref ← readReference past prms body s.pos
  let prm ← ref.prm
  let white := body.run iswhitespace ref.pos
  let s : Parse := {
    pos := ref.pos + white.length
    buf := s.buf ++ ref.white ++ lit "?" ++ prm.m_name.m_cstr ++ lit " " ++ white
    indicators := s.indicators }
  if body.m_len ≤ s.pos then some s
  else
    let c ← body.charAt s.pos
    if c ≠ 73 ∧ c ≠ 105 then some s
    else if body.indicatorBehind s.pos then readIndicator body prm s
    else some s

/-- A quoted text whose quote `exitch` stands at the position. -/
def parseQuoted (exitch : UInt8) (s : Parse) : Option Parse := do
  let text := body.run (· != exitch) (s.pos + 1)
  let last ← body.charAt (s.pos + 1 + text.length)
  some { s with pos := s.pos + 1 + text.length + 1, buf := s.buf ++ exitch :: text ++ [last] }

/-- A round of the main loop. -/
def bodyRound (s : Parse) : Option Parse :=
  let text := body.run plainCh s.pos
  let s := { s with pos := s.pos + text.length, buf := s.buf ++ text }
  match body.chars[s.pos]? with
  | none => some s
  | some c =>
      if c = 39 ∨ c = 34 then parseQuoted body c s else parseReference past prms body s

def bodyLoop : Loop Parse where
  more s := s.pos < body.m_len
  round := bodyRound past prms body

def start : Parse where
  pos := 0
  buf := []
  indicators := []

end Rounds

end Jspp.Splc
