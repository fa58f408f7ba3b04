/-
# Splc.Packet -- reading a request off a byte buffer

`requestNew` reads a name, a user id, a password and then pairs of a name and a
value until the buffer ends.  A byte behind the end reads as 0 and sets no error
flag, so what is left of a cut string or number is zeros.

* `Packet` and the readers of packet.c.
* `requestNew`: the loop over the items, in the release build, where ASSERT is empty.
* `requestGetItem`: the first item of a name.

In `packetReadInt` and `packetReadLong` the calls of `packetNextByte` are taken
from left to right.
-/
import Jspp.Splc.Text

namespace Jspp.Splc

set_option autoImplicit false

/-- The buffer up to its `m_used`, and the reader's state. -/
structure Packet where
  m_buf : Bytes
  m_readpos : Nat
  m_isError : Bool

def packetNew (buf : Bytes) : Packet where
  m_buf := buf
  m_readpos := 0
  m_isError := false

/-- The tags of values: `S`, `I`, `L` and `d`. -/
def tagS : UInt8 := 83
def tagI : UInt8 := 73
def tagL : UInt8 := 76
def tagD : UInt8 := 100

/-- The value of an item; `real` keeps the text that `sscanf` reads. -/
inductive Value where
  | str (s : Str)
  | real (text : Bytes)
  | int (n : Int)
  | long (n : Int)
  deriving DecidableEq, Repr

/-- `m_type`. -/
def Value.m_type : Value → UInt8
  | .str _ => tagS
  | .real _ => tagD
  | .int _ => tagI
  | .long _ => tagL

theorem Value.m_type_ne (v : Value) : v.m_type ≠ 0 := by
  cases v <;> simp [m_type, tagS, tagI, tagL, tagD]

/-- An item; the name is NULL for the arguments of an EXEC text. -/
structure RequestItem where
  m_name : Option Str
  m_data : Value
  deriving DecidableEq, Repr

/-- A request; `m_items` is without the nameless item the list ends in. -/
structure Request where
  m_name : Str
  m_transid : Int
  m_userId : Str
  m_password : Str
  m_items : List RequestItem
  m_itemCount : Nat
  m_bytes : Nat
  deriving DecidableEq, Repr

namespace Packet

def packetIsEof (pkt : Packet) : Bool := pkt.m_buf.length ≤ pkt.m_readpos

def packetIsEofOrError (pkt : Packet) : Bool := pkt.packetIsEof || pkt.m_isError

def packetPeekByte (pkt : Packet) : UInt8 :=
  if pkt.packetIsEof then 0 else pkt.m_buf.getD pkt.m_readpos 0

def packetNextByte (pkt : Packet) : UInt8 × Packet :=
  (pkt.packetPeekByte, { pkt with m_readpos := pkt.m_readpos + 1 })

def packetNextType (pkt : Packet) : UInt8 := pkt.packetPeekByte

def packetIsValidNext (pkt : Packet) : Bool :=
  let type := pkt.packetPeekByte
  type == tagI || type == tagS || type == tagD || type == tagL

def fail (pkt : Packet) : Packet := { pkt with m_isError := true }

/-- The next `n` bytes, in the order of the calls of `packetNextByte`. -/
def nextBytes : Nat → Packet → Bytes × Packet
  | 0, pkt => ([], pkt)
  | n + 1, pkt =>
      let (c, pkt) := pkt.packetNextByte
      let (rest, pkt) := nextBytes n pkt
      (c :: rest, pkt)

/-- The bytes as one number, the highest byte first. -/
def bigEndian (bytes : Bytes) : Nat := bytes.foldl (fun n c => n * 256 + c.toNat) 0

def packetReadInt (pkt : Packet) : Int × Packet :=
  let (datatype, pkt) := pkt.packetNextByte
  if datatype ≠ tagI then (0, pkt.fail)
  else
    let (bytes, pkt) := nextBytes 4 pkt
    (Int.bmod (bigEndian bytes) (2 ^ 32), pkt)

def packetReadLong (pkt : Packet) : Int × Packet :=
  let (datatype, pkt) := pkt.packetNextByte
  if datatype ≠ tagL then (0, pkt.fail)
  else
    let (bytes, pkt) := nextBytes 8 pkt
    (Int.bmod (bigEndian bytes) (2 ^ 64), pkt)

def packetReadDouble (pkt : Packet) : Bytes × Packet :=
  let (datatype, pkt) := pkt.packetNextByte
  if datatype ≠ tagD then ([], pkt.fail)
  else
    let (len, pkt) := pkt.packetNextByte
    nextBytes len.toNat pkt

/-- The bytes a character takes: every size but 1 and 2 is read as 4. -/
def width (charsize : UInt8) : Nat := if charsize = 1 then 1 else if charsize = 2 then 2 else 4

/-- The loops over the characters: the first byte counts, the others are skipped. -/
def readChars (skip : Nat) : Nat → Packet → Bytes × Packet
  | 0, pkt => ([], pkt)
  | n + 1, pkt =>
      let (c, pkt) := pkt.packetNextByte
      let (_, pkt) := nextBytes skip pkt
      let (rest, pkt) := readChars skip n pkt
      (c :: rest, pkt)

variable [Copying]

/-- `stringbufferToString`: the text ends at the first NUL of the buffer. -/
def stringbufferToString (buf : Bytes) : Str := stringNew (cstr buf)

def packetReadString (pkt : Packet) : Option Str × Packet :=
  let (datatype, pkt) := pkt.packetNextByte
  if datatype ≠ tagS then (none, pkt.fail)
  else
    let (hi, pkt) := pkt.packetNextByte
    let (lo, pkt) := pkt.packetNextByte
    let (charsize, pkt) := pkt.packetNextByte
    let (buf, pkt) := readChars (width charsize - 1) (hi.toNat * 256 + lo.toNat) pkt
    (some (stringbufferToString buf), pkt)

/-- The `if` cascade over `m_type`. -/
def readValue (pkt : Packet) : Option (Value × Packet) :=
  let type := pkt.packetNextType
  if type = tagS then
    match pkt.packetReadString with
    | (some s, pkt) => some (.str s, pkt)
    | (none, _) => none
  else if type = tagD then let (text, pkt) := pkt.packetReadDouble; some (.real text, pkt)
  else if type = tagI then let (n, pkt) := pkt.packetReadInt; some (.int n, pkt)
  else if type = tagL then let (n, pkt) := pkt.packetReadLong; some (.long n, pkt)
  else none

/-- The item loop of `requestNew`; every round reads a byte, so `m_used` rounds
are enough.  New items go to the front. -/
def readItems : Nat → List RequestItem → Packet → Option (List RequestItem)
  | 0, items, _ => some items
  | n + 1, items, pkt =>
      if pkt.packetIsEofOrError then some items
      else if ¬ pkt.packetIsValidNext then none
      else
        match pkt.packetReadString with
        | (none, _) => none
        | (some name, pkt) =>
            match pkt.readValue with
            | none => none
            | some (data, pkt) =>
                readItems n ({ m_name := some name, m_data := data } :: items) pkt

end Packet

/-- `requestGetItem`: the search stops at an item without a name. -/
def getItem : List RequestItem → Bytes → Option RequestItem
  | [], _ => none
  | item :: rest, name =>
      match item.m_name with
      | none => none
      | some s => if stringIsEqual s name false then some item else getItem rest name

def requestGetItem (req : Request) (name : Bytes) : Option RequestItem := getItem req.m_items name

def TRANSACTION_ID : Bytes := lit "%%TRANSACTION-ID%%"

/-- `m_data.m_long`, whatever the item's type: `pun` is what the union holds there
when another member was written. -/
def Value.m_long (pun : Value → Int) : Value → Int
  | .long n => n
  | other => pun other

open Packet in
def requestNew [Copying] (pun : Value → Int) (buf : Bytes) : Option Request :=
  let pkt := packetNew buf
  if pkt.packetNextType ≠ tagS then none
  else
    match pkt.packetReadString with
    | (none, _) => none
    | (some name, pkt) =>
        if ¬ pkt.packetIsValidNext then none
        else
          match pkt.packetReadString with
          | (none, _) => none
          | (some userId, pkt) =>
              match pkt.packetReadString with
              | (none, _) => none
              | (some password, pkt) =>
                  match readItems buf.length [] pkt with
                  | none => none
                  | some items =>
                      some {
                        m_name := name
                        m_transid :=
                          match getItem items TRANSACTION_ID with
                          | none => 0
                          | some item => item.m_data.m_long pun
                        m_userId := userId
                        m_password := password
                        m_items := items
                        m_itemCount := items.length
                        m_bytes := buf.length }

end Jspp.Splc
