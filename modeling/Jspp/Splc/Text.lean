/-
# Splc.Text -- the strings and hash tables of the portable library

A C string is the list of its bytes, without the NUL behind them.  A `string` of
the library is such a text with a length of its own, and the two disagree after
`stringNew`: it hands `m_len` to `StrCpyLen` where that function wants the room
for the NUL as well, so the copy lacks the last character while `m_len` counts
it (`stringNew_cstr`).  Everything built on `stringNew` inherits this: copies,
substrings, the lexeme of a token, the key of a hash table entry.

* `StrCpyLen`, `stringNew`, `stringCat`, `stringSubstring`: the copies.
* `Copying`: what a copy through `StrCpyLen` yields, for statements that suppose it exact.
* `stringIsEqual`, `stringStartsWith`, `stringIndexOfCh`: the comparisons.
* `charHash`, `Hashtable`: the table, its chains by `bucket`, newest entry first.

Allocation is taken to succeed.
-/
import Mathlib.Algebra.Group.Int.Defs
import Mathlib.Algebra.Group.Nat.Defs
import Mathlib.Data.List.Basic

namespace Jspp.Splc

set_option autoImplicit false

/-- A C string, without its NUL. -/
abbrev Bytes := List UInt8

instance : LawfulBEq Bytes := inferInstance

/-- The bytes of a literal of the source. -/
def lit (s : String) : Bytes := s.toList.map fun c => c.toNat.toUInt8

/-- What `strlen` and `%s` see of a buffer: the bytes before its first NUL. -/
def cstr (buffer : Bytes) : Bytes := buffer.takeWhile (· ≠ 0)

def isdigit (c : UInt8) : Bool := 48 ≤ c && c ≤ 57

def isalnum (c : UInt8) : Bool := isdigit c || (65 ≤ c && c ≤ 90) || (97 ≤ c && c ≤ 122)

def ispunct (c : UInt8) : Bool := 33 ≤ c && c ≤ 126 && !isalnum c

def toupper (c : UInt8) : UInt8 := if 97 ≤ c && c ≤ 122 then c - 32 else c

/-- `StrCpyLen( to, from, maxlen )`: the loop stops when `--len` reaches 0. -/
def StrCpyLen (source : Bytes) (maxlen : Nat) : Bytes := source.take (maxlen - 1)

/-- What the library's copies yield.  It is `StrCpyLen`; a statement that supposes strings to
be copied exactly is made for any other copy. -/
class Copying where
  copy : Bytes → Nat → Bytes

instance cutting : Copying := ⟨StrCpyLen⟩

theorem copy_cut (source : Bytes) (maxlen : Nat) :
    Copying.copy source maxlen = source.take (maxlen - 1) := rfl

/-- The copy has the characters it is asked for. -/
def Copying.Exact [Copying] : Prop := ∀ source maxlen, Copying.copy source maxlen = source.take maxlen

/-- `StrCatLen( to, frm, len )`. -/
def StrCatLen (dest frm : Bytes) (len : Nat) : Bytes := (dest ++ frm).take (len - 1)

/-- A `string`: its text and its length field. -/
structure Str where
  m_cstr : Bytes
  m_len : Nat
  deriving DecidableEq, Repr

section Copies

variable [Copying]

def stringNew (cp : Bytes) : Str where
  m_cstr := Copying.copy cp cp.length
  m_len := cp.length

def stringDup (str : Str) : Str := stringNew str.m_cstr

end Copies

/-- `stringTakeOwnership`: the text is kept as it is. -/
def stringTakeOwnership (cp : Bytes) : Str where
  m_cstr := cp
  m_len := cp.length

/-- The copy lacks the last character. -/
@[simp] theorem stringNew_cstr (cp : Bytes) : (stringNew cp).m_cstr = cp.dropLast := by
  show StrCpyLen cp cp.length = _
  simp [StrCpyLen, List.dropLast_eq_take]

@[simp] theorem stringNew_len (cp : Bytes) : (stringNew cp).m_len = cp.length := rfl

/-- Only an empty text is copied whole. -/
theorem stringNew_whole (cp : Bytes) : (stringNew cp).m_cstr = cp ↔ cp = [] := by
  constructor
  · intro whole
    have short : cp.dropLast.length = cp.length := by rw [← stringNew_cstr, whole]
    rw [List.length_dropLast] at short
    exact List.length_eq_zero_iff.mp (by omega)
  · rintro rfl
    rfl

section Copies

variable [Copying]

def stringCat (s : Str) (cp : Bytes) (cplen : Nat) : Str :=
  let len := s.m_len + cplen + 1
  stringTakeOwnership (StrCatLen (Copying.copy s.m_cstr len) cp len)

/-- The copy is cut twice: by `StrCpyLen` and by `stringNew`. -/
def stringSubstring (str : Str) (start len : Nat) : Str :=
  if len = 0 then stringNew []
  else
    let start := min start str.m_len
    let len := if start + len > str.m_len then str.m_len - start else len
    stringNew (Copying.copy (str.m_cstr.drop start) len)

def stringSubstringFrom (str : Str) (start : Nat) : Str :=
  stringSubstring str start (str.m_len - start)

end Copies

/-- `toupper( a ) == toupper( b )`, or the bytes themselves. -/
def sameCh (ignoreCase : Bool) (a b : UInt8) : Bool :=
  if ignoreCase then toupper a == toupper b else a == b

/-- The loop of `stringIsEqual` on the two texts. -/
def sameText (ignoreCase : Bool) : Bytes → Bytes → Bool
  | a :: as, b :: bs => sameCh ignoreCase a b && sameText ignoreCase as bs
  | [], [] => true
  | _, _ => false

def stringIsEqual (str : Str) (cp : Bytes) (ignoreCase : Bool) : Bool :=
  sameText ignoreCase str.m_cstr cp

/-- The loop of `stringStartsWith`; the NUL of the text matches nothing. -/
def startsText (ignoreCase : Bool) : Bytes → Bytes → Bool
  | _, [] => true
  | a :: as, b :: bs => sameCh ignoreCase a b && startsText ignoreCase as bs
  | [], _ => false

def stringStartsWith (str : Str) (cp : Bytes) (ignoreCase : Bool) : Bool :=
  if str.m_len < cp.length then false else startsText ignoreCase str.m_cstr cp

/-- `stringIndexOfCh`, and `stringIndexOf` for a pattern of one character. -/
def stringIndexOfCh (str : Str) (c : UInt8) (start : Nat) : Option Nat :=
  ((str.m_cstr.drop start).findIdx? (· == c)).map (· + start)

theorem startsText_prefix {ignoreCase : Bool} {text front tail : Bytes}
    (starts : startsText ignoreCase text (front ++ tail) = true) :
    startsText ignoreCase text front = true := by
  induction front generalizing text with
  | nil => simp [startsText]
  | cons b front ih =>
      cases text with
      | nil => simp [startsText] at starts
      | cons a text =>
          simp only [List.cons_append, startsText, Bool.and_eq_true] at starts ⊢
          exact ⟨starts.1, ih starts.2⟩

theorem sameText_refl (ignoreCase : Bool) (text : Bytes) : sameText ignoreCase text text = true := by
  induction text with
  | nil => rfl
  | cons c text ih => simp [sameText, sameCh, ih]

theorem sameText_symm (ignoreCase : Bool) (a b : Bytes) :
    sameText ignoreCase a b = sameText ignoreCase b a := by
  induction a generalizing b with
  | nil => cases b <;> rfl
  | cons x a ih =>
      cases b with
      | nil => rfl
      | cons y b =>
          simp only [sameText, sameCh, ih b]
          cases ignoreCase <;> simp [Bool.beq_comm]

theorem sameText_trans {ignoreCase : Bool} {a b c : Bytes} (left : sameText ignoreCase a b = true)
    (right : sameText ignoreCase b c = true) : sameText ignoreCase a c = true := by
  induction a generalizing b c with
  | nil =>
      cases b with
      | nil => exact right
      | cons y b => simp [sameText] at left
  | cons x a ih =>
      cases b with
      | nil => simp [sameText] at left
      | cons y b =>
          cases c with
          | nil => simp [sameText] at right
          | cons z c =>
              simp only [sameText, Bool.and_eq_true] at left right ⊢
              refine ⟨?_, ih left.2 right.2⟩
              have first := left.1
              have second := right.1
              cases ignoreCase <;> simp_all [sameCh]

theorem sameText_length {ignoreCase : Bool} {a b : Bytes} (same : sameText ignoreCase a b = true) :
    a.length = b.length := by
  induction a generalizing b with
  | nil =>
      cases b with
      | nil => rfl
      | cons y b => simp [sameText] at same
  | cons x a ih =>
      cases b with
      | nil => simp [sameText] at same
      | cons y b =>
          simp only [sameText, Bool.and_eq_true] at same
          simp [ih same.2]

/-! ## Hash tables -/

/-- A `char` as it enters the hash: signed, then widened. -/
def widen (c : UInt8) : UInt64 := if c < 128 then c.toUInt64 else c.toUInt64 ||| 0xFFFFFFFFFFFFFF00

def charHashLong (str : Bytes) (caseInvariant : Bool) : UInt64 :=
  str.foldl
    (fun h c => (h <<< 6) ^^^ (h >>> 58) ^^^ widen (if caseInvariant then toupper c else c)) 0

def charHash (str : Bytes) (caseInvariant : Bool) : UInt32 :=
  let h := charHashLong str caseInvariant
  let low : UInt64 := h &&& 0xFFFFFFFF
  (low ^^^ (h >>> 32)).toUInt32

structure HashItem (α : Type) where
  bucket : Nat
  m_key : Str
  m_value : α

/-- The entries of all chains, the newest first; a chain is the entries of its bucket. -/
structure Hashtable (α : Type) where
  m_keyIgnoreCase : Bool
  m_count : Nat
  m_table : List (HashItem α)

def hashtableNew {α : Type} (ignoreCase : Bool) : Hashtable α where
  m_keyIgnoreCase := ignoreCase
  m_count := 0
  m_table := []

namespace Hashtable

variable {α : Type}

def m_size : Nat := 701

def bucketOf (ht : Hashtable α) (cp : Bytes) : Nat := (charHash cp ht.m_keyIgnoreCase).toNat % m_size

/-- The test of the loops of `_hashtableGetItem` and `hashtablePut`. -/
def hits (ht : Hashtable α) (cp : Bytes) (hi : HashItem α) : Bool :=
  hi.bucket == ht.bucketOf cp && stringIsEqual hi.m_key cp ht.m_keyIgnoreCase

def getItem (ht : Hashtable α) (cp : Bytes) : Option (HashItem α) := ht.m_table.find? (ht.hits cp)

def hashtableContainsKey (ht : Hashtable α) (cp : Bytes) : Bool := (ht.getItem cp).isSome

def hashtableGet (ht : Hashtable α) (cp : Bytes) : Option α := (ht.getItem cp).map (·.m_value)

/-- The first entry that `hits` selects, with its value changed. -/
def setFirst (hit : HashItem α → Bool) (f : α → α) : List (HashItem α) → List (HashItem α)
  | [] => []
  | hi :: rest =>
      if hit hi then { hi with m_value := f hi.m_value } :: rest else hi :: setFirst hit f rest

/-- A new entry is keyed by a copy of `cp`, which `stringNew` cuts. -/
def hashtablePut [Copying] (ht : Hashtable α) (cp : Bytes) (val : α) : Hashtable α :=
  if ht.hashtableContainsKey cp then
    { ht with m_table := setFirst (ht.hits cp) (fun _ => val) ht.m_table }
  else
    { ht with
      m_count := ht.m_count + 1
      m_table :=
        { bucket := ht.bucketOf cp, m_key := stringNew cp, m_value := val } :: ht.m_table }

def hashtableCount (ht : Hashtable α) : Nat := ht.m_count

/-- The loops over `m_table[ x ]`, chain by chain. -/
def entries (ht : Hashtable α) : List (HashItem α) :=
  (List.range m_size).flatMap fun x => ht.m_table.filter (·.bucket == x)

theorem hashtableGet_empty (ht : Hashtable α) (empty : ht.m_table = []) (cp : Bytes) :
    ht.hashtableGet cp = none := by
  simp [hashtableGet, getItem, empty]

end Hashtable

end Jspp.Splc
