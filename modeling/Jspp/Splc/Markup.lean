/-
# Splc.Markup -- texts in XML attributes

`stringbufferAppendXmlEncode` writes a reference for each of seven characters of
an attribute, and takes a short way for a text without them.  `decode` reads
references by the rules of XML.

* `xmlCh`: what is written for a character.
* `stringbufferAppendXmlEncode_slow`: the short way writes the same.
* `decode_encoded`: what is read back has its line ends exchanged, as the
  reference of a carriage return is that of a line feed, and the other way round.
* `attribute_iff`: the texts that are read back as they were.
-/
import Jspp.Splc.Text

namespace Jspp.Splc

set_option autoImplicit false

/-! ## string.c and stringbuffer.c -/

/-- `IndexOfAnyCh`; `none` is -1. -/
def IndexOfAnyCh (str cp : Bytes) (start strLen : Nat) : Option Nat :=
  (((str.take strLen).drop start).findIdx? fun c => cp.contains c).map (· + start)

def StrRequiresXmlEncoding (str : Bytes) : Bool :=
  (IndexOfAnyCh str (lit "&'<>\"\r\n") 0 str.length).isSome

/-- The `switch` of `stringbufferAppendXmlEncode`. -/
def xmlCh (isAttribute : Bool) (c : UInt8) : Bytes :=
  if c = 38 then lit "&amp;"
  else if c = 39 then lit "&#39;"
  else if c = 60 then lit "&lt;"
  else if c = 62 then lit "&gt;"
  else if c = 34 then lit "&quot;"
  else if c = 13 then if isAttribute then lit "&#10;" else [c]
  else if c = 10 then if isAttribute then lit "&#13;" else [c]
  else [c]

/-- The loop. -/
def xmlLoop (isAttribute : Bool) (buf cp : Bytes) : Bytes :=
  cp.foldl (fun buf c => buf ++ xmlCh isAttribute c) buf

/-- The buffer is given by its contents. -/
def stringbufferAppendXmlEncode (buf cp : Bytes) (isAttribute : Bool) : Bytes :=
  if StrRequiresXmlEncoding cp = false then buf ++ cp else xmlLoop isAttribute buf cp

/-! ## References -/

/-- The numbers of the characters a document may have. -/
def isXmlChar (n : Nat) : Bool :=
  n == 9 || n == 10 || n == 13 || (32 ≤ n && n ≤ 0xD7FF) || (0xE000 ≤ n && n ≤ 0xFFFD) ||
    (0x10000 ≤ n && n ≤ 0x10FFFF)

/-- The value of a digit of a character reference. -/
def referenceDigit (base : Nat) (c : UInt8) : Option Nat :=
  let value := if isdigit c then c.toNat - 48
    else if 97 ≤ c && c ≤ 102 then c.toNat - 87
    else if 65 ≤ c && c ≤ 70 then c.toNat - 55
    else base
  if value < base then some value else none

def referenceNumber (base : Nat) : Nat → Bytes → Option Nat
  | n, [] => some n
  | n, c :: rest => (referenceDigit base c).bind fun d => referenceNumber base (n * base + d) rest

/-- The bytes of the character that a reference with some digits names. -/
def numbered (base : Nat) (digits : Bytes) : Option Bytes :=
  if digits = [] then none
  else (referenceNumber base 0 digits).bind fun n =>
    if isXmlChar n then some (String.utf8EncodeChar (Char.ofNat n)) else none

/-- The bytes that a reference stands for. -/
def reference (name : Bytes) : Option Bytes :=
  if name = lit "amp" then some (lit "&")
  else if name = lit "lt" then some (lit "<")
  else if name = lit "gt" then some (lit ">")
  else if name = lit "quot" then some (lit "\"")
  else if name = lit "apos" then some (lit "'")
  else
    match name with
    | 35 :: 120 :: digits => numbered 16 digits
    | 35 :: digits => numbered 10 digits
    | _ => none

/-- A text with its references replaced; inside of a reference, the name read so far. -/
def decode : Option Bytes → Bytes → Option Bytes
  | none, [] => some []
  | some _, [] => none
  | none, c :: rest =>
      if c = 38 then decode (some []) rest else (decode none rest).map (c :: ·)
  | some name, c :: rest =>
      if c = 59 then
        (reference name).bind fun bytes => (decode none rest).map (bytes ++ ·)
      else decode (some (name ++ [c])) rest

/-! ## Encoded attributes -/

/-- A carriage return for a line feed, and the other way round. -/
def exchanged (c : UInt8) : UInt8 := if c = 13 then 10 else if c = 10 then 13 else c

theorem exchanged_eq_iff (c : UInt8) : exchanged c = c ↔ c ≠ 13 ∧ c ≠ 10 := by
  unfold exchanged
  split
  case isTrue cr => subst cr; decide
  case isFalse cr =>
    split
    case isTrue lf => subst lf; decide
    case isFalse lf => exact iff_of_true rfl ⟨cr, lf⟩

theorem decode_xmlCh (c : UInt8) (rest : Bytes) :
    decode none (xmlCh true c ++ rest) = (decode none rest).map (exchanged c :: ·) := by
  by_cases amp : c = 38
  · subst amp; rfl
  by_cases apos : c = 39
  · subst apos; rfl
  by_cases lt : c = 60
  · subst lt; rfl
  by_cases gt : c = 62
  · subst gt; rfl
  by_cases quot : c = 34
  · subst quot; rfl
  by_cases cr : c = 13
  · subst cr; rfl
  by_cases lf : c = 10
  · subst lf; rfl
  · simp [xmlCh, exchanged, decode, amp, apos, lt, gt, quot, cr, lf]

/-- The characters that do not stand in an encoded attribute; an ampersand stands in a reference. -/
def breaking : Bytes := lit "<>'\"\r\n"

theorem clean_of_all {text : Bytes} (all : text.all (fun x => !breaking.contains x) = true)
    {x : UInt8} (mem : x ∈ text) : x ∉ breaking := by
  have other := List.all_eq_true.mp all x mem
  simpa using other

theorem xmlCh_clean {c x : UInt8} (mem : x ∈ xmlCh true c) : x ∉ breaking := by
  by_cases amp : c = 38
  · subst amp; exact clean_of_all (by decide) mem
  by_cases apos : c = 39
  · subst apos; exact clean_of_all (by decide) mem
  by_cases lt : c = 60
  · subst lt; exact clean_of_all (by decide) mem
  by_cases gt : c = 62
  · subst gt; exact clean_of_all (by decide) mem
  by_cases quot : c = 34
  · subst quot; exact clean_of_all (by decide) mem
  by_cases cr : c = 13
  · subst cr; exact clean_of_all (by decide) mem
  by_cases lf : c = 10
  · subst lf; exact clean_of_all (by decide) mem
  · have itself : x = c := by
      simpa [xmlCh, amp, apos, lt, gt, quot, cr, lf] using mem
    subst itself
    intro breaks
    have known : x = 60 ∨ x = 62 ∨ x = 39 ∨ x = 34 ∨ x = 13 ∨ x = 10 := by
      simpa [breaking, lit] using breaks
    simp_all

theorem xmlLoop_append (isAttribute : Bool) (buf cp : Bytes) :
    xmlLoop isAttribute buf cp = buf ++ cp.flatMap (xmlCh isAttribute) := by
  induction cp generalizing buf with
  | nil => simp [xmlLoop]
  | cons c cp ih =>
      rw [xmlLoop, List.foldl_cons]
      exact (ih _).trans (by rw [List.flatMap_cons, List.append_assoc])

theorem requires_iff (cp : Bytes) :
    StrRequiresXmlEncoding cp = true ↔ ∃ c ∈ cp, c ∈ lit "&'<>\"\r\n" := by
  simp [StrRequiresXmlEncoding, IndexOfAnyCh]

/-- A text without any of the seven characters is written as it is by the loop, too. -/
theorem stringbufferAppendXmlEncode_slow (buf cp : Bytes) (isAttribute : Bool) :
    stringbufferAppendXmlEncode buf cp isAttribute = xmlLoop isAttribute buf cp := by
  unfold stringbufferAppendXmlEncode
  split
  case isTrue short =>
    have plain : ∀ c ∈ cp, c ∉ lit "&'<>\"\r\n" := fun c mem special =>
      absurd ((requires_iff cp).mpr ⟨c, mem, special⟩) (by rw [short]; exact Bool.false_ne_true)
    have same : ∀ c ∈ cp, xmlCh isAttribute c = [c] := by
      intro c mem
      have others : c ≠ 38 ∧ c ≠ 39 ∧ c ≠ 60 ∧ c ≠ 62 ∧ c ≠ 34 ∧ c ≠ 13 ∧ c ≠ 10 := by
        simpa [lit] using plain c mem
      obtain ⟨amp, apos, lt, gt, quot, cr, lf⟩ := others
      simp [xmlCh, amp, apos, lt, gt, quot, cr, lf]
    rw [xmlLoop_append, List.flatMap_congr same, List.flatMap_singleton']
  case isFalse => rfl

theorem decode_encoded (cp : Bytes) :
    decode none (cp.flatMap (xmlCh true)) = some (cp.map exchanged) := by
  induction cp with
  | nil => rfl
  | cons c cp ih => rw [List.flatMap_cons, decode_xmlCh, ih, Option.map_some, List.map_cons]

/-- What is appended is a text of an attribute that is read back as it was, and the short way
appends what the loop does. -/
structure Invertible (cp : Bytes) : Prop where
  written : ∀ buf, ∃ text, stringbufferAppendXmlEncode buf cp true = buf ++ text ∧
    (∀ x ∈ text, x ∉ breaking) ∧ decode none text = some cp
  paths : ∀ buf, stringbufferAppendXmlEncode buf cp true = xmlLoop true buf cp

theorem exchanged_same_iff (cp : Bytes) : cp.map exchanged = cp ↔ 13 ∉ cp ∧ 10 ∉ cp := by
  induction cp with
  | nil => simp
  | cons c cp ih =>
      rw [List.map_cons, List.cons.injEq, exchanged_eq_iff, ih, List.mem_cons, List.mem_cons,
        not_or, not_or, ne_comm, ne_comm (a := c)]
      exact and_and_and_comm

theorem invertible_iff (cp : Bytes) : Invertible cp ↔ cp.map exchanged = cp := by
  constructor
  · intro invertible
    obtain ⟨text, appended, -, read⟩ := invertible.written []
    rw [stringbufferAppendXmlEncode_slow, xmlLoop_append] at appended
    rw [← List.append_cancel_left appended, decode_encoded] at read
    exact Option.some.inj read
  · intro same
    refine ⟨fun buf => ⟨cp.flatMap (xmlCh true), ?_, ?_, ?_⟩, fun buf =>
      stringbufferAppendXmlEncode_slow buf cp true⟩
    · rw [stringbufferAppendXmlEncode_slow, xmlLoop_append]
    · intro x mem
      obtain ⟨c, -, here⟩ := List.mem_flatMap.mp mem
      exact xmlCh_clean here
    · rw [decode_encoded, same]

/-- A text is read back as it was if and only if it has no carriage return and no line feed. -/
theorem attribute_iff (cp : Bytes) : Invertible cp ↔ 13 ∉ cp ∧ 10 ∉ cp :=
  (invertible_iff cp).trans (exchanged_same_iff cp)

/-- A line feed comes back as a carriage return. -/
theorem line_feed_lost : ¬ ∀ cp : Bytes, 0 ∉ cp → Invertible cp := by
  intro invertible
  have same := (invertible_iff [10]).mp (invertible [10] (by decide))
  exact absurd same (by decide)

end Jspp.Splc
