/-!
# UTF-8

Bytes are decoded by a machine that reads one byte at a time.  Each maximal ill-formed part of
the input becomes one `none`; a strict reader refuses it and a lenient one shows U+FFFD for it.
-/

namespace Lox.Utf8

/--
A character whose first bytes have been read: the bits so far, how many bytes are still owed,
and the closed range that the next of them must lie in.
-/
structure Partial where
  bits : Nat
  owed : Nat
  low : Nat
  high : Nat
deriving DecidableEq, Repr

/-- What the machine makes of a byte that starts a character. -/
inductive Lead where
  | complete (c : Char)
  | opened (p : Partial)
  | malformed
deriving DecidableEq, Repr

/-- The first byte of a character fixes its length and the range of its second byte. -/
def lead (byte : Nat) : Lead :=
  if byte < 0x80 then .complete (Char.ofNat byte)
  else if byte < 0xC2 then .malformed
  else if byte < 0xE0 then .opened ⟨byte - 0xC0, 1, 0x80, 0xBF⟩
  else if byte = 0xE0 then .opened ⟨0, 2, 0xA0, 0xBF⟩
  else if byte = 0xED then .opened ⟨0xD, 2, 0x80, 0x9F⟩
  else if byte < 0xF0 then .opened ⟨byte - 0xE0, 2, 0x80, 0xBF⟩
  else if byte = 0xF0 then .opened ⟨0, 3, 0x90, 0xBF⟩
  else if byte < 0xF4 then .opened ⟨byte - 0xF0, 3, 0x80, 0xBF⟩
  else if byte = 0xF4 then .opened ⟨4, 3, 0x80, 0x8F⟩
  else .malformed

/-- Take one more byte, known to lie in the range, into a character. -/
def Partial.extend (p : Partial) (byte : Nat) : Lead :=
  let bits := p.bits * 64 + byte % 64
  if p.owed ≤ 1 then .complete (Char.ofNat bits) else .opened ⟨bits, p.owed - 1, 0x80, 0xBF⟩

/-- The machine between bytes: parts decoded so far, latest first, and the open character. -/
structure Decoder where
  parts : List (Option Char)
  opened : Option Partial

namespace Decoder

def start (decoder : Decoder) (byte : Nat) : Decoder :=
  match lead byte with
  | .complete c => ⟨some c :: decoder.parts, none⟩
  | .opened p => ⟨decoder.parts, some p⟩
  | .malformed => ⟨none :: decoder.parts, none⟩

/-- A byte out of range ends the open character as one ill-formed part and starts another. -/
def push (decoder : Decoder) (byte : Nat) : Decoder :=
  match decoder.opened with
  | none => decoder.start byte
  | some p =>
    if p.low ≤ byte ∧ byte ≤ p.high then
      match p.extend byte with
      | .complete c => ⟨some c :: decoder.parts, none⟩
      | .opened next => ⟨decoder.parts, some next⟩
      | .malformed => ⟨none :: decoder.parts, none⟩
    else
      start ⟨none :: decoder.parts, none⟩ byte

/-- At the end of input a character that is still open is an ill-formed part. -/
def finish (decoder : Decoder) : List (Option Char) :=
  match decoder.opened with
  | none => decoder.parts.reverse
  | some _ => (none :: decoder.parts).reverse

end Decoder

/-- Characters and ill-formed parts of a byte sequence, in order. -/
def parts (bytes : List UInt8) : List (Option Char) :=
  let decoder : Decoder := bytes.foldl (fun decoder byte => decoder.push byte.toNat) ⟨[], none⟩
  decoder.finish

/-- The characters of a well-formed byte sequence. -/
def decode? (bytes : List UInt8) : Option (List Char) :=
  if (parts bytes).all Option.isSome then some ((parts bytes).filterMap id) else none

/-- Every byte sequence read as text, with U+FFFD for each maximal ill-formed part. -/
def decodeLossy (bytes : List UInt8) : List Char :=
  (parts bytes).map fun part => part.getD '\ufffd'

end Lox.Utf8
