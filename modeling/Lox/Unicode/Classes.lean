import Lox.Unicode.Alphabetic
import Lox.Unicode.Numeric

/-!
# Character classes

The three classes of characters that source text and prompt lines are read by: alphabetic,
alphanumeric and white space.  Each is the Unicode property of that name; below U+0080 the
members are spelled out, so that facts about ASCII punctuation need no table.
-/

namespace Lox.Unicode

/-- Whether a code point lies in one of the closed ranges. -/
def inRanges (ranges : List (Nat × Nat)) (code : Nat) : Bool :=
  ranges.any fun range => range.1 ≤ code && code ≤ range.2

def isAsciiLetter (c : Char) : Bool :=
  ('a' ≤ c && c ≤ 'z') || ('A' ≤ c && c ≤ 'Z')

/-- The ASCII digits `0` to `9`, the only ones a number literal is written with. -/
def isDigit (c : Char) : Bool :=
  '0' ≤ c && c ≤ '9'

def isAlphabetic (c : Char) : Bool :=
  if c.toNat < 0x80 then isAsciiLetter c else inRanges alphabeticRanges c.toNat

def isNumeric (c : Char) : Bool :=
  if c.toNat < 0x80 then isDigit c else inRanges numericRanges c.toNat

def isAlphanumeric (c : Char) : Bool :=
  isAlphabetic c || isNumeric c

/-- The characters with the Unicode property `White_Space`. -/
def isWhitespace (c : Char) : Bool :=
  c == ' ' || ('\t' ≤ c && c ≤ '\r') || c == '\u0085' || c == '\u00a0' || c == '\u1680' ||
    ('\u2000' ≤ c && c ≤ '\u200a') || c == '\u2028' || c == '\u2029' || c == '\u202f' ||
    c == '\u205f' || c == '\u3000'

theorem isAlphanumeric_of_isAlphabetic {c : Char} (alphabetic : isAlphabetic c) :
    isAlphanumeric c := by
  simp [isAlphanumeric, alphabetic]

end Lox.Unicode
