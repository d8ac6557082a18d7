/-!
# Decimal text of doubles

The value of a finite double is `mantissa * 2 ^ exponent`.  It is shown with the fewest decimal
digits that read back to it, and among those with the digits nearest to it; selection works on
exact natural numbers.  The digits are written out positionally, never with an exponent.
-/

namespace Lox.Decimal

/-- How many fractions, exponents and signless bit patterns a double can have. -/
def fractions : Nat := Nat.pow 2 52

def exponents : Nat := Nat.pow 2 11

def magnitudes : Nat := exponents * fractions

/-- A positive real, `mantissa * 2 ^ exponent`, and whether the gap below it is half as wide. -/
structure Binary where
  mantissa : Nat
  exponent : Int
  narrowBelow : Bool
deriving DecidableEq, Repr

/-- The magnitude of a finite double from its fields of exponent and fraction. -/
def Binary.ofFields (biased fraction : Nat) : Binary :=
  if biased = 0 then ⟨fraction, -1074, false⟩
  else ⟨fractions + fraction, (biased : Int) - 1075, fraction = 0 && 1 < biased⟩

/-- A positive rational number. -/
structure Ratio where
  num : Nat
  den : Nat

/-- The ratio times a power of the base, of either sign. -/
def Ratio.scale (ratio : Ratio) (base : Nat) (power : Int) : Ratio :=
  if power < 0 then ⟨ratio.num, ratio.den * Nat.pow base power.natAbs⟩
  else ⟨ratio.num * Nat.pow base power.natAbs, ratio.den⟩

/--
The number of decimal places from the point up to the first digit of a positive value, counted
down from `guess`: the least `k` with `value < 10 ^ k`, if `value < 10 ^ guess`.
-/
def magnitude (value : Ratio) (guess : Int) : Nat → Int
  | 0 => guess
  | steps + 1 =>
    let below := value.scale 10 (1 - guess)
    if below.num < below.den then magnitude value (guess - 1) steps else guess

/-- Decimal digits as one number, and the power of ten that the last of them counts. -/
structure Digits where
  digits : Nat
  power : Int
deriving DecidableEq, Repr

/--
The point nearest to `value` on the grid of multiples of `10 ^ power` that still reads back:
of the two neighbours on the grid those between `low` and `high`, ends included iff `closed`.
A value half way between two such neighbours goes to the upper one.
-/
def nearestOnGrid (value low high : Ratio) (closed : Bool) (power : Int) : Option Digits :=
  let scaled := value.scale 10 (-power)
  let below := scaled.num / scaled.den
  let lowest := low.scale 10 (-power)
  let highest := high.scale 10 (-power)
  let belowReads := if closed then lowest.num ≤ below * lowest.den else lowest.num < below * lowest.den
  let aboveReads :=
    if closed then (below + 1) * highest.den ≤ highest.num else (below + 1) * highest.den < highest.num
  let nearerBelow := 2 * (scaled.num - below * scaled.den) < scaled.den
  match decide belowReads, decide aboveReads with
  | true, true => some ⟨if nearerBelow then below else below + 1, power⟩
  | true, false => some ⟨below, power⟩
  | false, true => some ⟨below + 1, power⟩
  | false, false => none

/-- The first of the grids, coarse to fine, with a point that reads back. -/
def firstGrid (value low high : Ratio) (closed : Bool) (power : Int) : Nat → Digits
  | 0 => ⟨(value.scale 10 (-power)).num / (value.scale 10 (-power)).den, power⟩
  | finer + 1 =>
    match nearestOnGrid value low high closed power with
    | some digits => digits
    | none => firstGrid value low high closed (power - 1) finer

/-- A power of ten above `mantissa * 2 ^ exponent`, from the number of its bits. -/
def Binary.powerAbove (b : Binary) : Int :=
  ((Nat.log2 b.mantissa : Int) + 1 + b.exponent) * 30103 / 100000 + 1

/-- The fewest digits that read back to a positive double; seventeen are always enough. -/
def shortest (b : Binary) : Digits :=
  let at4 (quarters : Nat) : Ratio := Ratio.scale ⟨quarters, 4⟩ 2 b.exponent
  let value := at4 (4 * b.mantissa)
  let low := at4 (4 * b.mantissa - if b.narrowBelow then 1 else 2)
  let high := at4 (4 * b.mantissa + 2)
  firstGrid value low high (b.mantissa % 2 = 0) (magnitude value b.powerAbove 4 - 1) 17

def trimZeros (digits : List Char) : List Char :=
  (digits.reverse.dropWhile (· == '0')).reverse

/-- Digits laid out around the point, without an exponent and without needless zeros. -/
def Digits.positional (d : Digits) : List Char :=
  let digits := (Nat.toDigits 10 d.digits)
  if 0 ≤ d.power then digits ++ List.replicate d.power.natAbs '0'
  else
    let places := d.power.natAbs
    let padded := List.replicate (places + 1 - digits.length) '0' ++ digits
    let whole := padded.take (padded.length - places)
    match trimZeros (padded.drop (padded.length - places)) with
    | [] => whole
    | fraction => whole ++ '.' :: fraction

/-- How the values that are no decimals are spelled. -/
structure Names where
  nan : String
  infinity : String
  negativeInfinity : String

/-- The text of a double; zero keeps its sign. -/
def text (names : Names) (x : Float) : String :=
  let bits := x.toBits.toNat
  let negative := magnitudes ≤ bits
  let biased := bits / fractions % exponents
  let fraction := bits % fractions
  if biased + 1 = exponents then
    if fraction ≠ 0 then names.nan
    else if negative then names.negativeInfinity
    else names.infinity
  else
    let magnitude :=
      if biased = 0 ∧ fraction = 0 then ['0']
      else (shortest (Binary.ofFields biased fraction)).positional
    String.ofList (if negative then '-' :: magnitude else magnitude)

/-- The number that a sequence of ASCII digits writes. -/
def natOfDigits (digits : List Char) : Nat :=
  digits.foldl (fun value c => 10 * value + (c.toNat - '0'.toNat)) 0

/-- The double nearest to the decimal with the given digits before and after the point. -/
def ofDigits (whole fraction : List Char) : Float :=
  Float.ofScientific (natOfDigits (whole ++ fraction)) true fraction.length

end Lox.Decimal
