import BuildFeed.Decimal.Binary
import BuildFeed.Text.Numeral

/-!
The shortest decimal text that reads back as the same binary number, without an exponent.

A finite magnitude stands in the middle of the interval of reals that round to it. The coarsest
decimal grid with a point of that interval gives the digits.
-/

namespace BuildFeed.Decimal

/-- A positive rational interval around `value`, all three over the denominator `den`. -/
structure Interval where
  low : Nat
  value : Nat
  high : Nat
  den : Nat
  closed : Bool

namespace Interval

/-- The reals that round to `significand * 2 ^ exponent`. Below a power of two the neighbour is
only half as far away. The ends belong to it iff the significand is even. -/
def around (significand : Nat) (exponent : Int) : Interval :=
  let below := if significand = Nat.pow 2 52 ∧ -1074 < exponent then 1 else 2
  let num := Nat.pow 2 exponent.toNat
  { low := (4 * significand - below) * num
    value := 4 * significand * num
    high := (4 * significand + 2) * num
    den := 4 * Nat.pow 2 (-exponent).toNat
    closed := significand % 2 = 0 }

def contains (i : Interval) (n m : Nat) : Bool :=
  if i.closed then i.low * m ≤ n * i.den ∧ n * i.den ≤ i.high * m
  else i.low * m < n * i.den ∧ n * i.den < i.high * m

/-- The multiple of `10 ^ place` in the interval next to its value; of two the nearer one, the
upper one on a tie. -/
def gridPoint? (i : Interval) (place : Int) : Option Nat :=
  let up := Nat.pow 10 place.toNat
  let down := Nat.pow 10 (-place).toNat
  let q := i.value * down / (i.den * up)
  let r := i.value * down % (i.den * up)
  match i.contains (q * up) down, i.contains ((q + 1) * up) down with
  | true, true => some (if i.den * up ≤ 2 * r then q + 1 else q)
  | true, false => some q
  | false, true => some (q + 1)
  | false, false => none

def search (i : Interval) : Nat → Int → Nat × Int
  | 0, place => ((i.gridPoint? place).getD 0, place)
  | fuel + 1, place =>
      match i.gridPoint? place with
      | some n => (n, place)
      | none => i.search fuel (place - 1)

end Interval

/-- A power of ten above `significand * 2 ^ exponent`, by the rule `log₁₀ 2 < 0.30103`. -/
def topPlace (significand : Nat) (exponent : Int) : Int :=
  (significand.log2 + 1 + exponent) * 30103 / 100000 + 1

def shortestDigits (significand : Nat) (exponent : Int) : Nat × Int :=
  (Interval.around significand exponent).search 20 (topPlace significand exponent)

def positional (n : Nat) (place : Int) : List Char :=
  if 0 ≤ place then Text.decimal (n * Nat.pow 10 place.toNat)
  else
    let unit := Nat.pow 10 (-place).toNat
    Text.decimal (n / unit) ++ '.' :: Text.zeroPadded (-place).toNat (Text.decimal (n % unit))

def Magnitude.shortest : Magnitude → List Char
  | .nan => "NaN".toList
  | .infinite => "inf".toList
  | .finite 0 _ => ['0']
  | .finite significand exponent =>
      let (n, place) := shortestDigits significand exponent
      positional n place

def Binary64.shortest (x : Binary64) : List Char :=
  if x.signBit && !x.isNaN then '-' :: x.magnitude.shortest else x.magnitude.shortest

end BuildFeed.Decimal
