import BuildFeed.Decimal.Rounding

namespace BuildFeed.Decimal

structure Binary64 where
  bits : UInt64
  deriving DecidableEq, Inhabited

/-- The value without its sign; a finite one is `significand * 2 ^ exponent`. -/
inductive Magnitude where
  | nan
  | infinite
  | finite (significand : Nat) (exponent : Int)
  deriving DecidableEq, Inhabited

namespace Binary64

def signBit (x : Binary64) : Bool :=
  Nat.pow 2 63 ≤ x.bits.toNat

def exponentField (x : Binary64) : Nat :=
  x.bits.toNat / Nat.pow 2 52 % Nat.pow 2 11

def fraction (x : Binary64) : Nat :=
  x.bits.toNat % Nat.pow 2 52

def magnitude (x : Binary64) : Magnitude :=
  if x.exponentField = 2047 then
    if x.fraction = 0 then .infinite else .nan
  else if x.exponentField = 0 then .finite x.fraction (-1074)
  else .finite (Nat.pow 2 52 + x.fraction) (x.exponentField - 1075)

def isNaN (x : Binary64) : Bool :=
  x.magnitude = .nan

def isZero (x : Binary64) : Bool :=
  x.bits.toNat % Nat.pow 2 63 = 0

def isNegative (x : Binary64) : Bool :=
  x.signBit && !x.isNaN && !x.isZero

def same (x y : Binary64) : Bool :=
  !x.isNaN && !y.isNaN && (x.bits == y.bits || (x.isZero && y.isZero))

def neg (x : Binary64) : Binary64 :=
  ⟨x.bits ^^^ 0x8000000000000000⟩

end Binary64

/-- The closest number with a significand of 53 bits; a tie goes to the even significand. -/
def Magnitude.ofNat (n : Nat) : Magnitude :=
  let excess := n.log2 - 52
  .finite (roundHalfEven n (Nat.pow 2 excess)) excess

end BuildFeed.Decimal
