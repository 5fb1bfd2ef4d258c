namespace BuildFeed.Text

def natural? (digits : List Char) : Option Nat :=
  if digits.isEmpty then none
  else if digits.all Char.isDigit then some (Nat.ofDigitChars 10 digits 0) else none

def unsigned? (bound : Nat) : List Char → Option Nat
  | '+' :: digits => (natural? digits).filter (· < bound)
  | digits => (natural? digits).filter (· < bound)

def signed? (bound : Nat) : List Char → Option Int
  | '-' :: digits => ((natural? digits).filter (· ≤ bound)).map fun n => -(n : Int)
  | '+' :: digits => ((natural? digits).filter (· < bound)).map Int.ofNat
  | digits => ((natural? digits).filter (· < bound)).map Int.ofNat

def word64? (cs : List Char) : Option Nat :=
  unsigned? UInt64.size cs

def int32? (cs : List Char) : Option Int32 :=
  (signed? (Nat.pow 2 31) cs).map Int32.ofInt

def decimal (n : Nat) : List Char :=
  Nat.toDigits 10 n

def hexadecimal (n : Nat) : List Char :=
  Nat.toDigits 16 n

def hexByte (b : UInt8) : String :=
  String.ofList ((hexadecimal b.toNat).leftpad 2 '0')

def zeroPadded (width : Nat) (digits : List Char) : List Char :=
  digits.leftpad width '0'

end BuildFeed.Text
