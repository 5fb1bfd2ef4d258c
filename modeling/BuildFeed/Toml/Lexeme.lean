import BuildFeed.Toml.Scan

namespace BuildFeed.Toml

open Scan

def isSpace (c : Char) : Bool :=
  c = ' ' || c = '\t'

def isPlain (c : Char) : Bool :=
  c = '\t' || (0x20 ≤ c.toNat && c.toNat ≠ 0x7F)

def spaces : Scan Unit := do
  let _ ← run isSpace

def newline : Scan Unit :=
  char '\n' <|> word ['\r', '\n']

def comment : Scan Unit := do
  char '#'
  let _ ← run isPlain

def lineEnd : Scan Unit := do
  spaces
  let _ ← attempt comment
  if !(← isDone) then newline

def gap : Scan Unit := do
  spaces
  let _ ← many do
    let _ ← attempt comment
    newline
    spaces

def hexValue? (c : Char) : Option Nat :=
  if c.isDigit then some (c.toNat - '0'.toNat)
  else if 'a' ≤ c ∧ c ≤ 'f' then some (c.toNat - 'a'.toNat + 10)
  else if 'A' ≤ c ∧ c ≤ 'F' then some (c.toNat - 'A'.toNat + 10)
  else none

def codePoint (n : Nat) : Scan Char := fun cs => do
  let digits ← (cs.take n).mapM hexValue?
  let value := digits.foldl (fun value digit => 16 * value + digit) 0
  if digits.length = n ∧ value.isValidChar then some (Char.ofNat value, cs.drop n) else none

def escape : Scan Char := do
  match ← satisfying fun _ => true with
  | 'b' => pure '\x08'
  | 't' => pure '\t'
  | 'n' => pure '\n'
  | 'f' => pure '\x0C'
  | 'r' => pure '\r'
  | '"' => pure '"'
  | '\\' => pure '\\'
  | 'u' => codePoint 4
  | 'U' => codePoint 8
  | _ => fail

def basicChar : Scan Char := do
  match ← satisfying fun c => isPlain c && c ≠ '"' with
  | '\\' => escape
  | c => pure c

def basicString : Scan String := do
  char '"'
  let cs ← many basicChar
  char '"'
  pure (String.ofList cs)

def literalString : Scan String := do
  char '\''
  let cs ← run fun c => isPlain c && c ≠ '\''
  char '\''
  pure (String.ofList cs)

def foldedLine : Scan (List Char) := do
  char '\\'
  spaces
  newline
  let _ ← many (spaces *> newline)
  spaces
  pure []

def innerQuotes (quote : Char) : Scan (List Char) := do
  let quotes ← run (· = quote)
  if quotes.isEmpty ∨ 3 ≤ quotes.length then fail
  pure quotes

def closing (quote : Char) : Scan (List Char) := do
  let quotes ← run (· = quote)
  if 3 ≤ quotes.length ∧ quotes.length ≤ 5 then pure (quotes.drop 3) else fail

def multiline (quote : Char) (piece : Scan (List Char)) : Scan String := do
  word [quote, quote, quote]
  let _ ← attempt newline
  let pieces ← many (piece <|> (newline *> pure ['\n']) <|> innerQuotes quote)
  let quotes ← closing quote
  pure (String.ofList (pieces.flatten ++ quotes))

def multilineBasic : Scan String :=
  multiline '"' (foldedLine <|> (fun c => [c]) <$> basicChar)

def multilineLiteral : Scan String :=
  multiline '\'' ((fun c => [c]) <$> satisfying fun c => isPlain c && c ≠ '\'')

def string : Scan String :=
  multilineBasic <|> basicString <|> multilineLiteral <|> literalString

def isBare (c : Char) : Bool :=
  c.isAlphanum || c = '_' || c = '-'

def simpleKey : Scan String := do
  match ← peek with
  | some '"' => basicString
  | some '\'' => literalString
  | _ =>
      let cs ← run isBare
      if cs.isEmpty then fail
      pure (String.ofList cs)

def maxPath : Nat := 79

def keyPath : Scan (List String) := do
  let path ← separated '.' (spaces *> simpleKey <* spaces)
  if path.length ≤ maxPath then pure path else fail

def digitRun (p : Char → Bool) : Scan (List Char) := do
  let first ← satisfying p
  let rest ← many do
    let _ ← attempt (char '_')
    satisfying p
  pure (first :: rest)

def sign : Scan Bool :=
  (char '-' *> pure true) <|> (char '+' *> pure false) <|> pure false

def wholeDigits : Scan (List Char) :=
  (char '0' *> pure ['0']) <|> digitRun Char.isDigit

def radixInteger (mark : Char) (radix : Nat) : Scan Int := do
  word ['0', mark]
  let digits ← digitRun fun c => (hexValue? c).any (· < radix)
  let value := digits.foldl (fun value c => radix * value + (hexValue? c).getD 0) 0
  if value < Nat.pow 2 63 then pure value else fail

def decimalInteger : Scan Int := do
  let negative ← sign
  let digits ← wholeDigits
  let value := Nat.ofDigitChars 10 digits 0
  if negative then
    if value ≤ Nat.pow 2 63 then pure (-value) else fail
  else if value < Nat.pow 2 63 then pure value else fail

def integer : Scan Int :=
  radixInteger 'x' 16 <|> radixInteger 'o' 8 <|> radixInteger 'b' 2 <|> decimalInteger

/-- Whether `digits * 10 ^ exponent` rounds to no finite binary number of 64 bits. -/
def overflows (digits : Nat) (exponent : Int) : Bool :=
  let places : Int := (Text.decimal digits).length + exponent
  if digits = 0 ∨ places < 309 then false
  else if 309 < places then true
  else
    Nat.pow 2 1024 - Nat.pow 2 970 ≤
      digits * Nat.pow 10 exponent.toNat / Nat.pow 10 (-exponent).toNat

def float : Scan Unit := do
  let negative ← sign
  let special := word "inf".toList <|> word "nan".toList
  let fraction := char '.' *> digitRun Char.isDigit
  let exponent : Scan Int := do
    let _ ← char 'e' <|> char 'E'
    let negative ← sign
    let n := Nat.ofDigitChars 10 (← digitRun Char.isDigit) 0
    pure (if negative then -n else n)
  let finite : Scan Unit := do
    let whole ← wholeDigits
    let places ← attempt fraction
    let power ← attempt exponent
    if places.isNone ∧ power.isNone then fail
    let places := places.getD []
    let digits := Nat.ofDigitChars 10 (whole ++ places) 0
    if !negative && overflows digits (power.getD 0 - places.length) then fail
  special <|> finite

def daysIn (year month : Nat) : Nat :=
  if month = 2 then
    if year % 4 = 0 ∧ (year % 100 ≠ 0 ∨ year % 400 = 0) then 29 else 28
  else if month ∈ [4, 6, 9, 11] then 30
  else 31

def date : Scan Unit := do
  let year ← fixedDigits 4
  char '-'
  let month ← fixedDigits 2
  char '-'
  let day ← fixedDigits 2
  if month < 1 ∨ 12 < month ∨ day < 1 ∨ daysIn year month < day then fail

def hourAndMinute : Scan Unit := do
  let hour ← fixedDigits 2
  char ':'
  let minute ← fixedDigits 2
  if 23 < hour ∨ 59 < minute then fail

def time : Scan Unit := do
  hourAndMinute
  char ':'
  let second ← fixedDigits 2
  if 60 < second then fail
  let _ ← attempt do
    char '.'
    let _ ← satisfying Char.isDigit
    run Char.isDigit

def offset : Scan Unit := do
  match ← satisfying fun _ => true with
  | 'Z' | 'z' => pure ()
  | '+' | '-' => hourAndMinute
  | _ => fail

def dateTime : Scan Unit :=
  let full : Scan Unit := do
    date
    let _ ← attempt do
      let _ ← satisfying fun c => c = 'T' || c = 't' || c = ' '
      time
      attempt offset
  full <|> time

end BuildFeed.Toml
