import BuildFeed.Decimal.Shortest
import BuildFeed.Locale

namespace BuildFeed

inductive Arg where
  | text (value : String)
  | integer (value : Int64)
  | decimal (value : Decimal.Binary64)
  deriving DecidableEq, Inhabited

inductive NumberKind where
  | integer
  | decimal
  deriving DecidableEq, Repr

inductive FormatError where
  | indexOutOfRange (index count : Nat)
  | malformed (position : Nat)
  | unsupportedSpecifier (spec : String) (kind : NumberKind)
  | widthOutOfRange (width : Nat)
  deriving DecidableEq

def maxWidth : Nat := 1000000

def NumberKind.name : NumberKind → String
  | .integer => "integer"
  | .decimal => "decimal"

namespace FormatError

def message : FormatError → String
  | indexOutOfRange index count =>
      "index " ++ toString index ++ " is out of range for " ++ toString count ++ " argument(s)"
  | malformed position =>
      "input string was not in a correct format (position " ++ toString position ++ ")"
  | unsupportedSpecifier spec kind =>
      "format specifier '" ++ spec ++ "' is not supported for " ++ kind.name ++ " arguments"
  | widthOutOfRange width =>
      "width " ++ toString width ++ " is too large (must be below " ++ toString maxWidth ++ ")"

def diagnostic (template : String) (error : FormatError) : String :=
  "\"" ++ template ++ "\"\n" ++ error.message

end FormatError

def readSpecifier (kind : NumberKind) (spec : List Char) :
    Except FormatError (Char × Option Nat) :=
  let unsupported := FormatError.unsupportedSpecifier (String.ofList spec) kind
  match spec with
  | [] => throw unsupported
  | letter :: digits =>
      if !letter.isAlpha then throw unsupported
      else if digits.isEmpty then pure (letter, none)
      else
        match Text.word64? digits with
        | none => throw unsupported
        | some precision =>
            if maxWidth ≤ precision then throw (.widthOutOfRange precision)
            else pure (letter, some precision)

def integerChars (n : Int64) : List Char :=
  if n.toInt < 0 then '-' :: Text.decimal n.toInt.natAbs else Text.decimal n.toInt.natAbs

/-- An integer under a specifier. `F` and `N` show the nearest binary number. -/
def renderInteger (locale : Locale) (n : Int64) (spec : List Char) :
    Except FormatError (List Char) := do
  let (letter, precision) ← readSpecifier .integer spec
  let fixed (inGroups : Bool) : List Char :=
    Decimal.fixed locale.marks inGroups (precision.getD 2) (n.toInt < 0)
      (.ofNat n.toInt.natAbs)
  let word := n.toUInt64.toNat
  let width := precision.getD 0
  match letter with
  | 'D' | 'd' =>
      let digits := Text.zeroPadded width (Text.decimal n.toInt.natAbs)
      pure (if n.toInt < 0 then '-' :: digits else digits)
  | 'X' => pure (Text.zeroPadded width ((Text.hexadecimal word).map Char.toUpper))
  | 'x' => pure (Text.zeroPadded width (Text.hexadecimal word))
  | 'F' | 'f' => pure (fixed false)
  | 'N' | 'n' => pure (fixed true)
  | _ => throw (.unsupportedSpecifier (String.ofList spec) .integer)

def renderDecimal (locale : Locale) (d : Decimal.Binary64) (spec : List Char) :
    Except FormatError (List Char) := do
  let (letter, precision) ← readSpecifier .decimal spec
  let fixed (inGroups : Bool) : List Char :=
    Decimal.fixed locale.marks inGroups (precision.getD 2) d.isNegative d.magnitude
  match letter with
  | 'F' | 'f' => pure (fixed false)
  | 'N' | 'n' => pure (fixed true)
  | _ => throw (.unsupportedSpecifier (String.ofList spec) .decimal)

namespace Arg

def ofNat (n : Nat) : Arg :=
  .integer (Int64.ofNat (min n (Nat.pow 2 63 - 1)))

def toChars (locale : Locale) : Arg → List Char
  | text value => value.toList
  | integer n => integerChars n
  | decimal d => d.shortest.map fun c => if c = '.' then locale.marks.decimal else c

def toText (locale : Locale) (arg : Arg) : String :=
  String.ofList (arg.toChars locale)

theorem toText_text (locale : Locale) (value : String) : toText locale (text value) = value :=
  String.ofList_toList

def render (locale : Locale) (arg : Arg) (spec : Option (List Char)) :
    Except FormatError (List Char) :=
  match spec, arg with
  | none, arg | some [], arg => pure (arg.toChars locale)
  | some _, text value => pure value.toList
  | some spec, integer n => renderInteger locale n spec
  | some spec, decimal d => renderDecimal locale d spec

def same : Arg → Arg → Bool
  | text a, text b => a = b
  | integer a, integer b => a = b
  | decimal a, decimal b => a.same b
  | _, _ => false

end Arg

end BuildFeed
