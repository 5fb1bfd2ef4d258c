import BuildFeed.Text.Numeral

namespace BuildFeed.Toml

abbrev Scan := StateT (List Char) Option

namespace Scan

def fail {α : Type} : Scan α := fun _ => none

def peek : Scan (Option Char) := fun cs => some (cs.head?, cs)

def satisfying (p : Char → Bool) : Scan Char
  | c :: cs => if p c then some (c, cs) else none
  | [] => none

def char (c : Char) : Scan Unit := do
  let _ ← satisfying (· = c)

def word (w : List Char) : Scan Unit := fun cs =>
  if w.isPrefixOf cs then some ((), cs.drop w.length) else none

def run (p : Char → Bool) : Scan (List Char) := fun cs =>
  some (cs.takeWhile p, cs.dropWhile p)

def attempt {α : Type} (scan : Scan α) : Scan (Option α) :=
  (some <$> scan) <|> pure none

def manyUpTo {α : Type} (scan : Scan α) : Nat → Scan (List α)
  | 0 => pure []
  | fuel + 1 => do
      match ← attempt scan with
      | none => pure []
      | some a => (a :: ·) <$> manyUpTo scan fuel

def many {α : Type} (scan : Scan α) : Scan (List α) := fun cs =>
  manyUpTo scan cs.length cs

def separated {α : Type} (mark : Char) (scan : Scan α) : Scan (List α) := do
  let first ← scan
  let rest ← many do
    char mark
    scan
  pure (first :: rest)

def isDone : Scan Bool := fun cs => some (cs.isEmpty, cs)

def fixedDigits (n : Nat) : Scan Nat := fun cs => do
  let digits := cs.take n
  if digits.length = n then pure (← Text.natural? digits, cs.drop n) else none

end Scan

end BuildFeed.Toml
