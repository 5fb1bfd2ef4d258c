import BuildFeed.Wire.InPlace.Basic

namespace BuildFeed.InPlace

variable {π σ α : Type} [Port π] (terms : Terms)

def flag (present : Bool) : InPlace π σ Bool :=
  apart present (Port.move Codec.bool terms)

def optional (blank : α) (r : InPlace π α Unit) : InPlace π (Option α) Unit := do
  let a? ← value
  if ← flag terms a?.isSome then through some (a?.getD blank) r
  else assign none

def text : InPlace π String Unit :=
  Port.move Codec.text terms

def int32 : InPlace π Int32 Unit :=
  Port.move Codec.int32 terms

def int64 : InPlace π Int64 Unit :=
  Port.move Codec.int64 terms

def bool : InPlace π Bool Unit :=
  Port.move Codec.bool terms

def countChecked (what : String) (n : Nat) : InPlace π σ Unit :=
  match Codec.countFault? what terms.limits n with
  | some error => throw error
  | none => pure ()

def count (what : String) : InPlace π Nat Unit := do
  let n ← value
  countChecked terms what n
  let stated ← apart (Int32.ofNat n) (int32 terms)
  if 0 ≤ stated.toInt ∧ stated.toInt ≤ terms.limits.maxItems then assign stated.toInt.toNat
  else throw (.lengthOutOfRange what stated.toInt terms.limits.maxItems)

def optionalText : InPlace π (Option String) Unit :=
  optional terms "" (text terms)

def wordToMove : InPlace π Instant Int64 := do
  if Port.isReader π then pure 0
  else
    match (← value).toWord? with
    | some n => pure n
    | none => throw .timestampOutOfRange

def assignWord (n : Int64) : InPlace π Instant Unit :=
  match Instant.ofWord? n with
  | some t => assign t
  | none => throw .timestampOutOfRange

def instant : InPlace π Instant Unit := do
  let n ← wordToMove
  let n ← apart n (int64 terms)
  whenReading (assignWord n)

def coded [Coded α] : InPlace π α Unit := do
  let code ← apart (Coded.code (← value)) (int32 terms)
  match Coded.ofCode? code with
  | some a => assign a
  | none => throw (.invalidCode (Coded.title α) code)

def places (what : String) (blank : α) : InPlace π (List α) Unit := do
  let n ← apart (← value).length (count terms what)
  whenReading (assign (List.replicate n blank))

def textList : InPlace π (List String) Unit := do
  places terms "string list" ""
  each (text terms) (← value)

/-- A text that a writer always has. Where a reader finds none, the place keeps what it holds. -/
def presentText : InPlace π String Unit := do
  if ← flag terms true then text terms

def argTexts : InPlace π (Option (List String)) Unit :=
  optional terms [] do
    places terms "argument list" ""
    each (presentText terms) (← value)

def property : InPlace π (String × String) Unit := do
  part Prod.fst (fun p name => (name, p.2)) (text terms)
  part Prod.snd (fun p value => (p.1, value)) (text terms)

def insertions : Nat → InPlace π PropertyTable Unit
  | 0 => pure ()
  | n + 1 => do
      let (name, setting) ← apart ("", "") (property terms)
      assign ((← value).insert name setting)
      insertions n

def readTable : InPlace π PropertyTable Unit := do
  let n ← apart 0 (count terms "property table")
  assign .empty
  insertions terms n

def writeTable : InPlace π PropertyTable Unit := do
  let entries := (← value).filled.entries
  let _ ← apart entries.length (count terms "property table")
  let _ ← apart entries (each (property terms) entries)

def propertyTable : InPlace π PropertyTable Unit :=
  if Port.isReader π then readTable terms else writeTable terms

def properties : InPlace π (Option PropertyTable) Unit :=
  optional terms .empty (propertyTable terms)

def since (version : Int32) : InPlace π (Option String) Unit :=
  if terms.version < version then whenReading (assign none) else optionalText terms

end BuildFeed.InPlace
