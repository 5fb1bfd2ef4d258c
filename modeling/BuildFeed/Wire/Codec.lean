import BuildFeed.Instant
import BuildFeed.PropertyTable
import BuildFeed.Wire.Emission
import BuildFeed.Wire.Source

namespace BuildFeed

structure Limits where
  maxText : Nat := 16777216
  maxItems : Nat := 1048576
  deriving DecidableEq

structure Terms where
  version : Int32
  limits : Limits := {}
  deriving DecidableEq

def currentVersion : Int32 := 3

def oldestVersion : Int32 := 1

structure Codec (α : Type) where
  emit : Terms → α → Emission
  /-- Reads a value; the last argument is the value it takes the place of. -/
  read : Terms → α → Read α
  blank : α

namespace Codec

def parse {α : Type} (c : Codec α) (terms : Terms) : Read α :=
  c.read terms c.blank

def littleEndian : Nat → Nat → List UInt8
  | 0, _ => []
  | width + 1, n => UInt8.ofNat n :: littleEndian width (n / 256)

def ofLittleEndian : List UInt8 → Nat
  | [] => 0
  | b :: bytes => b.toNat + 256 * ofLittleEndian bytes

theorem length_littleEndian (width n : Nat) : (littleEndian width n).length = width := by
  induction width generalizing n with
  | zero => rfl
  | succ width ih => simp [littleEndian, ih]

theorem ofLittleEndian_littleEndian (width n : Nat) :
    ofLittleEndian (littleEndian width n) = n % Nat.pow 256 width := by
  induction width generalizing n with
  | zero => simp [littleEndian, ofLittleEndian, Nat.mod_one]
  | succ width ih =>
      have hpow : Nat.pow 256 (width + 1) = 256 * Nat.pow 256 width := Nat.pow_succ'
      have hbyte : (UInt8.ofNat n).toNat = n % 256 := rfl
      rw [littleEndian, ofLittleEndian, ih, hbyte, hpow, Nat.mod_mul]

def word (width : Nat) : Codec Nat where
  emit _ n := .chunk (littleEndian width n)
  read _ _ := ofLittleEndian <$> Read.bytes .endInField width
  blank := 0

def iso {α β : Type} (c : Codec α) (wrap : α → β) (unwrap : β → α) : Codec β where
  emit terms b := c.emit terms (unwrap b)
  read terms b := wrap <$> c.read terms (unwrap b)
  blank := wrap c.blank

def byte : Codec UInt8 :=
  (word 1).iso UInt8.ofNat UInt8.toNat

def int32 : Codec Int32 :=
  (word 4).iso (fun n => (UInt32.ofNat n).toInt32) (fun n => n.toUInt32.toNat)

def uint64 : Codec UInt64 :=
  (word 8).iso UInt64.ofNat UInt64.toNat

def int64 : Codec Int64 :=
  uint64.iso UInt64.toInt64 Int64.toUInt64

def bool : Codec Bool where
  emit terms b := byte.emit terms (if b then 1 else 0)
  read terms _ := do
    match ← byte.parse terms with
    | 0 => pure false
    | 1 => pure true
    | other => throw (.invalidBool other)
  blank := false

def coded {α : Type} [Coded α] [Inhabited α] : Codec α where
  emit terms a := int32.emit terms (Coded.code a)
  read terms a := do
    let code ← int32.read terms (Coded.code a)
    match Coded.ofCode? code with
    | some a => pure a
    | none => throw (.invalidCode (Coded.title α) code)
  blank := default

def sized (what : String) : Codec (List UInt8) where
  emit terms bytes :=
    if bytes.length ≤ terms.limits.maxText ∧ bytes.length < UInt32.size then
      (word 4).emit terms bytes.length ++ .chunk bytes
    else .fail (.lengthOutOfRange what bytes.length terms.limits.maxText)
  read terms _ := do
    let length ← (word 4).parse terms
    if length ≤ terms.limits.maxText then Read.bytes .endInBody length
    else throw (.lengthOutOfRange what length terms.limits.maxText)
  blank := []

def blob : Codec (List UInt8) :=
  sized "byte buffer"

def text : Codec String where
  emit terms s := (sized "string").emit terms (Text.utf8 s)
  read terms _ := do
    match Text.ofUtf8 (← (sized "string").parse terms) with
    | .ok s => pure s
    | .error fault => throw (.invalidUtf8 fault)
  blank := ""

def countFault? (what : String) (limits : Limits) (n : Nat) : Option ProtocolError :=
  if n ≤ limits.maxItems ∧ n < Nat.pow 2 31 then none
  else some (.lengthOutOfRange what n limits.maxItems)

/-- A number of items. The number that was there before has to be within the limits too. -/
def count (what : String) : Codec Nat where
  emit terms n :=
    match countFault? what terms.limits n with
    | none => int32.emit terms (Int32.ofNat n)
    | some error => .fail error
  read terms n := do
    if let some error := countFault? what terms.limits n then throw error
    let stated ← int32.read terms (Int32.ofNat n)
    if 0 ≤ stated.toInt ∧ stated.toInt ≤ terms.limits.maxItems then pure stated.toInt.toNat
    else throw (.lengthOutOfRange what stated.toInt terms.limits.maxItems)
  blank := 0

theorem countFault?_zero (what : String) (limits : Limits) : countFault? what limits 0 = none :=
  if_pos ⟨Nat.zero_le _, by decide⟩

theorem count_parse (what : String) (terms : Terms) :
    (count what).parse terms = (do
      let stated ← int32.parse terms
      if 0 ≤ stated.toInt ∧ stated.toInt ≤ terms.limits.maxItems then pure stated.toInt.toNat
      else throw (.lengthOutOfRange what stated.toInt terms.limits.maxItems)) := by
  unfold parse count
  simp only [countFault?_zero]
  rfl

def optional {α : Type} (c : Codec α) : Codec (Option α) where
  emit terms
    | some a => bool.emit terms true ++ c.emit terms a
    | none => bool.emit terms false
  read terms a? := do
    if ← bool.read terms a?.isSome then some <$> c.read terms (a?.getD c.blank)
    else pure none
  blank := none

def optionalText : Codec (Option String) :=
  text.optional

def since {α : Type} (version : Int32) (c : Codec (Option α)) : Codec (Option α) where
  emit terms a? := if terms.version < version then ∅ else c.emit terms a?
  read terms a? := if terms.version < version then pure none else c.read terms a?
  blank := none

def items {α : Type} (what : String) (c : Codec α) : Codec (List α) where
  emit terms as := (count what).emit terms as.length ++ .concat (as.map (c.emit terms))
  read terms as := do
    let n ← (count what).read terms as.length
    Read.times n (c.parse terms)
  blank := []

def textList : Codec (List String) :=
  text.items "string list"

def presentText : Codec String :=
  optionalText.iso (·.getD "") some

def argTexts : Codec (Option (List String)) :=
  (presentText.items "argument list").optional

def pair {α β : Type} (c : Codec α) (d : Codec β) : Codec (α × β) where
  emit terms p := c.emit terms p.1 ++ d.emit terms p.2
  read terms p := do
    let a ← c.read terms p.1
    let b ← d.read terms p.2
    pure (a, b)
  blank := (c.blank, d.blank)

def propertyTable : Codec PropertyTable where
  emit terms t := ((text.pair text).items "property table").emit terms t.filled.entries
  read terms _ := PropertyTable.ofList <$> ((text.pair text).items "property table").parse terms
  blank := .empty

def properties : Codec (Option PropertyTable) :=
  propertyTable.optional

def instant : Codec Instant where
  emit terms t :=
    match t.toWord? with
    | some n => int64.emit terms n
    | none => .fail .timestampOutOfRange
  read terms _ := do
    match Instant.ofWord? (← int64.parse terms) with
    | some t => pure t
    | none => throw .timestampOutOfRange
  blank := .epoch

theorem instant_read (terms : Terms) (t : Instant) :
    instant.read terms t = (fun n => .ofNanos n.toInt) <$> int64.parse terms := by
  simp only [instant, Instant.ofWord?_eq, map_eq_pure_bind]

end Codec

end BuildFeed
