namespace BuildFeed.Text

def utf8 (s : String) : List UInt8 :=
  s.toByteArray.data.toList

structure Utf8Fault where
  valid : Nat
  /-- How many bytes the broken sequence has, unless the bytes end inside it. -/
  length : Option Nat
  deriving DecidableEq, Repr

def Utf8Fault.message (fault : Utf8Fault) : String :=
  match fault.length with
  | some n =>
      "invalid utf-8 sequence of " ++ toString n ++ " bytes from index " ++ toString fault.valid
  | none => "incomplete utf-8 byte sequence from index " ++ toString fault.valid

/-- The ranges of the bytes that have to follow a first byte, if it can start a sequence. -/
def followers? (first : UInt8) : Option (List (UInt8 × UInt8)) :=
  if first < 0x80 then some []
  else if first < 0xC2 then none
  else if first < 0xE0 then some [(0x80, 0xBF)]
  else if first = 0xE0 then some [(0xA0, 0xBF), (0x80, 0xBF)]
  else if first = 0xED then some [(0x80, 0x9F), (0x80, 0xBF)]
  else if first < 0xF0 then some [(0x80, 0xBF), (0x80, 0xBF)]
  else if first = 0xF0 then some [(0x90, 0xBF), (0x80, 0xBF), (0x80, 0xBF)]
  else if first < 0xF4 then some [(0x80, 0xBF), (0x80, 0xBF), (0x80, 0xBF)]
  else if first = 0xF4 then some [(0x80, 0x8F), (0x80, 0xBF), (0x80, 0xBF)]
  else none

def matching : List (UInt8 × UInt8) → List UInt8 → Nat
  | (low, high) :: ranges, b :: bytes =>
      if low ≤ b ∧ b ≤ high then matching ranges bytes + 1 else 0
  | _, _ => 0

def firstFault (index : Nat) : List UInt8 → Utf8Fault
  | [] => ⟨index, none⟩
  | first :: rest =>
      match followers? first with
      | none => ⟨index, some 1⟩
      | some ranges =>
          let n := matching ranges rest
          if n = ranges.length then firstFault (index + 1 + n) (rest.drop n)
          else if n = rest.length then ⟨index, none⟩
          else ⟨index, some (n + 1)⟩
termination_by bytes => bytes.length
decreasing_by grind

def ofUtf8 (bytes : List UInt8) : Except Utf8Fault String :=
  let array := ByteArray.mk bytes.toArray
  if h : array.IsValidUTF8 then .ok (String.ofByteArray array h) else .error (firstFault 0 bytes)

theorem ofUtf8_utf8 (s : String) : ofUtf8 (utf8 s) = .ok s := by
  have h : ByteArray.mk (utf8 s).toArray = s.toByteArray := by
    simp [utf8]
  simp only [ofUtf8, h, s.isValidUTF8, dite_true]

theorem utf8_of_ofUtf8 {bytes : List UInt8} {s : String} (h : ofUtf8 bytes = .ok s) :
    utf8 s = bytes := by
  simp only [ofUtf8] at h
  split at h
  · cases h
    simp [utf8]
  · cases h

end BuildFeed.Text
