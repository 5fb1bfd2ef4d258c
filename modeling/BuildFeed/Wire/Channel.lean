import BuildFeed.Log
import BuildFeed.Wire.EventFrame

namespace BuildFeed

namespace Event

def rejection (expected : EventType) (error : ProtocolError) : List LogRecord :=
  if error.isDesync then
    [⟨.debug, "event frame rejected",
      [("event_type", expected.name), ("error", error.message)]⟩]
  else []

def encode (terms : Terms) (e : Event) : Except ProtocolError (List UInt8) :=
  let emission := e.emit terms
  match emission.failure with
  | none => .ok emission.bytes
  | some error => .error error

theorem encode_of_done {terms : Terms} {e : Event} (h : (e.emit terms).failure = none) :
    e.encode terms = .ok (e.emit terms).bytes := by
  simp only [encode, h]

theorem encode_of_failed {terms : Terms} {e : Event} {error : ProtocolError}
    (h : (e.emit terms).failure = some error) : e.encode terms = .error error := by
  simp only [encode, h]

theorem bytes_of_encode {terms : Terms} {e : Event} {bytes : List UInt8}
    (h : e.encode terms = .ok bytes) :
    (e.emit terms).failure = none ∧ (e.emit terms).bytes = bytes := by
  simp only [encode] at h
  split at h
  · next hdone =>
      cases h
      exact ⟨hdone, rfl⟩
  · cases h

def decode (terms : Terms) (expected : EventType) (bytes : List UInt8) :
    Except ProtocolError Event :=
  match read terms expected ⟨bytes, none⟩ with
  | .ok e _ => .ok e
  | .error error _ => .error error

end Event

end BuildFeed
