import BuildFeed.Event.Kind
import BuildFeed.Text.Numeral
import BuildFeed.Text.Utf8

namespace BuildFeed

inductive FaultKind where
  | unexpectedEnd
  | brokenPipe
  | reset
  | aborted
  | other (name : String)
  deriving DecidableEq, Repr

/-- Any error that a stream fails with. A call that was interrupted is repeated and fails with
none. -/
structure StreamFault where
  kind : FaultKind
  message : String
  deriving DecidableEq, Repr

inductive StreamError where
  /-- The stream ended inside a value of fixed width. -/
  | endInField
  /-- The stream ended inside text or bytes of a stated length. -/
  | endInBody
  | broken (fault : StreamFault)
  deriving DecidableEq, Repr

inductive ProtocolError where
  | stream (error : StreamError)
  | lengthOutOfRange (what : String) (length : Int) (max : Nat)
  | invalidUtf8 (fault : Text.Utf8Fault)
  | invalidBool (byte : UInt8)
  | invalidCode (title : String) (code : Int32)
  | shapeMismatch (expected : EventType) (found : UInt8)
  | typeMismatch (expected actual : EventType)
  | unknownEventType (code : Int32)
  | timestampOutOfRange
  | missingValue (what : String)
  deriving DecidableEq

namespace StreamFault

def brokenPipe : StreamFault :=
  ⟨.brokenPipe, "broken pipe"⟩

def reset : StreamFault :=
  ⟨.reset, "connection reset"⟩

def aborted : StreamFault :=
  ⟨.aborted, "connection aborted"⟩

def timedOut : StreamFault :=
  ⟨.other "timed out", "timed out"⟩

def other : StreamFault :=
  ⟨.other "other", "stream failed"⟩

def isDisconnect (fault : StreamFault) : Bool :=
  match fault.kind with
  | .unexpectedEnd | .brokenPipe | .reset | .aborted => true
  | .other _ => false

end StreamFault

namespace StreamError

def message : StreamError → String
  | endInField => "failed to fill whole buffer"
  | endInBody => "unexpected end of file"
  | broken fault => fault.message

def isDisconnect : StreamError → Bool
  | endInField | endInBody => true
  | broken fault => fault.isDisconnect

end StreamError

namespace ProtocolError

def message : ProtocolError → String
  | stream error => "IO error: " ++ error.message
  | lengthOutOfRange what length max =>
      what ++ " length " ++ toString length ++ " exceeds limit " ++ toString max
  | invalidUtf8 fault => "invalid UTF-8 in string: " ++ fault.message
  | invalidBool byte => "invalid boolean byte 0x" ++ Text.hexByte byte
  | invalidCode title code => "invalid " ++ title ++ " value " ++ toString code
  | shapeMismatch expected found =>
      "expected " ++ expected.name ++ " frame, found discriminator " ++ toString found
  | typeMismatch expected actual =>
      "writer was asked for " ++ expected.name ++ " but the event is " ++ actual.name
  | unknownEventType code => "unknown event type code " ++ toString code
  | timestampOutOfRange => "timestamp cannot be represented on the wire"
  | missingValue what => "nothing to write: " ++ what ++ " is absent"

def isDesync : ProtocolError → Bool
  | lengthOutOfRange _ _ _ | invalidUtf8 _ | invalidBool _ | invalidCode _ _
  | shapeMismatch _ _ | unknownEventType _ => true
  | _ => false

def isDisconnect : ProtocolError → Bool
  | stream error => error.isDisconnect
  | _ => false

end ProtocolError

end BuildFeed
