import BuildFeed.Wire.ErrorFrame

namespace BuildFeed

inductive Packet where
  | event (event : Event)
  | projectError (error : ProjectError)
  | loggerError (error : LoggerError)
  deriving DecidableEq

namespace Packet

def projectErrorTag : Int32 := 100

def loggerErrorTag : Int32 := 101

def tag : Packet → Int32
  | event e => Coded.code e.type
  | projectError _ => projectErrorTag
  | loggerError _ => loggerErrorTag

def emitFrame (terms : Terms) : Packet → Emission
  | event e => e.emit terms
  | projectError e => Codec.projectError.emit terms e
  | loggerError e => Codec.loggerError.emit terms e

def emit (terms : Terms) (p : Packet) : Emission :=
  Codec.int32.emit terms p.tag ++ p.emitFrame terms

def readTagged (terms : Terms) (tag : Int32) : Read Packet :=
  if tag = projectErrorTag then projectError <$> Codec.projectError.parse terms
  else if tag = loggerErrorTag then loggerError <$> Codec.loggerError.parse terms
  else
    match Coded.ofCode? tag with
    | some type => event <$> Event.read terms type
    | none => throw (.unknownEventType tag)

def receive (terms : Terms) : Read (Option Packet) := do
  if ← Read.atEnd then pure none
  else
    let tag ← Codec.int32.parse terms
    some <$> readTagged terms tag

def readOne (terms : Terms) : Read Packet := do
  let tag ← Codec.int32.parse terms
  readTagged terms tag

theorem receive_of_ne_nil (terms : Terms) {bytes : List UInt8} (h : bytes ≠ [])
    (fault : Option StreamFault) :
    receive terms ⟨bytes, fault⟩ = (some <$> readOne terms) ⟨bytes, fault⟩ := by
  cases bytes with
  | nil => exact absurd rfl h
  | cons b bytes =>
      simp only [readOne, map_bind]
      rfl

def receiveUpTo (terms : Terms) : Nat → Source → List Packet × Option ProtocolError
  | 0, _ => ([], none)
  | fuel + 1, source =>
      match receive terms source with
      | .ok none _ => ([], none)
      | .error error _ => ([], some error)
      | .ok (some p) rest =>
          let (packets, ending) := receiveUpTo terms fuel rest
          (p :: packets, ending)

/-- All packets up to the end of the stream or the first error. Each takes a byte at least. -/
def receiveAll (terms : Terms) (source : Source) : List Packet × Option ProtocolError :=
  receiveUpTo terms (source.bytes.length + 1) source

def attributedTo (p : Packet) (node : Int32) : Packet :=
  match p with
  | event e => event (e.attributedTo node)
  | other => other

end Packet

end BuildFeed
