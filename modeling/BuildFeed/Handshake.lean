import BuildFeed.Log
import BuildFeed.Wire.Codec

namespace BuildFeed

inductive HandshakeError where
  | stream (error : StreamError)
  | badMark (found : List UInt8)
  | unsupportedVersion (version : Int32)
  deriving DecidableEq

namespace HandshakeError

def message : HandshakeError → String
  | stream error => "IO error: " ++ error.message
  | badMark found => "bad magic [" ++ ", ".intercalate (found.map Text.hexByte) ++ "]"
  | unsupportedVersion version =>
      "peer speaks unsupported protocol version " ++ toString version

end HandshakeError

namespace Handshake

/-- The bytes `BWEV`. -/
def mark : List UInt8 :=
  [0x42, 0x57, 0x45, 0x56]

def versionBytes (version : Int32) : List UInt8 :=
  Codec.littleEndian 4 version.toUInt32.toNat

def greeting (version : Int32) : List UInt8 :=
  mark ++ versionBytes version

def readGreeting : EStateM HandshakeError Source Int32 := do
  let field (n : Nat) : EStateM HandshakeError Source (List UInt8) :=
    (Source.next .endInField n).adaptExcept .stream
  let found ← field 4
  if found ≠ mark then throw (.badMark found)
  let version := (UInt32.ofNat (Codec.ofLittleEndian (← field 4))).toInt32
  if version < oldestVersion then throw (.unsupportedVersion version)
  pure version

def lower (a b : Int32) : Int32 :=
  if b < a then b else a

structure Outcome where
  result : Except HandshakeError Int32
  written : List UInt8
  source : Source
  sink : Sink
  log : List LogRecord

def negotiate (ours : Int32) (source : Source) (sink : Sink) : Outcome :=
  let acceptance := sink.accept (greeting ours)
  let outcome (result : Except HandshakeError Int32) (source : Source) (log : List LogRecord) :
      Outcome := ⟨result, acceptance.bytes, source, acceptance.sink, log⟩
  match acceptance.fault with
  | some fault => outcome (.error (.stream (.broken fault))) source []
  | none =>
      match readGreeting source with
      | .error error rest => outcome (.error error) rest []
      | .ok theirs rest =>
          let agreed := lower ours theirs
          outcome (.ok agreed) rest
            [⟨.debug, "protocol version negotiated",
              [("local_version", toString ours), ("peer_version", toString theirs),
                ("version", toString agreed)]⟩]

end Handshake

end BuildFeed
