import BuildFeed.Packet
import BuildFeed.Relay.Error
import BuildFeed.Wire.Buffer

namespace BuildFeed

structure Link where
  terms : Terms
  locale : String
  buffer : Buffer

namespace Link

structure Connection where
  result : Except RelayError Link
  written : List UInt8

def connect (config : Config) (env : Environment) (source : Source) (sink : Sink) : Connection :=
  match config.fault? with
  | some error => ⟨.error (.config error), []⟩
  | none =>
      let outcome := Handshake.negotiate config.version source sink
      match outcome.result with
      | .error error => ⟨.error (.handshake error), outcome.written⟩
      | .ok version =>
          let terms := { version, limits := config.limits }
          ⟨.ok ⟨terms, config.localeName env, .empty outcome.sink⟩, outcome.written⟩

def message (link : Link) (template : String) (args : List Arg) : Message :=
  .lazyIn template args link.locale

structure Sending where
  accepted : List UInt8
  failure : Option RelayError
  link : Link

def send (link : Link) (p : Packet) : Sending :=
  let (accepted, failure, buffer) := link.buffer.deliver (p.emit link.terms)
  ⟨accepted, failure.map .protocol, { link with buffer }⟩

def sendAll (link : Link) : List Packet → List Sending × Link
  | [] => ([], link)
  | p :: ps =>
      let sending := link.send p
      match sending.failure with
      | some _ => ([sending], sending.link)
      | none =>
          let (rest, link) := sending.link.sendAll ps
          (sending :: rest, link)

def close (link : Link) : List UInt8 :=
  link.buffer.flush.accepted

end Link

end BuildFeed
