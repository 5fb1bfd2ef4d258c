import BuildFeed.Log
import BuildFeed.Packet
import BuildFeed.Relay.Error

/-!
The relay's end of a channel. A pump greets its node, then moves packets from the node's stream to
the relay's queue, one at a time. It looks for a cancellation before each packet and when the
stream gives out.
-/

namespace BuildFeed

inductive PumpExit where
  | closed
  | cancelled
  | receiverDropped
  deriving DecidableEq, Repr

def PumpExit.name : PumpExit → String
  | closed => "closed"
  | cancelled => "cancelled"
  | receiverDropped => "receiver dropped"

abbrev PumpResult := Except RelayError PumpExit

instance : DecidableEq PumpResult
  | .ok a, .ok b => decidable_of_iff (a = b) (by simp)
  | .error a, .error b => decidable_of_iff (a = b) (by simp)
  | .ok _, .error _ | .error _, .ok _ => isFalse nofun

inductive Pump where
  | greeting (source : Source) (sink : Sink := .endless)
  | refused (error : HandshakeError)
  | polling (terms : Terms) (source : Source)
  | receiving (terms : Terms) (source : Source)
  | ended (error : Option ProtocolError)
  | sending (terms : Terms) (source : Source) (packet : Packet)
  | stopped (result : PumpResult)

inductive QueueState where
  | roomy
  | full
  | dropped
  deriving DecidableEq, Repr

namespace Pump

structure Step where
  next : Pump
  written : List UInt8 := []
  forwarded : Option Packet := none
  log : List LogRecord := []

def record (level : Level) (message : String) (node : Int32)
    (fields : List (String × String)) : LogRecord :=
  ⟨level, message, ("node_id", toString node) :: fields⟩

def stop (result : PumpResult) (log : LogRecord) : Step :=
  { next := stopped result, log := [log] }

def afterGreeting (config : Config) (node : Int32) (source : Source) (sink : Sink := .endless) :
    Step :=
  let outcome := Handshake.negotiate config.version source sink
  match outcome.result with
  | .error error => { next := refused error, written := outcome.written }
  | .ok version =>
      { next := polling ⟨version, config.limits⟩ outcome.source
        written := outcome.written
        log := [record .info "node connected" node [("version", toString version)]] }

def afterReceipt (node : Int32) (terms : Terms) (source : Source) : Step :=
  match Packet.receive terms source with
  | .ok (some packet) rest => { next := sending terms rest (packet.attributedTo node) }
  | .ok none _ => { next := ended none }
  | .error error _ => { next := ended (some error) }

def afterRefusal (node : Int32) (error : HandshakeError) (cancelled : Bool) : Step :=
  if cancelled then
    stop (.ok .cancelled) (record .debug "node pump cancelled during handshake" node [])
  else
    stop (.error (.handshake error))
      (record .warn "node handshake failed" node [("error", error.message)])

def afterEnd (node : Int32) (error : Option ProtocolError) (cancelled : Bool) : Step :=
  if cancelled then stop (.ok .cancelled) (record .debug "node pump cancelled" node [])
  else
    match error with
    | none => stop (.ok .closed) (record .info "node disconnected" node [])
    | some error =>
        let fields := [("error", error.message)]
        let log :=
          if error.isDesync then record .error "protocol desync; node work is lost" node fields
          else record .warn "node channel failed" node fields
        stop (.error (.protocol error)) log

def step? (config : Config) (node : Int32) (cancelled : Bool) (queue : QueueState) :
    Pump → Option Step
  | greeting source sink => some (afterGreeting config node source sink)
  | refused error => some (afterRefusal node error cancelled)
  | polling terms source =>
      if cancelled then
        some (stop (.ok .cancelled) (record .debug "node pump cancelled" node []))
      else some { next := receiving terms source }
  | receiving terms source => some (afterReceipt node terms source)
  | ended error => some (afterEnd node error cancelled)
  | sending terms source packet =>
      match queue with
      | .roomy => some { next := polling terms source, forwarded := some packet }
      | .full => none
      | .dropped =>
          some (stop (.ok .receiverDropped) (record .debug "event receiver dropped" node []))
  | stopped _ => none

def result? : Pump → Option PumpResult
  | stopped result => some result
  | _ => none

theorem stopped_of_result? {pump : Pump} {result : PumpResult} (h : pump.result? = some result) :
    pump = stopped result := by
  cases pump with
  | stopped other =>
    cases h
    rfl
  | _ => cases h

structure Run where
  pump : Pump
  written : List UInt8 := []
  packets : List Packet := []
  log : List LogRecord := []

def Run.after (run : Run) (step : Step) : Run where
  pump := run.pump
  written := step.written ++ run.written
  packets := step.forwarded.toList ++ run.packets
  log := step.log ++ run.log

def runUpTo (config : Config) (node : Int32) (cancelled : Bool) (queue : QueueState) :
    Nat → Pump → Run
  | 0, pump => { pump }
  | fuel + 1, pump =>
      match pump.step? config node cancelled queue with
      | none => { pump }
      | some step => (runUpTo config node cancelled queue fuel step.next).after step

/-- All the steps of a pump from the greetings on. There are three to a packet, which takes a byte
at least, and a few more at both ends. -/
def run (config : Config) (node : Int32) (cancelled : Bool) (queue : QueueState)
    (source : Source) (sink : Sink := .endless) : Run :=
  runUpTo config node cancelled queue (3 * source.bytes.length + 8) (greeting source sink)

end Pump

end BuildFeed
