import BuildFeed.Relay.Pump

namespace BuildFeed

structure Attachment where
  node : Int32
  pump : Pump

structure Arrival where
  attachment : Nat
  packet : Packet
  deriving DecidableEq

structure Relay where
  config : Config
  attachments : List Attachment := []
  queue : List Arrival := []
  taken : List Arrival := []
  cancelled : Bool := false
  receiving : Bool := true

namespace Relay

def capacity (relay : Relay) : Nat :=
  max relay.config.queueDepth 1

def queueState (relay : Relay) : QueueState :=
  if !relay.receiving then .dropped
  else if relay.queue.length < relay.capacity then .roomy
  else .full

def attach (relay : Relay) (node : Int32) (source : Source) (sink : Sink := .endless) : Relay :=
  { relay with attachments := relay.attachments ++ [⟨node, .greeting source sink⟩] }

def pumped (relay : Relay) (i : Nat) (attachment : Attachment) (step : Pump.Step) : Relay :=
  { relay with
    attachments := relay.attachments.set i { attachment with pump := step.next }
    queue := relay.queue ++ step.forwarded.toList.map (Arrival.mk i) }

inductive Step : Relay → Relay → Prop where
  | pump {relay : Relay} {i : Nat} {attachment : Attachment} {step : Pump.Step} :
      relay.attachments[i]? = some attachment →
      attachment.pump.step? relay.config attachment.node relay.cancelled relay.queueState =
        some step →
      Step relay (relay.pumped i attachment step)
  | take {relay : Relay} {arrival : Arrival} {queue : List Arrival} :
      relay.receiving = true →
      relay.queue = arrival :: queue →
      Step relay { relay with queue, taken := relay.taken ++ [arrival] }
  | cancel {relay : Relay} : Step relay { relay with cancelled := true }
  | drop {relay : Relay} : Step relay { relay with receiving := false, queue := [] }

inductive Reaches : Relay → Relay → Prop where
  | refl {relay : Relay} : Reaches relay relay
  | tail {start mid last : Relay} : Reaches start mid → Step mid last → Reaches start last

def takenFrom (relay : Relay) (i : Nat) : List Packet :=
  (relay.taken.filter (·.attachment = i)).map Arrival.packet

def queuedFrom (relay : Relay) (i : Nat) : List Packet :=
  (relay.queue.filter (·.attachment = i)).map Arrival.packet

def runs (relay : Relay) : List (Int32 × Pump.Run) :=
  let queue := if relay.receiving then QueueState.roomy else .dropped
  relay.attachments.map fun a =>
    match a.pump with
    | .greeting source sink =>
        (a.node, Pump.run relay.config a.node relay.cancelled queue source sink)
    | pump => (a.node, { pump })

end Relay

end BuildFeed
