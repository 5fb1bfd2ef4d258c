import BuildFeed.Wire.Emission

namespace BuildFeed

structure Buffer where
  waiting : List UInt8
  sink : Sink
  deriving DecidableEq

namespace Buffer

def capacity : Nat := 8192

def empty (sink : Sink) : Buffer :=
  ⟨[], sink⟩

structure Outcome where
  accepted : List UInt8
  fault : Option StreamFault
  buffer : Buffer

def flush (b : Buffer) : Outcome :=
  let a := b.sink.accept b.waiting
  ⟨a.bytes, a.fault, ⟨b.waiting.drop a.bytes.length, a.sink⟩⟩

def put (b : Buffer) (bytes : List UInt8) : Outcome :=
  if bytes.length < capacity then ⟨[], none, { b with waiting := b.waiting ++ bytes }⟩
  else
    let a := b.sink.accept bytes
    ⟨a.bytes, a.fault, { b with sink := a.sink }⟩

def write (b : Buffer) (bytes : List UInt8) : Outcome :=
  if b.waiting.length + bytes.length ≤ capacity then b.put bytes
  else
    let flushed := b.flush
    match flushed.fault with
    | some _ => flushed
    | none =>
        let o := flushed.buffer.put bytes
        { o with accepted := flushed.accepted ++ o.accepted }

def writeAll (b : Buffer) : List (List UInt8) → Outcome
  | [] => ⟨[], none, b⟩
  | bytes :: rest =>
      let first := b.write bytes
      match first.fault with
      | some _ => first
      | none =>
          let o := first.buffer.writeAll rest
          { o with accepted := first.accepted ++ o.accepted }

def deliver (b : Buffer) (e : Emission) : List UInt8 × Option ProtocolError × Buffer :=
  let o := b.writeAll e.chunks
  match o.fault, e.failure with
  | some fault, _ => (o.accepted, some (.stream (.broken fault)), o.buffer)
  | none, some error => (o.accepted, some error, o.buffer)
  | none, none =>
      let last := o.buffer.flush
      (o.accepted ++ last.accepted, last.fault.map fun f => .stream (.broken f), last.buffer)

end Buffer

end BuildFeed
