import BuildFeed.Wire.Slot

/-!
Values gone over in place. One routine serves both directions: on a reader it overwrites the value
part by part, on a writer it sends the parts and puts back what it has sent. What a routine has
assigned by the time it fails stays assigned.
-/

namespace BuildFeed

structure Outlet where
  accepted : List UInt8
  sink : Sink
  deriving DecidableEq

class Port (π : Type) where
  isReader : Bool
  move {α : Type} : Codec α → Terms → EStateM ProtocolError (π × α) Unit

instance : Port Source where
  isReader := true
  move c terms := fun (source, a) =>
    match c.read terms a source with
    | .ok b rest => .ok () (rest, b)
    | .error error rest => .error error (rest, a)

def Outlet.after (outlet : Outlet) (delivery : Delivery) : Outlet :=
  ⟨outlet.accepted ++ delivery.accepted, delivery.sink⟩

instance : Port Outlet where
  isReader := false
  move c terms := fun (outlet, a) =>
    let delivery := outlet.sink.deliver (c.emit terms a)
    match delivery.failure with
    | none => .ok () (outlet.after delivery, a)
    | some error => .error error (outlet.after delivery, a)

abbrev InPlace (π σ : Type) := EStateM ProtocolError (π × σ)

namespace InPlace

variable {π σ τ : Type}

theorem bind_of_ok {α β : Type} {r : InPlace π σ α} {f : α → InPlace π σ β} {s t : π × σ} {a : α}
    (h : r s = .ok a t) : (r >>= f) s = f a t := by
  change EStateM.bind r f s = f a t
  simp only [EStateM.bind, h]

theorem bind_of_error {α β : Type} {r : InPlace π σ α} {f : α → InPlace π σ β} {s t : π × σ}
    {error : ProtocolError} (h : r s = .error error t) : (r >>= f) s = .error error t := by
  change EStateM.bind r f s = .error error t
  simp only [EStateM.bind, h]

def value : InPlace π σ σ := fun s =>
  .ok s.2 s

def assign (a : σ) : InPlace π σ Unit := fun s =>
  .ok () (s.1, a)

def within (wrap : τ → σ) (t : τ) (r : InPlace π τ Unit) : InPlace π σ τ := fun s =>
  match r (s.1, t) with
  | .ok _ (port, t) => .ok t (port, wrap t)
  | .error error (port, t) => .error error (port, wrap t)

def through (wrap : τ → σ) (t : τ) (r : InPlace π τ Unit) : InPlace π σ Unit :=
  discard (within wrap t r)

def apart (t : τ) (r : InPlace π τ Unit) : InPlace π σ τ := do
  let s ← value
  within (fun _ => s) t r

def part (get : σ → τ) (set : σ → τ → σ) (r : InPlace π τ Unit) : InPlace π σ Unit := do
  let s ← value
  through (set s) (get s) r

def each (r : InPlace π τ Unit) : List τ → InPlace π (List τ) Unit
  | [] => pure ()
  | a :: as => do
      let a ← within (· :: as) a r
      through (a :: ·) as (each r as)

def whenReading [Port π] (r : InPlace π σ Unit) : InPlace π σ Unit :=
  if Port.isReader π then r else pure ()

@[simp] theorem whenReading_source (r : InPlace Source σ Unit) : whenReading r = r :=
  rfl

@[simp] theorem whenReading_outlet (r : InPlace Outlet σ Unit) : whenReading r = pure () :=
  rfl

def write (r : InPlace Outlet σ Unit) (a : σ) (sink : Sink) : Written σ :=
  match r (⟨[], sink⟩, a) with
  | .ok _ (outlet, a) => ⟨a, outlet.accepted, none, outlet.sink⟩
  | .error error (outlet, a) => ⟨a, outlet.accepted, some error, outlet.sink⟩

def read (r : InPlace Source σ Unit) (a : σ) : Read σ := fun source =>
  match r (source, a) with
  | .ok _ (rest, a) => .ok a rest
  | .error error (rest, _) => .error error rest

end InPlace

end BuildFeed
