import BuildFeed.Wire.Error

namespace BuildFeed

structure Source where
  bytes : List UInt8
  fault : Option StreamFault := none
  deriving DecidableEq

abbrev Read := EStateM ProtocolError Source

namespace Source

def drained (s : Source) : Source :=
  { s with bytes := [] }

def shortage (s : Source) (atEnd : StreamError) : StreamError :=
  match s.fault with
  | some fault => .broken fault
  | none => atEnd

/-- The next `n` bytes. Where there are fewer, they are lost. -/
def next (atEnd : StreamError) (n : Nat) : EStateM StreamError Source (List UInt8) := fun s =>
  let front := s.bytes.take n
  if front.length = n then .ok front { s with bytes := s.bytes.drop n }
  else .error (s.shortage atEnd) s.drained

theorem next_append (atEnd : StreamError) (front rest : List UInt8)
    (fault : Option StreamFault) :
    next atEnd front.length ⟨front ++ rest, fault⟩ = .ok front ⟨rest, fault⟩ := by
  simp [next]

end Source

namespace Read

variable {α β : Type}

instance decidableEqResult [DecidableEq α] : DecidableEq (EStateM.Result ProtocolError Source α)
  | .ok a s, .ok b t => decidable_of_iff (a = b ∧ s = t) (by simp)
  | .error a s, .error b t => decidable_of_iff (a = b ∧ s = t) (by simp)
  | .ok _ _, .error _ _ | .error _ _, .ok _ _ => isFalse (by simp)

theorem bind_of_ok {r : Read α} {f : α → Read β} {s t : Source} {a : α} (h : r s = .ok a t) :
    (r >>= f) s = f a t := by
  change EStateM.bind r f s = f a t
  simp only [EStateM.bind, h]

theorem bind_of_error {r : Read α} {f : α → Read β} {s t : Source} {error : ProtocolError}
    (h : r s = .error error t) : (r >>= f) s = .error error t := by
  change EStateM.bind r f s = .error error t
  simp only [EStateM.bind, h]

def bytes (atEnd : StreamError) (n : Nat) : Read (List UInt8) :=
  (Source.next atEnd n).adaptExcept .stream

def atEnd : Read Bool := fun s =>
  match s.bytes, s.fault with
  | _ :: _, _ => .ok false s
  | [], none => .ok true s
  | [], some fault => .error (.stream (.broken fault)) s

def times (n : Nat) (read : Read α) : Read (List α) :=
  match n with
  | 0 => pure []
  | n + 1 => do
      let a ← read
      let rest ← times n read
      pure (a :: rest)

theorem bytes_append (atEnd : StreamError) (front rest : List UInt8) (fault : Option StreamFault) :
    bytes atEnd front.length ⟨front ++ rest, fault⟩ = .ok front ⟨rest, fault⟩ := by
  simp only [bytes, EStateM.adaptExcept, Source.next_append]

end Read

end BuildFeed
