import BuildFeed.Message.Lazy

namespace BuildFeed

abbrev MessageFamily := List Message

namespace MessageFamily

def readWith {m : Type → Type} [Monad m] (format : Formatter m) (resolve : Resolver) (i : Nat)
    (family : MessageFamily) : m (Option String × MessageFamily) := do
  match family[i]? with
  | none => pure (none, family)
  | some message =>
      let (text, message) ← message.readWith format resolve
      pure (text, family.set i message)

def copy (i : Nat) (family : MessageFamily) : MessageFamily :=
  family ++ family[i]?.toList

def rewire (i : Nat) (family : MessageFamily) : MessageFamily :=
  family ++ (family[i]?.map fun message => Message.ofParts message.toParts).toList

def same (i j : Nat) (family : MessageFamily) : Bool :=
  i = j ||
    match family[i]?, family[j]? with
    | some a, some b => a.same b
    | _, _ => false

end MessageFamily

end BuildFeed
