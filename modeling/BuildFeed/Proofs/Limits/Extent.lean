import BuildFeed.Proofs.Transfer.Image

namespace BuildFeed

variable {α : Type}

inductive Extent where
  | text (s : String)
  | items (what : String) (count : Nat)
  | time (nanos : Int)
  deriving DecidableEq

namespace Extent

/-- Texts are counted in bytes. Their length has to fit a word of 32 bits, the count of a list a
signed one, and the time a signed word of 64 bits. -/
def Fits (limits : Limits) : Extent → Prop
  | text s => (Text.utf8 s).length ≤ limits.maxText ∧ (Text.utf8 s).length < UInt32.size
  | items _ count => count ≤ limits.maxItems ∧ count < Nat.pow 2 31
  | time nanos => Int64.minValue.toInt ≤ nanos ∧ nanos ≤ Int64.maxValue.toInt

instance (limits : Limits) : DecidablePred (Fits limits)
  | text _ | items _ _ | time _ => inferInstanceAs (Decidable (_ ∧ _))

def error (limits : Limits) : Extent → ProtocolError
  | text s => .lengthOutOfRange "string" (Text.utf8 s).length limits.maxText
  | items what count => .lengthOutOfRange what count limits.maxItems
  | time _ => .timestampOutOfRange

def misfit? (limits : Limits) (extents : List Extent) : Option ProtocolError :=
  (extents.find? fun x => ¬x.Fits limits).map (error limits)

def IsFirstMisfit (limits : Limits) (extents : List Extent) (e : ProtocolError) : Prop :=
  ∃ front x back, extents = front ++ x :: back ∧ (∀ y ∈ front, y.Fits limits) ∧
    ¬x.Fits limits ∧ x.error limits = e

def optional (extents : α → List Extent) (a? : Option α) : List Extent :=
  a?.elim [] extents

def listed (what : String) (extents : α → List Extent) (as : List α) : List Extent :=
  items what as.length :: as.flatMap extents

def optionalText : Option String → List Extent :=
  optional fun s => [text s]

def textList (what : String) : List String → List Extent :=
  listed what fun s => [text s]

theorem misfit?_append (limits : Limits) (xs ys : List Extent) :
    misfit? limits (xs ++ ys) = (misfit? limits xs).or (misfit? limits ys) := by
  simp only [misfit?, List.find?_append, Option.map_or]

theorem misfit?_singleton_of_fits {limits : Limits} {x : Extent} (h : x.Fits limits) :
    misfit? limits [x] = none := by
  simp [misfit?, h]

theorem misfit?_singleton_of_not_fits {limits : Limits} {x : Extent} (h : ¬x.Fits limits) :
    misfit? limits [x] = some (x.error limits) := by
  simp [misfit?, h]

theorem misfit?_eq_none {limits : Limits} {xs : List Extent} :
    misfit? limits xs = none ↔ ∀ x ∈ xs, x.Fits limits := by
  simp [misfit?]

theorem misfit?_eq_some {limits : Limits} {xs : List Extent} {e : ProtocolError} :
    misfit? limits xs = some e ↔ IsFirstMisfit limits xs e := by
  simp only [misfit?, IsFirstMisfit, Option.map_eq_some_iff, List.find?_eq_some_iff_append]
  constructor
  · rintro ⟨x, ⟨hx, front, back, rfl, hfront⟩, rfl⟩
    exact ⟨front, x, back, rfl, by simpa using hfront, by simpa using hx, rfl⟩
  · rintro ⟨front, x, back, rfl, hfront, hx, rfl⟩
    exact ⟨x, ⟨by simpa using hx, front, back, rfl, by simpa using hfront⟩, rfl⟩

theorem error_of_fits_time {limits : Limits} {x : Extent}
    (htime : ∀ nanos, x = time nanos → x.Fits limits) (h : ¬x.Fits limits) :
    ∃ what length max, x.error limits = .lengthOutOfRange what length max := by
  cases x with
  | text s => exact ⟨_, _, _, rfl⟩
  | items what count => exact ⟨_, _, _, rfl⟩
  | time nanos => exact absurd (htime nanos rfl) h

end Extent

open Extent (optionalText textList)

def PropertyTable.extents (t : PropertyTable) : List Extent :=
  Extent.listed "property table" (fun entry => [.text entry.1, .text entry.2]) t.entries

def EventKind.extents : EventKind → List Extent
  | custom | buildStarted | buildFinished _ => []
  | projectStarted p =>
      optionalText p.file ++ (textList "string list" p.targets ++
        Extent.optional PropertyTable.extents p.properties)
  | projectFinished p => optionalText p.file
  | targetStarted t =>
      optionalText t.name ++ (optionalText t.projectFile ++ (optionalText t.file ++
        optionalText t.parent))
  | targetFinished t => optionalText t.projectFile ++ (optionalText t.file ++ optionalText t.name)
  | error d | warning d =>
      optionalText d.subcategory ++ (optionalText d.code ++ (optionalText d.file ++
        (optionalText d.projectFile ++ optionalText d.helpLink)))
  | message n =>
      optionalText n.subcategory ++ (optionalText n.code ++ (optionalText n.file ++
        optionalText n.projectFile))

namespace Event

def sentHeaderExtents (e : Event) : List Extent :=
  optionalText e.sentParts.text ++ (optionalText e.help ++ (optionalText e.sender ++
    [.time e.time.toNanos]))

def sentArgExtents (e : Event) : List Extent :=
  Extent.optional (textList "argument list") e.sentParts.renderedArgs ++
    optionalText e.sentParts.locale

/-- What is sent of an event, in the order of its frame. Of the data of its kind this is what the
other end gets to see. -/
def sentExtents (version : Int32) (e : Event) : List Extent :=
  e.sentHeaderExtents ++ (e.sentArgExtents ++ (e.kind.image version).extents)

end Event

end BuildFeed
