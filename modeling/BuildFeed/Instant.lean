/-!
Points in time: seconds since the epoch and nanoseconds within the second. In a leap second the
nanoseconds run on past a whole second.
-/

namespace BuildFeed

structure Instant where
  seconds : Int
  nanos : Nat
  deriving DecidableEq, Repr

namespace Instant

def nanosPerSecond : Nat := 1000000000

def epoch : Instant :=
  ⟨0, 0⟩

instance : Inhabited Instant := ⟨epoch⟩

def toNanos (t : Instant) : Int :=
  t.seconds * nanosPerSecond + t.nanos

def ofNanos (n : Int) : Instant :=
  ⟨n / nanosPerSecond, (n % nanosPerSecond).toNat⟩

theorem toNanos_ofNanos (n : Int) : (ofNanos n).toNanos = n := by
  simp only [toNanos, ofNanos, nanosPerSecond]
  omega

theorem ofNanos_eq_iff {n : Int} {t : Instant} :
    ofNanos n = t ↔ t.toNanos = n ∧ t.nanos < nanosPerSecond := by
  constructor
  · rintro rfl
    refine ⟨toNanos_ofNanos n, ?_⟩
    simp only [ofNanos, nanosPerSecond]
    omega
  · rintro ⟨rfl, hlt⟩
    cases t with
    | mk seconds nanos =>
        simp only [ofNanos, toNanos, nanosPerSecond, Instant.mk.injEq] at hlt ⊢
        omega

/-- The first second of the year -262143, where the calendar begins. -/
def firstSecond : Int := -8334601228800

/-- The last second of the year 262142, where it ends. -/
def lastSecond : Int := 8210266876799

/-- The instant of a timestamp, if the calendar has it. Only the last second of a minute can be a
leap second. -/
def at? (seconds : Int) (nanos : Nat) : Option Instant :=
  if firstSecond ≤ seconds ∧ seconds ≤ lastSecond ∧
      (nanos < nanosPerSecond ∨ nanos < 2 * nanosPerSecond ∧ seconds % 60 = 59) then
    some ⟨seconds, nanos⟩
  else none

def toWord? (t : Instant) : Option Int64 :=
  if Int64.minValue.toInt ≤ t.toNanos ∧ t.toNanos ≤ Int64.maxValue.toInt then
    some (Int64.ofInt t.toNanos)
  else none

def ofWord? (n : Int64) : Option Instant :=
  at? (n.toInt / nanosPerSecond) (n.toInt % nanosPerSecond).toNat

theorem at?_ofNanos {n : Int} (hlow : Int64.minValue.toInt ≤ n) (hhigh : n ≤ Int64.maxValue.toInt) :
    at? (n / nanosPerSecond) (n % nanosPerSecond).toNat = some (ofNanos n) := by
  have hmin : Int64.minValue.toInt = -9223372036854775808 := rfl
  have hmax : Int64.maxValue.toInt = 9223372036854775807 := rfl
  refine if_pos ⟨?_, ?_, .inl ?_⟩ <;> simp only [firstSecond, lastSecond, nanosPerSecond] <;> omega

theorem ofWord?_eq (n : Int64) : ofWord? n = some (ofNanos n.toInt) :=
  at?_ofNanos n.minValue_le_toInt n.toInt_le

end Instant

structure LocalTime where
  instant : Instant
  offset : Int
  deriving DecidableEq, Repr

/-- The distance of local from universal time, in seconds, at each instant. -/
abbrev Zone := Instant → Int

def Instant.inZone (zone : Zone) (t : Instant) : LocalTime :=
  ⟨t, zone t⟩

end BuildFeed
