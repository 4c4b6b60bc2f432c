/-!
# Clock readings

A reading is a number of seconds since 1970 and of nanoseconds within the second.  The
calendar in which readings are kept has a first and a last second; a reading that would have
to leave it cannot be formed.
-/

namespace Mtproto

/-- A reading of the clock. -/
structure Instant where
  /-- Seconds since the start of 1970. -/
  seconds : Int
  /-- Nanoseconds within the second; a leap second has up to twice as many. -/
  nanos : Nat := 0
deriving DecidableEq, Repr, Inhabited

namespace Instant

/-- The first second of the calendar. -/
def firstSecond : Int := -8334601228800

/-- The last second of the calendar. -/
def lastSecond : Int := 8210266876799

/-- The calendar has this reading: the second is within its range, and a second longer than
usual is the last one of a minute. -/
def InCalendar (t : Instant) : Prop :=
  firstSecond ≤ t.seconds ∧ t.seconds ≤ lastSecond ∧
    (t.nanos < 1000000000 ∨ t.nanos < 2000000000 ∧ t.seconds % 60 = 59)

instance (t : Instant) : Decidable t.InCalendar := by
  unfold InCalendar; infer_instance

/-- The reading a number of seconds later, if the calendar has it. -/
def shift? (t : Instant) (seconds : Int) : Option Instant :=
  let s := t.seconds + seconds
  if firstSecond ≤ s ∧ s ≤ lastSecond then some { t with seconds := s } else none

/-- Nanoseconds since the start of 1970. -/
def totalNanos (t : Instant) : Int :=
  t.seconds * 1000000000 + t.nanos

end Instant

end Mtproto
