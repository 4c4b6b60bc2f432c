import Mtproto.Clock
import Mtproto.Fault

/-!
# Message identifiers

An identifier is the time of sending in seconds since 1970, as a fixed-point number with 32
binary places, of which the last two are zero.  A generator keeps the last identifier it gave
out; the next one is at least four more, even if the clock stands still or goes back.
-/

namespace Mtproto

/-- A source of message identifiers. -/
structure MsgIdGenerator where
  /-- The last identifier. -/
  floor : UInt64 := 0
  /-- Seconds to add to our clock to have the server's. -/
  timeOffset : Int64 := 0
deriving DecidableEq, Repr, Inhabited

namespace MsgIdGenerator

/-- Nanoseconds since 1970 as a signed 64-bit number; the largest one if they are none. -/
def clampedNanos (t : Instant) : Int :=
  let n := t.totalNanos
  if Int64.minValue.toInt ≤ n ∧ n ≤ Int64.maxValue.toInt then n else Int64.maxValue.toInt

/-- The time as a fixed-point number, computed in double precision and cut to 64 bits. -/
def identifierAt (t : Instant) : UInt64 :=
  (Float.ofInt (clampedNanos t) / 1e9 * 4294967296.0).toUInt64 &&& ~~~3

/-- The next identifier at a given time. -/
def nextAt (g : MsgIdGenerator) (t : Instant) : UInt64 × MsgIdGenerator :=
  let id := max (g.floor + 4) (identifierAt t)
  (id, { g with floor := id })

/-- The next identifier when our clock shows `now`. -/
def next (g : MsgIdGenerator) (now : Instant) : Except Fault (UInt64 × MsgIdGenerator) :=
  match now.shift? g.timeOffset.toInt with
  | some t => .ok (g.nextAt t)
  | none => .error .instantOutOfRange

end MsgIdGenerator

end Mtproto
