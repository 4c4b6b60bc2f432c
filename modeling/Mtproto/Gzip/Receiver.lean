import Mtproto.Gzip.Pause

/-!
# Handing output over

Output is handed over to a receiver that collects it in a growing buffer.  The receiver makes
requests, one after the other, each for as many bytes as it has room for.  A request is
answered

* at once, if some output has come out before and not been handed over;
* otherwise as soon as it is filled, or decoding pauses with a piece of the input used up and
  something to give.

If damage is met while a request waits, what the request has got is lost, and so is all that
would have followed.  So the receiver may have far less than has come out: `handsOver` says
whether it gets more than a limit.
-/

namespace Mtproto.Gzip

/-- The buffer of a receiver. -/
structure Receiver where
  /-- How many bytes are in it. -/
  length : Nat := 0
  /-- How many bytes have room in it. -/
  capacity : Nat := 0
  /-- The most bytes that are asked for in one request. -/
  most : Nat := 8192
deriving DecidableEq, Repr

namespace Receiver

/-- The length of the first request, for which there is no buffer yet. -/
def probeLength : Nat := 32

/-- The room that the next request is made with: a full buffer is doubled. -/
def room (r : Receiver) : Nat :=
  if r.length = r.capacity then max (2 * r.capacity) (r.length + probeLength) else r.capacity

/-- How many bytes the next request is for. -/
def request (r : Receiver) : Nat :=
  if r.capacity = 0 then probeLength else min (r.room - r.length) r.most

/-- The receiver after its request has been answered with `n` bytes.  If the largest request
has been filled, the next ones may be twice as large. -/
def receive (r : Receiver) (n : Nat) : Receiver :=
  if r.capacity = 0 then { r with length := n, capacity := max 8 n }
  else
    { length := r.length + n, capacity := r.room,
      most := if r.most ≤ r.request ∧ n = r.request then 2 * r.most else r.most }

/-- The next request of a receiver that wants one byte more than `limit` and no further
byte. -/
def requestWithin (limit : Nat) (r : Receiver) : Nat :=
  min r.request (limit + 1 - r.length)

/-- Hand over `n` bytes that have come out before. -/
def drain (limit : Nat) : (fuel : Nat) → (n : Nat) → Receiver → Receiver
  | 0, _, r => r
  | fuel + 1, n, r =>
    let k := min (r.requestWithin limit) n
    if k = 0 then r else drain limit fuel (n - k) (r.receive k)

end Receiver

/-- A receiver whose request waits, and how many bytes the request has got. -/
structure Handover where
  receiver : Receiver := {}
  got : Nat := 0
  /-- How many bytes have come out. -/
  made : Nat := 0
deriving DecidableEq, Repr

/-- Decoding goes on up to a pause. -/
def Handover.advance (limit : Nat) (h : Handover) (p : Pause) : Handover :=
  let asked := h.receiver.requestWithin limit
  let got := h.got + (p.size - h.made)
  if got < asked then
    if p.spent then { receiver := if got = 0 then h.receiver else h.receiver.receive got,
                      made := p.size }
    else { h with got, made := p.size }
  else
    { receiver := (h.receiver.receive asked).drain limit (got - asked) (got - asked),
      made := p.size }

/-- With these pauses before the damage, a receiver gets more than `limit` bytes. -/
def handsOver (limit : Nat) (pauses : List Pause) : Bool :=
  limit < (pauses.foldl (Handover.advance limit) {}).receiver.length

end Mtproto.Gzip
