/-!
# Computations that cannot go on

An error is an answer: the peer or the caller sent something the protocol refuses.  A fault
is not.  It means that an operation was asked for something it has no answer to, and a
program that reaches one stops there.
-/

namespace Mtproto

/-- How a message is framed and sequenced. -/
inductive MsgKind where
  /-- Content-related; advances the sequence counter. -/
  | content
  /-- A service message such as an acknowledgement; reuses the counter. -/
  | service
  /-- Handshake traffic; sent unencrypted. -/
  | keyExchange
deriving DecidableEq, Repr, Inhabited

/-- The reasons for which a computation cannot go on. -/
inductive Fault where
  /-- Padding to a multiple of zero. -/
  | zeroAlignment
  /-- Arithmetic modulo zero. -/
  | zeroModulus
  /-- A clock reading shifted outside the range of the calendar. -/
  | instantOutOfRange
  /-- A message that needs an authorization key was formatted without one. -/
  | keyMissing (kind : MsgKind)
  /-- A size that does not fit a machine word, or that no buffer or queue can have. -/
  | oversized
  /-- Every candidate a sampler was allowed to look at was rejected. -/
  | drawStalled
deriving DecidableEq, Repr

/-- The name of a message kind. -/
def MsgKind.name : MsgKind → String
  | content => "Content"
  | service => "Service"
  | keyExchange => "KeyExchange"

/-- The text that goes with a fault, if it has one of its own. -/
def Fault.message? : Fault → Option String
  | keyMissing kind => some s!"{kind.name} message formatted before key exchange completed"
  | _ => none

end Mtproto
