import Mtproto.Exchange.Server

/-!
# Client and server in conversation

The exchange of a client with a simulated server, each with a tape of its own.  A round is a
request, the server's answer, and the state in which the answer leaves the client.  The
conversation ends when one side refuses or the client has nothing more to ask.
-/

namespace Mtproto

/-- A request and the answer to it. -/
structure Round where
  request : Bytes
  /-- The server's answer, or why it gives none. -/
  reply : Except Halt Bytes
  /-- The client's state after the answer. -/
  state : ExchangeState

/-- Both sides, each with its tape. -/
structure Dialogue where
  client : KeyExchange × Entropy
  server : SimulatedServer × Entropy

namespace Dialogue

/-- Up to `n` rounds from a request on; `acc` holds the rounds before, the last one first. -/
def roundsFrom (now : Instant) : (n : Nat) → Bytes → Dialogue → List Round →
    List Round × Dialogue
  | 0, _, d, acc => (acc.reverse, d)
  | n + 1, request, d, acc =>
    match SimulatedServer.respond now request d.server with
    | (.error halt, server) =>
      ((⟨request, .error halt, d.client.1.state⟩ :: acc).reverse, { d with server })
    | (.ok reply, server) =>
      match KeyExchange.handle now reply d.client with
      | (next, client) =>
        let d := { client, server }
        let acc := ⟨request, .ok reply, client.1.state⟩ :: acc
        match next with
        | .ok (some request) => roundsFrom now n request d acc
        | _ => (acc.reverse, d)

/-- The whole conversation.  A client asks at most three times, so a fourth round never
comes. -/
def run (now : Instant) (d : Dialogue) : Except Halt (List Round × Dialogue) :=
  match KeyExchange.start d.client with
  | (.ok request, client) => .ok (roundsFrom now 4 request { d with client } [])
  | (.error halt, _) => .error halt

end Dialogue

end Mtproto
