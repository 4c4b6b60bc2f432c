/-!
# States of the key exchange

    init --start--> reqPq --resPQ--> reqDhParams --server_DH_params_ok-->
      setClientDhParams --dh_gen_ok--> done

From every state that is not terminal the exchange can also fail.
-/

namespace Mtproto

/-- The state of a key exchange. -/
inductive ExchangeState where
  /-- Nothing has been sent. -/
  | init
  /-- The exchange has been opened. -/
  | reqPq
  /-- The parameters have been asked for. -/
  | reqDhParams
  /-- Our half of the exchange has been sent. -/
  | setClientDhParams
  /-- There is a key. -/
  | done
  /-- The exchange has been given up. -/
  | failed
deriving DecidableEq, Repr, Inhabited

namespace ExchangeState

/-- The states, in the order in which they are passed through. -/
def all : List ExchangeState := [init, reqPq, reqDhParams, setClientDhParams, done, failed]

/-- The name of a state. -/
def name : ExchangeState → String
  | init => "init"
  | reqPq => "req_pq"
  | reqDhParams => "req_dh_params"
  | setClientDhParams => "set_client_dh_params"
  | done => "done"
  | failed => "failed"

/-- No other state follows. -/
def isTerminal : ExchangeState → Bool
  | done | failed => true
  | _ => false

/-- The states that may follow. -/
def validTransitions : ExchangeState → List ExchangeState
  | init => [reqPq, failed]
  | reqPq => [reqDhParams, failed]
  | reqDhParams => [setClientDhParams, failed]
  | setClientDhParams => [done, failed]
  | done => []
  | failed => []

/-- The state may follow. -/
def canTransitionTo (s target : ExchangeState) : Bool :=
  s.validTransitions.contains target

end ExchangeState

end Mtproto
