import Mtproto.Message.Framer
import Mtproto.Schema.Service

/-!
# What a message leads to

A message that the server has sent leads to a list of effects, in order, and possibly to an
error after them: content is acknowledged, a ping is answered, a new salt is taken up, an
answer or a message of the application is delivered.  A compressed message leads to what it
holds, and a container to what its entries lead to, one after the other, up to the first
error.

Wrappings do not nest freely: a container holds no container, and what has been inflated is
not inflated again, except that an entry of a container is a message of its own.
-/

namespace Mtproto

/-! ## 1. What is delivered -/

/-- What the application gets to see. -/
inductive Incoming where
  /-- Anything that is no service message. -/
  | message (msgId : UInt64) (payload : Bytes)
  /-- The answer to a request. -/
  | rpcResult (reqMsgId : UInt64) (body : Bytes)
  /-- The error that a request led to. -/
  | rpcError (reqMsgId : UInt64) (code : Int32) (message : String)
deriving DecidableEq, Repr

/-- The body of an answer, inflated if it is compressed. -/
def Incoming.answerBody (body : Bytes) : Except DecodeError Bytes := do
  match ← ServiceMessage.classify body with
  | some (.gzipPacked packed) => Gzip.unpack packed ServiceMessage.maxUnpackedLength
  | _ => return body

/-- What the answer to a request comes to. -/
def Incoming.ofAnswer (reqMsgId : UInt64) (body : Bytes) : Except DecodeError Incoming := do
  let body ← answerBody body
  match ← ServiceMessage.classify body with
  | some (.rpcError code text) => return .rpcError reqMsgId code text
  | _ => return .rpcResult reqMsgId body

/-! ## 2. Effects -/

/-- A single effect of a message. -/
inductive Effect where
  | acknowledge (msgId : UInt64)
  | answer (pong : Pong)
  | deliver (incoming : Incoming)
  | renewSalt (salt : UInt64)
deriving DecidableEq, Repr

/-- Effects in order, and the error after them, if there is one. -/
structure Effects where
  list : List Effect := []
  failure : Option Error := none
deriving DecidableEq, Repr

namespace Effects

/-- No effect. -/
def empty : Effects := {}

/-- One effect. -/
def one (e : Effect) : Effects := { list := [e] }

/-- Nothing but an error. -/
def fail (e : Error) : Effects := { failure := some e }

/-- The effects of a result, or its error. -/
def ofExcept {α : Type} (r : Except DecodeError α) (f : α → Effects) : Effects :=
  match r with
  | .ok a => f a
  | .error e => fail (.decode e)

/-- The effects of a message with a given payload: content is acknowledged first. -/
def acknowledging (kind : MsgKind) (msgId : UInt64) (payload : Effects) : Effects :=
  match kind with
  | .content => { payload with list := .acknowledge msgId :: payload.list }
  | .service | .keyExchange => payload

/-- The effects of one item after the other, up to the first error. -/
def sequence {α : Type} (f : α → Effects) : List α → Effects
  | [] => empty
  | a :: as =>
    let first := f a
    match first.failure with
    | some _ => first
    | none =>
      let others := sequence f as
      { others with list := first.list ++ others.list }

end Effects

/-! ## 3. Messages -/

/-- The wrappings around a payload. -/
structure Nesting where
  /-- The payload is that of an entry of a container. -/
  inContainer : Bool := false
  /-- The payload has been inflated. -/
  inflated : Bool := false
deriving DecidableEq, Repr

/-- How many wrappings there may still be. -/
def Nesting.room (n : Nesting) : Nat :=
  (if n.inContainer then 0 else 2) + (if n.inflated then 0 else 1)

/-- What a payload leads to. -/
def payloadEffects (nesting : Nesting) (msgId : UInt64) (payload : Bytes) : Effects :=
  Effects.ofExcept (ServiceMessage.classify payload) fun
    | none => .one (.deliver (.message msgId payload))
    | some (.gzipPacked packed) =>
      if _h : nesting.inflated then .fail (.decode (.invalidValue .nestedGzip))
      else
        Effects.ofExcept (Gzip.unpack packed ServiceMessage.maxUnpackedLength) fun inner =>
          payloadEffects { nesting with inflated := true } msgId inner
    | some (.container messages) =>
      if _h : nesting.inContainer then .fail (.decode (.invalidValue .nestedContainer))
      else
        Effects.sequence (fun m : ContainedMessage =>
          .acknowledging (.ofSeqNo m.seqNo) m.msgId
            (payloadEffects { inContainer := true } m.msgId m.body)) messages
    | some (.rpcResult reqMsgId body) =>
      Effects.ofExcept (Incoming.ofAnswer reqMsgId body) fun incoming => .one (.deliver incoming)
    | some (.ping ping) => .one (.answer { msgId, pingId := ping.pingId })
    | some (.newSessionCreated _ _ salt) => .one (.renewSalt salt)
    | some (.badServerSalt _ _ _ salt) => .one (.renewSalt salt)
    | some (.rpcError ..) | some (.msgsAck _) | some (.pong _)
    | some (.badMsgNotification ..) => .empty
termination_by nesting.room
decreasing_by
  all_goals simp_all [Nesting.room]
  all_goals split <;> omega

/-- What a message leads to. -/
def messageEffects (nesting : Nesting) (msgId : UInt64) (kind : MsgKind) (payload : Bytes) :
    Effects :=
  .acknowledging kind msgId (payloadEffects nesting msgId payload)

end Mtproto
