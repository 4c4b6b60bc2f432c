import Mtproto.Wire.Boxed
import Mtproto.Gzip.Member
import Mtproto.Gzip.Pack

/-!
# Service messages

The messages that keep a session going: containers, acknowledgements, pings, notices of a new
salt, and the two wrappings around an answer.  Any other message belongs to the application.

`ServiceMessage.classify` tells the two apart.  A payload whose first word is one of
`serviceTags` has to decode as a service message; everything else is left as it is.
-/

namespace Mtproto

open Wire

/-! ## 1. The messages -/

/-- One message inside a container. -/
structure ContainedMessage where
  msgId : UInt64
  seqNo : UInt32
  body : Bytes
deriving DecidableEq, Repr

/-- The peer has received these messages. -/
structure MsgsAck where
  msgIds : List UInt64
deriving DecidableEq, Repr

instance : Tagged MsgsAck where
  tag := 0x62d6b459
  write w v := w.vector v.msgIds Writer.word64
  read := return { msgIds := ← Read.vector Read.word64 }

/-- A request for a sign of life. -/
structure Ping where
  pingId : UInt64
deriving DecidableEq, Repr

instance : Tagged Ping where
  tag := 0x7abe77ec
  write w v := w.word64 v.pingId
  read := return { pingId := ← Read.word64 }

/-- The answer to the ping in message `msgId`. -/
structure Pong where
  msgId : UInt64
  pingId : UInt64
deriving DecidableEq, Repr

instance : Tagged Pong where
  tag := 0x347773c5
  write w v := (w.word64 v.msgId).word64 v.pingId
  read := return { msgId := ← Read.word64, pingId := ← Read.word64 }

/-- A message of the service layer. -/
inductive ServiceMessage where
  /-- Several messages sent as one. -/
  | container (messages : List ContainedMessage)
  /-- The answer to a request. -/
  | rpcResult (reqMsgId : UInt64) (body : Bytes)
  /-- The error that a request led to. -/
  | rpcError (errorCode : Int32) (errorMessage : String)
  | msgsAck (ack : MsgsAck)
  | ping (ping : Ping)
  | pong (pong : Pong)
  /-- The server has started a session. -/
  | newSessionCreated (firstMsgId uniqueId serverSalt : UInt64)
  /-- A message was refused because its salt is out of date. -/
  | badServerSalt (badMsgId : UInt64) (badMsgSeqno : UInt32) (errorCode : Int32)
      (newServerSalt : UInt64)
  /-- A message was refused. -/
  | badMsgNotification (badMsgId : UInt64) (badMsgSeqno : UInt32) (errorCode : Int32)
  /-- A compressed message, not yet inflated. -/
  | gzipPacked (packed : Bytes)
deriving DecidableEq, Repr

/-! ## 2. Tags -/

namespace ServiceMessage

/-- Tag of a container. -/
def containerTag : UInt32 := 0x73f1f8dc

/-- Tag of an answer. -/
def rpcResultTag : UInt32 := 0xf35c6d01

/-- Tag of an error. -/
def rpcErrorTag : UInt32 := 0x2144ca19

/-- Tag of the notice of a new session. -/
def newSessionCreatedTag : UInt32 := 0x9ec20908

/-- Tag of the notice of a new salt. -/
def badServerSaltTag : UInt32 := 0xedab447b

/-- Tag of the refusal of a message. -/
def badMsgNotificationTag : UInt32 := 0xa7eff811

/-- Tag of a compressed message. -/
def gzipPackedTag : UInt32 := 0x3072cfa1

/-- The tag of a service message. -/
def tag : ServiceMessage → UInt32
  | container _ => containerTag
  | rpcResult .. => rpcResultTag
  | rpcError .. => rpcErrorTag
  | msgsAck _ => Tagged.tag MsgsAck
  | ping _ => Tagged.tag Ping
  | pong _ => Tagged.tag Pong
  | newSessionCreated .. => newSessionCreatedTag
  | badServerSalt .. => badServerSaltTag
  | badMsgNotification .. => badMsgNotificationTag
  | gzipPacked _ => gzipPackedTag

/-- The tags that no message of the application starts with. -/
def serviceTags : List UInt32 :=
  [containerTag, rpcResultTag, rpcErrorTag, Tagged.tag MsgsAck, Tagged.tag Ping,
    Tagged.tag Pong, newSessionCreatedTag, badServerSaltTag, badMsgNotificationTag,
    gzipPackedTag]

/-! ## 3. Reading -/

/-- Up to `count` entries of a container, until a failure; the entry at which it happens is
left out. -/
def readEntries : (count : Nat) → List ContainedMessage → Read (List ContainedMessage)
  | 0, acc => return acc.reverse
  | count + 1, acc => do
    let msgId ← Read.word64
    let seqNo ← Read.word32
    let length ← Read.word32
    let body ← Read.raw length.toNat
    if ← Read.failed then return acc.reverse
    readEntries count ({ msgId, seqNo, body } :: acc)

/-- The entries of a container.  An entry takes at least sixteen bytes, so a count that
cannot be met is refused before any entry is read. -/
def readContainer : Read ServiceMessage := do
  let count := (← Read.word32).toNat
  if (← get).remaining / 16 < count then
    Read.fail (.invalidValue (.containerCount count))
    return .container []
  return .container (← readEntries count [])

/-- Read the fields that belong to a tag. -/
def readFields (tag : UInt32) : Read (Option ServiceMessage) := do
  if tag = containerTag then return some (← readContainer)
  if tag = rpcResultTag then
    return some (.rpcResult (← Read.word64) (← Read.remainder))
  if tag = rpcErrorTag then return some (.rpcError (← Read.int32) (← Read.text))
  if tag = Tagged.tag MsgsAck then return some (.msgsAck (← Bare.read))
  if tag = Tagged.tag Ping then return some (.ping (← Bare.read))
  if tag = Tagged.tag Pong then return some (.pong (← Bare.read))
  if tag = newSessionCreatedTag then
    return some (.newSessionCreated (← Read.word64) (← Read.word64) (← Read.word64))
  if tag = badServerSaltTag then
    return some (.badServerSalt (← Read.word64) (← Read.word32) (← Read.int32)
      (← Read.word64))
  if tag = badMsgNotificationTag then
    return some (.badMsgNotification (← Read.word64) (← Read.word32) (← Read.int32))
  if tag = gzipPackedTag then return some (.gzipPacked (← Read.blob))
  return none

instance : Family ServiceMessage := ⟨tag, readFields⟩

/-- The service message that a payload is, or nothing if it belongs to the application. -/
def classify (payload : Bytes) : Except DecodeError (Option ServiceMessage) :=
  match (Reader.ofBytes payload).peekTag? with
  | none => .ok none
  | some tag =>
    if tag ∈ serviceTags then (ofBoxedBytes ServiceMessage payload).map some else .ok none

/-! ## 4. Writing -/

/-- Append an entry of a container. -/
def writeEntry (w : Writer) (m : ContainedMessage) : Writer :=
  (((w.word64 m.msgId).word32 m.seqNo).word32 (UInt32.ofNat m.body.length)).raw m.body

/-- The bytes of a container. -/
def containerBytes (messages : List ContainedMessage) : Except DecodeError Bytes :=
  (messages.foldl writeEntry
    ((Writer.empty.word32 containerTag).word32 (UInt32.ofNat messages.length))).finish

/-- Data as a compressed message.  Data that do not fit into a blob are given up: the result
is empty. -/
def gzipPackedBytes (data : Bytes) : Bytes :=
  match ((Writer.empty.word32 gzipPackedTag).blob (Gzip.pack data)).finish with
  | .ok bs => bs
  | .error _ => []

/-- The most bytes a compressed message may inflate to. -/
def maxUnpackedLength : Nat := 16 * 1024 * 1024

/-- Pack data as a compressed message and unpack it again.  A packed message that is not
recognised as one counts as damaged. -/
def unpackAgain (data : Bytes) (limit : Nat) : Except Fault (Except DecodeError Bytes) :=
  match classify (gzipPackedBytes data) with
  | .error e => .ok (.error e)
  | .ok (some (.gzipPacked packed)) => Gzip.checkedUnpack packed limit
  | .ok _ => .ok (.error .compressed)

end ServiceMessage

end Mtproto
