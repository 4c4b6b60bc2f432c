import Mtproto.Auth
import Mtproto.Wire.Reader

/-!
# Stored state

What a client has to keep to go on later without another key exchange: the addresses it
knows, the authorization key if it has one, and the sequence counter.  The stored form starts
with a version, and a form with any other version is refused.
-/

namespace Mtproto

open Wire

/-- The address of a datacenter. -/
structure Datacenter where
  id : Int32
  ip : String
  port : UInt16
deriving DecidableEq, Repr

/-- Address and port, with a colon between them. -/
def Datacenter.addr (dc : Datacenter) : String :=
  s!"{dc.ip}:{dc.port}"

/-- What a client keeps. -/
structure Snapshot where
  dcs : List Datacenter := []
  auth : Option Authorization := none
  seqNo : UInt32 := 0
deriving DecidableEq

namespace Snapshot

/-- The version of the stored form. -/
def version : UInt32 := 1

/-- Append an address. -/
def writeDatacenter (w : Writer) (dc : Datacenter) : Writer :=
  ((w.int32 dc.id).text dc.ip).word32 dc.port.toUInt32

/-- Append the key and what belongs to it, or that there is none. -/
def writeAuth (w : Writer) : Option Authorization → Writer
  | none => w.bool false
  | some a =>
    ((((w.bool true).blob a.key.octets.bytes).word64 a.serverSalt).word64 a.sessionId).int64
      a.timeOffset

/-- The stored form. -/
def encode (s : Snapshot) : Except Error Bytes :=
  let w := (Writer.empty.word32 version).vector s.dcs writeDatacenter
  DecodeError.lift ((writeAuth w s.auth).word32 s.seqNo).finish

/-- An address.  A port of more than 16 bits is refused. -/
def readDatacenter : Read Datacenter := do
  let id ← Read.int32
  let ip ← Read.text
  let port ← Read.word32
  if port < 65536 then return { id, ip, port := port.toUInt16 }
  Read.fail (.invalidValue (.port port.toNat))
  return { id, ip, port := 0 }

/-- The fields of an authorization: the key as it was stored, and the three numbers. -/
def readAuth : Read (Bytes × UInt64 × UInt64 × Int64) :=
  return (← Read.blob, ← Read.word64, ← Read.word64, ← Read.int64)

/-- The authorization at a place in a buffer, if there is one. -/
def decodeAuth (r : Reader) : Except DecodeError (Option Authorization × Reader) := do
  let (present, r) := Read.bool r
  if present then
    let ((key, serverSalt, sessionId, timeOffset), r) := readAuth r
    r.check
    match Octets.ofBytes? 256 key with
    | none => throw (.invalidValue (.authKeyLength key.length))
    | some octets => return (some { key := ⟨octets⟩, serverSalt, sessionId, timeOffset }, r)
  return (none, r)

/-- The state in a stored form. -/
def decode (bs : Bytes) : Except Error Snapshot := do
  let (v, r) := Read.word32 (.ofBytes bs)
  DecodeError.lift r.check
  if v ≠ version then throw (.unsupportedStateVersion v)
  let (dcs, r) := Read.vector readDatacenter r
  let (auth, r) ← DecodeError.lift (decodeAuth r)
  let (seqNo, r) := Read.word32 r
  DecodeError.lift r.finish
  return { dcs, auth, seqNo }

end Snapshot

end Mtproto
