import Mtproto.Json.Value
import Mtproto.Net.Address
import Mtproto.Rsa.Key
import Mtproto.Snapshot

/-!
# Configuration

What a client has to know before it starts.  A configuration is stored as a JSON object; a
field that is missing has its default, and a field that is not known is ignored.  An array of
the fields in their order is read as well.
-/

namespace Mtproto

open Json

/-- The configuration of a client. -/
structure Config where
  /-- The server: address, colon, port. -/
  serverAddr : String := "149.154.167.50:443"
  /-- The datacenter that the address belongs to. -/
  dcId : Int32 := 2
  /-- The credentials of the application. -/
  apiId : Int32 := 0
  apiHash : String := ""
  /-- The text forms of the keys that are trusted. -/
  publicKeys : List String := []
  /-- The longest frame that is accepted, in bytes. -/
  maxFrameSize : UInt64 := 1048576
  /-- How much the queues hold. -/
  queueCapacity : UInt64 := 64
  /-- How long to wait for a connection, in milliseconds. -/
  connectTimeout : UInt64 := 10000
deriving DecidableEq, Repr

namespace Config

/-! ## 1. Fields -/

/-- The stored fields, in their order. -/
inductive Field where
  | serverAddr
  | dcId
  | apiId
  | apiHash
  | publicKeys
  | maxFrameSize
  | queueCapacity
  | connectTimeout
deriving DecidableEq, Repr

/-- All fields, in their order. -/
def Field.all : List Field :=
  [serverAddr, dcId, apiId, apiHash, publicKeys, maxFrameSize, queueCapacity, connectTimeout]

/-- The name of a stored field. -/
def Field.name : Field → String
  | serverAddr => "server_addr"
  | dcId => "dc_id"
  | apiId => "api_id"
  | apiHash => "api_hash"
  | publicKeys => "public_keys_pem"
  | maxFrameSize => "max_frame_size"
  | queueCapacity => "queue_capacity"
  | connectTimeout => "connect_timeout_ms"

/-- The field of a name. -/
def Field.ofName? (name : String) : Option Field :=
  Field.all.find? (·.name = name)

/-! ## 2. Reading -/

/-- A text. -/
def textOf : Value → Option String
  | .text content => content
  | _ => none

/-- A number of 32 bits with a sign. -/
def int32Of : Value → Option Int32
  | .integer n =>
    if Int32.minValue.toInt ≤ n ∧ n ≤ Int32.maxValue.toInt then some (Int32.ofInt n) else none
  | _ => none

/-- A number of 64 bits without a sign. -/
def word64Of : Value → Option UInt64
  | .integer n => if 0 ≤ n ∧ n.toNat < UInt64.size then some (UInt64.ofNat n.toNat) else none
  | _ => none

/-- A list of texts. -/
def textsOf : Value → Option (List String)
  | .array items => items.mapM textOf
  | _ => none

/-- Set a field to a stored value. -/
def set (c : Config) (field : Field) (v : Value) : Option Config :=
  match field with
  | .serverAddr => return { c with serverAddr := ← textOf v }
  | .dcId => return { c with dcId := ← int32Of v }
  | .apiId => return { c with apiId := ← int32Of v }
  | .apiHash => return { c with apiHash := ← textOf v }
  | .publicKeys => return { c with publicKeys := ← textsOf v }
  | .maxFrameSize => return { c with maxFrameSize := ← word64Of v }
  | .queueCapacity => return { c with queueCapacity := ← word64Of v }
  | .connectTimeout => return { c with connectTimeout := ← word64Of v }

/-- Read named fields, of which those in `seen` must not come again. -/
def setNamed (c : Config) (seen : List Field) :
    List (Option String × Value) → Option Config
  | [] => some c
  | (none, _) :: _ => none
  | (some name, v) :: rest =>
    match Field.ofName? name with
    | none => setNamed c seen rest
    | some field =>
      if field ∈ seen then none
      else do setNamed (← c.set field v) (field :: seen) rest

/-- Read fields in their order; there must not be more values than fields. -/
def setInOrder (c : Config) : List Field → List Value → Option Config
  | _, [] => some c
  | [], _ :: _ => none
  | field :: fields, v :: vs => do setInOrder (← c.set field v) fields vs

/-- The configuration that a stored value is. -/
def ofValue? : Value → Option Config
  | .object fields => setNamed {} [] fields
  | .array items => setInOrder {} Field.all items
  | _ => none

/-- The configuration in a stored text. -/
def ofJson (text : String) : Except Error Config :=
  match (Value.ofText? text).bind ofValue? with
  | some c => .ok c
  | none => .error (.config .malformed)

/-! ## 3. Writing -/

/-- The stored text of a field. -/
def fieldText (c : Config) : Field → String
  | .serverAddr => quote c.serverAddr
  | .dcId => toString c.dcId.toInt
  | .apiId => toString c.apiId.toInt
  | .apiHash => quote c.apiHash
  | .publicKeys => "[" ++ ",".intercalate (c.publicKeys.map quote) ++ "]"
  | .maxFrameSize => toString c.maxFrameSize.toNat
  | .queueCapacity => toString c.queueCapacity.toNat
  | .connectTimeout => toString c.connectTimeout.toNat

/-- The stored text, with all fields and no white space. -/
def toJson (c : Config) : String :=
  "\x7b" ++ ",".intercalate (Field.all.map fun f => quote f.name ++ ":" ++ c.fieldText f) ++
    "\x7d"

/-! ## 4. Use -/

/-- Trust one more key. -/
def trust (c : Config) (pem : String) : Config :=
  { c with publicKeys := c.publicKeys ++ [pem] }

/-- Wait for so many microseconds, as far as they make whole milliseconds. -/
def waiting (c : Config) (micros : UInt64) : Config :=
  { c with connectTimeout := micros / 1000 }

/-- The keys that are trusted. -/
def trustedKeys (c : Config) : Except Error (List RsaKey) :=
  c.publicKeys.mapM fun pem => RsaKey.ofPem pem.toList

/-- The server as a datacenter, if its address is given in numbers and not as a name. -/
def datacenter? (c : Config) : Option Datacenter :=
  (Net.SocketAddress.ofText? c.serverAddr).map fun a =>
    { id := c.dcId, ip := a.ip.text, port := a.port }

/-- How much a queue holds: at least one item, whatever is configured. -/
def channelCapacity (c : Config) : Nat :=
  max c.queueCapacity.toNat 1

/-- The configuration can be used. -/
def validate (c : Config) : Except Error Unit := do
  if c.serverAddr.isEmpty then throw (.config .addressEmpty)
  if c.publicKeys.isEmpty then throw (.config .noKeys)
  if c.queueCapacity = 0 then throw (.config .queueCapacity)
  if c.maxFrameSize = 0 then throw (.config .frameSize)
  let _ ← c.trustedKeys

end Config

end Mtproto
