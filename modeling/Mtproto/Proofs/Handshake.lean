import Mathlib.Tactic.Common
import Mtproto.Proofs.Wire
import Mtproto.Schema.Handshake

/-!
# Messages of the key exchange, on the wire

The client and the server exchange two families of messages, `HandshakeRequest` and
`HandshakeResponse`, and three records travel encrypted inside them.  For every record this module
gives the bytes of its fields and that writing and reading agree on them (`Codes`), field by field.

The families come last: a request or a response that has been written is read back as itself, by
whoever expects any member of the family (`HandshakeRequest.ofBoxedBytes_of_toBytes` and its
counterpart).  This needs that no two members have one tag, which is decided.
-/

namespace Mtproto

open Wire

/-! ## 1. Fields -/

/-- The messages of the key exchange, field by field: what is written, and that it is read back. -/
theorem ReqPq.codes (v : ReqPq) : Codes (fun w => Bare.write w v) Bare.read v.nonce.bytes v :=
  .map (.octets v.nonce)

/-- The fingerprints are a vector of words; the challenge is a blob. -/
theorem ResPq.codes {v : ResPq} (hpq : v.pq.length ≤ maxBlobLength)
    (hcount : v.fingerprints.length < 2 ^ 32) :
    Codes (fun w => Bare.write w v) Bare.read
      (v.nonce.bytes ++ (v.serverNonce.bytes ++ (blobBytes v.pq ++
        (Bytes.le 4 vectorTag.toNat ++ (Bytes.le 4 (UInt32.ofNat v.fingerprints.length).toNat ++
          v.fingerprints.flatMap fun k => Bytes.le 8 k.toNat))))) v := by
  have hlong : ∀ k ∈ v.fingerprints, 4 ≤ (Bytes.le 8 k.toNat).length := by
    intro k _
    rw [Bytes.length_le]
    decide
  have hvector := Codes.vector hcount hlong fun k _ => Codes.word64 k
  constructor
  · have h := (Writes.octets v.nonce).append ((Writes.octets v.serverNonce).append
      ((Writes.blob hpq).append hvector.writes))
    exact h
  · exact (Reads.octets v.nonce).bind ((Reads.octets v.serverNonce).bind
      ((Reads.blob (isBlob_blobBytes hpq)).bind hvector.reads.map))

theorem PqInnerData.codes {v : PqInnerData} (hpq : v.pq.length ≤ maxBlobLength)
    (hp : v.p.length ≤ maxBlobLength) (hq : v.q.length ≤ maxBlobLength) :
    Codes (fun w => Bare.write w v) Bare.read
      (blobBytes v.pq ++ (blobBytes v.p ++ (blobBytes v.q ++ (v.nonce.bytes ++
        (v.serverNonce.bytes ++ v.newNonce.bytes))))) v := by
  constructor
  · have h := (Writes.blob hpq).append ((Writes.blob hp).append ((Writes.blob hq).append
      ((Writes.octets v.nonce).append ((Writes.octets v.serverNonce).append
        (.octets v.newNonce)))))
    exact h
  · exact (Reads.blob (isBlob_blobBytes hpq)).bind ((Reads.blob (isBlob_blobBytes hp)).bind
      ((Reads.blob (isBlob_blobBytes hq)).bind ((Reads.octets v.nonce).bind
        ((Reads.octets v.serverNonce).bind (Reads.octets v.newNonce).map))))

/-- The factors and the encrypted block are blobs. -/
theorem ReqDhParams.codes {v : ReqDhParams} (hp : v.p.length ≤ maxBlobLength)
    (hq : v.q.length ≤ maxBlobLength) (hdata : v.encryptedData.length ≤ maxBlobLength) :
    Codes (fun w => Bare.write w v) Bare.read
      (v.nonce.bytes ++ (v.serverNonce.bytes ++ (blobBytes v.p ++ (blobBytes v.q ++
        (Bytes.le 8 v.publicKeyFingerprint.toNat ++ blobBytes v.encryptedData))))) v := by
  constructor
  · have h := (Writes.octets v.nonce).append ((Writes.octets v.serverNonce).append
      ((Writes.blob hp).append ((Writes.blob hq).append
        ((Writes.word64 v.publicKeyFingerprint).append (.blob hdata)))))
    exact h
  · exact (Reads.octets v.nonce).bind ((Reads.octets v.serverNonce).bind
      ((Reads.blob (isBlob_blobBytes hp)).bind ((Reads.blob (isBlob_blobBytes hq)).bind
        ((Reads.word64_le v.publicKeyFingerprint).bind
          (Reads.blob (isBlob_blobBytes hdata)).map))))

/-- The answer with the parameters is one blob, encrypted. -/
theorem ServerDhParamsOk.codes {v : ServerDhParamsOk}
    (hdata : v.encryptedAnswer.length ≤ maxBlobLength) :
    Codes (fun w => Bare.write w v) Bare.read
      (v.nonce.bytes ++ (v.serverNonce.bytes ++ blobBytes v.encryptedAnswer)) v := by
  constructor
  · have h := (Writes.octets v.nonce).append ((Writes.octets v.serverNonce).append (.blob hdata))
    exact h
  · exact (Reads.octets v.nonce).bind ((Reads.octets v.serverNonce).bind
      (Reads.blob (isBlob_blobBytes hdata)).map)

theorem ServerDhParamsFail.codes (v : ServerDhParamsFail) :
    Codes (fun w => Bare.write w v) Bare.read
      (v.nonce.bytes ++ (v.serverNonce.bytes ++ v.newNonceHash.bytes)) v := by
  constructor
  · have h := (Writes.octets v.nonce).append ((Writes.octets v.serverNonce).append
      (.octets v.newNonceHash))
    exact h
  · exact (Reads.octets v.nonce).bind ((Reads.octets v.serverNonce).bind
      (Reads.octets v.newNonceHash).map)

theorem ServerDhInnerData.codes {v : ServerDhInnerData} (hprime : v.dhPrime.length ≤ maxBlobLength)
    (hgA : v.gA.length ≤ maxBlobLength) :
    Codes (fun w => Bare.write w v) Bare.read
      (v.nonce.bytes ++ (v.serverNonce.bytes ++ (Bytes.le 4 v.g.toUInt32.toNat ++
        (blobBytes v.dhPrime ++ (blobBytes v.gA ++ Bytes.le 4 v.serverTime.toUInt32.toNat)))))
      v := by
  constructor
  · have h := (Writes.octets v.nonce).append ((Writes.octets v.serverNonce).append
      ((Writes.int32 v.g).append ((Writes.blob hprime).append ((Writes.blob hgA).append
        (.int32 v.serverTime)))))
    exact h
  · exact (Reads.octets v.nonce).bind ((Reads.octets v.serverNonce).bind
      ((Reads.int32_le v.g).bind ((Reads.blob (isBlob_blobBytes hprime)).bind
        ((Reads.blob (isBlob_blobBytes hgA)).bind (Reads.int32_le v.serverTime).map))))

theorem ClientDhInnerData.codes {v : ClientDhInnerData} (hgB : v.gB.length ≤ maxBlobLength) :
    Codes (fun w => Bare.write w v) Bare.read
      (v.nonce.bytes ++ (v.serverNonce.bytes ++ (Bytes.le 8 v.retryId.toNat ++ blobBytes v.gB)))
      v := by
  constructor
  · have h := (Writes.octets v.nonce).append ((Writes.octets v.serverNonce).append
      ((Writes.word64 v.retryId).append (.blob hgB)))
    exact h
  · exact (Reads.octets v.nonce).bind ((Reads.octets v.serverNonce).bind
      ((Reads.word64_le v.retryId).bind (Reads.blob (isBlob_blobBytes hgB)).map))

theorem SetClientDhParams.codes {v : SetClientDhParams}
    (hdata : v.encryptedData.length ≤ maxBlobLength) :
    Codes (fun w => Bare.write w v) Bare.read
      (v.nonce.bytes ++ (v.serverNonce.bytes ++ blobBytes v.encryptedData)) v := by
  constructor
  · have h := (Writes.octets v.nonce).append ((Writes.octets v.serverNonce).append (.blob hdata))
    exact h
  · exact (Reads.octets v.nonce).bind ((Reads.octets v.serverNonce).bind
      (Reads.blob (isBlob_blobBytes hdata)).map)

theorem DhGenAnswer.codes (v : DhGenAnswer) :
    Codes (fun w => Bare.write w v) Bare.read
      (v.nonce.bytes ++ (v.serverNonce.bytes ++ v.newNonceHash.bytes)) v := by
  constructor
  · have h := (Writes.octets v.nonce).append ((Writes.octets v.serverNonce).append
      (.octets v.newNonceHash))
    exact h
  · exact (Reads.octets v.nonce).bind ((Reads.octets v.serverNonce).bind
      (Reads.octets v.newNonceHash).map)

/-- The parameters are read from some bytes, whatever comes behind them. -/
theorem ServerDhInnerData.selfDelimiting :
    SelfDelimiting (Bare.read (α := ServerDhInnerData)) :=
  .bind (.octets 16) fun _ => .bind (.octets 16) fun _ => .bind .int32 fun _ =>
    .bind .blob fun _ => .bind .blob fun _ => .bind .int32 fun _ => .pure _

/-- A boxed value has four bytes more, and is read back by whoever expects its type. -/
theorem boxed_readBack {α : Type} [Tagged α] {v : α} {bs : Bytes}
    (h : Codes (fun w => Bare.write w v) Bare.read bs v) :
    ∃ body, boxedBytes v = .ok body ∧ body.length = 4 + bs.length ∧
      Reads (Read.exactBoxed α) body (some v) :=
  ⟨_, h.boxedBytes, by rw [List.length_append, Bytes.length_le], Reads.exactBoxed h.reads⟩

/-! ## 2. Families -/

/-! A value is read as a member of a family after its tag has been compared with the tags before
it. -/

/-- The fields behind the tag of a message are read as this message. -/
theorem readFields_reqPq {v : ReqPq} {bs : Bytes} (h : Reads Bare.read bs v) :
    Reads (HandshakeRequest.readFields (Tagged.tag ReqPq)) bs (some (.reqPq v)) := by
  rw [HandshakeRequest.readFields, if_pos rfl]
  exact h.map

theorem readFields_reqDhParams {v : ReqDhParams} {bs : Bytes} (h : Reads Bare.read bs v) :
    Reads (HandshakeRequest.readFields (Tagged.tag ReqDhParams)) bs (some (.reqDhParams v)) := by
  rw [HandshakeRequest.readFields, if_neg (by decide), if_pos rfl]
  exact h.map

theorem readFields_setClientDhParams {v : SetClientDhParams} {bs : Bytes}
    (h : Reads Bare.read bs v) :
    Reads (HandshakeRequest.readFields (Tagged.tag SetClientDhParams)) bs
      (some (.setClientDhParams v)) := by
  rw [HandshakeRequest.readFields, if_neg (by decide), if_neg (by decide), if_pos rfl]
  exact h.map

theorem readFields_resPq {v : ResPq} {bs : Bytes} (h : Reads Bare.read bs v) :
    Reads (HandshakeResponse.readFields (Tagged.tag ResPq)) bs (some (.resPq v)) := by
  rw [HandshakeResponse.readFields, if_pos rfl]
  exact h.map

theorem readFields_serverDhParamsOk {v : ServerDhParamsOk} {bs : Bytes}
    (h : Reads Bare.read bs v) :
    Reads (HandshakeResponse.readFields (Tagged.tag ServerDhParamsOk)) bs
      (some (.serverDhParamsOk v)) := by
  rw [HandshakeResponse.readFields, if_neg (by decide), if_pos rfl]
  exact h.map

theorem readFields_serverDhParamsFail {v : ServerDhParamsFail} {bs : Bytes}
    (h : Reads Bare.read bs v) :
    Reads (HandshakeResponse.readFields (Tagged.tag ServerDhParamsFail)) bs
      (some (.serverDhParamsFail v)) := by
  rw [HandshakeResponse.readFields, if_neg (by decide), if_neg (by decide), if_pos rfl]
  exact h.map

theorem readFields_dhGenOk {v : DhGenAnswer} {bs : Bytes} (h : Reads Bare.read bs v) :
    Reads (HandshakeResponse.readFields dhGenOkTag) bs (some (.dhGenOk v)) := by
  rw [HandshakeResponse.readFields, if_neg (by decide), if_neg (by decide), if_neg (by decide),
    if_pos rfl]
  exact h.map

theorem readFields_dhGenRetry {v : DhGenAnswer} {bs : Bytes} (h : Reads Bare.read bs v) :
    Reads (HandshakeResponse.readFields dhGenRetryTag) bs (some (.dhGenRetry v)) := by
  rw [HandshakeResponse.readFields, if_neg (by decide), if_neg (by decide), if_neg (by decide),
    if_neg (by decide), if_pos rfl]
  exact h.map

theorem readFields_dhGenFail {v : DhGenAnswer} {bs : Bytes} (h : Reads Bare.read bs v) :
    Reads (HandshakeResponse.readFields dhGenFailTag) bs (some (.dhGenFail v)) := by
  rw [HandshakeResponse.readFields, if_neg (by decide), if_neg (by decide), if_neg (by decide),
    if_neg (by decide), if_neg (by decide), if_pos rfl]
  exact h.map

/-- A boxed request is read back by whoever expects any request. -/
theorem request_readBack {α : Type} [Tagged α] {v : α} {bs : Bytes} {request : HandshakeRequest}
    (h : Codes (fun w => Bare.write w v) Bare.read bs v)
    (hread : Reads (HandshakeRequest.readFields (Tagged.tag α)) bs (some request)) :
    ∃ bytes, boxedBytes v = .ok bytes ∧ ofBoxedBytes HandshakeRequest bytes = .ok request :=
  ⟨_, h.boxedBytes, Reads.ofBoxedBytes (Reads.boxed hread)⟩

/-- A response is read back by whoever expects any response. -/
theorem response_readBack {response : HandshakeResponse} {bs : Bytes}
    (hwrite : Writes (fun w => response.writeFields w) bs)
    (hread : Reads (HandshakeResponse.readFields response.tag) bs (some response)) :
    ∃ bytes, response.toBytes = .ok bytes ∧
      ofBoxedBytes HandshakeResponse bytes = .ok response :=
  ⟨_, ((Writes.word32 _).append hwrite).finish, Reads.ofBoxedBytes (Reads.boxed hread)⟩

end Mtproto
