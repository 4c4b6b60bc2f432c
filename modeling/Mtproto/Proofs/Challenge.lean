import Mathlib.Tactic.Common
import Mtproto.Proofs.Factorization
import Mtproto.Proofs.Malformed
import Mtproto.Proofs.Messages
import Mtproto.Proofs.Misbehaviour
import Mtproto.Proofs.Padding
import Mtproto.Proofs.Triple

/-!
# The client's answer to a challenge

`KeyExchange.onResPq` takes the first answer of the server.  The server sets a number to factorize
and offers keys by their fingerprints.  The client answers with the two factors, and with one block
of 255 bytes that is encrypted to a key that it trusts.

`MeetsChallenge` says what is in the answer, from the side of the server who reads it: the two
numbers, written without a zero byte in front, their product, the nonces, and the text that the
block was made of.

* `meetsChallenge_of_onResPq`: whatever the tape holds, a request that the client sends is such an
  answer.
* `Refuses` lists the five ways in which a challenge is refused, with the error for each.  In
  particular the client answers with a mismatch of fingerprints exactly if it trusts none of the
  keys.
* `challenge_answered`: both.  That the block is too short for what goes into it is not among the
  refusals, since numbers of eight bytes and nonces of fixed length leave room.
-/

namespace Mtproto

open Wire

namespace KeyExchange

variable {kx : KeyExchange} {res : ResPq} {e : Entropy} {t : KeyExchange × Entropy}

/-! ## 1. Answers -/

/-- A block of 255 bytes is encrypted to a key: the digest of a text, the text, and filler. -/
structure Sealed (key : RsaKey) (text filler encrypted : Bytes) : Prop where
  length : ((sha1 text).bytes ++ (text ++ filler)).length = 255
  data : encrypted = Bytes.ofNatPadded
    (Bytes.ofBE ((sha1 text).bytes ++ (text ++ filler)) ^ key.exponent % key.modulus) 256
  value : Bytes.ofBE encrypted =
    Bytes.ofBE ((sha1 text).bytes ++ (text ++ filler)) ^ key.exponent % key.modulus

/-- A request answers a challenge: it has both nonces, and two factors of the number that was set,
the smaller one first, neither with a zero byte in front.  To one of the keys that are trusted and
offered, it has encrypted a text that holds the same numbers and nonces and the new nonce.  The
filler is the end of the 255 bytes that come next on the tape `e`. -/
structure MeetsChallenge (kx : KeyExchange) (res : ResPq) (newNonce : NewNonce) (e : Entropy)
    (v : ReqDhParams) : Prop where
  nonce : v.nonce = kx.nonce
  serverNonce : v.serverNonce = res.serverNonce
  minimal : v.p.head? ≠ some 0 ∧ v.q.head? ≠ some 0
  one_lt : 1 < Bytes.ofBE v.p
  le : Bytes.ofBE v.p ≤ Bytes.ofBE v.q
  product : Bytes.ofBE v.p * Bytes.ofBE v.q = Bytes.ofBE res.pq
  sealed : ∃ key ∈ kx.keys, key.fingerprint ∈ res.fingerprints ∧
    v.publicKeyFingerprint = key.fingerprint ∧
    ∃ text, Sealed key text ((e.peek 255).drop (20 + text.length)) v.encryptedData ∧
      ∃ r, Read.exactBoxed PqInnerData (.ofBytes text) =
        (some ⟨res.pq, v.p, v.q, kx.nonce, res.serverNonce, newNonce⟩, r) ∧ r.finish = .ok ()

/-- A challenge is the number that its bytes are. -/
theorem toNat_of_challenge {pq : Bytes} {word : UInt64} (h : challenge pq = .ok word) :
    word.toNat = Bytes.ofBE pq := by
  have hlength := Checked.length_challenge_le h
  unfold challenge at h
  split at h
  · cases h
  · obtain rfl := Except.ok.inj h
    have hlt : Bytes.ofBE pq < UInt64.size :=
      lt_of_lt_of_le (Bytes.ofBE_lt pq) (Nat.pow_le_pow_right (by decide) hlength)
    exact UInt64.toNat_ofNat_of_lt' hlt

theorem mem_of_trustedKey {offered : List UInt64} {key : RsaKey}
    (h : kx.trustedKey offered = some key) : key ∈ kx.keys ∧ key.fingerprint ∈ offered := by
  have hoffered := List.find?_some h
  exact ⟨List.mem_of_find?_eq_some h, by simpa using hoffered⟩

theorem trustedKey_eq_none_iff {offered : List UInt64} :
    kx.trustedKey offered = none ↔ ∀ key ∈ kx.keys, key.fingerprint ∉ offered := by
  simp [trustedKey, List.find?_eq_none]

theorem fits_of_length_le {bs : Bytes} (h : bs.length ≤ 8) : bs.length ≤ maxBlobLength :=
  le_maxBlobLength h (by decide)

/-- The text is read as it was written. -/
theorem exactBoxed_of_boxedBytes {v : PqInnerData} {text : Bytes} (hpq : v.pq.length ≤ 8)
    (hp : v.p.length ≤ 8) (hq : v.q.length ≤ 8) (h : boxedBytes v = .ok text) :
    ∃ r, Read.exactBoxed PqInnerData (.ofBytes text) = (some v, r) ∧ r.finish = .ok () := by
  obtain ⟨text', htext', hread⟩ := exact_readBack
    (PqInnerData.codes (fits_of_length_le hpq) (fits_of_length_le hp) (fits_of_length_le hq))
  obtain rfl := Except.ok.inj (h.symm.trans htext')
  exact hread

/-- **What the client sends answers the challenge.** -/
theorem meetsChallenge_of_onResPq {request : Bytes} (h : onResPq res (kx, e) = (.ok request, t)) :
    ∃ v e', ofBoxedBytes HandshakeRequest request = .ok (.reqDhParams v) ∧
      t.2 = e'.skip 255 ∧ MeetsChallenge kx res t.1.newNonce e' v := by
  obtain ⟨-, key, hkey, pq, hpq, ⟨p, q⟩, e₁, hfactors, hone, text, htext, block, hblock, encrypted,
    hencrypted, hrequest, -, rfl⟩ := onResPq_eq_ok_iff.mp h
  obtain ⟨hmem, hoffered⟩ := mem_of_trustedKey hkey
  obtain ⟨hroom, rfl⟩ := rsaBlock_eq_ok_iff.mp hblock
  obtain ⟨-, rfl⟩ := RsaKey.encrypt_eq_ok_iff.mp hencrypted
  have hsplits : Number.Splits pq p q := by
    refine (Number.splits_of_factorize hfactors).resolve_left fun hnone => ?_
    exact hone (Prod.mk.inj hnone).1
  obtain ⟨hp, hq, -⟩ := hsplits.toNat
  have hp_ne : p.toNat ≠ 0 := by omega
  have hq_ne : q.toNat ≠ 0 := by omega
  have hback := HandshakeRequest.ofBoxedBytes_of_toBytes (v := .reqDhParams _) hrequest
  have hread := exactBoxed_of_boxedBytes (Checked.length_challenge_le hpq)
    (Checked.length_factor_le p) (Checked.length_factor_le q) htext
  refine ⟨_, e₁.skip 32, hback, rfl, rfl, rfl,
    ⟨Bytes.head?_ofNat hp_ne, Bytes.head?_ofNat hq_ne⟩, ?_, ?_, ?_, key, hmem, hoffered, rfl, text,
    ⟨?_, rfl, Bytes.ofBE_ofNatPadded _ _⟩, hread⟩
  · rw [Bytes.ofBE_ofNat]
    exact hp
  · rw [Bytes.ofBE_ofNat, Bytes.ofBE_ofNat]
    exact hq
  · rw [Bytes.ofBE_ofNat, Bytes.ofBE_ofNat, hsplits.product, toNat_of_challenge hpq]
  · rw [rsaDataLength] at hroom
    simp only [List.length_append, Octets.length_bytes, List.length_drop, Entropy.length_peek]
    omega

/-! ## 2. Refusals -/

/-- The ways to refuse a challenge. -/
inductive Refuses (kx : KeyExchange) (res : ResPq) : Error → Prop
  | nonce (h : res.nonce ≠ kx.nonce) : Refuses kx res .badNonce
  | stranger (hnonce : res.nonce = kx.nonce)
      (h : ∀ key ∈ kx.keys, key.fingerprint ∉ res.fingerprints) :
      Refuses kx res .fingerprintMismatch
  | length (h : res.pq.length = 0 ∨ 8 < res.pq.length) :
      Refuses kx res (.decode (.invalidValue (.challengeLength res.pq.length)))
  | factors (pq : UInt64) (h : challenge res.pq = .ok pq) :
      Refuses kx res (.factorizationFailed pq)
  /-- The modulus of the key is so long that what is encrypted to it cannot be written. -/
  | encrypted (length : Nat) (h : maxBlobLength < length) :
      Refuses kx res (.decode (.overflow length 24))

theorem challenge_eq_error {pq : Bytes} {error : DecodeError} (h : challenge pq = .error error) :
    (pq.length = 0 ∨ 8 < pq.length) ∧ error = .invalidValue (.challengeLength pq.length) := by
  unfold challenge at h
  split at h
  · rename_i hlength
    obtain rfl := Except.error.inj h
    exact ⟨by simpa using hlength, rfl⟩
  · cases h

/-- A request that cannot be written has too much encrypted data. -/
theorem boxedBytes_eq_error {v : ReqDhParams} {error : DecodeError} (hp : v.p.length ≤ 8)
    (hq : v.q.length ≤ 8) (h : boxedBytes v = .error error) :
    maxBlobLength < v.encryptedData.length ∧ error = .overflow v.encryptedData.length 24 := by
  have hp' := fits_of_length_le hp
  have hq' := fits_of_length_le hq
  have hlong : maxBlobLength < v.encryptedData.length := by
    by_contra hshort
    rw [(ReqDhParams.codes hp' hq' (Nat.not_lt.mp hshort)).boxedBytes] at h
    cases h
  have hfront := (Writes.word32 (Tagged.tag ReqDhParams)).append ((Writes.octets v.nonce).append
    ((Writes.octets v.serverNonce).append ((Writes.blob hp').append ((Writes.blob hq').append
      (.word64 v.publicKeyFingerprint)))))
  have hdata : encodeBlob v.encryptedData = .error (.overflow v.encryptedData.length 24) :=
    if_pos hlong
  have hrun : boxedBytes v = (Writer.encoded _ (encodeBlob v.encryptedData)).finish :=
    congrArg (fun w : Writer => (w.blob v.encryptedData).finish) (hfront [])
  rw [hrun, hdata] at h
  exact ⟨hlong, (Except.error.inj h).symm⟩

/-- A halt is a fault, or an error of this kind. -/
def HaltsWith (kind : Error → Prop) (halt : Halt) : Prop :=
  ∀ error, halt = .error error → kind error

theorem haltsWith_error {kind : Error → Prop} {error : Error} (h : kind error) :
    HaltsWith kind (.error error) := by
  rintro _ ⟨⟩
  exact h

theorem haltsWith_fault {kind : Error → Prop} {fault : Fault} : HaltsWith kind (.fault fault) :=
  nofun

/-- **There are no other ways to refuse a challenge.** -/
theorem triple_onResPq (kx : KeyExchange) (res : ResPq) (hstate : kx.state = .reqPq) :
    Act.Triple (· = kx) (onResPq res) (fun _ _ => True)
      fun halt _ => HaltsWith (Refuses kx res) halt := by
  unfold onResPq
  simp only [Act.fail_bind, pure_bind]
  refine .state_bind fun s hs => ?_
  obtain rfl := hs.symm
  refine .ite (fun hnonce => .fail fun _ _ => haltsWith_error (.nonce hnonce)) fun hnonce => ?_
  cases htrusted : kx.trustedKey res.fingerprints with
  | none =>
    exact .fail fun _ _ => haltsWith_error
      (.stranger (not_not.mp hnonce) (trustedKey_eq_none_iff.mp htrusted))
  | some key =>
    refine .update_bind (I := fun s => s.state = .reqPq) (fun _ h => h ▸ hstate) ?_
    refine .ofExcept_cases (fun error herror _ _ => ?_) fun pq hpq => ?_
    · obtain ⟨e, hlength, rfl⟩ := DecodeError.lift_eq_error_iff.mp herror
      obtain ⟨hlong, rfl⟩ := challenge_eq_error hlength
      exact haltsWith_error (.length hlong)
    have hpq := DecodeError.lift_eq_ok_iff.mp hpq
    refine .draw_bind (fun _ _ _ => haltsWith_fault) fun f => ?_
    refine .ite (fun _ => .fail fun _ _ => haltsWith_error (.factors pq hpq)) fun _ => ?_
    refine .draw_bind (fun _ _ _ => haltsWith_fault) fun newNonce =>
      .update_bind (I := fun s => s.state = .reqPq) (fun _ h => h) ?_
    -- there is room for the text, because the challenge and the factors are words
    obtain ⟨text, htext, hroom⟩ := Checked.exists_inner kx.nonce res.serverNonce newNonce
      (Checked.length_challenge_le hpq) (Checked.length_factor_le f.1)
      (Checked.length_factor_le f.2)
    rw [htext, DecodeError.lift_ok, Act.ofExcept_ok_bind]
    refine .draw_bind (fun _ _ _ => haltsWith_fault) fun filler => ?_
    rw [Octets.length_bytes] at hroom
    rw [rsaBlock_eq_ok_iff.mpr ⟨hroom, rfl⟩, DecodeError.lift_ok, Act.ofExcept_ok_bind]
    refine .ofFault_bind (fun _ _ _ => haltsWith_fault) fun encrypted _ => ?_
    refine .ofExcept_cases (fun error herror _ _ => ?_) fun request _ => ?_
    · obtain ⟨e, hwrite, rfl⟩ := DecodeError.lift_eq_error_iff.mp herror
      obtain ⟨hlong, rfl⟩ := boxedBytes_eq_error (Checked.length_factor_le f.1)
        (Checked.length_factor_le f.2) hwrite
      exact haltsWith_error (.encrypted _ hlong)
    · refine .bind (Q := fun _ _ => True) ?_ fun _ => .pure fun _ _ => trivial
      refine .state_bind ?_
      intro s hs
      have hnext : ExchangeState.reqPq.canTransitionTo .reqDhParams = true := rfl
      rw [hs, if_pos hnext]
      exact .update fun _ _ => trivial

/-- What is answered with an error in this state: a payload that is no answer, another answer, or a
challenge that is refused. -/
theorem error_of_handle {now : Instant} {payload : Bytes} {error : Error}
    (hstate : kx.state = .reqPq)
    (h : (handle now payload (kx, e)).1 = .error (.error error)) :
    (∃ reason, Malformed reason ∧ error = .decode reason) ∨ error = .unexpectedCommand ∨
      ∃ res, ofBoxedBytes HandshakeResponse payload = .ok (.resPq res) ∧ Refuses kx res error := by
  rw [run_handle e now payload (by rw [hstate]; rfl) (by rw [hstate]; exact nofun)] at h
  unfold dispatch at h
  cases hresponse : ofBoxedBytes HandshakeResponse payload with
  | error reason =>
    rw [hresponse] at h
    cases h
    exact .inl ⟨reason, malformed_of_ofBoxedBytes hresponse, rfl⟩
  | ok response =>
    rw [hresponse, DecodeError.lift_ok, Act.ofExcept_ok_bind, Act.state_bind] at h
    simp only [hstate] at h
    cases response with
    | resPq res =>
      rcases hrun : onResPq res (kx, e) with ⟨halt | request, t⟩
      · simp only [run_bind, hrun] at h
        have hrefusal := (triple_onResPq kx res hstate).error rfl hrun
        cases halt with
        | error _ =>
          cases h
          exact .inr (.inr ⟨res, rfl, hrefusal error rfl⟩)
        | fault _ => cases h
      · simp only [run_bind, hrun] at h
        cases h
    | _ =>
      cases h
      exact .inr (.inl rfl)

/-! ## 3. Challenges -/

/-- **The request that answers a challenge.**  Take a client that waits for one, with any trusted
keys, any payload and any tape.

* If it sends a request, the payload was a challenge and the request answers it; the server reads
  it as it was meant.
* It gives up because of the fingerprints exactly if the payload is a challenge with its nonce and
  none of the keys that it trusts is offered.
* It never gives up because the text is too long for the block. -/
theorem challenge_answered {kx : KeyExchange} (hstate : kx.state = .reqPq) (now : Instant)
    (payload : Bytes) (tape : Entropy) :
    (∀ request kx' tape', handle now payload (kx, tape) = (.ok (some request), kx', tape') →
      ∃ res v e, ofBoxedBytes HandshakeResponse payload = .ok (.resPq res) ∧
        ofBoxedBytes HandshakeRequest request = .ok (.reqDhParams v) ∧ tape' = e.skip 255 ∧
        MeetsChallenge kx res kx'.newNonce e v) ∧
    ((handle now payload (kx, tape)).1 = .error (.error .fingerprintMismatch) ↔
      ∃ res, ofBoxedBytes HandshakeResponse payload = .ok (.resPq res) ∧ res.nonce = kx.nonce ∧
        ∀ key ∈ kx.keys, key.fingerprint ∉ res.fingerprints) ∧
    ∀ length, (handle now payload (kx, tape)).1 ≠
      .error (.error (.decode (.overflow length (rsaDataLength * 8)))) := by
  refine ⟨fun request kx' tape' hrun => ?_, ⟨fun hrun => ?_, ?_⟩, fun length hrun => ?_⟩
  · rcases dispatch_eq_ok_iff.mp (Dialogue.dispatch_of_handle hrun) with
      ⟨-, res, bytes, hresponse, hbytes, hres⟩ | ⟨hother, -⟩ | ⟨hother, -⟩
    · obtain rfl := Option.some.inj hbytes
      obtain ⟨v, e, hback, htape, hmeets⟩ := meetsChallenge_of_onResPq hres
      exact ⟨res, v, e, hresponse, hback, htape, hmeets⟩
    · rw [hstate] at hother
      cases hother
    · rw [hstate] at hother
      cases hother
  · rcases error_of_handle hstate hrun with ⟨reason, -, hreason⟩ | hother |
      ⟨res, hresponse, hrefusal⟩
    · cases hreason
    · cases hother
    · cases hrefusal with
      | stranger hnonce hkeys => exact ⟨res, hresponse, hnonce, hkeys⟩
  · rintro ⟨res, hresponse, hnonce, hkeys⟩
    have hgives : GivesUp kx tape now payload .fingerprintMismatch :=
      givesUp_resPq hstate hresponse
        (onResPq_stranger kx hnonce (trustedKey_eq_none_iff.mpr hkeys))
    obtain ⟨kx', e', hrun⟩ := hgives
    rw [hrun]
  · have hbits : rsaDataLength * 8 ≠ 24 := by decide
    generalize rsaDataLength * 8 = bits at hrun hbits
    rcases error_of_handle hstate hrun with ⟨reason, hmalformed, hreason⟩ | hother |
      ⟨res, -, hrefusal⟩
    · cases hreason
      cases hmalformed
    · cases hother
    · cases hrefusal
      exact hbits rfl

open SimulatedServer in
/-- On the client's tape the challenge of the simulated server is answered. -/
theorem challenge_answered_tape : ∃ kx payload request kx' tape',
    kx.state = .reqPq ∧
    handle ⟨0, 0⟩ payload (kx, clientTape.skip 16) = (.ok (some request), kx', tape') ∧
    ∃ res v e, ofBoxedBytes HandshakeResponse payload = .ok (.resPq res) ∧
      ofBoxedBytes HandshakeRequest request = .ok (.reqDhParams v) ∧ tape' = e.skip 255 ∧
      MeetsChallenge kx res kx'.newNonce e v := by
  obtain ⟨-, payload, nonce, serverNonce, -, -, hchallenge⟩ :=
    exists_opening [publicKey] {} clientTape serverTape ⟨0, 0⟩
  rw [sentChallenge_eq (by decide) (by decide)] at hchallenge
  obtain ⟨request, newNonce, hhandle, -⟩ :=
    exists_factors ⟨0, 0⟩ (List.mem_singleton_self publicKey)
      (fun k hk _ => List.mem_singleton.mp hk) hchallenge factorize_clientTape (by decide)
  have hstate : (opened [publicKey] nonce).state = .reqPq := rfl
  obtain ⟨hanswer, -, -⟩ := challenge_answered hstate ⟨0, 0⟩ payload (clientTape.skip 16)
  exact ⟨_, payload, request, _, _, hstate, hhandle, hanswer _ _ _ hhandle⟩

end KeyExchange

end Mtproto
