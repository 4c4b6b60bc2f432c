import Mathlib.Tactic.Common
import Mtproto.Proofs.Messages
import Mtproto.Proofs.Misbehaviour

/-!
# The shared secret of the key exchange

`KeyExchange.onDhParamsOk` takes the second answer of the server.  The server sends a group and its
half, and the client answers with its own half; both are encrypted under the two nonces (`Hides`).
The client has raised the server's half to its own exponent, and keeps the result as the key.

* `secret_eq`: whoever knows the exponent of the server's half gets the same number from the
  client's half, in every group.
* `carriesHalf_of_onDhParamsOk`: what is in the request, for the server who reads it, and how the
  key hangs on it, however short the secret is.
* `answered_iff`: when there is a request at all.  What the client answers is never too long to be
  sent, because it is no longer than what it has received; so the checks are all that stands between
  the parameters and an answer.
* `shared_secret`: both together.
-/

namespace Mtproto

open Wire

/-! ## 1. A half is no longer than the parameters -/

theorem ServerDhInnerData.canonical :
    Canonical (Bare.read (α := ServerDhInnerData)) fun v w => Bare.write w v := by
  have h := Canonical.field ServerDhInnerData.nonce (.octets 16) fun a =>
    .field ServerDhInnerData.serverNonce (.octets 16) fun b =>
      .field ServerDhInnerData.g .int32 fun c => .field ServerDhInnerData.dhPrime .blob fun d =>
        .field ServerDhInnerData.gA .blob fun e =>
          .field ServerDhInnerData.serverTime .int32 fun f => .pure ⟨a, b, c, d, e, f⟩
  exact h

/-- The fields of parameters that are written take this many bytes. -/
theorem ServerDhInnerData.length_of_writes {v : ServerDhInnerData} {fields : Bytes}
    (h : Writes (fun w => Bare.write w v) fields) :
    v.dhPrime.length ≤ maxBlobLength ∧
      fields.length = 40 + (blobBytes v.dhPrime).length + (blobBytes v.gA).length := by
  have hfailure : (Bare.write .empty v).failure = none := Writer.failure_of_finish h.finish
  simp only [Bare.write, Writer.failure_int32, Writer.failure_blob_eq_none_iff,
    Writer.failure_octets] at hfailure
  obtain ⟨⟨-, hprime⟩, hgA⟩ := hfailure
  refine ⟨hprime, ?_⟩
  rw [h.unique (ServerDhInnerData.codes hprime hgA).writes]
  simp only [List.length_append, Octets.length_bytes, Bytes.length_le]
  omega

/-- Parameters that have been read are no shorter than a half with fewer bytes than the modulus. -/
theorem exists_boxedBytes_half {text : Bytes} {inner : ServerDhInnerData}
    (reply : ClientDhInnerData) (h : Reads (Read.exactBoxed ServerDhInnerData) text (some inner))
    (hgB : reply.gB.length ≤ inner.dhPrime.length) :
    ∃ body, boxedBytes reply = .ok body ∧ body.length ≤ text.length := by
  obtain ⟨fields, rfl, hfields⟩ := (reads_exactBoxed_iff ServerDhInnerData.selfDelimiting).mp h
  obtain ⟨written, hle, hcodes⟩ := ServerDhInnerData.canonical.exists_codes hfields
  obtain ⟨hprime, hlength⟩ := ServerDhInnerData.length_of_writes hcodes.writes
  have hblob := length_blobBytes_mono hgB
  refine ⟨_, (ClientDhInnerData.codes (le_trans hgB hprime)).boxedBytes, ?_⟩
  simp only [List.length_append, Octets.length_bytes, Bytes.length_le]
  omega

namespace Ige

/-- What is encrypted behind a digest fills the last block, and no more. -/
theorem length_encryptWithHash_le {key iv plain data whole hash rest : Bytes} {e e' : Entropy}
    (h : encryptWithHash key iv plain e = (.ok (.ok data), e'))
    (hwhole : decryptWithHash key iv whole = .ok (rest, hash))
    (hle : plain.length ≤ rest.length) : data.length ≤ whole.length := by
  obtain ⟨hhash, hencrypt⟩ := decryptWithHash_eq_ok_iff.mp hwhole
  have hmod := mod_of_aes256Encrypt hencrypt
  rw [run_encryptWithHash] at h
  obtain ⟨hdata, -⟩ := ok_pair_eq_iff.mp h
  rw [length_aes256Encrypt hdata, length_aes256Encrypt hencrypt]
  simp only [List.length_append, Octets.length_bytes, Entropy.length_peek, hhash] at hmod ⊢
  unfold hashPadding paddingFor
  unfold hashLength at hmod ⊢
  omega

end Ige

namespace KeyExchange

variable {kx kx' : KeyExchange} {e e' : Entropy} {t : KeyExchange × Entropy} {now : Instant}

/-! ## 2. Under the two nonces -/

/-- Under the key and the vector of the two nonces, data decrypt into a boxed value behind its
digest, with less than a block of padding. -/
def Hides (α : Type) [Tagged α] (kx : KeyExchange) (data : Bytes) (a : α) : Prop :=
  ∃ text pad : Bytes,
    Ige.decryptWithHash (exchangeCipherKey kx.serverNonce kx.newNonce).key.bytes
      (exchangeCipherKey kx.serverNonce kx.newNonce).iv.bytes data =
        .ok (text ++ pad, (sha1 text).bytes) ∧
    pad.length < 16 ∧ Reads (Read.exactBoxed α) text (some a)

/-- There is one such value at most. -/
theorem Hides.unique {α : Type} [Tagged α] {data : Bytes} {a b : α} (ha : Hides α kx data a)
    (hb : Hides α kx data b) : a = b := by
  obtain ⟨text, pad, hdecrypt, -, hread⟩ := ha
  obtain ⟨text', pad', hdecrypt', -, hread'⟩ := hb
  obtain ⟨htext, -⟩ := Prod.mk.inj (Except.ok.inj (hdecrypt.symm.trans hdecrypt'))
  exact Option.some.inj (hread.det hread' htext).1

/-- What the client looks for in the server's answer. -/
theorem hides_iff {data : Bytes} {inner : ServerDhInnerData} :
    Hides ServerDhInnerData kx data inner ↔ ∃ answer hash,
      Ige.decryptWithHash (exchangeCipherKey kx.serverNonce kx.newNonce).key.bytes
        (exchangeCipherKey kx.serverNonce kx.newNonce).iv.bytes data = .ok (answer, hash) ∧
      answerOf answer hash = .ok inner := by
  constructor
  · rintro ⟨text, pad, hdecrypt, hpad, hread⟩
    exact ⟨_, _, hdecrypt, answerOf_eq_ok_iff.mpr ⟨text, pad, rfl, hpad, rfl, hread⟩⟩
  · rintro ⟨answer, hash, hdecrypt, hinner⟩
    obtain ⟨text, pad, rfl, hpad, rfl, hread⟩ := answerOf_eq_ok_iff.mp hinner
    exact ⟨text, pad, hdecrypt, hpad, hread⟩

/-- The parameters of the simulated server are hidden in its answer. -/
theorem hides_of_bringsParams {inner : ServerDhInnerData} {ok : ServerDhParamsOk} {payload : Bytes}
    (h : SimulatedServer.BringsParams kx.nonce kx.serverNonce kx.newNonce sha1 inner payload)
    (hresponse : ofBoxedBytes HandshakeResponse payload = .ok (.serverDhParamsOk ok)) :
    Hides ServerDhInnerData kx ok.encryptedAnswer inner := by
  obtain ⟨encrypted, answer, pad, hback, hdecrypt, hpad, hread⟩ := h
  rw [hback] at hresponse
  cases hresponse
  exact ⟨answer, pad, hdecrypt, hpad, hread⟩

/-- What is encrypted behind its digest is hidden. -/
theorem hides_of_encryptWithHash {α : Type} [Tagged α] {a : α} {body data : Bytes}
    (hread : Reads (Read.exactBoxed α) body (some a))
    (h : Ige.encryptWithHash (exchangeCipherKey kx.serverNonce kx.newNonce).key.bytes
      (exchangeCipherKey kx.serverNonce kx.newNonce).iv.bytes body e = (.ok (.ok data), e')) :
    Hides α kx data a := by
  rw [Ige.run_encryptWithHash] at h
  obtain ⟨hdata, -⟩ := ok_pair_eq_iff.mp h
  refine ⟨body, _, Ige.decryptWithHash_eq_ok_iff.mpr ⟨Octets.length_bytes _, hdata⟩, ?_, hread⟩
  rw [Entropy.length_peek]
  exact paddingFor_lt _ (by decide)

/-- A half that has been written is read back. -/
theorem reads_of_boxedBytes {reply : ClientDhInnerData} {body : Bytes}
    (h : boxedBytes reply = .ok body) :
    Reads (Read.exactBoxed ClientDhInnerData) body (some reply) := by
  have hfailure := Writer.failure_of_finish h
  simp only [Writer.boxed, Bare.write, Writer.failure_blob_eq_none_iff] at hfailure
  have hcodes := ClientDhInnerData.codes hfailure.2
  obtain rfl := Except.ok.inj (h.symm.trans hcodes.boxedBytes)
  exact .exactBoxed hcodes.reads

/-! ## 3. Keys -/

/-- A secret is a key if it fits into one. -/
theorem exists_keyOf_iff {secret : Nat} :
    (∃ key, keyOf secret = .ok key) ↔ secret < 256 ^ 256 := by
  constructor
  · rintro ⟨key, hkey⟩
    have hbytes := keyOf_eq_ok_iff.mp hkey
    have hlt := Bytes.ofBE_lt key.octets.bytes
    rwa [Octets.length_bytes, hbytes, Bytes.ofBE_ofNatPadded] at hlt
  · intro hlt
    exact ⟨⟨⟨_, Bytes.length_ofNatPadded (by decide) hlt⟩⟩, keyOf_eq_ok_iff.mpr rfl⟩

/-- **The same secret from the other half.** -/
theorem secret_eq {inner : ServerDhInnerData} {a : Nat} (exponent : Bytes)
    (hgA : Bytes.ofBE inner.gA = inner.g.toInt.toNat ^ a % Bytes.ofBE inner.dhPrime) :
    secret inner exponent = half inner exponent ^ a % Bytes.ofBE inner.dhPrime := by
  rw [← Number.powMod_eq] at hgA
  calc secret inner exponent
      = Number.powMod (Number.powMod inner.g.toInt.toNat a (Bytes.ofBE inner.dhPrime))
          (Bytes.ofBE exponent) (Bytes.ofBE inner.dhPrime) := by rw [secret, hgA]
    _ = Number.powMod (half inner exponent) a (Bytes.ofBE inner.dhPrime) :=
        Number.powMod_comm _ _ _ _
    _ = half inner exponent ^ a % Bytes.ofBE inner.dhPrime := Number.powMod_eq _ _ _

/-- The bytes of a number in range are no more than those of the modulus. -/
theorem length_ofNat_le_of_inRange {value : Nat} {modulus : Bytes}
    (h : InRange value (Bytes.ofBE modulus)) : (Bytes.ofNat value).length ≤ modulus.length := by
  obtain ⟨hone, hvalue⟩ := h
  have hlt := Bytes.ofBE_lt modulus
  have hlength : 1 ≤ modulus.length := by
    by_contra hzero
    have hnil : modulus.length = 0 := by omega
    rw [hnil] at hlt
    omega
  exact Bytes.length_ofNat_le hlength (by omega)

/-! ## 4. Parameters and their answer -/

/-- The server offers a group and its half: both nonces are echoed outside and inside. -/
structure Offers (kx : KeyExchange) (ok : ServerDhParamsOk) (inner : ServerDhInnerData) : Prop where
  nonce : ok.nonce = kx.nonce
  serverNonce : ok.serverNonce = kx.serverNonce
  hidden : Hides ServerDhInnerData kx ok.encryptedAnswer inner
  innerNonce : inner.nonce = kx.nonce
  innerServerNonce : inner.serverNonce = kx.serverNonce

/-- Generator and both halves are in range, and the secret fits into a key. -/
structure Suits (inner : ServerDhInnerData) (exponent : Bytes) : Prop where
  nonneg : 0 ≤ inner.g
  generator : InRange inner.g.toInt.toNat (Bytes.ofBE inner.dhPrime)
  theirs : InRange (Bytes.ofBE inner.gA) (Bytes.ofBE inner.dhPrime)
  ours : InRange (half inner exponent) (Bytes.ofBE inner.dhPrime)
  fits : secret inner exponent < 256 ^ 256

/-- The client answers with its half: both nonces outside and inside, and the first attempt. -/
structure CarriesHalf (kx : KeyExchange) (inner : ServerDhInnerData) (v : SetClientDhParams)
    (reply : ClientDhInnerData) : Prop where
  nonce : v.nonce = kx.nonce
  serverNonce : v.serverNonce = kx.serverNonce
  hidden : Hides ClientDhInnerData kx v.encryptedData reply
  innerNonce : reply.nonce = kx.nonce
  innerServerNonce : reply.serverNonce = kx.serverNonce
  retryId : reply.retryId = 0
  inRange : InRange (Bytes.ofBE reply.gB) (Bytes.ofBE inner.dhPrime)

/-- Both sides can compute the key: whoever knows an exponent of the server's half raises the
client's half to it. -/
def Shares (inner : ServerDhInnerData) (reply : ClientDhInnerData) (key : AuthKey) : Prop :=
  ∀ a, Bytes.ofBE inner.gA = inner.g.toInt.toNat ^ a % Bytes.ofBE inner.dhPrime →
    key.octets.bytes =
      Bytes.ofNatPadded (Bytes.ofBE reply.gB ^ a % Bytes.ofBE inner.dhPrime) 256 ∧
    Bytes.ofBE key.octets.bytes = Bytes.ofBE reply.gB ^ a % Bytes.ofBE inner.dhPrime

variable {ok : ServerDhParamsOk} {request : Bytes}

/-- **What an answer to the parameters says.** -/
theorem carriesHalf_of_onDhParamsOk (h : onDhParamsOk now ok (kx, e) = (.ok request, t)) :
    ∃ inner e₁ v reply auth, Offers kx ok inner ∧
      Number.isProbablePrime (Bytes.ofBE inner.dhPrime) 32 e = (.ok true, e₁) ∧
      Suits inner (e₁.peek exponentLength) ∧
      ofBoxedBytes HandshakeRequest request = .ok (.setClientDhParams v) ∧
      CarriesHalf kx inner v reply ∧ t.1.pending = some auth ∧ Shares inner reply auth.key := by
  obtain ⟨⟨hnonce, hserverNonce⟩, answer, hash, hdecrypt, inner, hinner, ⟨hinside, hinside'⟩, e₁,
    hprime, hnonneg, hgenerator, htheirs, hours, key, hkey, body, hbody, data, e₂, hdata, hrequest,
    -, rfl⟩ := onDhParamsOk_eq_ok_iff.mp h
  have hoffers : Offers kx ok inner :=
    ⟨hnonce, hserverNonce, hides_iff.mpr ⟨answer, hash, hdecrypt, hinner⟩, hinside, hinside'⟩
  have hsuits : Suits inner (e₁.peek exponentLength) :=
    ⟨hnonneg, hgenerator, htheirs, hours, exists_keyOf_iff.mp ⟨key, hkey⟩⟩
  have hback := HandshakeRequest.ofBoxedBytes_of_toBytes (v := .setClientDhParams _) hrequest
  have hhides := hides_of_encryptWithHash (reads_of_boxedBytes hbody) hdata
  refine ⟨inner, e₁, _, _, _, hoffers, hprime, hsuits, hback,
    ⟨rfl, rfl, hhides, rfl, rfl, rfl, ?_⟩, rfl, ?_⟩
  · rw [Bytes.ofBE_ofNat]
    exact hours
  · intro a hgA
    rw [Bytes.ofBE_ofNat, ← secret_eq _ hgA, keyOf_eq_ok_iff.mp hkey, Bytes.ofBE_ofNatPadded]
    exact ⟨rfl, rfl⟩

/-- **Parameters that pass the checks are answered.** -/
theorem exists_onDhParamsOk {inner : ServerDhInnerData} {e₁ : Entropy} (now : Instant)
    (hstate : kx.state = .reqDhParams) (hfits : ok.encryptedAnswer.length ≤ maxBlobLength)
    (hoffers : Offers kx ok inner)
    (hprime : Number.isProbablePrime (Bytes.ofBE inner.dhPrime) 32 e = (.ok true, e₁))
    (hsuits : Suits inner (e₁.peek exponentLength)) :
    ∃ request t, onDhParamsOk now ok (kx, e) = (.ok request, t) := by
  obtain ⟨text, pad, hdecrypt, hpad, hread⟩ := hoffers.hidden
  have hanswer : answerOf (text ++ pad) (sha1 text).bytes = .ok inner :=
    answerOf_eq_ok_iff.mpr ⟨text, pad, rfl, hpad, rfl, hread⟩
  obtain ⟨key, hkey⟩ := exists_keyOf_iff.mpr hsuits.fits
  obtain ⟨body, hbody, hlength⟩ := exists_boxedBytes_half
    ⟨kx.nonce, kx.serverNonce, 0, Bytes.ofNat (half inner (e₁.peek exponentLength))⟩
    hread (length_ofNat_le_of_inRange hsuits.ours)
  obtain ⟨data, hdata, -, -, -⟩ := Ige.exists_hashed
    (exchangeCipherKey kx.serverNonce kx.newNonce).key
    (exchangeCipherKey kx.serverNonce kx.newNonce).iv (sha1 body)
    (((e₁.skip exponentLength).skip 8).length_peek (Ige.hashPadding body.length))
  have hrun := Ige.run_encryptWithHash (exchangeCipherKey kx.serverNonce kx.newNonce).key.bytes
    (exchangeCipherKey kx.serverNonce kx.newNonce).iv.bytes body ((e₁.skip exponentLength).skip 8)
  rw [hdata] at hrun
  -- the client's half takes no more blocks than the parameters have taken
  have hshort : data.length ≤ ok.encryptedAnswer.length :=
    Ige.length_encryptWithHash_le hrun hdecrypt (by rw [List.length_append]; omega)
  have hrequest := (SetClientDhParams.codes (v := ⟨kx.nonce, kx.serverNonce, data⟩)
    (le_trans hshort hfits)).boxedBytes
  refine ⟨_, _, onDhParamsOk_eq_ok_iff.mpr ⟨⟨hoffers.nonce, hoffers.serverNonce⟩, _, _, hdecrypt,
    inner, hanswer, ⟨hoffers.innerNonce, hoffers.innerServerNonce⟩, e₁, hprime, hsuits.nonneg,
    hsuits.generator, hsuits.theirs, hsuits.ours, key, hkey, body, hbody, data, _, hrun, hrequest,
    ?_, rfl⟩⟩
  rw [hstate]
  rfl

/-! ## 5. The client that waits for parameters -/

variable {payload : Bytes}

/-- It goes on with one kind of answer only. -/
theorem handle_eq_ok_iff_of_reqDhParams (hstate : kx.state = .reqDhParams) {r : Option Bytes} :
    handle now payload (kx, e) = (.ok r, t) ↔ ∃ ok request,
      ofBoxedBytes HandshakeResponse payload = .ok (.serverDhParamsOk ok) ∧ r = some request ∧
      onDhParamsOk now ok (kx, e) = (.ok request, t) := by
  constructor
  · intro h
    rcases dispatch_eq_ok_iff.mp (Dialogue.dispatch_of_handle h) with ⟨hother, -⟩ | ⟨-, hok⟩ |
      ⟨hother, -⟩
    · rw [hstate] at hother
      cases hother
    · exact hok
    · rw [hstate] at hother
      cases hother
  · intro hok
    refine handle_of_dispatch now ?_ ?_ (dispatch_eq_ok_iff.mpr (.inr (.inl ⟨hstate, hok⟩)))
    · rw [hstate]
      rfl
    · rw [hstate]
      exact nofun

/-- Parameters that have been received are not too long to be sent. -/
theorem length_encryptedAnswer_le
    (h : ofBoxedBytes HandshakeResponse payload = .ok (.serverDhParamsOk ok)) :
    ok.encryptedAnswer.length ≤ maxBlobLength := by
  obtain ⟨written, hwritten, -⟩ := HandshakeResponse.exists_written h
  obtain ⟨hblobs, -⟩ := HandshakeResponse.exists_writes hwritten
  exact hblobs ok.encryptedAnswer List.mem_cons_self

/-- **When the parameters are answered**: they are offered under the two nonces, the modulus passes
the test, and the numbers that come of it are in order.  Nothing else can go wrong. -/
theorem answered_iff (hstate : kx.state = .reqDhParams) :
    (∃ request t, handle now payload (kx, e) = (.ok (some request), t)) ↔
      ∃ ok inner e₁, ofBoxedBytes HandshakeResponse payload = .ok (.serverDhParamsOk ok) ∧
        Offers kx ok inner ∧
        Number.isProbablePrime (Bytes.ofBE inner.dhPrime) 32 e = (.ok true, e₁) ∧
        Suits inner (e₁.peek exponentLength) := by
  constructor
  · rintro ⟨request, t, hrun⟩
    obtain ⟨ok, request, hresponse, -, hok⟩ := (handle_eq_ok_iff_of_reqDhParams hstate).mp hrun
    obtain ⟨inner, e₁, -, -, -, hoffers, hprime, hsuits, -⟩ := carriesHalf_of_onDhParamsOk hok
    exact ⟨ok, inner, e₁, hresponse, hoffers, hprime, hsuits⟩
  · rintro ⟨ok, inner, e₁, hresponse, hoffers, hprime, hsuits⟩
    obtain ⟨request, t, hok⟩ := exists_onDhParamsOk now hstate
      (length_encryptedAnswer_le hresponse) hoffers hprime hsuits
    exact ⟨request, t,
      (handle_eq_ok_iff_of_reqDhParams hstate).mpr ⟨ok, request, hresponse, rfl, hok⟩⟩

/-- **Both sides compute one key.**  Take a client that waits for parameters, and any payload, clock
and tape.

* It sends a request exactly if the payload offers a group and the server's half under the two
  nonces, the modulus passes the test for primes, and the numbers that come of it are in order.
* Where it sends one, the generator is not negative.
* The server reads the request as the client's half, hidden in the same way.
* For every exponent of the server's half, the key that the client keeps is the client's half
  raised to that exponent: 256 bytes, with zero bytes in front if the secret is short. -/
theorem shared_secret (hstate : kx.state = .reqDhParams) :
    ((∃ request t, handle now payload (kx, e) = (.ok (some request), t)) ↔
      ∃ ok inner e₁, ofBoxedBytes HandshakeResponse payload = .ok (.serverDhParamsOk ok) ∧
        Offers kx ok inner ∧
        Number.isProbablePrime (Bytes.ofBE inner.dhPrime) 32 e = (.ok true, e₁) ∧
        Suits inner (e₁.peek exponentLength)) ∧
    ∀ request kx' e', handle now payload (kx, e) = (.ok (some request), kx', e') →
    ∃ ok inner v reply auth,
      ofBoxedBytes HandshakeResponse payload = .ok (.serverDhParamsOk ok) ∧ Offers kx ok inner ∧
      0 ≤ inner.g ∧ ofBoxedBytes HandshakeRequest request = .ok (.setClientDhParams v) ∧
      CarriesHalf kx inner v reply ∧ kx'.pending = some auth ∧
      ∀ a, Bytes.ofBE inner.gA = inner.g.toInt.toNat ^ a % Bytes.ofBE inner.dhPrime →
        auth.key.octets.bytes =
          Bytes.ofNatPadded (Bytes.ofBE reply.gB ^ a % Bytes.ofBE inner.dhPrime) 256 ∧
        Bytes.ofBE auth.key.octets.bytes =
          Bytes.ofBE reply.gB ^ a % Bytes.ofBE inner.dhPrime := by
  refine ⟨answered_iff hstate, fun request kx' e' hrun => ?_⟩
  obtain ⟨ok, bytes, hresponse, hbytes, hok⟩ := (handle_eq_ok_iff_of_reqDhParams hstate).mp hrun
  obtain rfl := Option.some.inj hbytes
  obtain ⟨inner, e₁, v, reply, auth, hoffers, -, hsuits, hrequest, hcarries, hpending, hshares⟩ :=
    carriesHalf_of_onDhParamsOk hok
  exact ⟨ok, inner, v, reply, auth, hresponse, hoffers, hsuits.nonneg, hrequest, hcarries, hpending,
    hshares⟩

open SimulatedServer in
/-- On the two tapes the client comes to the secret of the simulated server. -/
theorem shared_secret_of_tapes : ∃ kx payload request kx' e e',
    kx.state = .reqDhParams ∧
    handle ⟨0, 0⟩ payload (kx, e) = (.ok (some request), kx', e') ∧
    ∃ a v reply auth, ofBoxedBytes HandshakeRequest request = .ok (.setClientDhParams v) ∧
      Hides ClientDhInnerData kx v.encryptedData reply ∧ kx'.pending = some auth ∧
      Bytes.ofBE auth.key.octets.bytes = Bytes.ofBE reply.gB ^ a % dhPrime := by
  obtain ⟨_, _, nonce, serverNonce, -, -, hchallenge⟩ :=
    exists_opening [publicKey] {} clientTape serverTape ⟨0, 0⟩
  rw [sentChallenge_eq (by decide) (by decide)] at hchallenge
  obtain ⟨_, newNonce, -, hfactors⟩ := exists_factors ⟨0, 0⟩ (List.mem_singleton_self publicKey)
    (fun k hk _ => List.mem_singleton.mp hk) hchallenge factorize_clientTape (by decide)
  obtain ⟨payload, _, a, ha, -, hparams⟩ := respond_factors (s := { nonce, serverNonce })
    (f := serverTape.skip 16) ⟨0, 0⟩ (by simp) hfactors
  have hA := inRange_serverTape
  rw [← ha] at hA
  rw [sentParams_eq ⟨0, 0⟩ (by simp) (by simp), sentDigest_eq (by simp)] at hparams
  have hB := inRange_clientTape
  rw [← exponentLength] at hB
  obtain ⟨request, e', auth, hhandle, -⟩ := exists_half [publicKey] ⟨0, 0⟩ ⟨rfl, rfl⟩ hparams
    isProbablePrime_clientTape hA hB
  have hstate : (factored [publicKey] nonce serverNonce newNonce).state = .reqDhParams := rfl
  obtain ⟨ok, inner, v, reply, auth', hresponse, hoffers, -, hrequest, hcarries, hpending,
    hshares⟩ := (shared_secret hstate).2 _ _ _ hhandle
  -- what the client has found is what the server has hidden
  have hhidden : Hides ServerDhInnerData (factored [publicKey] nonce serverNonce newNonce)
    ok.encryptedAnswer _ := hides_of_bringsParams hparams hresponse
  have hinner := hhidden.unique hoffers.hidden
  rw [← hinner, gA_paramsFor, g_paramsFor, dhPrime_paramsFor] at hshares
  obtain ⟨-, hkey⟩ := hshares a rfl
  exact ⟨_, payload, request, _, _, e', hstate, hhandle, a, v, reply, auth', hrequest,
    hcarries.hidden, hpending, hkey⟩

end KeyExchange

end Mtproto
