import Mathlib.Tactic.Common
import Mtproto.Exchange.Dialogue
import Mtproto.Proofs.Server

/-!
# Client and server agree on a key

A run of the whole key exchange: `KeyExchange` on one side, `SimulatedServer` on the other, each
with a tape of its own.  The client trusts the server's key, and the server does not misbehave.

Three things may still keep them from agreeing, and all of them are on the tapes: a search may look
at more candidates than the tape has patience for, the factorization may not find the factors, and
an exponent may lead to a value that the range check refuses.  Where none of them happens no step
fails, and both sides end up with the same authorization key, the same first salt and the same
offset of the clock.

* `exists_opening`, `exists_factors`, `exists_half`: what the client sends, and what it does with
  each answer.  They are `onResPq_eq_ok_iff` and `onDhParamsOk_eq_ok_iff` read backwards, which is
  how a run is built; the server's side is `respond_opening`, `respond_factors` and `respond_half`.
* `exists_conversation`: the three rounds, one after the other.
* `agree_of_draws`: the statement for `Dialogue.run`.
* `clientTape` and `serverTape`: two tapes on which it all happens.
-/

namespace Mtproto

open Wire

/-! ## 1. The client's answers -/

namespace KeyExchange

open SimulatedServer in
/-- The key of the server is found by its fingerprint. -/
theorem trustedKey_publicKey {kx : KeyExchange} (hmem : publicKey ∈ kx.keys)
    (hunique : ∀ k ∈ kx.keys, k.fingerprint = publicKey.fingerprint → k = publicKey) :
    kx.trustedKey [publicKey.fingerprint] = some publicKey := by
  cases hfind : kx.trustedKey [publicKey.fingerprint] with
  | none =>
    have := List.find?_eq_none.mp hfind publicKey hmem
    simp at this
  | some k =>
    have hprint : k.fingerprint = publicKey.fingerprint := by
      have := List.find?_some hfind
      simpa using this
    rw [hunique k (List.mem_of_find?_eq_some hfind) hprint]

theorem le_maxBlobLength {data : Bytes} {n : Nat} (h : data.length ≤ n) (hn : n ≤ 200) :
    data.length ≤ maxBlobLength :=
  le_trans h (le_trans hn (by decide))

/-- What is encrypted to the server is short: words of eight bytes at most, and nonces. -/
theorem codes_pqInnerData {v : PqInnerData} (hpq : v.pq.length ≤ 8) (hp : v.p.length ≤ 8)
    (hq : v.q.length ≤ 8) :
    ∃ bs, bs.length ≤ 200 ∧ Codes (fun w => Bare.write w v) Bare.read bs v := by
  refine ⟨_, ?_, PqInnerData.codes (le_maxBlobLength hpq (by decide))
    (le_maxBlobLength hp (by decide)) (le_maxBlobLength hq (by decide))⟩
  have hpqBlob := length_blobBytes_le v.pq
  have hpBlob := length_blobBytes_le v.p
  have hqBlob := length_blobBytes_le v.q
  simp only [List.length_append, Octets.length_bytes]
  omega

/-- So is the half that the client sends. -/
theorem codes_clientDhInnerData {v : ClientDhInnerData} (hgB : v.gB.length ≤ 66) :
    ∃ bs, bs.length ≤ 200 ∧ Codes (fun w => Bare.write w v) Bare.read bs v := by
  refine ⟨_, ?_, ClientDhInnerData.codes (le_maxBlobLength hgB (by decide))⟩
  have hgBBlob := length_blobBytes_le v.gB
  simp only [List.length_append, Octets.length_bytes, Bytes.length_le]
  omega

open SimulatedServer in
/-- The challenge is answered with factors, and what only the server may know in a block that it can
read. -/
theorem onResPq_challengeFor (kx : KeyExchange) (serverNonce : Nonce) {e e₁ : Entropy}
    {factors : UInt64 × UInt64}
    (hstate : kx.state = .reqPq) (htrusted : kx.trustedKey [publicKey.fingerprint] = some publicKey)
    (hfactors : Number.factorize (factorP * factorQ) e = (.ok factors, e₁)) (hne : factors.1 ≠ 1) :
    ∃ bytes newNonce, onResPq (challengeFor kx.nonce serverNonce) (kx, e) = (.ok bytes,
        { kx with serverNonce, newNonce, state := .reqDhParams },
        (e₁.skip 32).skip rsaDataLength) ∧
      BringsFactors kx.nonce serverNonce newNonce factors bytes := by
  have hp : (Bytes.ofNat factors.1.toNat).length ≤ 8 :=
    Bytes.length_ofNat_le (by decide) (UInt64.toNat_lt _)
  have hq : (Bytes.ofNat factors.2.toNat).length ≤ 8 :=
    Bytes.length_ofNat_le (by decide) (UInt64.toNat_lt _)
  have hpq : (Bytes.le 8 (factorP * factorQ).toNat).reverse.length = 8 := by simp
  obtain ⟨bs, hbs, hcodes⟩ := codes_pqInnerData (v := PqInnerData.mk
    (Bytes.le 8 (factorP * factorQ).toNat).reverse (Bytes.ofNat factors.1.toNat)
    (Bytes.ofNat factors.2.toNat) kx.nonce serverNonce ⟨e₁.peek 32, e₁.length_peek 32⟩) hpq.le hp hq
  obtain ⟨body, hbody, hlength, hreads⟩ := boxed_readBack hcodes
  have hfits : 20 + body.length ≤ rsaDataLength := by
    rw [hlength]
    exact le_trans (by omega : 20 + (4 + bs.length) ≤ 224) (by decide)
  have hblock : ((sha1 body).bytes ++ (body ++
      ((e₁.skip 32).peek rsaDataLength).drop (20 + body.length))).length = rsaDataLength := by
    simp only [List.length_append, Octets.length_bytes, List.length_drop, Entropy.length_peek]
    omega
  have hencrypt := encrypt_publicKey hblock
  have hdata : (0 :: ((sha1 body).bytes ++ (body ++
      ((e₁.skip 32).peek rsaDataLength).drop (20 + body.length)))).length ≤ maxBlobLength := by
    rw [List.length_cons, hblock]
    decide
  have hrequest := ReqDhParams.codes (v := ReqDhParams.mk kx.nonce serverNonce
    (Bytes.ofNat factors.1.toNat) (Bytes.ofNat factors.2.toNat) publicKey.fingerprint _)
    (le_maxBlobLength hp (by decide)) (le_maxBlobLength hq (by decide)) hdata
  obtain ⟨bytes, hbytes, hback⟩ :=
    request_readBack hrequest (readFields_reqDhParams hrequest.reads)
  refine ⟨bytes, _, ?_, _, _, body, _, hback, ⟨rfl, rfl⟩, rfl, hreads, rfl, rfl, rfl⟩
  refine onResPq_eq_ok_iff.mpr ⟨rfl, publicKey, htrusted, _, challenge_pq, _, e₁, hfactors,
    hne, body, hbody, _, rsaBlock_eq_ok_iff.mpr ⟨hfits, rfl⟩, _, hencrypt, hbytes, ?_, rfl⟩
  rw [hstate]
  rfl

section Group

open SimulatedServer

/-- Where both exponents lead: the same power, whoever was first. -/
def shared (a b : Nat) : Nat := generator ^ (a * b) % dhPrime

/-- A power of the generator is taken by squaring, and is the power. -/
theorem powMod_generator (exponent : Nat) :
    Number.powMod generator exponent dhPrime = generator ^ exponent % dhPrime :=
  Number.powMod_eq _ _ _

theorem powMod_left (a b : Nat) :
    Number.powMod (generator ^ a % dhPrime) b dhPrime = shared a b := by
  rw [Number.powMod_eq, ← Nat.pow_mod, ← pow_mul, shared]

/-- Both sides raise the other's half to their own exponent, and come to one number. -/
theorem powMod_right (a b : Nat) :
    Number.powMod (generator ^ b % dhPrime) a dhPrime = shared a b := by
  rw [powMod_left, shared, shared, mul_comm]

/-- The server's generator passes the check on its range. -/
theorem inRange_generator : InRange generator dhPrime :=
  ⟨by decide, Nat.lt_sub_of_add_lt (lt_trans (by decide) lt_dhPrime)⟩

/-- The shared secret fits into a key. -/
theorem keyOf_shared (a b : Nat) : ∃ key, keyOf (shared a b) = .ok key := by
  have hlt : shared a b < 256 ^ 256 :=
    lt_trans (Nat.mod_lt _ prime_dhPrime.pos)
      (lt_trans dhPrime_lt (Nat.pow_lt_pow_right (by decide) (by decide)))
  exact ⟨⟨⟨_, Bytes.length_ofNatPadded (by decide) hlt⟩⟩, keyOf_eq_ok_iff.mpr rfl⟩

variable (s : SimulatedServer) (now : Instant) (a : Nat) (exponent : Bytes)

theorem g_paramsFor : (s.paramsFor now a).g.toInt.toNat = generator := by
  have h : (Int32.ofNat generator).toInt.toNat = generator := by decide
  exact h

theorem dhPrime_paramsFor : Bytes.ofBE (s.paramsFor now a).dhPrime = dhPrime :=
  Bytes.ofBE_ofNat dhPrime

theorem gA_paramsFor : Bytes.ofBE (s.paramsFor now a).gA = generator ^ a % dhPrime :=
  (Bytes.ofBE_ofNat _).trans (powMod_generator a)

/-- The half that the client sends, computed from what the server has sent. -/
theorem half_paramsFor :
    half (s.paramsFor now a) exponent = generator ^ Bytes.ofBE exponent % dhPrime := by
  rw [half, g_paramsFor, dhPrime_paramsFor, powMod_generator]

/-- The number that both sides have, as the client comes to it. -/
theorem secret_paramsFor :
    secret (s.paramsFor now a) exponent = shared a (Bytes.ofBE exponent) := by
  rw [secret, gA_paramsFor, dhPrime_paramsFor, powMod_left]

end Group

open SimulatedServer in
/-- The parameters are answered with the client's half, in a block that the server can read. -/
theorem onDhParamsOk_paramsFor (kx : KeyExchange) (now : Instant) {e e₁ : Entropy}
    {s : SimulatedServer} {clock : Instant} {a : Nat} {b : Bool} {reply : Bytes}
    (hstate : kx.state = .reqDhParams)
    (hs : s.nonce = kx.nonce ∧ s.serverNonce = kx.serverNonce)
    (hreply : BringsParams kx.nonce kx.serverNonce kx.newNonce sha1 (s.paramsFor clock a) reply)
    (hprime : Number.isProbablePrime dhPrime 32 e = (.ok b, e₁))
    (hA : InRange (generator ^ a % dhPrime) dhPrime)
    (hB : InRange (generator ^ Bytes.ofBE (e₁.peek exponentLength) % dhPrime) dhPrime) :
    ∃ bytes e₂ auth ok,
      ofBoxedBytes HandshakeResponse reply = .ok (.serverDhParamsOk ok) ∧
      onDhParamsOk now ok (kx, e) =
        (.ok bytes, { kx with pending := some auth, state := .setClientDhParams }, e₂) ∧
      keyOf (shared a (Bytes.ofBE (e₁.peek exponentLength))) = .ok auth.key ∧
      auth.serverSalt = firstSalt kx.newNonce kx.serverNonce ∧
      BringsHalf kx.nonce kx.serverNonce kx.newNonce
        (generator ^ Bytes.ofBE (e₁.peek exponentLength) % dhPrime) bytes := by
  obtain ⟨encryptedAnswer, answer, pad, hback, hdecrypt, hpad, hanswer⟩ := hreply
  obtain rfl := Number.isProbablePrime_of_prime prime_dhPrime hprime
  obtain ⟨key, hkey⟩ := keyOf_shared a (Bytes.ofBE (e₁.peek exponentLength))
  have hgB : (Bytes.ofNat
      (generator ^ Bytes.ofBE (e₁.peek exponentLength) % dhPrime)).length ≤ 66 :=
    length_ofNat_group (Nat.mod_lt _ prime_dhPrime.pos).le
  obtain ⟨bs, hbs, hcodes⟩ :=
    codes_clientDhInnerData (v := ⟨kx.nonce, kx.serverNonce, 0, Bytes.ofNat _⟩) hgB
  obtain ⟨body, hbody, hlength, hreads⟩ := boxed_readBack hcodes
  have hpad' : (((e₁.skip exponentLength).skip 8).peek (Ige.hashPadding body.length)).length =
    Ige.hashPadding body.length := Entropy.length_peek _ _
  obtain ⟨data, hdata, hopen, hdataLength, -⟩ := Ige.exists_hashed
    (exchangeCipherKey kx.serverNonce kx.newNonce).key
    (exchangeCipherKey kx.serverNonce kx.newNonce).iv (sha1 body) hpad'
  have hfits : data.length ≤ maxBlobLength := by
    have hmax : maxBlobLength = 16777215 := by decide
    omega
  have hrequest := SetClientDhParams.codes (v := ⟨kx.nonce, kx.serverNonce, data⟩) hfits
  obtain ⟨bytes, hbytes, hrequest⟩ :=
    request_readBack hrequest (readFields_setClientDhParams hrequest.reads)
  have hrun : onDhParamsOk now ⟨kx.nonce, kx.serverNonce, encryptedAnswer⟩ (kx, e) = (.ok bytes,
      { kx with
        pending := some {
          key, serverSalt := firstSalt kx.newNonce kx.serverNonce
          sessionId := UInt64.ofNat (Bytes.ofLE ((e₁.skip exponentLength).peek 8))
          timeOffset := Int64.ofInt ((s.paramsFor clock a).serverTime.toInt - now.seconds) }
        state := .setClientDhParams },
      ((e₁.skip exponentLength).skip 8).skip (Ige.hashPadding body.length)) := by
    refine onDhParamsOk_eq_ok_iff.mpr ⟨⟨rfl, rfl⟩, _, _, hdecrypt, s.paramsFor clock a,
      answerOf_eq_ok_iff.mpr ⟨answer, pad, rfl, hpad, rfl, hanswer⟩, hs, e₁, ?_⟩
    have hg : 0 ≤ Int32.ofNat generator := by decide
    rw [half_paramsFor, secret_paramsFor, dhPrime_paramsFor, gA_paramsFor, g_paramsFor]
    refine ⟨hprime, hg, inRange_generator, hA, hB, key, hkey, body, hbody, data, _, ?_,
      hbytes, ?_, rfl⟩
    · rw [Ige.run_encryptWithHash, hdata]
    · rw [hstate]
      rfl
  exact ⟨bytes, _, _, _, hback, hrun, hkey, rfl, _, _, body, _, hrequest, ⟨rfl, rfl⟩, hopen,
    hreads, ⟨rfl, rfl⟩, Bytes.ofBE_ofNat _⟩

/-- Where a response is accepted, handling it gives the same answer. -/
theorem handle_of_dispatch (now : Instant) {kx : KeyExchange} {e : Entropy}
    {t : KeyExchange × Entropy} {payload : Bytes} {next : Option Bytes}
    (hterminal : kx.state.isTerminal = false) (hinit : kx.state ≠ .init)
    (h : dispatch now payload (kx, e) = (.ok next, t)) :
    handle now payload (kx, e) = (.ok next, t) := by
  rw [run_handle e now payload hterminal hinit, h]

/-! ## 2. The conversation

Three moves of the two sides, each from where the one before has left them. -/

section Moves

open SimulatedServer

variable {keys : List RsaKey} {s : SimulatedServer} {e e₁ f : Entropy}
  {nonce serverNonce : Nonce} {newNonce : NewNonce} {reply : Bytes}

/-- The client once it has opened the exchange. -/
def opened (keys : List RsaKey) (nonce : Nonce) : KeyExchange :=
  { new keys with nonce, state := .reqPq }

/-- The client once it has sent factors. -/
def factored (keys : List RsaKey) (nonce serverNonce : Nonce) (newNonce : NewNonce) :
    KeyExchange :=
  { opened keys nonce with serverNonce, newNonce, state := .reqDhParams }

/-- The client once it has sent its half. -/
def halved (keys : List RsaKey) (nonce serverNonce : Nonce) (newNonce : NewNonce)
    (auth : Authorization) : KeyExchange :=
  { factored keys nonce serverNonce newNonce with
    pending := some auth, state := .setClientDhParams }

/-- The opening leads to a challenge. -/
theorem exists_opening (keys : List RsaKey) (s : SimulatedServer) (e f : Entropy)
    (clock : Instant) : ∃ request reply nonce serverNonce,
      start (new keys, e) = (.ok request, opened keys nonce, e.skip 16) ∧
      respond clock request (s, f) = (.ok reply, { s with nonce, serverNonce }, f.skip 16) ∧
      ofBoxedBytes HandshakeResponse reply = .ok (.resPq (s.sentChallenge nonce serverNonce)) := by
  have hopening := ReqPq.codes ⟨⟨e.peek 16, e.length_peek 16⟩⟩
  obtain ⟨request, hrequest, hback⟩ :=
    request_readBack hopening (readFields_reqPq hopening.reads)
  obtain ⟨reply, hrespond, hchallenge⟩ := respond_opening (s := s) (f := f) clock hback
  exact ⟨request, reply, _, _, start_eq_ok_iff.mpr ⟨rfl, hrequest, rfl⟩, hrespond, hchallenge⟩

/-- The right challenge leads to factors. -/
theorem exists_factors {factors : UInt64 × UInt64} (now : Instant) (hmem : publicKey ∈ keys)
    (hunique : ∀ k ∈ keys, k.fingerprint = publicKey.fingerprint → k = publicKey)
    (hreply : ofBoxedBytes HandshakeResponse reply = .ok (.resPq (challengeFor nonce serverNonce)))
    (hfactors : Number.factorize (factorP * factorQ) e = (.ok factors, e₁)) (hne : factors.1 ≠ 1) :
    ∃ request newNonce, handle now reply (opened keys nonce, e) =
        (.ok (some request), factored keys nonce serverNonce newNonce,
          (e₁.skip 32).skip rsaDataLength) ∧
      BringsFactors nonce serverNonce newNonce factors request := by
  obtain ⟨request, newNonce, hres, hbrings⟩ := onResPq_challengeFor (opened keys nonce) serverNonce
    rfl (trustedKey_publicKey hmem hunique) hfactors hne
  exact ⟨request, newNonce, handle_of_dispatch now rfl ExchangeState.noConfusion
    (dispatch_eq_ok_iff.mpr (Or.inl ⟨rfl, _, request, hreply, rfl, hres⟩)), hbrings⟩

/-- The right parameters lead to the client's half. -/
theorem exists_half (keys : List RsaKey) {clock : Instant} {a : Nat} {b : Bool} (now : Instant)
    (hs : s.nonce = nonce ∧ s.serverNonce = serverNonce)
    (hreply : BringsParams nonce serverNonce newNonce sha1 (s.paramsFor clock a) reply)
    (hprime : Number.isProbablePrime dhPrime 32 e = (.ok b, e₁))
    (hA : InRange (generator ^ a % dhPrime) dhPrime)
    (hB : InRange (generator ^ Bytes.ofBE (e₁.peek exponentLength) % dhPrime) dhPrime) :
    ∃ request e₂ auth, handle now reply (factored keys nonce serverNonce newNonce, e) =
        (.ok (some request), halved keys nonce serverNonce newNonce auth, e₂) ∧
      keyOf (shared a (Bytes.ofBE (e₁.peek exponentLength))) = .ok auth.key ∧
      auth.serverSalt = firstSalt newNonce serverNonce ∧
      BringsHalf nonce serverNonce newNonce
        (generator ^ Bytes.ofBE (e₁.peek exponentLength) % dhPrime) request := by
  obtain ⟨request, e₂, auth, ok, hback, hok, hkey, hsalt, hbrings⟩ :=
    onDhParamsOk_paramsFor (factored keys nonce serverNonce newNonce) now rfl hs hreply hprime hA hB
  exact ⟨request, e₂, auth, handle_of_dispatch now rfl ExchangeState.noConfusion
    (dispatch_eq_ok_iff.mpr (Or.inr (Or.inl ⟨rfl, ok, request, hback, rfl, hok⟩))), hkey, hsalt,
    hbrings⟩

end Moves

end KeyExchange

namespace Dialogue

open KeyExchange SimulatedServer

/-- Both sides have come to the same key, and start with the same salt. -/
def Agree (d : Dialogue) : Prop :=
  d.client.1.state = .done ∧ ∃ auth, d.client.1.result = .ok auth ∧
    d.server.1.authKey = some auth.key ∧ auth.serverSalt = d.server.1.expectedSalt

/-- **Three rounds lead to the same key.** -/
theorem exists_conversation {keys : List RsaKey} {s : SimulatedServer} {e e₁ e₂ f : Entropy}
    {b : Bool} (hs : s.tamper = .none) (hmem : publicKey ∈ keys)
    (hunique : ∀ k ∈ keys, k.fingerprint = publicKey.fingerprint → k = publicKey)
    (hfactors : Number.factorize (factorP * factorQ) (e.skip 16) = (.ok (factorP, factorQ), e₁))
    (hprime : Number.isProbablePrime dhPrime 32 (e₁.skip 287) = (.ok b, e₂))
    (hA : InRange (generator ^ Bytes.ofBE ((f.skip 16).peek 256) % dhPrime) dhPrime)
    (hB : InRange (generator ^ Bytes.ofBE (e₂.peek 256) % dhPrime) dhPrime)
    (c₁ c₂ c₃ n₁ n₂ n₃ : Instant) :
    ∃ q₁ q₂ q₃ r₁ r₂ r₃ x₁ x₂ x₃ x₄ y₁ y₂ y₃,
      start (new keys, e) = (.ok q₁, x₁) ∧
      respond c₁ q₁ (s, f) = (.ok r₁, y₁) ∧ handle n₁ r₁ x₁ = (.ok (some q₂), x₂) ∧
      respond c₂ q₂ y₁ = (.ok r₂, y₂) ∧ handle n₂ r₂ x₂ = (.ok (some q₃), x₃) ∧
      respond c₃ q₃ y₂ = (.ok r₃, y₃) ∧ handle n₃ r₃ x₃ = (.ok none, x₄) ∧
      x₂.1.state = .reqDhParams ∧ x₃.1.state = .setClientDhParams ∧ Agree ⟨x₄, y₃⟩ := by
  -- The opening and the challenge.
  obtain ⟨q₁, r₁, nonce, serverNonce, hstart, hrespond₁, hchallenge⟩ :=
    exists_opening keys s e f c₁
  rw [sentChallenge_eq (by simp [hs]) (by simp [hs])] at hchallenge
  -- The factors and the parameters.
  obtain ⟨q₂, newNonce, hhandle₁, hbrings₂⟩ :=
    exists_factors n₁ hmem hunique hchallenge hfactors (by decide)
  obtain ⟨r₂, f₂, a, ha, hrespond₂, hparams⟩ := respond_factors (s := { s with nonce, serverNonce })
    (f := f.skip 16) c₂ (by simp [hs]) hbrings₂
  rw [← ha] at hA
  rw [sentParams_eq c₂ (by simp [hs]) (by simp [hs]), sentDigest_eq (by simp [hs])] at hparams
  -- The client's half and the confirmation.
  obtain ⟨q₃, e₃, auth, hhandle₂, hkey, hsalt, hbrings₃⟩ :=
    exists_half keys (s := { s with nonce, serverNonce }) n₂ ⟨rfl, rfl⟩ hparams hprime hA hB
  rw [← powMod_right] at hkey
  obtain ⟨r₃, hrespond₃, hconfirmed⟩ := respond_half (f := f₂) c₃
    (s := { s with nonce, serverNonce, newNonce, exponent := a }) hbrings₃ hkey
  simp only [verdict, sentHash, hs, reduceCtorEq, if_false] at hconfirmed
  have hconfirm : onDhGenOk ⟨nonce, serverNonce, newNonceHash newNonce 1 auth.key.auxHash⟩
      (halved keys nonce serverNonce newNonce auth, e₃) =
      (.ok (), { halved keys nonce serverNonce newNonce auth with state := .done }, e₃) :=
    onDhGenOk_eq_ok_iff.mpr ⟨⟨rfl, rfl⟩, auth, rfl, rfl, rfl, rfl⟩
  have hhandle₃ := handle_of_dispatch n₃ rfl ExchangeState.noConfusion
    (dispatch_eq_ok_iff.mpr (Or.inr (Or.inr ⟨rfl, _, hconfirmed, rfl, hconfirm⟩)))
  exact ⟨q₁, q₂, q₃, r₁, r₂, r₃, _, _, _, _, _, _, _, hstart, hrespond₁, hhandle₁, hrespond₂,
    hhandle₂, hrespond₃, hhandle₃, rfl, rfl, rfl, auth, rfl, rfl, hsalt⟩

end Dialogue

/-! ## 3. Two tapes

On these nothing goes wrong. -/

section Tapes

open KeyExchange SimulatedServer Number

/-- A client's tape: the constant of its first walk is a factor of the challenge, and its exponent
is one. -/
def clientTape : Entropy :=
  .sparse [(16, 0x60), (17, 0x79), (18, 0x3C), (19, 0x10), (20, 0x03), (2750, 1)]

/-- A server's tape: its exponent is one. -/
def serverTape : Entropy :=
  .sparse [(271, 1)]

theorem start_clientTape : Walk.start (factorP * factorQ) (clientTape.skip 16) =
    (.ok ⟨factorP, 0, 0, 1, 0⟩, clientTape.skip 32) := by
  have hconstant : Draw.wordCandidate (factorP * factorQ - 1) (clientTape.skip 16) =
      (.ok (some (factorP - 1)), clientTape.skip 24) := rfl
  have hpoint : Draw.wordCandidate (factorP * factorQ - 0) (clientTape.skip 24) =
      (.ok (some 0), clientTape.skip 32) := rfl
  have hpatience : (clientTape.skip 16).patience ≠ 0 := by decide
  have hpatience' : (clientTape.skip 24).patience ≠ 0 := by decide
  rw [Walk.start, Draw.wordBetween, Draw.wordBetween]
  rw [bind_assoc, run_bind_ok (Draw.firstAccepted_of_candidate hpatience hconstant), pure_bind,
    bind_assoc, run_bind_ok (Draw.firstAccepted_of_candidate hpatience' hpoint)]
  rfl

/-- The first step of the walk finds a factor. -/
theorem rho_factorP (budget : Nat) (e : Entropy) :
    rho (factorP * factorQ) (budget + 1) ⟨factorP, 0, 0, 1, 0⟩ e = (.ok (some factorP), e) := by
  have hcommon : (Walk.advance (factorP * factorQ) ⟨factorP, 0, 0, 1, 0⟩).common
      (factorP * factorQ) = factorP := by
    have hdistance : distance (Walk.advance (factorP * factorQ) ⟨factorP, 0, 0, 1, 0⟩).point 0 =
        factorP := by decide
    have hzero : factorP % (factorP * factorQ) = factorP := by decide
    have hrest : factorP * factorQ % factorP = 0 := by decide
    rw [Walk.common]
    refine (congrArg (Number.gcd · _) hdistance).trans ?_
    rw [Number.gcd, dif_neg (by decide), Number.gcd, hzero, dif_neg (by decide), Number.gcd, hrest,
      dif_pos rfl]
  rw [rho]
  simp only [hcommon]
  rw [if_neg (by decide), if_pos (by decide)]
  rfl

/-- On this tape the first walk finds a factor, after two draws of a word. -/
theorem factorize_clientTape : factorize (factorP * factorQ) (clientTape.skip 16) =
    (.ok (factorP, factorQ), clientTape.skip 32) := by
  have hbudget : rhoBudget 0 = 262143 + 1 := by decide
  rw [factorize, if_neg (by decide), if_neg (by decide), rhoRounds, factorizeRounds,
    hbudget, run_bind_ok start_clientTape, run_bind_ok (rho_factorP _ _)]
  rfl

theorem bitLength_two_pow_sub {n : Nat} (h : 3 ≤ n) : Draw.bitLength (2 ^ n - 1 - 1 - 2) = n := by
  obtain ⟨k, rfl⟩ := Nat.exists_eq_add_of_le' (Nat.one_le_of_lt h)
  have hfour : 2 ^ 2 ≤ 2 ^ k := Nat.pow_le_pow_right (by decide) (Nat.le_of_succ_le_succ h)
  refine Draw.bitLength_eq ?_ ?_
  · rw [pow_succ]
    omega
  · omega

theorem bitLength_range : Draw.bitLength (dhPrime - 1 - 2) = 521 := by
  rw [dhPrime_eq]
  exact bitLength_two_pow_sub (by decide)

/-- On this tape every base is drawn at the first attempt, since its bytes are blank there. -/
theorem isProbablePrime_clientTape :
    isProbablePrime dhPrime 32 ((clientTape.skip 32).skip 287) =
      (.ok true, clientTape.skip 2495) := by
  have htrial : trialDivision smallPrimes dhPrime = none := by
    have hsmall : ∀ p ∈ smallPrimes, p ≠ 1 ∧ p < 2 ^ 6 := by decide
    exact trialDivision_eq_none prime_dhPrime fun p hp =>
      ⟨(hsmall p hp).1, lt_trans (hsmall p hp).2 lt_dhPrime⟩
  have hlarge : 3 < dhPrime := lt_trans (by decide) lt_dhPrime
  have hwords : (Draw.bitLength (dhPrime - 1 - 2) + 31) / 32 = 16 + 1 := by
    rw [bitLength_range]
  have hblank : (clientTape.skip 319).Blank (32 * (4 * 16 + 4)) :=
    Entropy.blank_sparse (by decide)
  have hrounds := noWitness_of_blank prime_dhPrime hlarge hwords (by decide) 32 hblank
  unfold isProbablePrime
  simp only [htrial, if_neg (Nat.not_lt.mpr prime_dhPrime.two_le)]
  exact hrounds

theorem inRange_pow_one : InRange (generator ^ 1 % dhPrime) dhPrime := by
  have hlt : generator < dhPrime := lt_of_lt_of_le inRange_generator.2 (Nat.sub_le _ _)
  rw [pow_one, Nat.mod_eq_of_lt hlt]
  exact inRange_generator

theorem inRange_serverTape :
    InRange (generator ^ Bytes.ofBE ((serverTape.skip 16).peek 256) % dhPrime) dhPrime := by
  have hblank : (serverTape.skip 16).Blank 255 := Entropy.blank_sparse (by decide)
  have hlast : (serverTape.skip 16).byte ((serverTape.skip 16).drawn + 255) = 1 := by decide
  rw [Entropy.ofBE_peek_of_blank hblank hlast]
  exact inRange_pow_one

/-- The half that is drawn from this tape passes the check on its range. -/
theorem inRange_clientTape :
    InRange (generator ^ Bytes.ofBE ((clientTape.skip 2495).peek 256) % dhPrime) dhPrime := by
  have hblank : (clientTape.skip 2495).Blank 255 := Entropy.blank_sparse (by decide)
  have hlast : (clientTape.skip 2495).byte ((clientTape.skip 2495).drawn + 255) = 1 := by decide
  rw [Entropy.ofBE_peek_of_blank hblank hlast]
  exact inRange_pow_one

end Tapes

/-! ## 4. Agreement -/

namespace Dialogue

open KeyExchange SimulatedServer

/-- Three rounds after the opening are the whole conversation. -/
theorem run_of_rounds {now : Instant} {d : Dialogue} {q₁ q₂ q₃ r₁ r₂ r₃ : Bytes}
    {x₁ x₂ x₃ x₄ : KeyExchange × Entropy} {y₁ y₂ y₃ : SimulatedServer × Entropy}
    (hstart : start d.client = (.ok q₁, x₁))
    (hr₁ : respond now q₁ d.server = (.ok r₁, y₁)) (hx₁ : handle now r₁ x₁ = (.ok (some q₂), x₂))
    (hr₂ : respond now q₂ y₁ = (.ok r₂, y₂)) (hx₂ : handle now r₂ x₂ = (.ok (some q₃), x₃))
    (hr₃ : respond now q₃ y₂ = (.ok r₃, y₃)) (hx₃ : handle now r₃ x₃ = (.ok none, x₄)) :
    run now d = .ok ([⟨q₁, .ok r₁, x₂.1.state⟩, ⟨q₂, .ok r₂, x₃.1.state⟩, ⟨q₃, .ok r₃, x₄.1.state⟩],
      ⟨x₄, y₃⟩) := by
  simp only [run, hstart, roundsFrom, hr₁, hx₁, hr₂, hx₂, hr₃, hx₃]
  rfl

/-- **The key exchange ends in agreement.**  For all tapes of a client that trusts the server's key
and of a server that does not misbehave: if the client's draws come to an end, its factorization
finds the factors, and the powers of the generator to both exponents are in range, then no step
fails, the client asks three times, and both sides end up with the same key and the same salt.
This is so for any readings of the two clocks, and where they are all the same, for the
conversation as it is run. -/
theorem agree_of_draws {keys : List RsaKey} {s : SimulatedServer} {e e₁ e₂ f : Entropy} {b : Bool}
    (hs : s.tamper = .none) (hmem : publicKey ∈ keys)
    (hunique : ∀ k ∈ keys, k.fingerprint = publicKey.fingerprint → k = publicKey)
    (hfactors : Number.factorize (factorP * factorQ) (e.skip 16) = (.ok (factorP, factorQ), e₁))
    (hprime : Number.isProbablePrime dhPrime 32 (e₁.skip 287) = (.ok b, e₂))
    (hA : InRange (generator ^ Bytes.ofBE ((f.skip 16).peek 256) % dhPrime) dhPrime)
    (hB : InRange (generator ^ Bytes.ofBE (e₂.peek 256) % dhPrime) dhPrime) :
    (∀ c₁ c₂ c₃ n₁ n₂ n₃ : Instant, ∃ q₁ q₂ q₃ r₁ r₂ r₃ x₁ x₂ x₃ x₄ y₁ y₂ y₃,
      start (new keys, e) = (.ok q₁, x₁) ∧
      respond c₁ q₁ (s, f) = (.ok r₁, y₁) ∧ handle n₁ r₁ x₁ = (.ok (some q₂), x₂) ∧
      respond c₂ q₂ y₁ = (.ok r₂, y₂) ∧ handle n₂ r₂ x₂ = (.ok (some q₃), x₃) ∧
      respond c₃ q₃ y₂ = (.ok r₃, y₃) ∧ handle n₃ r₃ x₃ = (.ok none, x₄) ∧
      x₂.1.state = .reqDhParams ∧ x₃.1.state = .setClientDhParams ∧ Agree ⟨x₄, y₃⟩) ∧
    ∀ now, ∃ rounds d, run now ⟨(new keys, e), (s, f)⟩ = .ok (rounds, d) ∧
      rounds.map (·.state) = [.reqDhParams, .setClientDhParams, .done] ∧
      (∀ r ∈ rounds, ∃ reply, r.reply = .ok reply) ∧ Agree d := by
  have hrounds := exists_conversation hs hmem hunique hfactors hprime hA hB
  refine ⟨hrounds, fun now => ?_⟩
  obtain ⟨q₁, q₂, q₃, r₁, r₂, r₃, x₁, x₂, x₃, x₄, y₁, y₂, y₃, hstart, hr₁, hx₁, hr₂, hx₂, hr₃, hx₃,
    hstate₂, hstate₃, hagree⟩ := hrounds now now now now now now
  refine ⟨_, _, run_of_rounds hstart hr₁ hx₁ hr₂ hx₂ hr₃ hx₃, ?_, ?_, hagree⟩
  · rw [List.map_cons, List.map_cons, List.map_cons, List.map_nil, hstate₂, hstate₃, hagree.1]
  · intro r hr
    simp only [List.mem_cons, List.not_mem_nil, or_false] at hr
    rcases hr with rfl | rfl | rfl
    · exact ⟨r₁, rfl⟩
    · exact ⟨r₂, rfl⟩
    · exact ⟨r₃, rfl⟩

/-- On the two tapes, all of this is so. -/
theorem agree_of_tapes : ∃ rounds d,
    run ⟨0, 0⟩ ⟨(new [publicKey], clientTape), ({}, serverTape)⟩ = .ok (rounds, d) ∧
      rounds.map (·.state) = [.reqDhParams, .setClientDhParams, .done] ∧ Agree d := by
  obtain ⟨-, hrun⟩ := agree_of_draws (s := {}) rfl (List.mem_singleton_self publicKey)
    (fun k hk _ => List.mem_singleton.mp hk) factorize_clientTape isProbablePrime_clientTape
    inRange_serverTape inRange_clientTape
  obtain ⟨rounds, d, hrun, hstates, -, hagree⟩ := hrun ⟨0, 0⟩
  exact ⟨rounds, d, hrun, hstates, hagree⟩

end Dialogue

end Mtproto
