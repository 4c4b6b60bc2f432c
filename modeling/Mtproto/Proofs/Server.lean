import Mathlib.Tactic.Common
import Mathlib.Tactic.NormNum
import Mtproto.Exchange.Server
import Mtproto.Proofs.KeyExchange
import Mtproto.Proofs.Padding
import Mtproto.Proofs.Primality

/-!
# What the simulated server answers

`SimulatedServer.respond` answers each of the three requests of a client that plays by the rules,
unless it is the second one with other factors.  What it answers depends on how it misbehaves, in
one place at most (`sentChallenge`, `sentParams`, `sentDigest`, `sentHash`, `verdict`), and is read
back as it was chosen; what is encrypted in it can be decrypted by whoever knows the two secret
nonces.

The public exponent of the server is one, and a block of 255 bytes is below its modulus.  So
encrypting a block to the server puts a zero byte in front of it (`encrypt_publicKey`), and the
server reads what the client has written without a private key.

* `respond_opening`, `respond_factors`, `respond_half`: the three answers, for every tape.
* `BringsFactors`, `BringsParams`, `BringsHalf`: what is in the messages, for whoever reads them.
-/

namespace Mtproto

open Wire

namespace SimulatedServer

/-! ## 1. The public key -/

/-! Numbers with one bit set, against the numbers that `k` bytes hold. -/

theorem pow_256_lt_succ_shift {k n : Nat} (h : 8 * k ≤ n) : 256 ^ k < (1 <<< n) + 1 := by
  rw [Bytes.pow_256_eq, Nat.one_shiftLeft]
  exact Nat.lt_succ_of_le (Nat.pow_le_pow_right (by decide) h)

theorem pred_shift_lt {k n : Nat} (h : n ≤ 8 * k) : (1 <<< n) - 1 < 256 ^ k := by
  have hle : 2 ^ n ≤ 2 ^ (8 * k) := Nat.pow_le_pow_right (by decide) h
  have hpos := Nat.two_pow_pos n
  rw [Bytes.pow_256_eq, Nat.one_shiftLeft]
  omega

theorem pred_shift_eq (n : Nat) : (1 <<< n) - 1 = 2 ^ n - 1 := by
  rw [Nat.one_shiftLeft]

/-- The exponent of the server's key is one, so a block is encrypted to itself. -/
theorem encrypt_publicKey {block : Bytes} (h : block.length = KeyExchange.rsaDataLength) :
    publicKey.encrypt block = .ok (0 :: block) := by
  have hlt : Bytes.ofBE block < publicKey.modulus := by
    have hblock := Bytes.ofBE_lt block
    rw [h] at hblock
    exact lt_trans hblock (pow_256_lt_succ_shift (by decide))
  have hmodulus : publicKey.modulus ≠ 0 := by omega
  have hpow : Bytes.ofBE block ^ publicKey.exponent % publicKey.modulus = Bytes.ofBE block :=
    (congrArg (· % publicKey.modulus) (pow_one _)).trans (Nat.mod_eq_of_lt hlt)
  have hle : block.length ≤ 256 := by
    rw [h]
    decide
  have hpadded := Bytes.ofNatPadded_ofBE (by decide) hle
  rw [h] at hpadded
  refine RsaKey.encrypt_eq_ok_iff.mpr ⟨hmodulus, ?_⟩
  rw [hpow, hpadded]
  rfl

/-! ## 2. Constants -/

theorem dhPrime_eq : dhPrime = 2 ^ 521 - 1 :=
  pred_shift_eq 521

/-- The server's modulus is a prime, so an honest client accepts it. -/
theorem prime_dhPrime : dhPrime.Prime := by
  rw [dhPrime_eq]
  exact Number.prime_two_pow_sub_one

theorem dhPrime_lt : dhPrime < 256 ^ 66 :=
  pred_shift_lt (by decide)

theorem two_pow_lt_pred {k n : Nat} (hk : 0 < k) (h : k < n) : 2 ^ k < 2 ^ n - 1 := by
  have hdouble : 2 ^ (k + 1) ≤ 2 ^ n := Nat.pow_le_pow_right (by decide) h
  have htwo : 2 ^ 1 ≤ 2 ^ k := Nat.pow_le_pow_right (by decide) hk
  rw [pow_succ] at hdouble
  omega

theorem lt_dhPrime : 2 ^ 6 < dhPrime := by
  rw [dhPrime_eq]
  exact two_pow_lt_pred (by decide) (by decide)

/-- The bytes of the challenge are those of the product of the factors. -/
theorem challenge_pq :
    KeyExchange.challenge (Bytes.le 8 (factorP * factorQ).toNat).reverse =
      .ok (factorP * factorQ) := by
  have hlength : (Bytes.le 8 (factorP * factorQ).toNat).reverse.length = 8 := by simp
  have hnumber : Bytes.ofBE (Bytes.le 8 (factorP * factorQ).toNat).reverse =
      (factorP * factorQ).toNat := by
    rw [Bytes.ofBE_eq_ofLE_reverse, List.reverse_reverse]
    exact Bytes.ofLE_le_of_lt (UInt64.toNat_lt _)
  generalize (Bytes.le 8 (factorP * factorQ).toNat).reverse = pq at hlength hnumber
  have hfits : ¬ (pq.isEmpty = true ∨ 8 < pq.length) := by
    rw [List.isEmpty_iff_length_eq_zero]
    omega
  rw [KeyExchange.challenge, if_neg hfits, hnumber, UInt64.ofNat_toNat]

/-! ## 3. Values with a digest -/

/-- The digest is that of the bytes that have been read, whatever fills the block behind them. -/
theorem hashedValue_append {α : Type} [Tagged α] {body : Bytes} {v : α} (rest : Bytes)
    (h : Reads (Read.exactBoxed α) body (some v)) :
    hashedValue α (body ++ rest) (sha1 body).bytes = .ok v := by
  have hrun :
      Read.exactBoxed α (.ofBytes (body ++ rest)) = (some v, ⟨body.reverse, rest, none⟩) := by
    have := h [] rest
    rwa [List.append_nil] at this
  have hcheck : Reader.check ⟨body.reverse, rest, none⟩ = .ok () := rfl
  have hconsumed : Reader.consumed ⟨body.reverse, rest, none⟩ = body := List.reverse_reverse body
  unfold hashedValue
  simp only [hrun, hcheck, hconsumed, ne_eq, not_true_eq_false, if_false]
  rfl

/-! ## 4. What is in a message -/

/-- A request brings two factors and a secret nonce, in a block that can be read without a key. -/
def BringsFactors (nonce serverNonce : Nonce) (newNonce : NewNonce) (factors : UInt64 × UInt64)
    (request : Bytes) : Prop :=
  ∃ (req : ReqDhParams) (inner : PqInnerData) (body rest : Bytes),
    ofBoxedBytes HandshakeRequest request = .ok (.reqDhParams req) ∧
    (req.nonce = nonce ∧ req.serverNonce = serverNonce) ∧
    req.encryptedData = 0 :: ((sha1 body).bytes ++ (body ++ rest)) ∧
    Reads (Read.exactBoxed PqInnerData) body (some inner) ∧
    inner.p = Bytes.ofNat factors.1.toNat ∧ inner.q = Bytes.ofNat factors.2.toNat ∧
    inner.newNonce = newNonce

/-- An answer brings parameters behind a digest, encrypted under the two secret nonces. -/
def BringsParams (nonce serverNonce : Nonce) (newNonce : NewNonce) (digest : Bytes → Octets 20)
    (params : ServerDhInnerData) (reply : Bytes) : Prop :=
  ∃ encryptedAnswer answer pad,
    ofBoxedBytes HandshakeResponse reply =
      .ok (.serverDhParamsOk ⟨nonce, serverNonce, encryptedAnswer⟩) ∧
    Ige.decryptWithHash (exchangeCipherKey serverNonce newNonce).key.bytes
      (exchangeCipherKey serverNonce newNonce).iv.bytes encryptedAnswer =
        .ok (answer ++ pad, (digest answer).bytes) ∧
    pad.length < 16 ∧ Reads (Read.exactBoxed ServerDhInnerData) answer (some params)

/-- A request brings the client's half, encrypted under the two secret nonces. -/
def BringsHalf (nonce serverNonce : Nonce) (newNonce : NewNonce) (half : Nat) (request : Bytes) :
    Prop :=
  ∃ (req : SetClientDhParams) (inner : ClientDhInnerData) (body pad : Bytes),
    ofBoxedBytes HandshakeRequest request = .ok (.setClientDhParams req) ∧
    (req.nonce = nonce ∧ req.serverNonce = serverNonce) ∧
    Ige.decryptWithHash (exchangeCipherKey serverNonce newNonce).key.bytes
      (exchangeCipherKey serverNonce newNonce).iv.bytes req.encryptedData =
        .ok (body ++ pad, (sha1 body).bytes) ∧
    Reads (Read.exactBoxed ClientDhInnerData) body (some inner) ∧
    (inner.nonce = nonce ∧ inner.serverNonce = serverNonce) ∧ Bytes.ofBE inner.gB = half

/-! ## 5. Answers -/

variable {s : SimulatedServer} {f : Entropy} (now : Instant) {request : Bytes}

/-- The server checks both nonces. -/
theorem checkNonces_eq_ok_iff {nonce serverNonce : Nonce} {u : Unit} :
    s.checkNonces nonce serverNonce = .ok u ↔ nonce = s.nonce ∧ serverNonce = s.serverNonce := by
  unfold checkNonces
  split
  · simp [*]
  · split <;> simp_all

/-- An answer is read back as what the server has chosen to answer. -/
theorem respond_of_answer {req : HandshakeRequest} {response : HandshakeResponse} {bs : Bytes}
    {t : SimulatedServer × Entropy} (h : ofBoxedBytes HandshakeRequest request = .ok req)
    (hanswer : answer now req (s, f) = (.ok response, t))
    (hwrite : Writes (fun w => response.writeFields w) bs)
    (hread : Reads (HandshakeResponse.readFields response.tag) bs (some response)) :
    ∃ reply, respond now request (s, f) = (.ok reply, t) ∧
      ofBoxedBytes HandshakeResponse reply = .ok response := by
  obtain ⟨reply, hreply, hback⟩ := response_readBack hwrite hread
  refine ⟨reply, ?_, hback⟩
  rw [respond, Act.ofExcept_bind_eq_ok_iff]
  refine ⟨req, DecodeError.lift_eq_ok_iff.mpr h, bind_eq_ok_iff.mpr ⟨response, t, hanswer, ?_⟩⟩
  exact Act.ofExcept_eq_ok_iff.mpr ⟨DecodeError.lift_eq_ok_iff.mpr hreply, rfl⟩

section Opening

/-- The challenge of the server. -/
def challengeFor (nonce serverNonce : Nonce) : ResPq :=
  { nonce, serverNonce, pq := (Bytes.le 8 (factorP * factorQ).toNat).reverse,
    fingerprints := [publicKey.fingerprint] }

/-- The challenge as it is sent: it may echo another nonce, or offer another key. -/
def sentChallenge (s : SimulatedServer) (nonce serverNonce : Nonce) : ResPq :=
  { challengeFor nonce serverNonce with
    nonce := if s.tamper = .resPqNonce then flip nonce 0 0xFF else nonce
    fingerprints := [if s.tamper = .fingerprint then ~~~publicKey.fingerprint
      else publicKey.fingerprint] }

/-- A server that does not tamper with the challenge sends the challenge. -/
theorem sentChallenge_eq (hnonce : s.tamper ≠ .resPqNonce) (hkey : s.tamper ≠ .fingerprint)
    (nonce serverNonce : Nonce) :
    s.sentChallenge nonce serverNonce = challengeFor nonce serverNonce := by
  simp only [sentChallenge, if_neg hnonce, if_neg hkey, challengeFor]

/-- The opening is answered with the challenge. -/
theorem respond_opening {nonce : Nonce}
    (h : ofBoxedBytes HandshakeRequest request = .ok (.reqPq ⟨nonce⟩)) :
    ∃ reply, respond now request (s, f) =
        (.ok reply, { s with nonce, serverNonce := ⟨f.peek 16, f.length_peek 16⟩ }, f.skip 16) ∧
      ofBoxedBytes HandshakeResponse reply =
        .ok (.resPq (s.sentChallenge nonce ⟨f.peek 16, f.length_peek 16⟩)) := by
  have hpq : (s.sentChallenge nonce ⟨f.peek 16, f.length_peek 16⟩).pq.length ≤ maxBlobLength := by
    simp [sentChallenge, challengeFor, maxBlobLength]
  have hcodes := ResPq.codes hpq (by simp [sentChallenge])
  refine respond_of_answer now h ?_ hcodes.writes (readFields_resPq hcodes.reads)
  simp only [answer, onReqPq, Act.update_bind, Act.octets_bind, Act.state_bind,
    Act.pure_eq_ok_iff, sentChallenge, challengeFor, and_self]

end Opening

section Factorization

/-- The parameters of the server, for an exponent. -/
def paramsFor (s : SimulatedServer) (now : Instant) (exponent : Nat) : ServerDhInnerData :=
  { nonce := s.nonce, serverNonce := s.serverNonce, g := Int32.ofNat generator
    dhPrime := Bytes.ofNat dhPrime, gA := Bytes.ofNat (Number.powMod generator exponent dhPrime)
    serverTime := Int32.ofInt now.seconds }

/-- The modulus as it is sent: it may be composite. -/
def sentModulus (s : SimulatedServer) : Nat :=
  if s.tamper = .compositePrime then dhPrime * ((1 <<< 127) - 1) else dhPrime

/-- The parameters as they are sent: another modulus, or another nonce. -/
def sentParams (s : SimulatedServer) (now : Instant) (exponent : Nat) : ServerDhInnerData :=
  { s.paramsFor now exponent with
    serverNonce := if s.tamper = .innerServerNonce then flip s.serverNonce 15 1 else s.serverNonce
    dhPrime := Bytes.ofNat s.sentModulus
    gA := Bytes.ofNat (Number.powMod generator exponent s.sentModulus) }

/-- The digest that is sent with parameters, right or wrong. -/
def sentDigest (s : SimulatedServer) (params : Bytes) : Octets 20 :=
  if s.tamper = .answerHash then flip (sha1 params) 0 1 else sha1 params

/-- A server that does not tamper with the parameters sends the parameters. -/
theorem sentParams_eq (hmodulus : s.tamper ≠ .compositePrime) (hnonce : s.tamper ≠ .innerServerNonce)
    (exponent : Nat) : s.sentParams now exponent = s.paramsFor now exponent := by
  simp only [sentParams, sentModulus, if_neg hmodulus, if_neg hnonce, paramsFor]

theorem sentDigest_eq (h : s.tamper ≠ .answerHash) : s.sentDigest = sha1 :=
  funext fun _ => if_neg h

/-- Numbers of the group are 66 bytes at most. -/
theorem length_ofNat_group {n : Nat} (h : n ≤ dhPrime) : (Bytes.ofNat n).length ≤ 66 :=
  Bytes.length_ofNat_le (by decide) (lt_of_le_of_lt h dhPrime_lt)

theorem sentModulus_bounds (s : SimulatedServer) :
    0 < s.sentModulus ∧ s.sentModulus < 256 ^ 82 := by
  have hpos : 0 < (1 <<< 127) - 1 := by decide
  have hsmall : (1 <<< 127) - 1 < 256 ^ 16 := pred_shift_lt (by decide)
  unfold sentModulus
  split
  · refine ⟨Nat.mul_pos prime_dhPrime.pos hpos, ?_⟩
    exact lt_of_lt_of_eq (Nat.mul_lt_mul'' dhPrime_lt hsmall) (pow_add 256 66 16).symm
  · exact ⟨prime_dhPrime.pos, lt_trans dhPrime_lt (Nat.pow_lt_pow_right (by decide) (by decide))⟩

/-- The parameters are written in few bytes, and read back from them. -/
theorem codes_sentParams (s : SimulatedServer) (now : Instant) (exponent : Nat) :
    ∃ bs, bs.length ≤ 230 ∧
      Codes (fun w => Bare.write w (s.sentParams now exponent)) Bare.read bs
        (s.sentParams now exponent) := by
  obtain ⟨hpos, hlt⟩ := s.sentModulus_bounds
  have hpow : Number.powMod generator exponent s.sentModulus < s.sentModulus := by
    rw [Number.powMod_eq]
    exact Nat.mod_lt _ hpos
  have hprime : (s.sentParams now exponent).dhPrime.length ≤ 82 :=
    Bytes.length_ofNat_le (by decide) hlt
  have hgA : (s.sentParams now exponent).gA.length ≤ 82 :=
    Bytes.length_ofNat_le (by decide) (lt_trans hpow hlt)
  have hprime' := length_blobBytes_le (s.sentParams now exponent).dhPrime
  have hgA' := length_blobBytes_le (s.sentParams now exponent).gA
  refine ⟨_, ?_, ServerDhInnerData.codes (le_trans hprime (by decide)) (le_trans hgA (by decide))⟩
  simp only [List.length_append, Octets.length_bytes, Bytes.length_le]
  omega

/-- A factorization is looked at: the block is opened, and the factors are compared. -/
theorem answer_reqDhParams {req : ReqDhParams} {inner : PqInnerData} {body rest : Bytes}
    (hnonces : req.nonce = s.nonce ∧ req.serverNonce = s.serverNonce)
    (hdata : req.encryptedData = 0 :: ((sha1 body).bytes ++ (body ++ rest)))
    (hbody : Reads (Read.exactBoxed PqInnerData) body (some inner)) :
    ¬ req.encryptedData.isEmpty = true ∧
      s.checkNonces req.nonce req.serverNonce = .ok () ∧
      hashedValue PqInnerData ((req.encryptedData.drop 1).drop 20)
        ((req.encryptedData.drop 1).take 20) = .ok inner := by
  have hdrop : (req.encryptedData.drop 1).drop 20 = body ++ rest := by
    rw [hdata]
    exact List.drop_left' (sha1 body).length_bytes
  have htake : (req.encryptedData.drop 1).take 20 = (sha1 body).bytes := by
    rw [hdata]
    exact List.take_left' (sha1 body).length_bytes
  rw [hdrop, htake]
  exact ⟨by simp [hdata], checkNonces_eq_ok_iff.mpr hnonces, hashedValue_append rest hbody⟩

variable {newNonce : NewNonce}

/-- Other factors are not answered. -/
theorem respond_otherFactors {factors : UInt64 × UInt64}
    (h : BringsFactors s.nonce s.serverNonce newNonce factors request)
    (hother : factors ≠ (factorP, factorQ)) :
    ∃ halt t, respond now request (s, f) = (.error halt, t) := by
  obtain ⟨req, inner, body, rest, hrequest, hnonces, hdata, hbody, hp, hq, -⟩ := h
  obtain ⟨hsome, hchecked, hvalue⟩ := answer_reqDhParams hnonces hdata hbody
  have hsame : ∀ {a b : UInt64}, Bytes.ofNat a.toNat = Bytes.ofNat b.toNat → a = b := fun heq => by
    rw [← UInt64.toNat_inj, ← Bytes.ofBE_ofNat (UInt64.toNat _), heq, Bytes.ofBE_ofNat]
  have hwrong : inner.p ≠ Bytes.ofNat factorP.toNat ∨ inner.q ≠ Bytes.ofNat factorQ.toNat := by
    rw [hp, hq, ← not_and_or]
    exact fun hboth => hother (Prod.ext (hsame hboth.1) (hsame hboth.2))
  have hanswer : answer now (.reqDhParams req) (s, f) =
      (.error (.error (.factorizationFailed (factorP * factorQ))), s, f) := by
    simp only [answer, Act.state_bind, hchecked, Act.ofExcept_ok_bind, onReqDhParams, Act.fail_bind,
      if_neg hsome, hvalue, if_pos hwrong]
    rfl
  refine ⟨.error (.factorizationFailed (factorP * factorQ)), (s, f), ?_⟩
  rw [respond, hrequest, DecodeError.lift_ok, Act.ofExcept_ok_bind, run_bind, hanswer]

/-- The server may refuse to send parameters. -/
theorem respond_refused (hs : s.tamper = .dhParamsFail)
    (h : BringsFactors s.nonce s.serverNonce newNonce (factorP, factorQ) request) :
    ∃ reply, respond now request (s, f) = (.ok reply, { s with newNonce }, f) ∧
      ofBoxedBytes HandshakeResponse reply =
        .ok (.serverDhParamsFail ⟨s.nonce, s.serverNonce, .zero 16⟩) := by
  obtain ⟨req, inner, body, rest, hrequest, hnonces, hdata, hbody, hp, hq, rfl⟩ := h
  obtain ⟨hsome, hchecked, hvalue⟩ := answer_reqDhParams hnonces hdata hbody
  have hcodes := ServerDhParamsFail.codes ⟨s.nonce, s.serverNonce, .zero 16⟩
  refine respond_of_answer now hrequest ?_ hcodes.writes (readFields_serverDhParamsFail hcodes.reads)
  simp only [answer, Act.state_bind, hchecked, Act.ofExcept_ok_bind, onReqDhParams, Act.fail_bind,
    if_neg hsome, hvalue, hp, hq, ne_eq, not_true_eq_false, or_self, if_false, Act.update_bind, hs,
    if_true, Act.pure_eq_ok_iff, and_self]

/-- The factors are answered with parameters, encrypted under the two secret nonces. -/
theorem respond_factors (hs : s.tamper ≠ .dhParamsFail)
    (h : BringsFactors s.nonce s.serverNonce newNonce (factorP, factorQ) request) :
    ∃ reply e exponent, exponent = Bytes.ofBE (f.peek 256) ∧
      respond now request (s, f) = (.ok reply, { s with newNonce, exponent }, e) ∧
      BringsParams s.nonce s.serverNonce newNonce s.sentDigest (s.sentParams now exponent)
        reply := by
  obtain ⟨req, inner, body, rest, hrequest, hnonces, hdata, hbody, hp, hq, rfl⟩ := h
  obtain ⟨bs, hbs, hcodes⟩ := s.codes_sentParams now (Bytes.ofBE (f.peek 256))
  obtain ⟨params, hboxed, hlength, hreads⟩ := boxed_readBack hcodes
  have hpad : ((f.skip 256).peek (Ige.hashPadding params.length)).length =
    Ige.hashPadding params.length := Entropy.length_peek _ _
  obtain ⟨encrypted, hencrypted, hdecrypt, hencryptedLength, hpadLength⟩ := Ige.exists_hashed
    (exchangeCipherKey s.serverNonce inner.newNonce).key
    (exchangeCipherKey s.serverNonce inner.newNonce).iv (s.sentDigest params) hpad
  have hfits : encrypted.length ≤ maxBlobLength := by
    have hmax : maxBlobLength = 16777215 := by decide
    omega
  have hanswer := ServerDhParamsOk.codes (v := ⟨s.nonce, s.serverNonce, encrypted⟩) hfits
  have hrun : answer now (.reqDhParams req) (s, f) =
      (.ok (.serverDhParamsOk ⟨s.nonce, s.serverNonce, encrypted⟩),
        { s with newNonce := inner.newNonce, exponent := Bytes.ofBE (f.peek 256) },
        (f.skip 256).skip (Ige.hashPadding params.length)) := by
    obtain ⟨hsome, hchecked, hvalue⟩ := answer_reqDhParams hnonces hdata hbody
    simp only [answer, Act.state_bind, hchecked, Act.ofExcept_ok_bind, onReqDhParams,
      Act.fail_bind, if_neg hsome, hvalue, hp, hq, ne_eq, not_true_eq_false, or_self, if_false,
      Act.update_bind, hs, Act.bytes_bind, Act.ofExcept_bind_eq_ok_iff,
      DecodeError.lift_eq_ok_iff, Act.pure_eq_ok_iff]
    exact ⟨params, hboxed, encrypted, hencrypted, rfl, rfl⟩
  obtain ⟨reply, hreply, hback⟩ := respond_of_answer now hrequest hrun hanswer.writes
    (readFields_serverDhParamsOk hanswer.reads)
  exact ⟨reply, _, _, rfl, hreply, encrypted, params, _, hback, hdecrypt, hpadLength, hreads⟩

end Factorization

section Confirmation

/-- The end of the exchange as the server tells it. -/
def verdict (s : SimulatedServer) (answer : DhGenAnswer) : HandshakeResponse :=
  match s.tamper with
  | .dhGenRetry => .dhGenRetry answer
  | .dhGenFail => .dhGenFail answer
  | _ => .dhGenOk answer

/-- The hash that is sent for a key, right or wrong. -/
def sentHash (s : SimulatedServer) (key : AuthKey) : Octets 16 :=
  if s.tamper = .newNonceHash then flip (newNonceHash s.newNonce 1 key.auxHash) 0 1
  else newNonceHash s.newNonce 1 key.auxHash

/-- The verdict of the server is written and read as what it is. -/
theorem readFields_verdict (s : SimulatedServer) (v : DhGenAnswer) :
    ∃ bs, Writes (fun w => (s.verdict v).writeFields w) bs ∧
      Reads (HandshakeResponse.readFields (s.verdict v).tag) bs (some (s.verdict v)) := by
  have hcodes := DhGenAnswer.codes v
  unfold verdict
  split
  · exact ⟨_, hcodes.writes, readFields_dhGenRetry hcodes.reads⟩
  · exact ⟨_, hcodes.writes, readFields_dhGenFail hcodes.reads⟩
  · exact ⟨_, hcodes.writes, readFields_dhGenOk hcodes.reads⟩

/-- The client's half is answered with a verdict, and the hash that confirms the key. -/
theorem respond_half {half : Nat} {key : AuthKey}
    (h : BringsHalf s.nonce s.serverNonce s.newNonce half request)
    (hkey : KeyExchange.keyOf (Number.powMod half s.exponent dhPrime) = .ok key) :
    ∃ reply, respond now request (s, f) = (.ok reply, { s with authKey := some key }, f) ∧
      ofBoxedBytes HandshakeResponse reply =
        .ok (s.verdict ⟨s.nonce, s.serverNonce, s.sentHash key⟩) := by
  obtain ⟨req, inner, body, pad, hrequest, hnonces, hdecrypt, hbody, hinner, rfl⟩ := h
  obtain ⟨bs, hwrites, hreads⟩ := s.readFields_verdict ⟨s.nonce, s.serverNonce, s.sentHash key⟩
  have hchecked := checkNonces_eq_ok_iff (u := ()).mpr hnonces
  have hchecked' := checkNonces_eq_ok_iff (u := ()).mpr hinner
  have hvalue := hashedValue_append pad hbody
  refine respond_of_answer now hrequest ?_ hwrites hreads
  simp only [answer, onSetClientDhParams, Act.state_bind, hchecked, hchecked', hdecrypt,
    Act.ofExcept_ok_bind, hvalue, hkey, Act.update_bind]
  unfold verdict sentHash
  cases s.tamper <;> rfl

end Confirmation

end SimulatedServer

end Mtproto
