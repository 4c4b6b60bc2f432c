import Mathlib.Tactic.Common
import Mtproto.Exchange.Client
import Mtproto.Proofs.Act
import Mtproto.Proofs.Handshake
import Mtproto.Proofs.Ige

/-!
# What the client accepts, and what it does then

`KeyExchange` is the client's side of the key exchange, and `KeyExchange.handle` takes one answer of
the server.  There is one lemma for each answer that moves the exchange on: `onResPq_eq_ok_iff`,
`onDhParamsOk_eq_ok_iff` and `onDhGenOk_eq_ok_iff`.  Each says exactly when the answer is accepted,
with every check, the values that are checked and the bytes that are drawn, and what the client
sends and keeps.

They are equivalences.  Read forwards they are what an observer may conclude from an accepted
answer; read backwards they are how a run is built.  The modules on authentication, on challenges,
on the shared secret and on the agreement of both sides use them and do not open the handlers again.

* `dispatch_eq_ok_iff`: an answer is accepted in one state only, the one that expects it.
* `sameGround_of_dispatch`: the nonces and the trusted keys stay once they are there.
-/

namespace Mtproto

open Wire

namespace KeyExchange

variable {kx : KeyExchange} {e : Entropy} {t : KeyExchange × Entropy}

/-! ## 1. Checks -/

theorem checkNonces_eq_ok_iff {nonce serverNonce : Nonce} {u : Unit} :
    kx.checkNonces nonce serverNonce = .ok u ↔ nonce = kx.nonce ∧ serverNonce = kx.serverNonce := by
  unfold checkNonces
  split
  · simp [*]
  · split <;> simp_all

/-- A value strictly between one and the modulus less one. -/
def InRange (value p : Nat) : Prop :=
  1 < value ∧ value < p - 1

theorem checkDhRange_eq_ok_iff {value p : Nat} {u : Unit} :
    checkDhRange value p = .ok u ↔ InRange value p := by
  unfold checkDhRange InRange
  split
  · simp only [reduceCtorEq, false_iff]
    omega
  · simp only [true_iff]
    omega

theorem rsaBlock_eq_ok_iff {body filler block : Bytes} :
    rsaBlock body filler = .ok block ↔ 20 + body.length ≤ rsaDataLength ∧
      block = (sha1 body).bytes ++ (body ++ filler.drop (20 + body.length)) := by
  have hlength : ((sha1 body).bytes ++ body).length = 20 + body.length := by simp
  simp only [rsaBlock, hlength]
  split
  · simp only [reduceCtorEq, false_iff]
    omega
  · simp only [List.append_assoc, Except.ok.injEq]
    constructor
    · rintro rfl
      exact ⟨by omega, rfl⟩
    · rintro ⟨-, rfl⟩
      rfl

/-- A decrypted answer holds a boxed value with the right digest, and less than a block behind. -/
theorem answerOf_eq_ok_iff {answer hash : Bytes} {inner : ServerDhInnerData} :
    answerOf answer hash = .ok inner ↔ ∃ bs pad, answer = bs ++ pad ∧ pad.length < 16 ∧
      hash = (sha1 bs).bytes ∧ Reads (Read.exactBoxed ServerDhInnerData) bs (some inner) := by
  have accepted : ∀ {bs pad : Bytes} {inner? : Option ServerDhInnerData},
      Reads (Read.exactBoxed ServerDhInnerData) bs inner? →
      (answerOf (bs ++ pad) hash = .ok inner ↔
        (sha1 bs).bytes = hash ∧ pad.length < 16 ∧ inner? = some inner) := by
    intro bs pad inner? hread
    have hrun : Read.exactBoxed ServerDhInnerData (.ofBytes (bs ++ pad)) =
        (inner?, ⟨bs.reverse, pad, none⟩) := by
      have := hread [] pad
      rwa [List.append_nil] at this
    have hcheck : Reader.check ⟨bs.reverse, pad, none⟩ = .ok () := rfl
    have hconsumed : Reader.consumed ⟨bs.reverse, pad, none⟩ = bs := List.reverse_reverse bs
    have hremaining : Reader.remaining ⟨bs.reverse, pad, none⟩ = pad.length := rfl
    unfold answerOf
    simp only [hrun, hcheck, hconsumed, hremaining, DecodeError.lift, Except.mapError, bind,
      Except.bind, throw, throwThe, MonadExceptOf.throw, pure, Except.pure]
    by_cases hhash : (sha1 bs).bytes = hash
    · by_cases hpad : pad.length < 16
      · rw [if_neg (not_not_intro hhash), if_neg (Nat.not_le.mpr hpad)]
        cases inner? <;> simp [hhash, hpad]
      · rw [if_neg (not_not_intro hhash), if_pos (Nat.not_lt.mp hpad)]
        simp [hpad]
    · rw [if_pos hhash]
      simp [hhash]
  constructor
  · intro h
    have hfailure : (Read.exactBoxed ServerDhInnerData (.ofBytes answer)).2.failure = none := by
      unfold answerOf at h
      rcases hrun : Read.exactBoxed ServerDhInnerData (.ofBytes answer) with
        ⟨inner?, ⟨seen, rest, _ | error⟩⟩
      · rfl
      · simp [hrun, Reader.check, DecodeError.lift, Except.mapError, bind, Except.bind] at h
    obtain ⟨bs, pad, inner?, rfl, hread, -⟩ :=
      (SelfDelimiting.exactBoxed ServerDhInnerData.selfDelimiting).exists_of_ofBytes hfailure
    obtain ⟨hhash, hpad, rfl⟩ := (accepted hread).mp h
    exact ⟨bs, pad, rfl, hpad, hhash.symm, hread⟩
  · rintro ⟨bs, pad, rfl, hpad, rfl, hread⟩
    exact (accepted hread).mpr ⟨rfl, hpad, rfl⟩

theorem keyOf_eq_ok_iff {secret : Nat} {key : AuthKey} :
    keyOf secret = .ok key ↔ key.octets.bytes = Bytes.ofNatPadded secret 256 := by
  unfold keyOf Octets.ofBytes?
  split
  · rename_i octets h
    split at h
    · cases h
      constructor
      · intro hkey
        cases hkey
        rfl
      · intro hkey
        obtain ⟨octets⟩ := key
        simp only [Except.ok.injEq, AuthKey.mk.injEq]
        exact Octets.ext hkey.symm
    · cases h
  · rename_i h
    split at h
    · cases h
    · rename_i hlength
      simp only [reduceCtorEq, false_iff]
      intro hkey
      rw [← hkey] at hlength
      exact hlength key.octets.length_bytes

/-- The client's half of the Diffie-Hellman exchange, from the bytes of its exponent. -/
def half (inner : ServerDhInnerData) (exponent : Bytes) : Nat :=
  Number.powMod inner.g.toInt.toNat (Bytes.ofBE exponent) (Bytes.ofBE inner.dhPrime)

/-- The shared secret, from the bytes of the client's exponent. -/
def secret (inner : ServerDhInnerData) (exponent : Bytes) : Nat :=
  Number.powMod (Bytes.ofBE inner.gA) (Bytes.ofBE exponent) (Bytes.ofBE inner.dhPrime)

/-! ## 2. Transitions -/

theorem transition_bind_eq_ok_iff {target : ExchangeState} {β : Type}
    {k : Unit → Act KeyExchange β} {s u : KeyExchange × Entropy} {b : β} :
    (transition target >>= k) s = (.ok b, u) ↔ s.1.state.canTransitionTo target = true ∧
      k () ({ s.1 with state := target }, s.2) = (.ok b, u) := by
  rw [transition, bind_assoc, Act.state_bind, bind_eq_ok_iff]
  simp only [Act.ite_else_fail_eq_ok_iff, Act.update_eq_ok_iff, and_assoc, exists_and_left,
    exists_eq_left]
  refine and_congr_right fun _ => ?_
  constructor
  · rintro ⟨⟨⟩, h⟩
    exact h
  · intro h
    exact ⟨(), h⟩

theorem transition_eq_ok_iff {target : ExchangeState} {s u : KeyExchange × Entropy} {b : Unit} :
    transition target s = (.ok b, u) ↔ s.1.state.canTransitionTo target = true ∧
      u = ({ s.1 with state := target }, s.2) := by
  rw [transition, Act.state_bind, Act.ite_else_fail_eq_ok_iff, Act.update_eq_ok_iff]

/-! ## 3. The opening -/

/-- The opening is accepted at the beginning, with the next nonce of the tape. -/
theorem start_eq_ok_iff {bytes : Bytes} :
    start (kx, e) = (.ok bytes, t) ↔ kx.state = .init ∧
      boxedBytes (ReqPq.mk ⟨e.peek 16, e.length_peek 16⟩) = .ok bytes ∧
      t = ({ kx with nonce := ⟨e.peek 16, e.length_peek 16⟩, state := .reqPq }, e.skip 16) := by
  unfold start
  simp only [Act.state_bind, Act.fail_bind, Act.ite_fail_eq_ok_iff, Act.octets_bind,
    Act.update_bind, Act.ofExcept_bind_eq_ok_iff, DecodeError.lift_eq_ok_iff,
    transition_bind_eq_ok_iff, Act.pure_eq_ok_iff]
  constructor
  · rintro ⟨hstate, a, hrequest, -, rfl, rfl⟩
    exact ⟨not_not.mp hstate, hrequest, rfl⟩
  · rintro ⟨hstate, hrequest, rfl⟩
    exact ⟨not_not_intro hstate, bytes, hrequest, by rw [hstate]; rfl, rfl, rfl⟩

/-- Nothing stands in the way of the opening at the beginning. -/
theorem run_start (h : kx.state = .init) :
    ∃ bytes, boxedBytes (ReqPq.mk ⟨e.peek 16, e.length_peek 16⟩) = .ok bytes ∧
      start (kx, e) = (.ok bytes,
        { kx with nonce := ⟨e.peek 16, e.length_peek 16⟩, state := .reqPq }, e.skip 16) := by
  have hrequest := (ReqPq.codes ⟨⟨e.peek 16, e.length_peek 16⟩⟩).boxedBytes
  exact ⟨_, hrequest, start_eq_ok_iff.mpr ⟨h, hrequest, rfl⟩⟩

theorem run_start_of_ne (h : kx.state ≠ .init) :
    start (kx, e) = (.error (.error .unexpectedCommand), kx, e) := by
  unfold start
  rw [Act.state_bind, if_pos h]
  rfl

/-! ## 4. Three answers -/

theorem onResPq_eq_ok_iff {res : ResPq} {bytes : Bytes} :
    onResPq res (kx, e) = (.ok bytes, t) ↔ res.nonce = kx.nonce ∧
      ∃ key, kx.trustedKey res.fingerprints = some key ∧
      ∃ pq, challenge res.pq = .ok pq ∧
      ∃ f e₁, Number.factorize pq e = (.ok f, e₁) ∧ f.1 ≠ 1 ∧
      ∃ body, boxedBytes (PqInnerData.mk res.pq (Bytes.ofNat f.1.toNat) (Bytes.ofNat f.2.toNat)
        kx.nonce res.serverNonce ⟨e₁.peek 32, e₁.length_peek 32⟩) = .ok body ∧
      ∃ block, rsaBlock body ((e₁.skip 32).peek rsaDataLength) = .ok block ∧
      ∃ encryptedData, key.encrypt block = .ok encryptedData ∧
      boxedBytes (ReqDhParams.mk kx.nonce res.serverNonce (Bytes.ofNat f.1.toNat)
        (Bytes.ofNat f.2.toNat) key.fingerprint encryptedData) = .ok bytes ∧
      kx.state.canTransitionTo .reqDhParams = true ∧
      t = ({ kx with
        serverNonce := res.serverNonce, newNonce := ⟨e₁.peek 32, e₁.length_peek 32⟩,
        state := .reqDhParams }, (e₁.skip 32).skip rsaDataLength) := by
  unfold onResPq
  simp only [Act.fail_bind, pure_bind, Act.state_bind, Act.ite_fail_eq_ok_iff, ne_eq, not_not]
  refine and_congr_right fun _ => ?_
  cases htrusted : kx.trustedKey res.fingerprints with
  | none => simp
  | some key =>
    simp only [Act.update_bind, Act.ofExcept_bind_eq_ok_iff, DecodeError.lift_eq_ok_iff,
      Act.draw_bind_eq_ok_iff, Act.ite_fail_eq_ok_iff, Act.octets_bind, Act.bytes_bind,
      Act.ofFault_bind_eq_ok_iff, transition_bind_eq_ok_iff, Act.pure_eq_ok_iff]
    constructor
    · rintro ⟨pq, hpq, f, e₁, hf, hne, body, hbody, block, hblock, data, hdata, bytes', hbytes,
        hstate, rfl, rfl⟩
      exact ⟨key, rfl, pq, hpq, f, e₁, hf, hne, body, hbody, block, hblock, data, hdata, hbytes,
        hstate, rfl⟩
    · rintro ⟨key', hkey, pq, hpq, f, e₁, hf, hne, body, hbody, block, hblock, data, hdata, hbytes,
        hstate, rfl⟩
      cases hkey
      exact ⟨pq, hpq, f, e₁, hf, hne, body, hbody, block, hblock, data, hdata, bytes, hbytes,
        hstate, rfl, rfl⟩

/-- The parameters are accepted if both nonces are echoed, outside and inside, the answer decrypts
to a value with the right digest, the modulus passes the test, and the generator and both halves
are in range. -/
theorem onDhParamsOk_eq_ok_iff {now : Instant} {ok : ServerDhParamsOk} {bytes : Bytes} :
    onDhParamsOk now ok (kx, e) = (.ok bytes, t) ↔
      (ok.nonce = kx.nonce ∧ ok.serverNonce = kx.serverNonce) ∧
      ∃ answer hash, Ige.decryptWithHash (exchangeCipherKey kx.serverNonce kx.newNonce).key.bytes
        (exchangeCipherKey kx.serverNonce kx.newNonce).iv.bytes ok.encryptedAnswer =
          .ok (answer, hash) ∧
      ∃ inner, answerOf answer hash = .ok inner ∧
      (inner.nonce = kx.nonce ∧ inner.serverNonce = kx.serverNonce) ∧
      ∃ e₁, Number.isProbablePrime (Bytes.ofBE inner.dhPrime) 32 e = (.ok true, e₁) ∧
      0 ≤ inner.g ∧
      InRange inner.g.toInt.toNat (Bytes.ofBE inner.dhPrime) ∧
      InRange (Bytes.ofBE inner.gA) (Bytes.ofBE inner.dhPrime) ∧
      InRange (half inner (e₁.peek exponentLength)) (Bytes.ofBE inner.dhPrime) ∧
      ∃ key, keyOf (secret inner (e₁.peek exponentLength)) = .ok key ∧
      ∃ body, boxedBytes (ClientDhInnerData.mk kx.nonce kx.serverNonce 0
        (Bytes.ofNat (half inner (e₁.peek exponentLength)))) = .ok body ∧
      ∃ data e₂, Ige.encryptWithHash (exchangeCipherKey kx.serverNonce kx.newNonce).key.bytes
        (exchangeCipherKey kx.serverNonce kx.newNonce).iv.bytes body
          ((e₁.skip exponentLength).skip 8) = (.ok (.ok data), e₂) ∧
      boxedBytes (SetClientDhParams.mk kx.nonce kx.serverNonce data) = .ok bytes ∧
      kx.state.canTransitionTo .setClientDhParams = true ∧
      t = ({ kx with
        pending := some {
          key, serverSalt := firstSalt kx.newNonce kx.serverNonce
          sessionId := UInt64.ofNat (Bytes.ofLE ((e₁.skip exponentLength).peek 8))
          timeOffset := Int64.ofInt (inner.serverTime.toInt - now.seconds) }
        state := .setClientDhParams }, e₂) := by
  unfold onDhParamsOk
  simp only [Act.fail_bind, Act.state_bind, Act.ofExcept_bind_eq_ok_iff, checkNonces_eq_ok_iff,
    checkDhRange_eq_ok_iff, Act.draw_bind_eq_ok_iff, Act.ite_fail_eq_ok_iff, Act.bytes_bind,
    Act.word64_bind, Act.update_bind, Act.drawExcept_bind_eq_ok_iff, DecodeError.lift_eq_ok_iff,
    transition_bind_eq_ok_iff, Act.pure_eq_ok_iff, Prod.exists, Int32.not_lt]
  constructor
  · rintro ⟨-, hnonces, answer, hash, hdecrypt, inner, hinner, -, hinside, b, e₁, hprime, hb, hg,
      -, hrange, -, hrangeA, -, hrangeB, key, hkey, body, hbody, data, e₂, hdata, bytes', hbytes,
      hstate, rfl, rfl⟩
    cases b
    · exact absurd rfl hb
    · exact ⟨hnonces, answer, hash, hdecrypt, inner, hinner, hinside, e₁, hprime, hg, hrange,
        hrangeA, hrangeB, key, hkey, body, hbody, data, e₂, hdata, hbytes, hstate, rfl⟩
  · rintro ⟨hnonces, answer, hash, hdecrypt, inner, hinner, hinside, e₁, hprime, hg, hrange,
      hrangeA, hrangeB, key, hkey, body, hbody, data, e₂, hdata, hbytes, hstate, rfl⟩
    exact ⟨(), hnonces, answer, hash, hdecrypt, inner, hinner, (), hinside, true, e₁, hprime,
      by decide, hg, (), hrange, (), hrangeA, (), hrangeB, key, hkey, body, hbody, data, e₂, hdata,
      bytes, hbytes, hstate, rfl, rfl⟩

/-- The last answer is accepted if it echoes both nonces and confirms the key. -/
theorem onDhGenOk_eq_ok_iff {ok : DhGenAnswer} {u : Unit} :
    onDhGenOk ok (kx, e) = (.ok u, t) ↔
      (ok.nonce = kx.nonce ∧ ok.serverNonce = kx.serverNonce) ∧
      ∃ auth, kx.pending = some auth ∧
      ok.newNonceHash = newNonceHash kx.newNonce 1 auth.key.auxHash ∧
      kx.state.canTransitionTo .done = true ∧ t = ({ kx with state := .done }, e) := by
  obtain ⟨state, keys, nonce, serverNonce, newNonce, pending, error⟩ := kx
  unfold onDhGenOk
  simp only [Act.state_bind, Act.ofExcept_bind_eq_ok_iff, checkNonces_eq_ok_iff]
  cases pending with
  | none => simp
  | some auth =>
    simp only [Act.fail_bind, Act.ite_fail_eq_ok_iff, transition_eq_ok_iff, ne_eq, not_not]
    constructor
    · rintro ⟨-, hnonces, hhash, hstate, rfl⟩
      exact ⟨hnonces, auth, rfl, hhash, hstate, rfl⟩
    · rintro ⟨hnonces, auth', hauth, hhash, hstate, rfl⟩
      cases hauth
      exact ⟨(), hnonces, hhash, hstate, rfl⟩

/-! ## 5. Answers of any kind -/

/-- A refusal is never accepted. -/
theorem refuse_eq_ok_iff {nonce serverNonce : Nonce} {reason : Error} {r : Option Bytes} :
    refuse nonce serverNonce reason (kx, e) = (.ok r, t) ↔ False := by
  unfold refuse
  simp only [Act.state_bind, Act.ofExcept_bind_eq_ok_iff, Act.fail_eq_ok_iff, and_false,
    exists_false]

/-- There are three ways to be accepted, each in one state. -/
theorem dispatch_eq_ok_iff {now : Instant} {payload : Bytes} {r : Option Bytes} :
    dispatch now payload (kx, e) = (.ok r, t) ↔
      (kx.state = .reqPq ∧ ∃ res bytes, ofBoxedBytes HandshakeResponse payload = .ok (.resPq res) ∧
        r = some bytes ∧ onResPq res (kx, e) = (.ok bytes, t)) ∨
      (kx.state = .reqDhParams ∧ ∃ ok bytes,
        ofBoxedBytes HandshakeResponse payload = .ok (.serverDhParamsOk ok) ∧
        r = some bytes ∧ onDhParamsOk now ok (kx, e) = (.ok bytes, t)) ∨
      (kx.state = .setClientDhParams ∧ ∃ ok,
        ofBoxedBytes HandshakeResponse payload = .ok (.dhGenOk ok) ∧
        r = none ∧ onDhGenOk ok (kx, e) = (.ok (), t)) := by
  unfold dispatch
  simp only [Act.ofExcept_bind_eq_ok_iff, DecodeError.lift_eq_ok_iff, Act.state_bind]
  constructor
  · rintro ⟨response, hresponse, hrun⟩
    generalize hstate : kx.state = state at hrun
    split at hrun
    · rename_i res
      obtain ⟨bytes, u, hres, hrun⟩ := bind_eq_ok_iff.mp hrun
      obtain ⟨rfl, rfl⟩ := Act.pure_eq_ok_iff.mp hrun
      exact Or.inl ⟨rfl, res, bytes, hresponse, rfl, hres⟩
    · rename_i ok
      obtain ⟨bytes, u, hok, hrun⟩ := bind_eq_ok_iff.mp hrun
      obtain ⟨rfl, rfl⟩ := Act.pure_eq_ok_iff.mp hrun
      exact Or.inr (Or.inl ⟨rfl, ok, bytes, hresponse, rfl, hok⟩)
    · exact (refuse_eq_ok_iff.mp hrun).elim
    · rename_i ok
      obtain ⟨⟨⟩, u, hok, hrun⟩ := bind_eq_ok_iff.mp hrun
      obtain ⟨rfl, rfl⟩ := Act.pure_eq_ok_iff.mp hrun
      exact Or.inr (Or.inr ⟨rfl, ok, hresponse, rfl, hok⟩)
    · exact (refuse_eq_ok_iff.mp hrun).elim
    · exact (refuse_eq_ok_iff.mp hrun).elim
    · exact (Act.fail_eq_ok_iff.mp hrun).elim
  · rintro (⟨hstate, res, bytes, hresponse, rfl, hrun⟩ | ⟨hstate, ok, bytes, hresponse, rfl, hrun⟩ |
      ⟨hstate, ok, hresponse, rfl, hrun⟩)
    · refine ⟨.resPq res, hresponse, ?_⟩
      simp only [hstate]
      exact bind_eq_ok_iff.mpr ⟨bytes, t, hrun, rfl⟩
    · refine ⟨.serverDhParamsOk ok, hresponse, ?_⟩
      simp only [hstate]
      exact bind_eq_ok_iff.mpr ⟨bytes, t, hrun, rfl⟩
    · refine ⟨.dhGenOk ok, hresponse, ?_⟩
      simp only [hstate]
      exact bind_eq_ok_iff.mpr ⟨(), t, hrun, rfl⟩

/-- Where an answer is handled at all, a halt is passed on, and an error ends the exchange. -/
theorem run_handle (e : Entropy) (now : Instant) (payload : Bytes)
    (hterminal : kx.state.isTerminal = false) (hinit : kx.state ≠ .init) :
    handle now payload (kx, e) = match dispatch now payload (kx, e) with
      | (.ok r, t) => (.ok r, t)
      | (.error (.error error), t) => (.error (.error error), t.1.abandon error, t.2)
      | (.error (.fault fault), t) => (.error (.fault fault), t) := by
  have hopen : ¬ (kx.state.isTerminal = true ∨ kx.state = .init) := by simp [hterminal, hinit]
  unfold handle
  rw [Act.state_bind, if_neg hopen]
  simp only [run_tryCatch]
  rcases dispatch now payload (kx, e) with ⟨(error | fault) | r, t⟩ <;> rfl

theorem run_handle_closed {now : Instant} {payload : Bytes}
    (hclosed : kx.state.isTerminal = true ∨ kx.state = .init) :
    handle now payload (kx, e) = (.error (.error .unexpectedCommand), kx, e) := by
  unfold handle
  rw [Act.state_bind, if_pos hclosed]
  rfl

/-! ## 6. Halts

A handler that halts has not passed on to another state, and of the fields it may have overwritten
only those that it would have set. -/

theorem haltKeeps_transition {σ : Type} {f : KeyExchange → σ} (target : ExchangeState) :
    Act.HaltKeeps f (transition target) := by
  intro s h t hrun
  rw [transition, Act.state_bind] at hrun
  split at hrun
  · cases hrun
  · cases hrun
    rfl

theorem haltKeeps_onResPq (res : ResPq) :
    Act.HaltKeeps (fun kx => { kx with serverNonce := .zero 16, newNonce := .zero 32 })
      (onResPq res) := by
  unfold onResPq
  simp only [Act.fail_bind, pure_bind]
  refine .bind Act.keeps_state fun kx => .ite (Act.keeps_fail _).halt ?_
  cases kx.trustedKey res.fingerprints with
  | none => exact (Act.keeps_fail _).halt
  | some key =>
    refine .bind (Act.keeps_update fun _ => rfl) fun _ => .bind (Act.keeps_ofExcept _) fun pq =>
      .bind (Act.keeps_draw _) fun f => .ite (Act.keeps_fail _).halt ?_
    refine .bind (Act.keeps_draw _) fun newNonce => .bind (Act.keeps_update fun _ => rfl) fun _ =>
      .bind (Act.keeps_ofExcept _) fun body => .bind (Act.keeps_draw _) fun filler => ?_
    refine .bind (Act.keeps_ofExcept _) fun block => .bind (Act.keeps_ofFault _) fun data =>
      .bind (Act.keeps_ofExcept _) fun bytes => ?_
    exact (haltKeeps_transition _).map

theorem haltKeeps_onDhParamsOk (now : Instant) (ok : ServerDhParamsOk) :
    Act.HaltKeeps (fun kx => { kx with pending := none }) (onDhParamsOk now ok) := by
  unfold onDhParamsOk
  simp only [Act.fail_bind]
  refine .bind Act.keeps_state fun kx => .bind (Act.keeps_ofExcept _) fun _ =>
    .bind (Act.keeps_ofExcept _) fun answer => .bind (Act.keeps_ofExcept _) fun inner => ?_
  refine .bind (Act.keeps_ofExcept _) fun _ => .bind (Act.keeps_draw _) fun b =>
    .ite (Act.keeps_fail _).halt (.ite (Act.keeps_fail _).halt ?_)
  refine .bind (Act.keeps_ofExcept _) fun _ => .bind (Act.keeps_ofExcept _) fun _ =>
    .bind (Act.keeps_draw _) fun exponent => .bind (Act.keeps_ofExcept _) fun _ => ?_
  refine .bind (Act.keeps_ofExcept _) fun key => .bind (Act.keeps_draw _) fun sessionId =>
    .bind (Act.keeps_update fun _ => rfl) fun _ => .bind (Act.keeps_ofExcept _) fun body => ?_
  refine .bind (Act.keeps_drawExcept _) fun data => .bind (Act.keeps_ofExcept _) fun bytes => ?_
  exact (haltKeeps_transition _).map

theorem haltKeeps_onDhGenOk (ok : DhGenAnswer) :
    Act.HaltKeeps (fun kx => kx) (onDhGenOk ok) := by
  unfold onDhGenOk
  simp only [Act.fail_bind]
  refine .bind Act.keeps_state fun kx => .bind (Act.keeps_ofExcept _) fun _ => ?_
  cases kx.pending with
  | none => exact (Act.keeps_fail _).halt
  | some auth =>
    exact .ite (Act.keeps_fail _).halt (haltKeeps_transition _)

theorem haltKeeps_refuse (nonce serverNonce : Nonce) (reason : Error) :
    Act.HaltKeeps (fun kx => kx) (refuse nonce serverNonce reason) :=
  .bind Act.keeps_state fun _ => .bind (Act.keeps_ofExcept _) fun _ => (Act.keeps_fail _).halt

/-- What a state rests on: the nonces from when they are fixed, and the result from when it is
there. -/
structure SameGround (kx kx' : KeyExchange) : Prop where
  state : kx'.state = kx.state
  keys : kx'.keys = kx.keys
  nonce : kx'.nonce = kx.nonce
  nonces : kx.state ≠ .reqPq → kx'.serverNonce = kx.serverNonce ∧ kx'.newNonce = kx.newNonce
  pending : kx.state ≠ .reqDhParams → kx'.pending = kx.pending
  error : kx'.error = kx.error

theorem SameGround.of_eq {kx kx' : KeyExchange} (h : kx' = kx) : SameGround kx kx' := by
  subst h
  exact ⟨rfl, rfl, rfl, fun _ => ⟨rfl, rfl⟩, fun _ => rfl, rfl⟩

/-- **A handler that halts leaves what its state rests on.** -/
theorem sameGround_of_dispatch {now : Instant} {payload : Bytes} {halt : Halt}
    (h : dispatch now payload (kx, e) = (.error halt, t)) : SameGround kx t.1 := by
  unfold dispatch at h
  cases hresponse : ofBoxedBytes HandshakeResponse payload with
  | error error =>
    rw [hresponse] at h
    cases h
    exact .of_eq rfl
  | ok response =>
    rw [hresponse, DecodeError.lift_ok, Act.ofExcept_ok_bind, Act.state_bind] at h
    generalize hstate : kx.state = state at h
    split at h
    · rename_i res
      have := (haltKeeps_onResPq res).map _ _ _ h
      simp only [KeyExchange.mk.injEq] at this
      obtain ⟨hs, hkeys, hnonce, -, -, hpending, herror⟩ := this
      exact ⟨hs, hkeys, hnonce, fun hne => absurd hstate hne, fun _ => hpending, herror⟩
    · rename_i ok
      have := (haltKeeps_onDhParamsOk now ok).map _ _ _ h
      simp only [KeyExchange.mk.injEq] at this
      obtain ⟨hs, hkeys, hnonce, hserver, hnew, -, herror⟩ := this
      exact ⟨hs, hkeys, hnonce, fun _ => ⟨hserver, hnew⟩, fun hne => absurd hstate hne, herror⟩
    · exact .of_eq (haltKeeps_refuse _ _ _ _ _ _ h)
    · exact .of_eq ((haltKeeps_onDhGenOk _).map _ _ _ h)
    · exact .of_eq (haltKeeps_refuse _ _ _ _ _ _ h)
    · exact .of_eq (haltKeeps_refuse _ _ _ _ _ _ h)
    · cases h
      exact .of_eq rfl

end KeyExchange

end Mtproto
