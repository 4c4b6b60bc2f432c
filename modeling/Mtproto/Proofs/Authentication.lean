import Mathlib.Tactic.Common
import Mtproto.Proofs.Agreement

/-!
# A finished key exchange is an authenticated one

A client of the key exchange, `KeyExchange`, may be called in any order and with any payloads
(`Call`), and every call may come with a tape of its own.  If its state is `done` in the end, then
the calls that succeeded are one opening and exactly three answers, and each answer passed all the
checks: the nonces were echoed, the key was one that is trusted, the digests agreed, the group and
the halves were in order, and the hash confirmed the key.  No other way leads to `done`.

The proof keeps a log of the calls that succeed.  `Inv` says for every state what the log is then,
and what the fields of the client have to do with it.  A call preserves it (`inv_perform`), so it
holds after any calls (`inv_performAll`).

The checks of one answer speak of values that an earlier answer has left in the client.  So what an
accepted answer guarantees is stated of an entry of the log and of the nonces (`Opened`,
`Challenged`, `Agreed`, `Confirmed`), not of the client, and the invariant says that the nonces are
those in the client.  The main statement is `authenticated_of_done`.
-/

namespace Mtproto

open Wire

namespace KeyExchange

/-! ## 1. Calls -/

/-- A call of a client, with the tape that it draws from. -/
inductive Call where
  | start (tape : Entropy)
  | handle (tape : Entropy) (now : Instant) (payload : Bytes)

/-- The calls that have succeeded, and the request that each has led to. -/
abbrev Log := List (Call × Option Bytes)

/-- Make a call. -/
def perform (s : KeyExchange × Log) : Call → KeyExchange × Log
  | .start tape =>
    match start (s.1, tape) with
    | (.ok request, kx, _) => (kx, s.2 ++ [(.start tape, some request)])
    | (.error _, kx, _) => (kx, s.2)
  | .handle tape now payload =>
    match handle now payload (s.1, tape) with
    | (.ok next, kx, _) => (kx, s.2 ++ [(.handle tape now payload, next)])
    | (.error _, kx, _) => (kx, s.2)

/-- Make calls of a client that trusts the given keys, one after the other. -/
def performAll (keys : List RsaKey) (calls : List Call) : KeyExchange × Log :=
  calls.foldl perform (new keys, [])

/-! ## 2. What an entry of the log guarantees -/

/-- The exchange has been opened with this nonce. -/
def Opened (nonce : Nonce) (entry : Call × Option Bytes) : Prop :=
  ∃ tape request, entry = (.start tape, some request) ∧ nonce.bytes = tape.peek 16 ∧
    boxedBytes (ReqPq.mk nonce) = .ok request

/-- A challenge has been accepted: it echoes the nonce and lists the fingerprint of a trusted
key.  The new nonce has been drawn after the factorization of its number. -/
def Challenged (keys : List RsaKey) (nonce serverNonce : Nonce) (newNonce : NewNonce)
    (entry : Call × Option Bytes) : Prop :=
  ∃ tape now payload request res, entry = (.handle tape now payload, some request) ∧
    ofBoxedBytes HandshakeResponse payload = .ok (.resPq res) ∧
    res.nonce = nonce ∧ res.serverNonce = serverNonce ∧
    (∃ key ∈ keys, key.fingerprint ∈ res.fingerprints) ∧
    ∃ pq factors tape', challenge res.pq = .ok pq ∧
      Number.factorize pq tape = (.ok factors, tape') ∧ newNonce.bytes = tape'.peek 32

/-- Parameters have been accepted: they echo both nonces, and what is encrypted in them under the
key of the two secret nonces is a digest, the boxed value that it is the digest of, and less than
a block.  That value echoes both nonces; its modulus has passed the test for primes, and generator
and both halves are in range.  The key is the shared secret. -/
def Agreed (nonce serverNonce : Nonce) (newNonce : NewNonce) (key : AuthKey)
    (entry : Call × Option Bytes) : Prop :=
  ∃ tape now payload request ok, entry = (.handle tape now payload, some request) ∧
    ofBoxedBytes HandshakeResponse payload = .ok (.serverDhParamsOk ok) ∧
    ok.nonce = nonce ∧ ok.serverNonce = serverNonce ∧
    ∃ bs pad inner, Ige.aes256Decrypt (exchangeCipherKey serverNonce newNonce).key.bytes
        (exchangeCipherKey serverNonce newNonce).iv.bytes ok.encryptedAnswer =
          .ok ((sha1 bs).bytes ++ (bs ++ pad)) ∧
      pad.length < 16 ∧ Reads (Read.exactBoxed ServerDhInnerData) bs (some inner) ∧
      inner.nonce = nonce ∧ inner.serverNonce = serverNonce ∧
      ∃ (tape' : Entropy) (p g gA b : Nat), p = Bytes.ofBE inner.dhPrime ∧
        Number.isProbablePrime p 32 tape = (.ok true, tape') ∧
        inner.g.toInt = g ∧ gA = Bytes.ofBE inner.gA ∧ b = Bytes.ofBE (tape'.peek 256) ∧
        InRange g p ∧ InRange gA p ∧ InRange (g ^ b % p) p ∧
        key.octets.bytes = Bytes.ofNatPadded (gA ^ b % p) 256

/-- The key has been confirmed: the answer echoes both nonces and has the hash of the new nonce
and the key. -/
def Confirmed (nonce serverNonce : Nonce) (newNonce : NewNonce) (key : AuthKey)
    (entry : Call × Option Bytes) : Prop :=
  ∃ tape now payload answer, entry = (.handle tape now payload, none) ∧
    ofBoxedBytes HandshakeResponse payload = .ok (.dhGenOk answer) ∧
    answer.nonce = nonce ∧ answer.serverNonce = serverNonce ∧
    answer.newNonceHash.bytes =
      ((sha1 (newNonce.bytes ++ 1 :: key.auxHash.bytes)).bytes.drop 4).take 16

/-! ## 3. The invariant -/

/-- What the log is in every state, and what the fields of the client have to do with it. -/
def Inv (keys : List RsaKey) (kx : KeyExchange) (log : Log) : Prop :=
  kx.keys = keys ∧ match kx.state with
    | .init => log = []
    | .reqPq => ∃ c₀, log = [c₀] ∧ Opened kx.nonce c₀
    | .reqDhParams => ∃ c₀ c₁, log = [c₀, c₁] ∧ Opened kx.nonce c₀ ∧
        Challenged keys kx.nonce kx.serverNonce kx.newNonce c₁
    | .setClientDhParams => ∃ c₀ c₁ c₂ auth, log = [c₀, c₁, c₂] ∧ kx.pending = some auth ∧
        Opened kx.nonce c₀ ∧ Challenged keys kx.nonce kx.serverNonce kx.newNonce c₁ ∧
        Agreed kx.nonce kx.serverNonce kx.newNonce auth.key c₂
    | .done => ∃ c₀ c₁ c₂ c₃ auth, log = [c₀, c₁, c₂, c₃] ∧ kx.pending = some auth ∧
        Opened kx.nonce c₀ ∧ Challenged keys kx.nonce kx.serverNonce kx.newNonce c₁ ∧
        Agreed kx.nonce kx.serverNonce kx.newNonce auth.key c₂ ∧
        Confirmed kx.nonce kx.serverNonce kx.newNonce auth.key c₃
    | .failed => True

variable {keys : List RsaKey} {kx : KeyExchange} {log : Log}

theorem inv_new (keys : List RsaKey) : Inv keys (new keys) [] := ⟨rfl, rfl⟩

/-- What rests on the same ground satisfies the same invariant. -/
theorem Inv.of_sameGround {kx' : KeyExchange} (h : Inv keys kx log) (hg : SameGround kx kx') :
    Inv keys kx' log := by
  obtain ⟨hkeys, h⟩ := h
  refine ⟨hg.keys.trans hkeys, ?_⟩
  rw [hg.state, hg.nonce]
  cases hstate : kx.state
  all_goals rw [hstate] at h
  case init => exact h
  case reqPq => exact h
  case failed => trivial
  all_goals
    obtain ⟨hserver, hnew⟩ := hg.nonces (by rw [hstate]; decide)
    rw [hserver, hnew]
  case reqDhParams => exact h
  all_goals
    have hpending := hg.pending (by rw [hstate]; decide)
    rw [hpending]
    exact h

/-! ## 4. One call -/

theorem inv_start {tape : Entropy} (h : Inv keys kx log) :
    Inv keys (perform (kx, log) (.start tape)).1 (perform (kx, log) (.start tape)).2 := by
  by_cases hinit : kx.state = .init
  · obtain ⟨request, hrequest, hrun⟩ := run_start (e := tape) hinit
    obtain ⟨hkeys, hlog⟩ := h
    simp only [hinit] at hlog
    subst hlog
    simp only [perform, hrun, List.nil_append]
    exact ⟨hkeys, _, rfl, tape, request, rfl, rfl, hrequest⟩
  · simp only [perform, run_start_of_ne hinit]
    exact h

/-- An accepted challenge extends the log as the invariant says. -/
theorem inv_onResPq {tape e : Entropy} {now : Instant} {payload bytes : Bytes} {res : ResPq}
    {kx' : KeyExchange} (h : Inv keys kx log) (hstate : kx.state = .reqPq)
    (hres : ofBoxedBytes HandshakeResponse payload = .ok (.resPq res))
    (hrun : onResPq res (kx, tape) = (.ok bytes, kx', e)) :
    Inv keys kx' (log ++ [(.handle tape now payload, some bytes)]) := by
  obtain ⟨hkeys, hlog⟩ := h
  simp only [hstate] at hlog
  obtain ⟨c₀, rfl, hopened⟩ := hlog
  obtain ⟨hnonce, key, hkey, pq, hpq, factors, e₁, hfactors, -, body, -, block, -, data, -, -, -,
    hend⟩ := onResPq_eq_ok_iff.mp hrun
  obtain ⟨rfl, -⟩ := Prod.mk.inj hend
  have hmem : key ∈ keys := hkeys ▸ List.mem_of_find?_eq_some hkey
  have hoffered : key.fingerprint ∈ res.fingerprints := by
    have := List.find?_some hkey
    simpa using this
  refine ⟨hkeys, c₀, _, rfl, hopened, tape, now, payload, bytes, res, rfl, hres, hnonce, rfl,
    ⟨key, hmem, hoffered⟩, pq, factors, e₁, hpq, hfactors, rfl⟩

/-- Accepted parameters extend the log as the invariant says. -/
theorem inv_onDhParamsOk {tape e : Entropy} {now : Instant} {payload bytes : Bytes}
    {ok : ServerDhParamsOk} {kx' : KeyExchange} (h : Inv keys kx log)
    (hstate : kx.state = .reqDhParams)
    (hok : ofBoxedBytes HandshakeResponse payload = .ok (.serverDhParamsOk ok))
    (hrun : onDhParamsOk now ok (kx, tape) = (.ok bytes, kx', e)) :
    Inv keys kx' (log ++ [(.handle tape now payload, some bytes)]) := by
  obtain ⟨hkeys, hlog⟩ := h
  simp only [hstate] at hlog
  obtain ⟨c₀, c₁, rfl, hopened, hchallenged⟩ := hlog
  obtain ⟨⟨hnonce, hserver⟩, answer, hash, hdecrypt, inner, hinner, ⟨hnonce', hserver'⟩, e₁, hprime,
    hg, hrange, hrangeA, hrangeB, key, hkey, body, -, data, e₂, -, -, -, hend⟩ :=
    onDhParamsOk_eq_ok_iff.mp hrun
  obtain ⟨rfl, -⟩ := Prod.mk.inj hend
  obtain ⟨bs, pad, rfl, hpad, rfl, hreads⟩ := answerOf_eq_ok_iff.mp hinner
  obtain ⟨-, hencrypt⟩ := Ige.decryptWithHash_eq_ok_iff.mp hdecrypt
  have hnat : inner.g.toInt = (inner.g.toInt.toNat : Int) := by
    have := Int32.le_iff_toInt_le.mp hg
    rw [Int.toNat_of_nonneg this]
  unfold half at hrangeB
  have hbytes := keyOf_eq_ok_iff.mp hkey
  unfold secret at hbytes
  rw [Number.powMod_eq] at hrangeB hbytes
  exact ⟨hkeys, c₀, c₁, _, _, rfl, rfl, hopened, hchallenged, tape, now, payload, bytes, ok, rfl,
    hok, hnonce, hserver, bs, pad, inner, Ige.aes256Decrypt_eq_ok_iff.mpr hencrypt, hpad, hreads,
    hnonce', hserver', e₁, _, inner.g.toInt.toNat, _, _, rfl, hprime, hnat, rfl, rfl, hrange,
    hrangeA, hrangeB, hbytes⟩

/-- An accepted confirmation extends the log as the invariant says. -/
theorem inv_onDhGenOk {tape e : Entropy} {now : Instant} {payload : Bytes} {ok : DhGenAnswer}
    {kx' : KeyExchange} (h : Inv keys kx log) (hstate : kx.state = .setClientDhParams)
    (hok : ofBoxedBytes HandshakeResponse payload = .ok (.dhGenOk ok))
    (hrun : onDhGenOk ok (kx, tape) = (.ok (), kx', e)) :
    Inv keys kx' (log ++ [(.handle tape now payload, none)]) := by
  obtain ⟨hkeys, hlog⟩ := h
  simp only [hstate] at hlog
  obtain ⟨c₀, c₁, c₂, auth, rfl, hpending, hopened, hchallenged, hagreed⟩ := hlog
  obtain ⟨⟨hnonce, hserver⟩, auth', hauth', hhash, -, hend⟩ := onDhGenOk_eq_ok_iff.mp hrun
  obtain ⟨rfl, -⟩ := Prod.mk.inj hend
  obtain rfl : auth = auth' := Option.some.inj (hpending.symm.trans hauth')
  refine ⟨hkeys, c₀, c₁, c₂, _, auth, rfl, hpending, hopened, hchallenged, hagreed, tape, now,
    payload, ok, rfl, hok, hnonce, hserver, ?_⟩
  rw [hhash]
  rfl

theorem inv_handle {tape : Entropy} {now : Instant} {payload : Bytes} (h : Inv keys kx log) :
    Inv keys (perform (kx, log) (.handle tape now payload)).1
      (perform (kx, log) (.handle tape now payload)).2 := by
  by_cases hclosed : kx.state.isTerminal = true ∨ kx.state = .init
  · simp only [perform, run_handle_closed hclosed]
    exact h
  · rw [not_or, Bool.not_eq_true] at hclosed
    have hhandle := run_handle tape now payload hclosed.1 hclosed.2
    rcases hrun : dispatch now payload (kx, tape) with ⟨(error | fault) | r, kx', e⟩
    · rw [hrun] at hhandle
      simp only [perform, hhandle]
      exact ⟨(sameGround_of_dispatch hrun).keys.trans h.1, trivial⟩
    · rw [hrun] at hhandle
      simp only [perform, hhandle]
      exact h.of_sameGround (sameGround_of_dispatch hrun)
    · rw [hrun] at hhandle
      simp only [perform, hhandle]
      rcases dispatch_eq_ok_iff.mp hrun with ⟨hstate, res, bytes, hres, rfl, haccept⟩ |
        ⟨hstate, ok, bytes, hok, rfl, haccept⟩ | ⟨hstate, ok, hok, rfl, haccept⟩
      · exact inv_onResPq h hstate hres haccept
      · exact inv_onDhParamsOk h hstate hok haccept
      · exact inv_onDhGenOk h hstate hok haccept

/-! ## 5. Any calls -/

/-- A call preserves the invariant. -/
theorem inv_perform (call : Call) (h : Inv keys kx log) :
    Inv keys (perform (kx, log) call).1 (perform (kx, log) call).2 := by
  cases call with
  | start tape => exact inv_start h
  | handle tape now payload => exact inv_handle h

theorem inv_performAll (keys : List RsaKey) (calls : List Call) :
    Inv keys (performAll keys calls).1 (performAll keys calls).2 := by
  have foldl : ∀ (calls : List Call) (s : KeyExchange × Log), Inv keys s.1 s.2 →
      Inv keys (calls.foldl perform s).1 (calls.foldl perform s).2 := by
    intro calls
    induction calls with
    | nil => exact fun _ h => h
    | cons call calls ih => exact fun s h => ih _ (inv_perform call h)
  exact foldl calls (new keys, []) (inv_new keys)

/-- **An exchange that is done has authenticated the server.**  Whatever calls have been made, with
whatever payloads and tapes: in the last state there were exactly one opening and three accepted
payloads, in this order, and each has passed its checks with the values of the others. -/
theorem authenticated_of_done {keys : List RsaKey} {calls : List Call}
    (h : (performAll keys calls).1.state = .done) :
    ∃ nonce serverNonce newNonce auth c₀ c₁ c₂ c₃,
      (performAll keys calls).2 = [c₀, c₁, c₂, c₃] ∧
      Opened nonce c₀ ∧ Challenged keys nonce serverNonce newNonce c₁ ∧
      Agreed nonce serverNonce newNonce auth.key c₂ ∧
      Confirmed nonce serverNonce newNonce auth.key c₃ ∧
      (performAll keys calls).1.result = .ok auth := by
  obtain ⟨-, hlog⟩ := inv_performAll keys calls
  rw [h] at hlog
  obtain ⟨c₀, c₁, c₂, c₃, auth, hlog, hpending, hopened, hchallenged, hagreed, hconfirmed⟩ := hlog
  refine ⟨_, _, _, auth, c₀, c₁, c₂, c₃, hlog, hopened, hchallenged, hagreed, hconfirmed, ?_⟩
  simp only [result, h, hpending]

open SimulatedServer in
/-- With a server that plays by the rules, the last state is reached. -/
theorem authenticated_of_tapes : ∃ calls, (performAll [publicKey] calls).1.state = .done ∧
    ∃ nonce serverNonce newNonce auth c₀ c₁ c₂ c₃,
      (performAll [publicKey] calls).2 = [c₀, c₁, c₂, c₃] ∧
      Opened nonce c₀ ∧ Challenged [publicKey] nonce serverNonce newNonce c₁ ∧
      Agreed nonce serverNonce newNonce auth.key c₂ ∧
      Confirmed nonce serverNonce newNonce auth.key c₃ ∧
      (performAll [publicKey] calls).1.result = .ok auth := by
  obtain ⟨q₁, q₂, q₃, r₁, r₂, r₃, ⟨kx₁, e₁⟩, ⟨kx₂, e₂⟩, ⟨kx₃, e₃⟩, ⟨kx₄, e₄⟩, y₁, y₂, y₃, hstart, -,
    hhandle₁, -, hhandle₂, -, hhandle₃, -, -, hdone, -⟩ :=
    Dialogue.exists_conversation (s := {}) rfl (List.mem_singleton_self publicKey)
      (fun k hk _ => List.mem_singleton.mp hk) factorize_clientTape isProbablePrime_clientTape
      inRange_serverTape inRange_clientTape ⟨0, 0⟩ ⟨0, 0⟩ ⟨0, 0⟩ ⟨0, 0⟩ ⟨0, 0⟩ ⟨0, 0⟩
  let calls : List Call := [.start clientTape, .handle e₁ ⟨0, 0⟩ r₁, .handle e₂ ⟨0, 0⟩ r₂,
    .handle e₃ ⟨0, 0⟩ r₃]
  have hstate : (performAll [publicKey] calls).1.state = .done := by
    simp only [calls, performAll, List.foldl_cons, List.foldl_nil, perform, hstart, hhandle₁,
      hhandle₂, hhandle₃]
    exact hdone
  exact ⟨calls, hstate, authenticated_of_done hstate⟩

end KeyExchange

end Mtproto
