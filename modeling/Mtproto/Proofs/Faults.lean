import Mathlib.Tactic.Common
import Mtproto.Proofs.Preconditions
import Mtproto.Proofs.Lifecycle

/-!
# Where a key exchange stops

A fault is a place where a program would stop for good, unlike an error, which is an answer.  The
calls of a key exchange, `KeyExchange.start` and `KeyExchange.handle`, answer with a result or with
an error and do not end in a fault, whatever the server sends and whatever the tape holds, as long
as the searches on the tape come to an end.

There is one exception, `EncryptsModuloZero`.  A trusted key may have modulus zero, because nothing
looks at the numbers of a key when it is read, and the exchange stops as soon as something is to be
encrypted to it.  The client is then left where it was, without an error.

* `Settles`: what a procedure may stop for; the lemmas go through the handlers in this order.
* `answers_iff`: for which lists of trusted keys all calls answer.
-/

namespace Mtproto

open Wire

/-! ## 1. Why a procedure stops -/

namespace Act

variable {σ α β : Type} {s : σ × Entropy} {bad : Prop}

/-- A procedure moves the tape on, and where it stops with a fault, a search has stalled on a tape
that is not fair, or a number has been asked for modulo zero and it has been `bad`. -/
structure Settles (bad : Prop) (m : Act σ α) (s : σ × Entropy) : Prop where
  moves : ∃ n, (m s).2.2 = s.2.skip n
  stops : ∀ fault, (m s).1 = .error (.fault fault) →
    fault = .drawStalled ∧ ¬ s.2.Fair ∨ fault = .zeroModulus ∧ bad

/-- Where a procedure in two parts stops, one of its parts does. -/
theorem Settles.bind {m : Act σ α} {k : α → Act σ β} (hm : Settles bad m s)
    (hk : ∀ a t, m s = (.ok a, t) → Settles bad (k a) t) : Settles bad (m >>= k) s where
  moves := by
    obtain ⟨n, hn⟩ := hm.moves
    rw [run_bind]
    rcases hrun : m s with ⟨halt | a, t⟩
    · rw [hrun] at hn
      exact ⟨n, hn⟩
    · rw [hrun] at hn
      obtain ⟨n', hn'⟩ := (hk a t hrun).moves
      have ht : t.2 = s.2.skip n := hn
      rw [ht, Entropy.skip_skip] at hn'
      exact ⟨n + n', hn'⟩
  stops fault h := by
    obtain ⟨n, hn⟩ := hm.moves
    have hstops := hm.stops fault
    rw [run_bind] at h
    rcases hrun : m s with ⟨halt | a, t⟩
    · rw [hrun] at hstops h
      exact hstops (congrArg Except.error (Except.error.inj h))
    · rw [hrun] at hn h
      have ht : t.2 = s.2.skip n := hn
      rcases (hk a t hrun).stops fault h with ⟨rfl, hunfair⟩ | hbad
      · rw [ht] at hunfair
        exact .inl ⟨rfl, fun hfair => hunfair (hfair.skip n)⟩
      · exact .inr hbad

/-- A step that takes nothing from the tape and does not stop. -/
theorem Settles.of_calm {m : Act σ α} (hmoves : (m s).2.2 = s.2)
    (hstops : ∀ fault, (m s).1 ≠ .error (.fault fault)) : Settles bad m s where
  moves := ⟨0, hmoves⟩
  stops fault h := absurd h (hstops fault)

theorem settles_pure (a : α) : Settles bad (pure a : Act σ α) s :=
  .of_calm rfl fun _ h => by cases h

theorem settles_state : Settles bad (state : Act σ σ) s :=
  .of_calm rfl fun _ h => by cases h

theorem settles_update (f : σ → σ) : Settles bad (update f) s :=
  .of_calm rfl fun _ h => by cases h

theorem settles_fail (e : Error) : Settles bad (fail e : Act σ α) s :=
  .of_calm rfl fun _ h => by cases h

theorem settles_ofExcept (r : Except Error α) : Settles bad (ofExcept r : Act σ α) s := by
  cases r with
  | ok a => exact settles_pure a
  | error e => exact settles_fail e

/-- A steady draw has a result, or it stalls on a tape that is not fair. -/
theorem settles_draw {d : Draw α} (hd : d.Steady) : Settles bad (draw d : Act σ α) s := by
  obtain ⟨s, tape⟩ := s
  have hmoves := hd.moves tape
  have hstalls := hd.stalls tape
  rcases hrun : d tape with ⟨f | a, tape'⟩
  · rw [hrun] at hmoves hstalls
    have hdraw : (draw d : Act σ α) (s, tape) = (.error (.fault f), s, tape') := by
      simp only [draw, hrun]
    refine ⟨hdraw ▸ hmoves, fun fault h => ?_⟩
    rw [hdraw] at h
    obtain rfl : f = fault := by cases h; rfl
    exact .inl (hstalls f rfl)
  · rw [hrun] at hmoves
    have hdraw : (draw d : Act σ α) (s, tape) = (.ok a, s, tape') := by
      simp only [draw, hrun]
    refine ⟨hdraw ▸ hmoves, fun fault h => ?_⟩
    rw [hdraw] at h
    cases h

theorem settles_drawExcept {d : Draw (Except Error α)} (hd : d.Steady) :
    Settles bad (drawExcept d : Act σ α) s :=
  (settles_draw hd).bind fun r _ _ => settles_ofExcept r

/-- A check in front. -/
theorem Settles.ite {c : Prop} [Decidable c] {e : Error} {m : Act σ α} (h : ¬ c → Settles bad m s) :
    Settles bad (if c then fail e else m) s := by
  by_cases hc : c
  · rw [if_pos hc]
    exact settles_fail e
  · rw [if_neg hc]
    exact h hc

end Act

namespace KeyExchange

variable {kx : KeyExchange} {tape : Entropy} {bad : Prop}

/-! ## 2. The handlers -/

/-- The client comes to encrypt modulo zero: it has opened the exchange, the challenge echoes its
nonce and offers a key that is trusted and has modulus zero, and its number is factorized. -/
def EncryptsModuloZero (kx : KeyExchange) (payload : Bytes) (tape : Entropy) : Prop :=
  kx.state = .reqPq ∧ ∃ res key pq factors tape',
    ofBoxedBytes HandshakeResponse payload = .ok (.resPq res) ∧ res.nonce = kx.nonce ∧
    kx.trustedKey res.fingerprints = some key ∧ key.modulus = 0 ∧
    challenge res.pq = .ok pq ∧ Number.factorize pq tape = (.ok factors, tape') ∧ factors.1 ≠ 1

theorem settles_transition (target : ExchangeState) (s : KeyExchange × Entropy) :
    Act.Settles bad (transition target) s := by
  refine Act.settles_state.bind fun kx t _ => ?_
  split
  · exact Act.settles_update _
  · exact Act.settles_fail _

/-- The only fault of RSA is a modulus of zero. -/
theorem settles_encrypt {key : RsaKey} {block : Bytes} {s : KeyExchange × Entropy}
    (hbad : key.modulus = 0 → bad) : Act.Settles bad (Act.ofFault (key.encrypt block)) s := by
  unfold RsaKey.encrypt
  split
  · rename_i hzero
    refine ⟨⟨0, rfl⟩, ?_⟩
    rintro fault ⟨⟩
    exact .inr ⟨rfl, hbad hzero⟩
  · exact Act.settles_pure _

/-- A challenge is answered or refused, unless the key that it names has a modulus of zero. -/
theorem settles_onResPq {res : ResPq} {payload : Bytes} (hstate : kx.state = .reqPq)
    (hres : ofBoxedBytes HandshakeResponse payload = .ok (.resPq res)) :
    Act.Settles (EncryptsModuloZero kx payload tape) (onResPq res) (kx, tape) := by
  unfold onResPq
  simp only [Act.fail_bind, pure_bind]
  refine Act.settles_state.bind fun kx' t hkx => ?_
  obtain ⟨rfl, rfl⟩ : kx = kx' ∧ (kx, tape) = t := ok_pair_eq_iff.mp hkx
  refine .ite fun hnonce => ?_
  cases hkey : kx.trustedKey res.fingerprints with
  | none => exact Act.settles_fail _
  | some key =>
    refine (Act.settles_update _).bind fun _ t ht => ?_
    obtain rfl := Act.update_eq_ok_iff.mp ht
    refine (Act.settles_ofExcept _).bind fun pq t hpq => ?_
    obtain ⟨hchallenge, rfl⟩ := Act.ofExcept_eq_ok_iff.mp hpq
    refine (Act.settles_draw (Number.steady_factorize pq)).bind fun factors t hfactors => ?_
    obtain ⟨tape', hfactors⟩ := Act.exists_of_draw hfactors
    -- the run of the factorization is kept: it is a part of what the encryption may stop at
    refine .ite fun hfound => ?_
    refine (Act.settles_draw (Draw.steady_octets 32)).bind fun newNonce t _ =>
      (Act.settles_update _).bind fun _ t _ => (Act.settles_ofExcept _).bind fun body t _ => ?_
    refine (Act.settles_draw (Draw.steady_bytes _)).bind fun filler t _ =>
      (Act.settles_ofExcept _).bind fun block t _ => ?_
    refine (settles_encrypt fun hzero => ?_).bind fun data t _ =>
      (Act.settles_ofExcept _).bind fun bytes t _ =>
        (settles_transition _ t).bind fun _ t _ => Act.settles_pure _
    exact ⟨hstate, res, key, pq, factors, tape', hres, not_not.mp hnonce, hkey, hzero,
      DecodeError.lift_eq_ok_iff.mp hchallenge, hfactors, hfound⟩

/-- The parameters of the group are answered or refused; no check on them can be undefined. -/
theorem settles_onDhParamsOk (now : Instant) (ok : ServerDhParamsOk) (s : KeyExchange × Entropy) :
    Act.Settles bad (onDhParamsOk now ok) s := by
  have hencrypt : ∀ key iv plain, (Ige.encryptWithHash key iv plain).Steady := fun key iv plain =>
    (Draw.steady_bytes _).bind fun _ _ _ _ => .pure _
  unfold onDhParamsOk
  simp only [Act.fail_bind]
  refine Act.settles_state.bind fun kx t _ => (Act.settles_ofExcept _).bind fun _ t _ =>
    (Act.settles_ofExcept _).bind fun answer t _ =>
    (Act.settles_ofExcept _).bind fun inner t _ => ?_
  refine (Act.settles_ofExcept _).bind fun _ t _ =>
    (Act.settles_draw (Number.steady_isProbablePrime _ _)).bind fun probable t _ =>
    .ite fun _ => .ite fun _ => ?_
  refine (Act.settles_ofExcept _).bind fun _ t _ => (Act.settles_ofExcept _).bind fun _ t _ =>
    (Act.settles_draw (Draw.steady_bytes _)).bind fun exponent t _ =>
    (Act.settles_ofExcept _).bind fun _ t _ => (Act.settles_ofExcept _).bind fun key t _ => ?_
  refine (Act.settles_draw Draw.steady_word64).bind fun sessionId t _ =>
    (Act.settles_update _).bind fun _ t _ => (Act.settles_ofExcept _).bind fun body t _ => ?_
  exact (Act.settles_drawExcept (hencrypt _ _ _)).bind fun data t _ =>
    (Act.settles_ofExcept _).bind fun bytes t _ =>
      (settles_transition _ t).bind fun _ t _ => Act.settles_pure _

theorem settles_onDhGenOk (ok : DhGenAnswer) (s : KeyExchange × Entropy) :
    Act.Settles bad (onDhGenOk ok) s := by
  unfold onDhGenOk
  simp only [Act.fail_bind]
  refine Act.settles_state.bind fun kx t _ => (Act.settles_ofExcept _).bind fun _ t _ => ?_
  cases kx.pending with
  | none => exact Act.settles_fail _
  | some auth => exact .ite fun _ => settles_transition _ t

theorem settles_refuse (nonce serverNonce : Nonce) (e : Error) (s : KeyExchange × Entropy) :
    Act.Settles bad (refuse nonce serverNonce e) s :=
  Act.settles_state.bind fun _ _ _ => (Act.settles_ofExcept _).bind fun _ _ _ =>
    Act.settles_fail e

/-- Every response is answered or refused, unless it makes the client encrypt modulo zero. -/
theorem settles_dispatch (now : Instant) (payload : Bytes) :
    Act.Settles (EncryptsModuloZero kx payload tape) (dispatch now payload) (kx, tape) := by
  unfold dispatch
  refine (Act.settles_ofExcept _).bind fun response t hresponse => ?_
  obtain ⟨hread, rfl⟩ := Act.ofExcept_eq_ok_iff.mp hresponse
  refine Act.settles_state.bind fun kx' t hkx => ?_
  obtain ⟨rfl, rfl⟩ : kx = kx' ∧ (kx, tape) = t := ok_pair_eq_iff.mp hkx
  generalize hstate : kx.state = state
  split
  · exact (settles_onResPq hstate (DecodeError.lift_eq_ok_iff.mp hread)).bind
      fun _ _ _ => Act.settles_pure _
  · exact (settles_onDhParamsOk now _ _).bind fun _ _ _ => Act.settles_pure _
  · exact settles_refuse _ _ _ _
  · exact (settles_onDhGenOk _ _).bind fun _ _ _ => Act.settles_pure _
  · exact settles_refuse _ _ _ _
  · exact settles_refuse _ _ _ _
  · exact Act.settles_fail _

/-! ## 3. The exception -/

/-- Where the client comes to encrypt modulo zero, it stops. -/
theorem run_onResPq_of_zero {res : ResPq} {key : RsaKey} {pq : UInt64} {factors : UInt64 × UInt64}
    {tape' : Entropy} (hnonce : res.nonce = kx.nonce)
    (hkey : kx.trustedKey res.fingerprints = some key) (hzero : key.modulus = 0)
    (hpq : challenge res.pq = .ok pq) (hfactors : Number.factorize pq tape = (.ok factors, tape'))
    (hfound : factors.1 ≠ 1) :
    ∃ t, onResPq res (kx, tape) = (.error (.fault .zeroModulus), t) := by
  obtain ⟨body, hbody, hroom⟩ := Checked.exists_inner kx.nonce res.serverNonce
    ⟨tape'.peek 32, tape'.length_peek 32⟩ (Checked.length_challenge_le hpq)
    (Checked.length_factor_le factors.1) (Checked.length_factor_le factors.2)
  have hblock := rsaBlock_eq_ok_iff.mpr ⟨by simpa using hroom, Eq.refl ((sha1 body).bytes ++
    (body ++ ((tape'.skip 32).peek rsaDataLength).drop (20 + body.length)))⟩
  have hencrypt : ∀ block, key.encrypt block = .error .zeroModulus := fun _ => if_pos hzero
  have hdraw : ∀ s : KeyExchange, (Act.draw (Number.factorize pq) : Act KeyExchange _) (s, tape) =
      (.ok factors, s, tape') := fun s => by simp only [Act.draw, hfactors]
  unfold onResPq
  simp only [Act.fail_bind, Act.state_bind, hnonce, ne_eq, not_true, if_false, hkey, pure_bind,
    Act.update_bind, hpq, DecodeError.lift_ok, Act.ofExcept_ok_bind]
  rw [run_bind_ok (hdraw _)]
  simp only [if_neg hfound, Act.octets_bind, Act.update_bind, hbody, DecodeError.lift_ok,
    Act.ofExcept_ok_bind, Act.bytes_bind, hblock, hencrypt]
  exact ⟨_, rfl⟩

/-- In the one case that is left out the exchange stops in the middle, and no error is reported. -/
theorem handle_of_encrypts {payload : Bytes} (h : EncryptsModuloZero kx payload tape)
    (now : Instant) :
    (handle now payload (kx, tape)).1 = .error (.fault .zeroModulus) := by
  obtain ⟨hstate, res, key, pq, factors, tape', hres, hnonce, hkey, hzero, hpq, hfactors, hfound⟩ :=
    h
  obtain ⟨t, hrun⟩ := run_onResPq_of_zero hnonce hkey hzero hpq hfactors hfound
  have hdispatch : dispatch now payload (kx, tape) = (.error (.fault .zeroModulus), t) := by
    unfold dispatch
    rw [hres, DecodeError.lift_ok, Act.ofExcept_ok_bind, Act.state_bind, hstate]
    change (onResPq res >>= fun bytes => pure (some bytes)) (kx, tape) = _
    rw [run_bind, hrun]
  rw [run_handle tape now payload (by rw [hstate]; rfl) (by rw [hstate]; decide), hdispatch]

/-- Handling an answer stops only where a search stalls or a number is asked for modulo zero. -/
theorem fault_of_handle {now : Instant} {payload : Bytes} {fault : Fault}
    (h : (handle now payload (kx, tape)).1 = .error (.fault fault)) :
    fault = .drawStalled ∧ ¬ tape.Fair ∨
      fault = .zeroModulus ∧ EncryptsModuloZero kx payload tape := by
  by_cases hclosed : kx.state.isTerminal = true ∨ kx.state = .init
  · rw [run_handle_closed hclosed] at h
    cases h
  · rw [not_or, Bool.not_eq_true] at hclosed
    have hsettles : Act.Settles (EncryptsModuloZero kx payload tape) (dispatch now payload)
        (kx, tape) := settles_dispatch now payload
    have hstops := hsettles.stops fault
    rw [run_handle tape now payload hclosed.1 hclosed.2] at h
    rcases hrun : dispatch now payload (kx, tape) with ⟨(error | fault') | r, t⟩
    all_goals rw [hrun] at h hstops
    · cases h
    · exact hstops h
    · cases h

/-! ## 4. Which keys are trusted -/

/-- A key that is found among several is found alone. -/
theorem trustedKey_fingerprint {offered : List UInt64} {key : RsaKey}
    (h : kx.trustedKey offered = some key) : kx.trustedKey [key.fingerprint] = some key := by
  unfold trustedKey at h ⊢
  obtain ⟨hoffered, before, after, hkeys, hbefore⟩ := List.find?_eq_some_iff_append.mp h
  refine List.find?_eq_some_iff_append.mpr ⟨by simp, before, after, hkeys, ?_⟩
  intro k hk
  have hnot := hbefore k hk
  simp only [List.contains_cons, List.contains_nil, Bool.or_false, Bool.not_eq_true',
    beq_eq_false_iff_ne] at hnot ⊢
  intro hsame
  rw [hsame, hoffered] at hnot
  cases hnot

/-- A call does not stop, except where a search goes on without end on a tape that is not fair. -/
def Answers {α : Type} (tape : Entropy) (outcome : Except Halt α) : Prop :=
  ∀ fault, outcome = .error (.fault fault) → fault = .drawStalled ∧ ¬ tape.Fair

theorem answers_start (tape : Entropy) : Answers tape (start (kx, tape)).1 := by
  intro fault h
  by_cases hinit : kx.state = .init
  · obtain ⟨request, -, hrun⟩ := run_start (e := tape) hinit
    rw [hrun] at h
    cases h
  · rw [run_start_of_ne hinit] at h
    cases h

/-- A challenge that asks for the number four to be factorized. -/
def smallChallenge (nonce : Nonce) (fingerprint : UInt64) : ResPq :=
  { nonce, serverNonce := .zero 16, pq := [4], fingerprints := [fingerprint] }

/-- A key with modulus zero that is found by its fingerprint stops an exchange. -/
theorem exists_stop {keys : List RsaKey} {key : RsaKey}
    (hkey : (new keys).trustedKey [key.fingerprint] = some key) (hzero : key.modulus = 0) :
    ∃ calls payload, EncryptsModuloZero (performAll keys calls).1 payload (.starting []) := by
  -- on a tape of zero bytes our nonce is zero, so the challenge can be written before the start
  have hinit : (new keys).state = .init := rfl
  obtain ⟨request, -, hrun⟩ := run_start (e := .starting []) hinit
  have hkx : (performAll keys [.start (.starting [])]).1 =
      { new keys with nonce := .zero 16, state := .reqPq } := by
    simp only [performAll, List.foldl_cons, List.foldl_nil, perform, hrun]
    rfl
  have hcodes := ResPq.codes (v := smallChallenge (.zero 16) key.fingerprint)
    (show 1 ≤ maxBlobLength by decide) (show 1 < 2 ^ 32 by decide)
  have hwrites : Writes (fun w => (HandshakeResponse.resPq
      (smallChallenge (.zero 16) key.fingerprint)).writeFields w) _ := hcodes.writes
  obtain ⟨payload, -, hpayload⟩ := response_readBack hwrites (readFields_resPq hcodes.reads)
  refine ⟨[.start (.starting [])], payload, ?_⟩
  rw [hkx]
  exact ⟨rfl, _, key, 4, (2, 2), .starting [], hpayload, rfl, hkey, hzero, rfl, rfl, by decide⟩

/-- **When every call of the exchange answers.**  Take any calls of an exchange, and then one more,
at any time, with any string from the other side and on any tape.

It answers, and it never asks an operation for what the operation cannot give, exactly if no key
that is found by its own fingerprint has modulus zero. -/
theorem answers_iff (keys : List RsaKey) :
    (∀ calls now payload tape,
      Answers tape (start ((performAll keys calls).1, tape)).1 ∧
      Answers tape (handle now payload ((performAll keys calls).1, tape)).1 ∧
      ∀ mark, now.InCalendar → Checked.handle mark now payload ((performAll keys calls).1, tape) =
        handle now payload ((performAll keys calls).1, tape)) ↔
    ∀ key, (new keys).trustedKey [key.fingerprint] = some key → key.modulus ≠ 0 := by
  constructor
  · intro h key hkey hzero
    obtain ⟨calls, payload, hstop⟩ := exists_stop hkey hzero
    obtain ⟨-, hanswers, -⟩ := h calls ⟨0, 0⟩ payload (.starting [])
    obtain ⟨hfault, -⟩ := hanswers _ (handle_of_encrypts hstop ⟨0, 0⟩)
    cases hfault
  · intro hkeys calls now payload tape
    refine ⟨answers_start tape, ?_, fun mark hnow => by rw [Checked.handle_eq hnow]⟩
    intro fault h
    rcases fault_of_handle h with hstall | ⟨-, -, res, key, -, -, -, -, -, hkey, hzero, -⟩
    · exact hstall
    · have hsame : (performAll keys calls).1.keys = keys := (inv_performAll keys calls).1
      have hfound := trustedKey_fingerprint hkey
      unfold trustedKey at hfound
      rw [hsame] at hfound
      exact absurd hzero (hkeys key hfound)

/-- A challenge that offers a key with modulus zero and exponent one. -/
def zeroKeyPayload : Bytes :=
  [0x63, 0x24, 0x16, 0x05] ++ List.replicate 32 0 ++
    [1, 4, 0, 0, 21, 196, 181, 28, 1, 0, 0, 0, 183, 23, 219, 147, 157, 148, 209, 239]

/-- The key is read from eight bytes, and the challenge stops the exchange. -/
theorem zero_key_stops :
    RsaKey.ofDer [0x30, 6, 2, 1, 0, 2, 1, 1] = .ok ⟨0, 1⟩ ∧
      (handle ⟨0, 0⟩ zeroKeyPayload
        ((performAll [⟨0, 1⟩] [.start (.starting [])]).1, .starting [])).1 =
          .error (.fault .zeroModulus) := by
  constructor
  · rw [RsaKey.ofDer]
    rfl
  · refine handle_of_encrypts ⟨by rfl, smallChallenge (.zero 16) (RsaKey.fingerprint ⟨0, 1⟩),
      ⟨0, 1⟩, 4, (2, 2), .starting [], ?_, ?_, ?_, rfl, rfl, rfl, by decide⟩ ⟨0, 0⟩
    · decide +kernel
    · rfl
    · decide +kernel

end KeyExchange

end Mtproto
