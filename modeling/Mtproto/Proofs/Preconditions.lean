import Mathlib.Tactic.Common
import Mtproto.Proofs.Draws
import Mtproto.Proofs.KeyExchange

/-!
# What the key exchange asks of its operations

Some operations are not for all arguments: a remainder needs a modulus that is not zero, a
difference of natural numbers a minuend that is large enough, a draw a range that is not empty, and
a string must be as long as the part that is taken from it.  The procedures of the key exchange do
not look, because earlier checks have made sure.  A program would stop there; the definitions of
this library would go on with a value by convention.  So it has to be shown that this never happens.

`Checked` writes the same procedures again with a look before each such operation: where what it
needs is not there, the computation stops with a fault of one's choice.  `Checked.handle` is the
whole of `KeyExchange.handle` in this form.

* `Checked.handle_eq`: whatever the fault is, the two are equal, so nothing that is needed is ever
  missing.

The one operation that looks by itself is the encryption to the key of the server, whose modulus may
be zero.
-/

namespace Mtproto

section Sequencing

variable {ε σ α β : Type}

/-- Two ways to go on that agree on what has come out so far. -/
theorem bind_congr_of_ok {x : ExceptT ε (StateM σ) α} {f g : α → ExceptT ε (StateM σ) β} {s : σ}
    (h : ∀ a t, x s = (.ok a, t) → f a t = g a t) : (x >>= f) s = (x >>= g) s := by
  rw [run_bind, run_bind]
  rcases hx : x s with ⟨e | a, t⟩
  · rfl
  · exact h a t hx

/-- A check in front. -/
theorem ite_congr_of_not {c : Prop} [Decidable c] {x f g : ExceptT ε (StateM σ) α} {s : σ}
    (h : ¬ c → f s = g s) : (if c then x else f) s = (if c then x else g) s := by
  by_cases hc : c
  · rw [if_pos hc, if_pos hc]
  · rw [if_neg hc, if_neg hc, h hc]

end Sequencing

/-! ## 1. Checked operations -/

/-- Look whether a draw has what it needs. -/
def Draw.demand (mark : Fault) (c : Prop) [Decidable c] : Draw Unit :=
  if c then return else throw mark

/-- Look whether a procedure has what it needs. -/
def Act.demand {σ : Type} (mark : Fault) (c : Prop) [Decidable c] : Act σ Unit :=
  if c then return else throw (.fault mark)

/-- A check that holds is passed, and what comes after it is done. -/
theorem Draw.demand_bind {α : Type} {mark : Fault} {c : Prop} [Decidable c] (h : c)
    (k : Unit → Draw α) : (demand mark c >>= k) = k () := by
  rw [demand, if_pos h]
  rfl

theorem Act.demand_bind {σ α : Type} {mark : Fault} {c : Prop} [Decidable c] (h : c)
    (k : Unit → Act σ α) : (demand mark c >>= k) = k () := by
  rw [demand, if_pos h]
  rfl

/-- What a procedure has drawn, the tape has given. -/
theorem Act.exists_of_draw {σ α : Type} {d : Draw α} {a : α} {s t : σ × Entropy}
    (h : (Act.draw d : Act σ α) s = (.ok a, t)) : ∃ e, d s.2 = (.ok a, e) := by
  obtain ⟨s, tape⟩ := s
  rcases hd : d tape with ⟨f | b, e⟩
  · simp only [Act.draw, hd] at h
    exact absurd h error_pair_ne_ok
  · simp only [Act.draw, hd] at h
    obtain ⟨rfl, -⟩ := ok_pair_eq_iff.mp h
    exact ⟨e, rfl⟩

namespace Checked

variable (mark : Fault)

/-- A word of a range that must not be empty. -/
def wordBetween (lo hi : UInt64) : Draw UInt64 := do
  Draw.demand mark (lo < hi)
  Draw.wordBetween lo hi

/-- A number of a range that must not be empty. -/
def naturalBetween (lo hi : Nat) : Draw Nat := do
  Draw.demand mark (lo < hi)
  Draw.naturalBetween lo hi

/-! ## 2. Factorization -/

/-- A walk from a random point with a random constant. -/
def startWalk (n : UInt64) : Draw Number.Walk := do
  let constant ← wordBetween mark 1 n
  let point ← wordBetween mark 0 n
  return { constant, point, saved := point, checkpoint := 1, steps := 0 }

/-- Walk.  A step is formed in 128 bits, and then its remainder is taken. -/
def rho (n : UInt64) : (budget : Nat) → Number.Walk → Draw (Option UInt64)
  | 0, _ => return none
  | budget + 1, w => do
    Draw.demand mark (w.point.toNat * w.point.toNat + w.constant.toNat < 2 ^ 128 ∧ n ≠ 0)
    let w := w.advance n
    let d := w.common n
    if d = n then rho n budget (← startWalk mark n)
    else if d ≠ 1 then return some d
    else rho n budget w.save

/-- The rounds.  The other factor is a quotient. -/
def factorizeRounds (pq : UInt64) : (n round : Nat) → Draw (UInt64 × UInt64)
  | 0, _ => return (1, pq)
  | n + 1, round => do
    match ← rho mark pq (Number.rhoBudget round) (← startWalk mark pq) with
    | some p =>
      Draw.demand mark (p ≠ 0)
      let q := pq / p
      return if p ≤ q then (p, q) else (q, p)
    | none => factorizeRounds pq n (round + 1)

/-- Two factors of a word. -/
def factorize (pq : UInt64) : Draw (UInt64 × UInt64) :=
  if pq < 4 then return (1, pq)
  else if pq % 2 = 0 then return (2, pq / 2)
  else factorizeRounds mark pq Number.rhoRounds 0

/-! ## 3. Testing for primes -/

/-- No witness among random bases.  The bases are below the number less one, and their powers are
taken modulo the number. -/
def noWitness (n : Nat) : (rounds : Nat) → Draw Bool
  | 0 => return true
  | rounds + 1 => do
    Draw.demand mark (1 ≤ n)
    let base ← naturalBetween mark 2 (n - 1)
    if Number.passes n base then noWitness n rounds else return false

/-- The test for primes. -/
def isProbablePrime (n rounds : Nat) : Draw Bool :=
  match Number.trialDivision Number.smallPrimes n with
  | some answer => return answer
  | none => if n < 2 then return false else noWitness mark n rounds

/-! ## 4. The key exchange -/

open KeyExchange

/-- A value strictly between one and the modulus less one. -/
def checkDhRange (value p : Nat) : Act KeyExchange Unit := do
  Act.demand mark (1 ≤ p)
  Act.ofExcept (KeyExchange.checkDhRange value p)

/-- A power modulo a number that must not be zero. -/
def powMod (base exponent modulus : Nat) : Act KeyExchange Nat := do
  Act.demand mark (modulus ≠ 0)
  return Number.powMod base exponent modulus

/-- Digest, body and filler.  There must be room for digest and body. -/
def rsaBlock (body filler : Bytes) : Act KeyExchange Bytes := do
  Act.demand mark ((sha1 body).bytes.length + body.length ≤ rsaDataLength)
  Act.ofExcept (DecodeError.lift (KeyExchange.rsaBlock body filler))

/-- Decrypt and split.  There must be enough for a digest. -/
def decryptWithHash (key iv data : Bytes) : Act KeyExchange (Bytes × Bytes) := do
  let (answer, hash) ← Act.ofExcept (Ige.decryptWithHash key iv data)
  Act.demand mark (hash.length = Ige.hashLength)
  return (answer, hash)

/-- The seconds from our clock to the server's, which must fit a signed word. -/
def timeOffset (now : Instant) (serverTime : Int32) : Act KeyExchange Int64 := do
  let seconds := serverTime.toInt - now.seconds
  Act.demand mark (-2 ^ 63 ≤ seconds ∧ seconds < 2 ^ 63)
  return Int64.ofInt seconds

/-- Factorize the challenge and ask for the parameters. -/
def onResPq (res : ResPq) : Act KeyExchange Bytes := do
  let kx ← Act.state
  if res.nonce ≠ kx.nonce then Act.fail .badNonce
  let key ← match kx.trustedKey res.fingerprints with
    | some key => pure key
    | none => Act.fail .fingerprintMismatch
  Act.update ({ · with serverNonce := res.serverNonce })
  let pq ← Act.ofExcept (DecodeError.lift (challenge res.pq))
  let (p, q) ← Act.draw (factorize mark pq)
  if p = 1 then Act.fail (.factorizationFailed pq)
  let newNonce ← Act.draw (Draw.octets 32)
  Act.update ({ · with newNonce })
  let p := Bytes.ofNat p.toNat
  let q := Bytes.ofNat q.toNat
  let inner : PqInnerData :=
    { pq := res.pq, p, q, nonce := kx.nonce, serverNonce := res.serverNonce, newNonce }
  let body ← Act.ofExcept (DecodeError.lift (Wire.boxedBytes inner))
  let filler ← Act.draw (Draw.bytes rsaDataLength)
  let block ← rsaBlock mark body filler
  let encryptedData ← Act.ofFault (key.encrypt block)
  let request : ReqDhParams :=
    { nonce := kx.nonce, serverNonce := res.serverNonce, p, q,
      publicKeyFingerprint := key.fingerprint, encryptedData }
  let bytes ← Act.ofExcept (DecodeError.lift (Wire.boxedBytes request))
  transition .reqDhParams
  return bytes

/-- Check the parameters, compute the key and send our half of the exchange. -/
def onDhParamsOk (now : Instant) (ok : ServerDhParamsOk) : Act KeyExchange Bytes := do
  let kx ← Act.state
  Act.ofExcept (kx.checkNonces ok.nonce ok.serverNonce)
  let cipher := exchangeCipherKey kx.serverNonce kx.newNonce
  let (answer, hash) ← decryptWithHash mark cipher.key.bytes cipher.iv.bytes ok.encryptedAnswer
  let inner ← Act.ofExcept (answerOf answer hash)
  Act.ofExcept (kx.checkNonces inner.nonce inner.serverNonce)
  let prime := Bytes.ofBE inner.dhPrime
  if !(← Act.draw (isProbablePrime mark prime 32)) then Act.fail .dhPrimeNotPrime
  if inner.g < 0 then Act.fail .badDhValue
  let g := inner.g.toInt.toNat
  let gA := Bytes.ofBE inner.gA
  checkDhRange mark g prime
  checkDhRange mark gA prime
  let exponent := Bytes.ofBE (← Act.draw (Draw.bytes exponentLength))
  let gB ← powMod mark g exponent prime
  checkDhRange mark gB prime
  let secret ← powMod mark gA exponent prime
  let key ← Act.ofExcept (keyOf secret)
  let sessionId ← Act.draw Draw.word64
  let timeOffset ← timeOffset mark now inner.serverTime
  let auth : Authorization :=
    { key, serverSalt := firstSalt kx.newNonce kx.serverNonce, sessionId, timeOffset }
  Act.update ({ · with pending := some auth })
  let reply : ClientDhInnerData :=
    { nonce := kx.nonce, serverNonce := kx.serverNonce, retryId := 0, gB := Bytes.ofNat gB }
  let body ← Act.ofExcept (DecodeError.lift (Wire.boxedBytes reply))
  let encryptedData ← Act.drawExcept
    (Ige.encryptWithHash cipher.key.bytes cipher.iv.bytes body)
  let request : SetClientDhParams :=
    { nonce := kx.nonce, serverNonce := kx.serverNonce, encryptedData }
  let bytes ← Act.ofExcept (DecodeError.lift (Wire.boxedBytes request))
  transition .setClientDhParams
  return bytes

/-- Handle an answer in the state that expects it. -/
def dispatch (now : Instant) (payload : Bytes) : Act KeyExchange (Option Bytes) := do
  let response ← Act.ofExcept (DecodeError.lift (Wire.ofBoxedBytes HandshakeResponse payload))
  match (← Act.state).state, response with
  | .reqPq, .resPq res => return some (← onResPq mark res)
  | .reqDhParams, .serverDhParamsOk ok => return some (← onDhParamsOk mark now ok)
  | .reqDhParams, .serverDhParamsFail v => refuse v.nonce v.serverNonce .dhParamsFail
  | .setClientDhParams, .dhGenOk ok =>
    onDhGenOk ok
    return none
  | .setClientDhParams, .dhGenRetry v => refuse v.nonce v.serverNonce .dhGenRetry
  | .setClientDhParams, .dhGenFail v => refuse v.nonce v.serverNonce .dhGenFail
  | _, _ => Act.fail .unexpectedCommand

/-- Handle an answer: the next request, if there is one. -/
def handle (now : Instant) (payload : Bytes) : Act KeyExchange (Option Bytes) := do
  let state := (← Act.state).state
  if state.isTerminal ∨ state = .init then Act.fail .unexpectedCommand
  tryCatch (dispatch mark now payload) fun halt => do
    if let .error e := halt then Act.update (·.abandon e)
    throw halt

/-! ## 5. Nothing is missing -/

variable {mark}

/-- A walk starts below its number, so this number must be more than one. -/
theorem startWalk_eq {n : UInt64} (h : 1 < n) : startWalk mark n = Number.Walk.start n := by
  have hpos : 0 < n := UInt64.lt_trans (by decide) h
  unfold startWalk wordBetween
  rw [Draw.demand_bind h]
  simp only [Draw.demand_bind hpos]
  rfl

/-- Every step of a walk has its modulus, so no remainder is taken by zero. -/
theorem rho_eq {n : UInt64} (h : 1 < n) (budget : Nat) (w : Number.Walk) :
    rho mark n budget w = Number.rho n budget w := by
  induction budget generalizing w with
  | zero => rfl
  | succ budget ih =>
    have hne : n ≠ 0 := by
      rintro rfl
      exact absurd h (by decide)
    -- both are words, and a square of a word leaves room for one more word in 128 bits
    have hsquare : w.point.toNat * w.point.toNat + w.constant.toNat < 2 ^ 128 := by
      have hpoint := w.point.toNat_lt
      have hconstant := w.constant.toNat_lt
      have := Nat.mul_le_mul (Nat.le_sub_one_of_lt hpoint) (Nat.le_sub_one_of_lt hpoint)
      omega
    rw [rho, Draw.demand_bind ⟨hsquare, hne⟩, Number.rho]
    simp only [startWalk_eq h, ih]

/-- A greatest common divisor can be divided by, unless both numbers are zero. -/
theorem gcd_ne_zero {a b : UInt64} (h : a ≠ 0 ∨ b ≠ 0) : Number.gcd a b ≠ 0 := by
  induction a, b using Number.gcd.induct with
  | case1 a =>
    rw [Number.gcd, dif_pos rfl]
    simpa using h
  | case2 a b hb ih =>
    rw [Number.gcd, dif_neg hb]
    exact ih (.inl hb)

/-- A factor that a walk has found is not zero. -/
theorem ne_zero_of_rho {n p : UInt64} (h : n ≠ 0) {budget : Nat} {w : Number.Walk} {e e' : Entropy}
    (hrun : Number.rho n budget w e = (.ok (some p), e')) : p ≠ 0 := by
  induction budget generalizing w e with
  | zero =>
    obtain ⟨hnone, -⟩ := ok_pair_eq_iff.mp hrun
    cases hnone
  | succ budget ih =>
    unfold Number.rho at hrun
    simp only at hrun
    split at hrun
    · obtain ⟨w', e₁, -, hrest⟩ := bind_eq_ok_iff.mp hrun
      exact ih hrest
    · split at hrun
      · obtain ⟨hsome, -⟩ := ok_pair_eq_iff.mp hrun
        obtain rfl := Option.some.inj hsome
        exact gcd_ne_zero (.inr h)
      · exact ih hrun

theorem factorizeRounds_eq {pq : UInt64} (h : 1 < pq) (n round : Nat) :
    factorizeRounds mark pq n round = Number.factorizeRounds pq n round := by
  have hne : pq ≠ 0 := by
    rintro rfl
    exact absurd h (by decide)
  induction n generalizing round with
  | zero => rfl
  | succ n ih =>
    funext e
    rw [factorizeRounds, Number.factorizeRounds, startWalk_eq h]
    refine bind_congr_of_ok fun w e₁ _ => ?_
    rw [rho_eq h]
    refine bind_congr_of_ok fun p? e₂ hrho => ?_
    cases p? with
    | none => simp only [ih]
    | some p => simp only [Draw.demand_bind (ne_zero_of_rho hne hrho)]

/-- Numbers that are too small are refused before anything is divided, so no check in a
factorization can fail. -/
theorem factorize_eq (pq : UInt64) : factorize mark pq = Number.factorize pq := by
  unfold factorize Number.factorize
  split
  · rfl
  · rename_i hlarge
    have hone : 1 < pq := UInt64.lt_of_lt_of_le (by decide) (UInt64.not_lt.mp hlarge)
    rw [factorizeRounds_eq hone]

theorem noWitness_eq {n : Nat} (h : 5 ≤ n) (rounds : Nat) :
    noWitness mark n rounds = Number.noWitness n rounds := by
  have hone : 1 ≤ n := by omega
  have hrange : 2 < n - 1 := by omega
  induction rounds with
  | zero => rfl
  | succ rounds ih =>
    rw [noWitness, Draw.demand_bind hone, naturalBetween, Draw.demand_bind hrange, ih,
      Number.noWitness]

/-- Small numbers are decided at once; for the others the range of the bases is not empty. -/
theorem isProbablePrime_eq (n rounds : Nat) :
    isProbablePrime mark n rounds = Number.isProbablePrime n rounds := by
  unfold isProbablePrime Number.isProbablePrime
  cases hopen : Number.trialDivision Number.smallPrimes n with
  | some answer => rfl
  | none =>
    by_cases htwo : n < 2
    · simp only [if_pos htwo]
    · simp only [if_neg htwo,
        noWitness_eq (Number.five_le_of_trialDivision hopen (Nat.not_lt.mp htwo))]

theorem checkDhRange_eq {value p : Nat} (h : 2 ≤ p) :
    checkDhRange mark value p = Act.ofExcept (KeyExchange.checkDhRange value p) :=
  Act.demand_bind (by omega) _

theorem powMod_eq {base exponent modulus : Nat} (h : 2 ≤ modulus) :
    powMod mark base exponent modulus = pure (Number.powMod base exponent modulus) :=
  Act.demand_bind (by omega) _

/-- What is encrypted for the server can be written, and leaves room in its block. -/
theorem exists_inner {pq p q : Bytes} (nonce serverNonce : Nonce) (newNonce : NewNonce)
    (hpq : pq.length ≤ 8) (hp : p.length ≤ 8) (hq : q.length ≤ 8) :
    ∃ body, Wire.boxedBytes (PqInnerData.mk pq p q nonce serverNonce newNonce) = .ok body ∧
      (sha1 body).bytes.length + body.length ≤ rsaDataLength := by
  have hfits : ∀ {bs : Bytes}, bs.length ≤ 8 → bs.length ≤ Wire.maxBlobLength := by
    intro bs hbs
    unfold Wire.maxBlobLength
    omega
  refine ⟨_, (PqInnerData.codes (v := ⟨pq, p, q, nonce, serverNonce, newNonce⟩) (hfits hpq)
    (hfits hp) (hfits hq)).boxedBytes, ?_⟩
  have hblob1 := Wire.length_blobBytes_le pq
  have hblob2 := Wire.length_blobBytes_le p
  have hblob3 := Wire.length_blobBytes_le q
  simp only [List.length_append, Octets.length_bytes, Bytes.length_le, rsaDataLength]
  omega

/-- A challenge that has been accepted has no more than eight bytes. -/
theorem length_challenge_le {pq : Bytes} {word : UInt64} (h : challenge pq = .ok word) :
    pq.length ≤ 8 := by
  unfold challenge at h
  split at h
  · cases h
  · rename_i hlength
    exact Nat.not_lt.mp fun hlong => hlength (.inr hlong)

theorem length_factor_le (p : UInt64) : (Bytes.ofNat p.toNat).length ≤ 8 :=
  Bytes.length_ofNat_le (by decide) (Nat.lt_of_lt_of_le p.toNat_lt (by decide))

/-- Where digest and body fit into the block, the filler has a length. -/
theorem rsaBlock_eq {body filler : Bytes}
    (h : (sha1 body).bytes.length + body.length ≤ rsaDataLength) :
    rsaBlock mark body filler =
      Act.ofExcept (DecodeError.lift (KeyExchange.rsaBlock body filler)) :=
  Act.demand_bind h _

theorem decryptWithHash_eq (key iv data : Bytes) :
    decryptWithHash mark key iv data = Act.ofExcept (Ige.decryptWithHash key iv data) := by
  unfold decryptWithHash
  cases h : Ige.decryptWithHash key iv data with
  | error e => rfl
  | ok parts =>
    obtain ⟨answer, hash⟩ := parts
    have hlength := (Ige.decryptWithHash_eq_ok_iff.mp h).1
    simp only [Act.ofExcept_ok_bind, Act.demand_bind hlength]
    rfl

/-- The difference of the two clocks fits a signed word if ours is in the calendar. -/
theorem timeOffset_eq {now : Instant} (h : now.InCalendar) (serverTime : Int32) :
    timeOffset mark now serverTime = pure (Int64.ofInt (serverTime.toInt - now.seconds)) := by
  refine Act.demand_bind ?_ _
  obtain ⟨hfirst, hlast, -⟩ := h
  have hlo := serverTime.le_toInt
  have hhi := serverTime.toInt_lt
  simp only [Instant.firstSecond, Instant.lastSecond] at hfirst hlast
  omega

/-- A challenge and its factors have eight bytes at most, so they fit into the block with room to
spare. -/
theorem onResPq_eq (res : ResPq) : onResPq mark res = KeyExchange.onResPq res := by
  funext s
  unfold onResPq KeyExchange.onResPq
  simp only [Act.fail_bind, pure_bind, factorize_eq]
  refine bind_congr_of_ok fun kx _ _ => ?_
  refine ite_congr_of_not fun _ => ?_
  cases kx.trustedKey res.fingerprints with
  | none => rfl
  | some key =>
    refine bind_congr_of_ok fun _ _ _ => bind_congr_of_ok fun pq _ hpq => ?_
    refine bind_congr_of_ok fun f _ _ => ite_congr_of_not fun _ => ?_
    refine bind_congr_of_ok fun newNonce _ _ => bind_congr_of_ok fun _ _ _ => ?_
    refine bind_congr_of_ok fun body _ hbody => bind_congr_of_ok fun filler _ _ => ?_
    -- the challenge was read as a word, and so are the factors: hence the room in the block
    have hchallenge := DecodeError.lift_eq_ok_iff.mp (Act.ofExcept_eq_ok_iff.mp hpq).1
    have hinner := DecodeError.lift_eq_ok_iff.mp (Act.ofExcept_eq_ok_iff.mp hbody).1
    obtain ⟨body', hbody', hroom⟩ := exists_inner kx.nonce res.serverNonce newNonce
      (length_challenge_le hchallenge) (length_factor_le f.1) (length_factor_le f.2)
    obtain rfl := Except.ok.inj (hbody'.symm.trans hinner)
    rw [rsaBlock_eq hroom]

/-- The prime has been tested before anything is computed modulo it. -/
theorem onDhParamsOk_eq {now : Instant} (h : now.InCalendar) (ok : ServerDhParamsOk) :
    onDhParamsOk mark now ok = KeyExchange.onDhParamsOk now ok := by
  funext s
  unfold onDhParamsOk KeyExchange.onDhParamsOk
  simp only [Act.fail_bind, decryptWithHash_eq, isProbablePrime_eq, timeOffset_eq h, pure_bind]
  refine bind_congr_of_ok fun kx _ _ => bind_congr_of_ok fun _ _ _ => ?_
  refine bind_congr_of_ok fun answer _ _ => bind_congr_of_ok fun inner _ _ => ?_
  refine bind_congr_of_ok fun _ _ _ => bind_congr_of_ok fun probable _ hprobable => ?_
  refine ite_congr_of_not fun hprime => ?_
  -- of a modulus that has passed the test no more is asked than that it is at least two
  obtain rfl : probable = true := by simpa using hprime
  obtain ⟨e, hdraw⟩ := Act.exists_of_draw hprobable
  have htwo := Number.two_le_of_isProbablePrime hdraw
  simp only [checkDhRange_eq htwo, powMod_eq htwo, pure_bind]

theorem dispatch_eq {now : Instant} (h : now.InCalendar) (payload : Bytes) :
    dispatch mark now payload = KeyExchange.dispatch now payload := by
  unfold dispatch
  simp only [onResPq_eq, onDhParamsOk_eq h]
  rfl

/-- **Nothing is missing**: with a look before each operation that needs it, an answer is handled as
without. -/
theorem handle_eq {now : Instant} (h : now.InCalendar) (payload : Bytes) :
    handle mark now payload = KeyExchange.handle now payload := by
  unfold handle
  rw [dispatch_eq h]
  rfl

end Checked

end Mtproto
